import EcmaSyntax.Parser.Expression

/-!
# Parsing statements

**Terminators.**  A statement that ends in a semicolon ends with `endStatement`, which
inserts one where the rules admit it.  The semicolons in the header of a loop are never
inserted.

**Loop headers.**  What follows `for (` is read without `in` as an operator, until it is
clear whether the loop enumerates.

Every function takes the rules one level deeper and the number of turns of a repetition.
-/

namespace EcmaSyntax
namespace Parser

section Statements

variable (inner : Inner) (turns : Nat)

/-! ## Simple statements -/

/-- A block. -/
def block : Parser Statement := return .block (← blockBody inner turns)

/-- A variable and its initial value. -/
def declarator (g : Grammar) : Parser Declarator := do
  let name ← bindingName
  if ← eat .equals then
    let value ← inner (.assignment g)
    return ⟨name, some value⟩
  else
    return ⟨name, none⟩

/-- Variables with commas between them. -/
def declarators (g : Grammar) : Parser (List Declarator) := do
  let first ← declarator inner g
  let rest ← itemsUntil (return !(← eat .comma)) (declarator inner g) turns
  return first :: rest

/-- A declaration of variables. -/
def varDeclaration : Parser Statement := do
  let _ ← expect .kwVar
  let ds ← declarators inner turns .normal
  endStatement
  return .declare ds

/-- A statement that is a semicolon. -/
def empty : Parser Statement := do
  let _ ← take
  return .empty

/-- An expression, or a label if the expression is a lone identifier before a colon. -/
def expressionOrLabelled : Parser Statement := do
  let first ← current
  let e ← expression inner turns .noBrace
  let s ← get
  let label? :=
    match e with
    | .identifier name =>
        if first.kind = .identifier ∧ s.lastEnd = first.stop ∧ s.current.kind = .colon then
          some name
        else none
    | _ => none
  match label? with
  | some label =>
      let _ ← take
      let body ← inner .statement
      return .labelled label body
  | none =>
      endStatement
      return .expression e

/-- The statement for a debugger to stop at. -/
def debugger : Parser Statement := do
  let _ ← take
  endStatement
  return .debugger

/-! ## Branches and loops -/

/-- A choice; an alternative belongs to the innermost one that has none yet. -/
def ifElse : Parser Statement := do
  let _ ← expect .kwIf
  let test ← parenthesized inner turns
  let consequent ← inner .statement
  if ← eat .kwElse then
    let alternate ← inner .statement
    return .ifElse test consequent (some alternate)
  else
    return .ifElse test consequent none

/-- A loop with its test at the end. -/
def doWhile : Parser Statement := do
  let _ ← expect .kwDo
  let body ← inner .statement
  let _ ← expect .kwWhile
  let test ← parenthesized inner turns
  endStatement
  return .doWhile body test

/-- A loop with its test at the beginning. -/
def whileDo : Parser Statement := do
  let _ ← expect .kwWhile
  let test ← parenthesized inner turns
  let body ← inner .statement
  return .whileDo test body

/-- An expression that may be left out before a token. -/
def expressionBefore (close : TokenKind) : Parser (Option Expression) := do
  if ← isAt close then return none else some <$> expression inner turns .normal

/-- A loop with three clauses, after the first one. -/
def forRest (init : Option ForInit) : Parser Statement := do
  let _ ← expect .semicolon
  let test ← expressionBefore inner turns .semicolon
  let _ ← expect .semicolon
  let update ← expressionBefore inner turns .closeParen
  let _ ← expect .closeParen
  let body ← inner .statement
  return .forLoop init test update body

/-- An enumerating loop, after its target. -/
def forInRest (target : ForTarget) : Parser Statement := do
  let object ← expression inner turns .normal
  let _ ← expect .closeParen
  let body ← inner .statement
  return .forIn target object body

/-- A loop whose header starts with declared variables. -/
def forVariables : Parser Statement := do
  let _ ← take
  let ds ← declarators inner turns .noIn
  match ds with
  | [d] =>
      if ← eat .kwIn then forInRest inner turns (.declared d)
      else forRest inner turns (some (.declared ds))
  | _ => forRest inner turns (some (.declared ds))

/-- A loop whose header starts with an expression that is no target. -/
def forPrefixed : Parser Statement := do
  let first ← inner (.assignment .noIn)
  let e ← sequenceRest inner turns first .noIn
  forRest inner turns (some (.expression e))

/-- A loop whose header starts with an expression that may be a target. -/
def forTarget : Parser Statement := do
  let left ← leftHandSide inner turns .noIn
  if ← eat .kwIn then
    forInRest inner turns (.expression left)
  else
    let first ← assignmentRest inner turns left .noIn
    let e ← sequenceRest inner turns first .noIn
    forRest inner turns (some (.expression e))

/-- A loop with a header of three clauses, or an enumerating loop. -/
def forLoop : Parser Statement := do
  let _ ← expect .kwFor
  let _ ← expect .openParen
  let k ← kind
  if k = .semicolon then forRest inner turns none
  else if k = .kwVar then forVariables inner turns
  else if k.isPrefixOperator then forPrefixed inner turns
  else forTarget inner turns

/-! ## Jumps -/

/-- A jump with an optional label on the same line. -/
def jump : Parser Statement := do
  let keyword ← take
  let label ← if ← isAt .identifier then some <$> bindingName else pure none
  endStatement
  return if keyword.kind = .kwContinue then .continueTo label else .breakTo label

/-- Whether nothing follows the keyword of a return. -/
def endsReturn : TokenKind → Bool
  | .semicolon | .insertedSemicolon | .closeBrace | .endOfInput => true
  | _ => false

/-- A return with an optional value. -/
def returnWith : Parser Statement := do
  let _ ← expect .kwReturn
  let value ←
    if endsReturn (← kind) then pure none else some <$> expression inner turns .normal
  endStatement
  return .returnWith value

/-- A statement that raises an exception. -/
def throwWith : Parser Statement := do
  let _ ← expect .kwThrow
  let value ← expression inner turns .normal
  endStatement
  return .throwWith value

/-! ## Compound statements -/

/-- A statement inside the scope of an object. -/
def withObject : Parser Statement := do
  let _ ← expect .kwWith
  let object ← parenthesized inner turns
  let body ← inner .statement
  return .withObject object body

/-- The test of a clause; the default clause has none and comes once. -/
def clauseTest (seenDefault : Bool) : Parser (Option Expression) := do
  let k ← kind
  if k = .kwCase then
    let _ ← take
    some <$> expression inner turns .normal
  else if k = .kwDefault ∧ !seenDefault then
    let _ ← take
    return none
  else unexpected

/-- The clauses of a switch, with the brace that closes it. -/
def clauses (seenDefault : Bool) : Nat → Parser (List SwitchClause)
  | 0 => unexpected
  | fuel + 1 => do
      if ← eat .closeBrace then
        return []
      else
        let test ← clauseTest inner turns seenDefault
        let _ ← expect .colon
        let body ← elements inner [.kwCase, .kwDefault, .closeBrace] turns
        let rest ← clauses (seenDefault || test.isNone) fuel
        return ⟨test, body⟩ :: rest

/-- A switch. -/
def switch : Parser Statement := do
  let _ ← expect .kwSwitch
  let discriminant ← parenthesized inner turns
  let _ ← expect .openBrace
  let cs ← clauses inner turns false turns
  return .switch discriminant cs

/-- The handler of an exception, if there is one. -/
def handler : Parser (Option CatchClause) := do
  if ← eat .kwCatch then
    let _ ← expect .openParen
    let param ← bindingName
    let _ ← expect .closeParen
    let body ← blockBody inner turns
    return some ⟨param, body⟩
  else
    return none

/-- A block with a handler, a final block or both. -/
def tryCatch : Parser Statement := do
  let _ ← expect .kwTry
  let guarded ← block inner turns
  let handler ← handler inner turns
  let finalizer ← if ← eat .kwFinally then some <$> block inner turns else pure none
  if handler.isNone ∧ finalizer.isNone then unexpected
  else return .tryCatch guarded handler finalizer

/-! ## All statements -/

/-- A statement. -/
def statement : Parser Statement := do
  match ← kind with
  | .openBrace => block inner turns
  | .kwVar => varDeclaration inner turns
  | .semicolon => empty
  | .kwIf => ifElse inner turns
  | .kwDo => doWhile inner turns
  | .kwWhile => whileDo inner turns
  | .kwFor => forLoop inner turns
  | .kwContinue => jump
  | .kwBreak => jump
  | .kwReturn => returnWith inner turns
  | .kwWith => withObject inner turns
  | .kwSwitch => switch inner turns
  | .kwThrow => throwWith inner turns
  | .kwTry => tryCatch inner turns
  | .kwDebugger => debugger
  | _ => expressionOrLabelled inner turns

/-- The declaration of a function. -/
def declaration : Parser Statement := return .function (← function inner turns true)

end Statements

end Parser
end EcmaSyntax
