import EcmaSyntax.Parser.Basic

/-!
# Parsing expressions

**Operators.**  Operators between operands are read by their power: an operator goes on as
long as it holds its left operand at least as strongly as the operator before asks for.

**Left-hand sides.**  A target of an assignment is a chain of accesses, calls and
constructions; only after one may an assignment operator follow.  An expression that starts
with a prefix operator is never a target.

**Slashes.**  A slash in the place of an operand is the opening of a regular expression.

Every function takes the rules one level deeper and the number of turns of a repetition.
-/

namespace EcmaSyntax
namespace Parser

section Expressions

variable (inner : Inner) (turns : Nat)

/-! ## Sequences and lists -/

/-- The operands after the first one of a sequence. -/
def sequenceRest (first : Expression) (g : Grammar) : Parser Expression := do
  if ← isAt .comma then
    let rest ← itemsUntil (return !(← eat .comma)) (inner (.assignment g.operand)) turns
    return .sequence (first :: rest)
  else
    return first

/-- An expression, or several with commas between them. -/
def expression (g : Grammar) : Parser Expression := do
  let first ← inner (.assignment g)
  sequenceRest inner turns first g

/-- An expression in parentheses. -/
def parenthesized : Parser Expression := do
  let _ ← expect .openParen
  let e ← expression inner turns .normal
  let _ ← expect .closeParen
  return e

/-- The arguments of a call. -/
def arguments : Parser (List Expression) := do
  let _ ← expect .openParen
  commaList .closeParen (inner (.assignment .normal)) turns

/-! ## Statement lists -/

/-- A function declaration or a statement. -/
def element : Parser Statement := do
  if ← isAt .kwFunction then inner .declaration else inner .statement

/-- The statements, declarations and comments up to one of some tokens, which is not taken. -/
def elements (stops : List TokenKind) : Nat → Parser (List Statement)
  | 0 => unexpected
  | turns + 1 => do
      let comments ← pendingComments
      if stops.contains (← kind) then
        return comments
      else
        let s ← element inner
        let rest ← elements stops turns
        return comments ++ s :: rest

/-- A list of statements in braces. -/
def blockBody : Parser (List Statement) := do
  let _ ← expect .openBrace
  let body ← elements inner [.closeBrace] turns
  let _ ← expect .closeBrace
  return body

/-- A function; a declaration needs a name. -/
def function (needsName : Bool) : Parser Function := do
  let _ ← expect .kwFunction
  let name ←
    if ← isAt .identifier then some <$> bindingName
    else if needsName then unexpected
    else pure none
  let _ ← expect .openParen
  let params ← commaList .closeParen bindingName turns
  let body ← blockBody inner turns
  return ⟨name, params, body⟩

/-! ## Primary expressions -/

/-- One element of an array literal with the comma after it; a comma alone is a hole. -/
def arrayElement : Parser (Option Expression) := do
  if ← eat .comma then
    return none
  else
    let e ← inner (.assignment .normal)
    if !(← isAt .closeBracket) then
      let _ ← expect .comma
    return some e

/-- An array literal. -/
def array : Parser Expression := do
  let _ ← expect .openBracket
  let es ← itemsUntil (isAt .closeBracket) (arrayElement inner) turns
  let _ ← expect .closeBracket
  return .array es

/-- The name of a property that a token stands for, if any. -/
def propertyKey? (kind : TokenKind) (text : Text) : Option PropertyKey :=
  if kind = .string then some (.string (stringValue text))
  else if kind = .number then (numberValue? text).map .number
  else if kind.isIdentifierName then some (.identifier text)
  else none

/-- The name of a property in an object literal. -/
def propertyKey : Parser PropertyKey := do
  let t ← current
  match propertyKey? t.kind t.text with
  | some key =>
      let _ ← take
      return key
  | none => unexpected

/-- An accessor after its first word. -/
def accessor (isGetter : Bool) : Parser Property := do
  let key ← propertyKey
  let _ ← expect .openParen
  if isGetter then
    let _ ← expect .closeParen
    let body ← blockBody inner turns
    return .getter key body
  else
    let param ← bindingName
    let _ ← expect .closeParen
    let body ← blockBody inner turns
    return .setter key param body

/-- A property after its name. -/
def propertyValue (key : PropertyKey) : Parser Property := do
  let _ ← expect .colon
  let value ← inner (.assignment .normal)
  return .init key value

/-- A property of an object literal. -/
def property : Parser Property := do
  let t ← current
  if t.kind = .identifier ∧ (t.text = "get".toList ∨ t.text = "set".toList) then
    let _ ← take
    if ← isAt .colon then propertyValue inner (.identifier t.text)
    else accessor inner turns (t.text = "get".toList)
  else
    let key ← propertyKey
    propertyValue inner key

/-- A property with the comma after it. -/
def objectMember : Parser Property := do
  let p ← property inner turns
  if !(← isAt .closeBrace) then
    let _ ← expect .comma
  return p

/-- An object literal. -/
def object : Parser Expression := do
  let _ ← expect .openBrace
  let ps ← itemsUntil (isAt .closeBrace) (objectMember inner turns) turns
  let _ ← expect .closeBrace
  return .object ps

/-- A number. -/
def number (t : Token) : Parser Expression := do
  match numberValue? t.text with
  | some value =>
      let _ ← take
      return .number value
  | none => throw ⟨.lexical .invalidNumber t.text, t.place⟩

/-- A regular expression. -/
def regex (slash : Token) : Parser Expression := do
  let t ← step (TokenStream.rescan slash)
  modify fun s => { s with current := t }
  let _ ← take
  let (pattern, flags) := regexParts t.text
  return .regex pattern flags

/-- Takes a token that is an expression by itself. -/
def leaf (e : Expression) : Parser Expression := do
  let _ ← take
  return e

/-- An expression without operators. -/
def primary (g : Grammar) : Parser Expression := do
  let t ← current
  match t.kind with
  | .kwThis => leaf .this
  | .identifier => leaf (.identifier t.text)
  | .kwNull => leaf .null
  | .kwTrue => leaf (.boolean true)
  | .kwFalse => leaf (.boolean false)
  | .number => number t
  | .string => leaf (.string (stringValue t.text))
  | .slash => regex t
  | .slashEquals => regex t
  | .openBracket => array inner turns
  | .openBrace => if g = .noBrace then unexpected else object inner turns
  | .kwFunction =>
      if g = .noBrace then unexpected else return .function (← function inner turns false)
  | .openParen => parenthesized inner turns
  | _ => unexpected

/-! ## Left-hand sides -/

/-- One access to a property, if there is one. -/
def memberStep (base : Expression) : Parser (Option Expression) := do
  match ← kind with
  | .dot =>
      let _ ← take
      let name ← propertyName
      return some (.dot base name)
  | .openBracket =>
      let _ ← take
      let index ← expression inner turns .normal
      let _ ← expect .closeBracket
      return some (.bracket base index)
  | _ => return none

/-- Any number of accesses to properties. -/
def memberTail (base : Expression) : Parser Expression :=
  iterate (memberStep inner turns) turns base

/-- One call with the accesses to its result, if there is one. -/
def callStep (callee : Expression) : Parser (Option Expression) := do
  if ← isAt .openParen then
    let args ← arguments inner turns
    let e ← memberTail inner turns (.call callee args)
    return some e
  else
    return none

/-- What a chain of accesses and calls starts with. -/
def chainHead (g : Grammar) : Parser Expression := do
  if ← isAt .kwNew then inner .construction else primary inner turns g

/-- A chain of accesses, calls and constructions. -/
def leftHandSide (g : Grammar) : Parser Expression := do
  let head ← chainHead inner turns g
  let base ← memberTail inner turns head
  iterate (callStep inner turns) turns base

/-- A construction, whose arguments may be left out. -/
def construction : Parser Expression := do
  let _ ← expect .kwNew
  let head ← chainHead inner turns .normal
  let callee ← memberTail inner turns head
  if ← isAt .openParen then
    let args ← arguments inner turns
    return .construct callee args
  else
    return .construct callee []

/-! ## Operators -/

/-- An increment after its operand. -/
def postfixed (operand : Expression) : Parser Expression := do
  match (← kind).postfixOperator? with
  | some op =>
      let _ ← take
      return .unary op operand true
  | none => return operand

/-- An operand with the unary operators around it. -/
def unary (g : Grammar) : Parser Expression := do
  match (← kind).prefixOperator? with
  | some op =>
      let _ ← take
      let operand ← inner (.operand g.operand)
      return .unary op operand false
  | none =>
      let e ← leftHandSide inner turns g
      postfixed e

/-- The operator of a token, if it holds its left operand with at least some power. -/
def infixOperator? (minPower : Nat) (g : Grammar) (k : TokenKind) : Option InfixOperator :=
  if k = .kwIn ∧ g = .noIn then none
  else k.infixOperator?.filter fun op => minPower ≤ op.power

/-- The operator at hand, if it holds its left operand with at least some power. -/
def infixOperator (minPower : Nat) (g : Grammar) : Parser (Option InfixOperator) :=
  return infixOperator? minPower g (← kind)

/-- The operators after an operand that hold it with at least some power, and their right
operands. -/
def binary : Nat → Expression → Nat → Grammar → Parser Expression
  | 0, _, _, _ => unexpected
  | fuel + 1, left, minPower, g => do
      match ← infixOperator minPower g with
      | some op =>
          let _ ← take
          let operand ← unary inner turns g.operand
          let right ← binary fuel operand op.rightPower g.operand
          binary fuel (op.apply left right) minPower g
      | none => return left

/-- The two branches after a test, if there are any. -/
def conditionalRest (test : Expression) (g : Grammar) : Parser Expression := do
  if ← eat .question then
    let consequent ← inner (.assignment .normal)
    let _ ← expect .colon
    let alternate ← inner (.assignment g.operand)
    return .conditional test consequent alternate
  else
    return test

/-- What follows the first operand of an expression that is no assignment. -/
def operatorsRest (operand : Expression) (g : Grammar) : Parser Expression := do
  let test ← binary inner turns turns operand 0 g
  conditionalRest inner test g

/-- What follows a left-hand side: an assignment to it, or operators. -/
def assignmentRest (left : Expression) (g : Grammar) : Parser Expression := do
  match (← kind).assignOperator? with
  | some op =>
      let _ ← take
      let value ← inner (.assignment g.operand)
      return .assign left op value
  | none =>
      let operand ← postfixed left
      operatorsRest inner turns operand g

/-- An expression without commas outside brackets. -/
def assignment (g : Grammar) : Parser Expression := do
  if (← kind).isPrefixOperator then
    let operand ← unary inner turns g
    operatorsRest inner turns operand g
  else
    let left ← leftHandSide inner turns g
    assignmentRest inner turns left g

end Expressions

end Parser
end EcmaSyntax
