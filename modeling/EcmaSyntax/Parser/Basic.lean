import EcmaSyntax.Literal
import EcmaSyntax.Syntax
import EcmaSyntax.TokenStream

/-!
# Parsers

**State.**  A parser reads from a token stream one token ahead.  It remembers where the
last token it took ends, and how many rules of the grammar are open.  A parser that fails
leaves its state behind, so that a later run can go on from there.

**Rules.**  `Rule` names the rules of the grammar at which nesting is counted.  Everything
else in the grammar is a function of `Inner`, the rules one level deeper.

**Repetition.**  Each repetition takes at least one token a turn.  It is given a number of
turns that no run can use up, because it exceeds the number of tokens left.
-/

namespace EcmaSyntax

/-- What a parser remembers. -/
structure ParserState where
  stream : TokenStream
  /-- The token not yet taken. -/
  current : Token
  /-- The offset just past the last token taken that stands in the source. -/
  lastEnd : Nat
  /-- The number of open rules. -/
  depth : Nat
deriving DecidableEq, Repr

/-- A parser before the beginning of a text. -/
def ParserState.ofText (source : Text) : ParserState :=
  ⟨TokenStream.ofText source, Token.beforeStart, 0, 0⟩

/-- Parsers of a piece of syntax. -/
abbrev Parser := EStateM Failure ParserState

/-- The forms of an expression at a place in the grammar. -/
inductive Grammar where
  /-- Any expression. -/
  | normal
  /-- An expression in which `in` is no operator. -/
  | noIn
  /-- An expression that starts with neither a brace nor `function`. -/
  | noBrace
deriving DecidableEq, Repr

/-- The form of an operand that does not stand first. -/
def Grammar.operand : Grammar → Grammar
  | .noIn => .noIn
  | .normal => .normal
  | .noBrace => .normal

/-- The rules at which nesting is counted. -/
inductive Rule where
  | statement
  | declaration
  | assignment (g : Grammar)
  | operand (g : Grammar)
  | construction
deriving DecidableEq, Repr

/-- What a rule yields. -/
abbrev Rule.Tree : Rule → Type
  | .statement => Statement
  | .declaration => Statement
  | .assignment _ => Expression
  | .operand _ => Expression
  | .construction => Expression

/-- The rules one level deeper. -/
abbrev Inner := (r : Rule) → Parser r.Tree

namespace Parser

variable {α : Type}

/-! ## Tokens -/

/-- A step of the token stream as a parser. -/
def step (action : Stream α) : Parser α := fun s =>
  match action s.stream with
  | .ok a stream => .ok a { s with stream }
  | .error f stream => .error f { s with stream }

/-- Fails at the token at hand. -/
def unexpected : Parser α := do
  throw (.ofToken (← get).current)

/-- The token at hand. -/
def current : Parser Token := return (← get).current

/-- The kind of the token at hand. -/
def kind : Parser TokenKind := return (← get).current.kind

/-- Whether the token at hand is of a kind. -/
def isAt (expected : TokenKind) : Parser Bool := return (← kind) = expected

/-- Takes the token at hand. -/
def take : Parser Token := do
  let t ← current
  if t.kind ≠ .insertedSemicolon then
    modify fun s => { s with lastEnd := t.stop }
  let following ← step TokenStream.next
  modify fun s => { s with current := following }
  return t

/-- Takes the token at hand if it is of a kind, and tells whether it did. -/
def eat (expected : TokenKind) : Parser Bool := do
  if ← isAt expected then
    let _ ← take
    return true
  else
    return false

/-- Takes a token of a kind, or fails. -/
def expect (expected : TokenKind) : Parser Token := do
  if ← isAt expected then take else unexpected

/-- Takes the semicolon that ends a statement, inserted if the rules admit it. -/
def endStatement : Parser Unit := do
  let t ← current
  if t.kind = .semicolon then
    step (TokenStream.note (.ended t))
    let _ ← take
  else if t.kind = .insertedSemicolon then
    let _ ← take
  else
    match ← step (TokenStream.insertSemicolon t) with
    | some semicolon =>
        modify fun s => { s with current := semicolon }
        let _ ← take
    | none => unexpected

/-- Takes the comments between the last token taken and the token at hand; earlier ones are
dropped. -/
def pendingComments : Parser (List Statement) := do
  let comments ← step TokenStream.takeComments
  let s ← get
  let between := comments.filter fun c =>
    s.lastEnd ≤ c.offset && c.offset < s.current.place.offset
  return between.map fun c => .comment c.toComment

/-! ## Nesting -/

/-- Fails because as many rules are open as may be. -/
def tooDeep : Parser α := do
  let s ← get
  throw ⟨.tooDeep s.depth, s.current.place⟩

/-- Runs a parser inside one more open rule. -/
def deepen (body : Parser α) : Parser α := fun s =>
  match body { s with depth := s.depth + 1 } with
  | .ok a s => .ok a { s with depth := s.depth - 1 }
  | .error f s => .error f { s with depth := s.depth - 1 }

/-! ## Repetition -/

/-- Applies a step to a result until it adds nothing. -/
def iterate (extend : α → Parser (Option α)) : Nat → α → Parser α
  | 0, _ => unexpected
  | turns + 1, a => do
      match ← extend a with
      | some b => iterate extend turns b
      | none => return a

/-- Items up to the end of a list. -/
def itemsUntil (atEnd : Parser Bool) (item : Parser α) : Nat → Parser (List α)
  | 0 => unexpected
  | turns + 1 => do
      if ← atEnd then
        return []
      else
        let a ← item
        let rest ← itemsUntil atEnd item turns
        return a :: rest

/-- Items with commas between them, up to a closing token, which is taken. -/
def commaList (close : TokenKind) (item : Parser α) (turns : Nat) : Parser (List α) := do
  if ← eat close then
    return []
  else
    let first ← item
    let rest ← itemsUntil (eat close) (do let _ ← expect .comma; item) turns
    return first :: rest

/-! ## Names -/

/-- The name of a variable, a parameter, a function or a label. -/
def bindingName : Parser Text := return (← expect .identifier).text

/-- The name of a property after a point. -/
def propertyName : Parser Text := do
  if (← kind).isIdentifierName then
    return (← take).text
  else
    unexpected

end Parser

end EcmaSyntax
