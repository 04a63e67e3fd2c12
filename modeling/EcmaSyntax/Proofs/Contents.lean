import EcmaSyntax.Literal
import EcmaSyntax.Proofs.Trivia
import EcmaSyntax.Syntax
import EcmaSyntax.TokenStream

/-!
# What a program is made of

**Contents.**  A content is what a single token contributes to a tree: its spelling, or its
value if the token is a literal.  Parentheses, brackets, braces, commas, semicolons, colons,
points and question marks contribute nothing.

**Two readings.**  `consumed` are the tokens that a run has taken, in order, with each slash
that was read again replaced by its regular expression; `contents` are their contents.  The
functions `flat` give the contents of a tree from left to right, as its syntax has them.
-/

namespace EcmaSyntax

/-- What a token contributes to a tree. -/
inductive Content where
  | text (t : Text)
  | number (value : Binary64)
  | string (value : Text)
  | regex (pattern flags : Text)
deriving DecidableEq, Repr

/-! ## The contents of tokens -/

/-- Kinds of tokens that group and separate. -/
def isStructural : TokenKind → Bool
  | .openParen | .closeParen | .openBracket | .closeBracket | .openBrace | .closeBrace
  | .comma | .semicolon | .colon | .dot | .question | .insertedSemicolon | .endOfInput => true
  | _ => false

/-- The content of a token of a kind: the value of a literal, or else the text. -/
def contentOf : TokenKind → Text → Content
  | .number, t =>
      match numberValue? t with
      | some value => .number value
      | none => .text t
  | .string, t => .string (stringValue t)
  | .regex, t => .regex (regexParts t).1 (regexParts t).2
  | _, t => .text t

/-- What a token contributes. -/
def contents (k : TokenKind) (t : Text) : List Content :=
  if isStructural k then [] else [contentOf k t]

/-- Adds the token of an event to those before it. -/
def consume (tokens : List Token) : Event → List Token
  | .scanned t => tokens ++ [t]
  | .rescanned _ literal => tokens.dropLast ++ [literal]
  | _ => tokens

/-- The tokens that were taken in a run, the end of the input among them. -/
def consumed (events : List Event) : List Token := events.foldl consume []

/-- A text consists of some texts with a gap before each of them. -/
def ConsistsOf : Text → List Text → Prop
  | text, [] => text = []
  | text, t :: ts => ∃ (g : Gap) (rest : Text), text = g.text ++ (t ++ rest) ∧
      g.Fits (t ++ rest) ∧ ConsistsOf rest ts

/-- The contents of some tokens. -/
def contentsOf (tokens : List Token) : List Content :=
  tokens.flatMap fun t => contents t.kind t.text

/-! ## The contents of trees -/

/-- The spelling of an operator between two operands. -/
def InfixOperator.text : InfixOperator → Text
  | .binary op => op.text
  | .logical op => op.text

/-- The spelling of a kind, as a content. -/
def spelled (k : TokenKind) : Content := .text k.display

/-- The content of the name of a property. -/
def PropertyKey.content : PropertyKey → Content
  | .identifier name => .text name
  | .string value => .string value
  | .number value => .number value

mutual

/-- The contents of an expression. -/
def Expression.flat : Expression → List Content
  | .this => [spelled .kwThis]
  | .identifier name => [.text name]
  | .null => [spelled .kwNull]
  | .boolean value => [if value then spelled .kwTrue else spelled .kwFalse]
  | .number value => [.number value]
  | .string value => [.string value]
  | .regex pattern flags => [.regex pattern flags]
  | .array elements => elementsFlat elements
  | .object properties => propertiesFlat properties
  | .function f => f.flat
  | .unary op operand isPostfix =>
      if isPostfix then operand.flat ++ [.text op.text] else .text op.text :: operand.flat
  | .binary left op right => left.flat ++ .text op.text :: right.flat
  | .logical left op right => left.flat ++ .text op.text :: right.flat
  | .assign target op value => target.flat ++ .text op.text :: value.flat
  | .conditional test consequent alternate => test.flat ++ consequent.flat ++ alternate.flat
  | .dot base property => base.flat ++ [.text property]
  | .bracket base index => base.flat ++ index.flat
  | .call callee args => callee.flat ++ expressionsFlat args
  | .construct callee args => spelled .kwNew :: (callee.flat ++ expressionsFlat args)
  | .sequence operands => expressionsFlat operands

/-- The contents of a statement. -/
def Statement.flat : Statement → List Content
  | .block body => statementsFlat body
  | .declare ds => spelled .kwVar :: declaratorsFlat ds
  | .empty => []
  | .expression e => e.flat
  | .ifElse test consequent alternate =>
      spelled .kwIf :: (test.flat ++ consequent.flat ++ alternateFlat alternate)
  | .doWhile body test => spelled .kwDo :: (body.flat ++ spelled .kwWhile :: test.flat)
  | .whileDo test body => spelled .kwWhile :: (test.flat ++ body.flat)
  | .forLoop init test update body =>
      spelled .kwFor :: (initFlat init ++ optionFlat test ++ optionFlat update ++ body.flat)
  | .forIn target object body =>
      spelled .kwFor :: (target.flat ++ spelled .kwIn :: (object.flat ++ body.flat))
  | .continueTo label => spelled .kwContinue :: label.toList.map .text
  | .breakTo label => spelled .kwBreak :: label.toList.map .text
  | .returnWith value => spelled .kwReturn :: optionFlat value
  | .withObject object body => spelled .kwWith :: (object.flat ++ body.flat)
  | .switch discriminant clauses => spelled .kwSwitch :: (discriminant.flat ++ clausesFlat clauses)
  | .labelled label body => .text label :: body.flat
  | .throwWith value => spelled .kwThrow :: value.flat
  | .tryCatch guarded handler finalizer =>
      spelled .kwTry :: (guarded.flat ++ handlerFlat handler ++ finalizerFlat finalizer)
  | .debugger => [spelled .kwDebugger]
  | .function f => f.flat
  | .comment _ => []

/-- The contents of a property. -/
def Property.flat : Property → List Content
  | .init key value => key.content :: value.flat
  | .getter key body => .text "get".toList :: key.content :: statementsFlat body
  | .setter key param body =>
      .text "set".toList :: key.content :: .text param :: statementsFlat body

/-- The contents of a loop's initial part. -/
def ForInit.flat : ForInit → List Content
  | .declared ds => spelled .kwVar :: declaratorsFlat ds
  | .expression e => e.flat

/-- The contents of an enumerating loop's target. -/
def ForTarget.flat : ForTarget → List Content
  | .declared d => spelled .kwVar :: d.flat
  | .expression e => e.flat

/-- The contents of a declarator. -/
def Declarator.flat : Declarator → List Content
  | ⟨name, none⟩ => [.text name]
  | ⟨name, some value⟩ => .text name :: spelled .equals :: value.flat

/-- The contents of a clause. -/
def SwitchClause.flat : SwitchClause → List Content
  | ⟨none, body⟩ => spelled .kwDefault :: statementsFlat body
  | ⟨some test, body⟩ => spelled .kwCase :: (test.flat ++ statementsFlat body)

/-- The contents of a handler. -/
def CatchClause.flat : CatchClause → List Content
  | ⟨param, body⟩ => spelled .kwCatch :: .text param :: statementsFlat body

/-- The contents of a function. -/
def Function.flat : Function → List Content
  | ⟨name, params, body⟩ =>
      spelled .kwFunction :: (name.toList.map .text ++ params.map .text ++ statementsFlat body)

/-- The contents of a list of statements. -/
def statementsFlat : List Statement → List Content
  | [] => []
  | s :: body => s.flat ++ statementsFlat body

/-- The contents of a list of expressions. -/
def expressionsFlat : List Expression → List Content
  | [] => []
  | e :: es => e.flat ++ expressionsFlat es

/-- The contents of the elements of an array; a hole has none. -/
def elementsFlat : List (Option Expression) → List Content
  | [] => []
  | none :: es => elementsFlat es
  | some e :: es => e.flat ++ elementsFlat es

/-- The contents of a list of properties. -/
def propertiesFlat : List Property → List Content
  | [] => []
  | p :: ps => p.flat ++ propertiesFlat ps

/-- The contents of a list of declarators. -/
def declaratorsFlat : List Declarator → List Content
  | [] => []
  | d :: ds => d.flat ++ declaratorsFlat ds

/-- The contents of a list of clauses. -/
def clausesFlat : List SwitchClause → List Content
  | [] => []
  | c :: cs => c.flat ++ clausesFlat cs

/-- The contents of an optional expression. -/
def optionFlat : Option Expression → List Content
  | none => []
  | some e => e.flat

/-- The contents of an optional alternative. -/
def alternateFlat : Option Statement → List Content
  | none => []
  | some s => spelled .kwElse :: s.flat

/-- The contents of an optional final block. -/
def finalizerFlat : Option Statement → List Content
  | none => []
  | some s => spelled .kwFinally :: s.flat

/-- The contents of an optional initial part. -/
def initFlat : Option ForInit → List Content
  | none => []
  | some i => i.flat

/-- The contents of an optional handler. -/
def handlerFlat : Option CatchClause → List Content
  | none => []
  | some c => c.flat

end

/-- The contents of a program. -/
def Program.flat (p : Program) : List Content := statementsFlat p.body

end EcmaSyntax
