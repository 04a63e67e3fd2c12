import EcmaSyntax.Proofs.WellFormed

/-!
# Printable programs

**Nodes.**  `Node.Printable` is what a printer asks of a node that is well formed.  A program is
printable if it is well formed and each of its nodes is printable.

**Conditions.**  Regular expressions have patterns that the lexical grammar admits, and each number
has a numeral that reads back as this number.  No `else` is in reach of a statement that could take
it as its own.  There are no comments.
-/

namespace EcmaSyntax

/-! ## Words -/

/-- The rest of the pattern of a regular expression, within brackets or not. -/
inductive PatternRest : (inClass : Bool) → Text → Prop
  | stop : PatternRest false []
  | escape {inClass : Bool} {c : Char} {t : Text} :
      isLineTerminator c = false → PatternRest inClass t → PatternRest inClass ('\\' :: c :: t)
  | openClass {t : Text} : PatternRest true t → PatternRest false ('[' :: t)
  | closeClass {t : Text} : PatternRest false t → PatternRest true (']' :: t)
  | outside {c : Char} {t : Text} :
      isLineTerminator c = false → c ≠ '\\' → c ≠ '[' → c ≠ '/' → PatternRest false t →
      PatternRest false (c :: t)
  | inside {c : Char} {t : Text} :
      isLineTerminator c = false → c ≠ '\\' → c ≠ ']' → PatternRest true t →
      PatternRest true (c :: t)

/-- The pattern of a regular expression.  A star at its head would open a comment. -/
structure IsPattern (t : Text) : Prop where
  rest : PatternRest false t
  no_star : t.head? ≠ some '*'

/-- A text is one number for the scanner, and it has a value. -/
structure IsNumeralOf (value : Binary64) (t : Text) : Prop where
  lexeme : lexeme? t = some (.token .number t)
  reads : numberValue? t = some value

/-! ## Statements in reach of an alternative -/

/-- Whether a statement ends in one that could take an alternative behind it. -/
def Statement.endsOpen : Statement → Bool
  | .ifElse _ _ none => true
  | .ifElse _ _ (some alternate) => alternate.endsOpen
  | .whileDo _ body => body.endsOpen
  | .forLoop _ _ _ body => body.endsOpen
  | .forIn _ _ body => body.endsOpen
  | .withObject _ body => body.endsOpen
  | .labelled _ body => body.endsOpen
  | _ => false

/-! ## Nodes -/

section

variable (numeral : Binary64 → Text)

/-- The condition on the name of a property. -/
def PropertyKey.Printable : PropertyKey → Prop
  | .number value => IsNumeralOf value (numeral value)
  | _ => True

/-- The condition on an expression. -/
def Expression.Printable : Expression → Prop
  | .number value => IsNumeralOf value (numeral value)
  | .regex pattern _ => IsPattern pattern
  | _ => True

/-- The condition on a statement. -/
def Statement.Printable : Statement → Prop
  | .ifElse _ consequent alternate => alternate.isSome → consequent.endsOpen = false
  | .comment _ => False
  | _ => True

/-- The condition on a node. -/
def Node.Printable : Node → Prop
  | .statement s => s.Printable
  | .expression e => e.Printable numeral
  | .property p => p.key.Printable numeral
  | _ => True

end

/-- A program is well formed, and a printer can write each of its nodes. -/
structure Program.Printable (numeral : Binary64 → Text) (program : Program) : Prop where
  wellFormed : program.WellFormed
  nodes : (Node.program program).Everywhere (Node.Printable numeral)

end EcmaSyntax
