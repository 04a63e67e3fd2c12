import EcmaSyntax.Parser.Statement

/-!
# Parsing programs

**Levels.**  `Parser.rule` opens a rule of the grammar with some room for rules inside it.
With no room left the rule fails; the recursion of the grammar is the recursion on the
room.  The room and the number of open rules always add up to the limit.

**Runs.**  `Parser.program` parses from the token after the one at hand to the end of the
input.  On a new state that is the whole text.  After a failure a further run drops the
token at hand and goes on behind it; after a success it finds the end of the input and
yields the empty program.

**Main definition.**  `parse limit source`: the program in a text, or the first failure.
-/

namespace EcmaSyntax
namespace Parser

/-- The body of a rule, given the rules inside it. -/
def ruleBody (inner : Inner) (turns : Nat) : (r : Rule) → Parser r.Tree
  | .statement => statement inner turns
  | .declaration => declaration inner turns
  | .assignment g => assignment inner turns g
  | .operand g => unary inner turns g
  | .construction => construction inner turns

/-- A rule with room for a number of open rules, itself among them. -/
def rule (turns : Nat) : (room : Nat) → (r : Rule) → Parser r.Tree
  | 0, _ => tooDeep
  | room + 1, r => deepen (ruleBody (rule turns room) turns r)

/-- A number of turns that exceeds the number of tokens left, with one more token put back
and one turn to see the end. -/
def turnsFor (s : ParserState) : Nat := s.stream.scanner.rest.length + 3

/-- A program, from behind the token at hand to the end of the input. -/
def program (limit : Nat) : Parser Program := do
  let s ← get
  let turns := turnsFor s
  let _ ← take
  let body ← elements (rule turns (limit - s.depth)) [.endOfInput] turns
  step (TokenStream.note (.parsed body.length))
  return ⟨body⟩

end Parser

/-- The limit on open rules if none is given. -/
def defaultLimit : Nat := 256

/-- A run of the parser on a whole text, with the state it leaves. -/
def run (limit : Nat) (source : Text) : EStateM.Result Failure ParserState Program :=
  Parser.program limit (ParserState.ofText source)

/-- The answer of a run. -/
def outcome {α : Type} : EStateM.Result Failure ParserState α → Except Failure α
  | .ok a _ => .ok a
  | .error f _ => .error f

/-- The state that a run leaves. -/
def finalState {α : Type} : EStateM.Result Failure ParserState α → ParserState
  | .ok _ s => s
  | .error _ s => s

/-- What happened in a run, in order. -/
def history {α : Type} (r : EStateM.Result Failure ParserState α) : List Event :=
  (finalState r).stream.journal.reverse

/-- The program in a text, or the first failure. -/
def parse (limit : Nat) (source : Text) : Except Failure Program :=
  outcome (run limit source)

/-- The answers of a number of runs, each from the state that the one before left. -/
def runs (limit : Nat) : Nat → ParserState → List (Except Failure Program)
  | 0, _ => []
  | n + 1, s =>
      let result := Parser.program limit s
      outcome result :: runs limit n (finalState result)

end EcmaSyntax
