import EcmaSyntax.Failure
import EcmaSyntax.Source
import EcmaSyntax.Text.Width

/-!
# Reports of failures

**Span.**  A report labels a span of characters: the offending text, or the last character
of the source where that text lies past the end.

**Layout.**  The report shows the line in which the span starts, draws a bar under the span
with a tick at its middle, and leads from the tick to the message.  All columns are those of
a terminal: a tab goes to the next multiple of four characters, other characters have the
width of `columnWidth`.  A character without columns takes no part in the drawing, so a span
with such a character at its middle has no tick.

Lines of a report end at more characters than lines of a program do, so its line number may
differ from the one in the message.  The label lies on one line.
-/

namespace EcmaSyntax
namespace Report

/-! ## The span -/

/-- Number of characters that lie wholly before a byte offset. -/
def charIndex (content : Text) (offset : Nat) : Nat := (content.takeBytes offset).length

/-- The first character of the span. -/
def spanStart (content : Text) (f : Failure) : Nat :=
  min (charIndex content f.place.offset) (content.length - 1)

/-- The character after the span. -/
def spanStop (content : Text) (f : Failure) : Nat :=
  let start := spanStart content f
  min (max (charIndex content (f.place.offset + f.size)) (start + 1))
    (max content.length (start + 1))

/-! ## The line -/

/-- Characters that end a line of a report. -/
def endsLine (c : Char) : Bool :=
  ('\n' ≤ c && c ≤ '\r') || c = '\u0085' || c = '\u2028' || c = '\u2029'

/-- The line with a character of some index: its number from `number` on, its text, and the
index of the character in it. -/
def locate (number index : Nat) : List Text → Nat × Text × Nat
  | [] => (number, [], index)
  | line :: lines =>
      if index ≤ line.length ∨ lines = [] then (number, line, index)
      else locate (number + 1) (index - (line.length + 1)) lines

/-- Columns of the character with some index in a line. -/
def width (chars : Text) (k : Nat) : Nat :=
  match chars[k]? with
  | none => 1
  | some '\t' => 4 - k % 4
  | some c => if isWhiteSpace c then 1 else columnWidth c

/-- The character with some index as a line shows it: white space as blanks. -/
def shown (line : Text) (k : Nat) (c : Char) : Text :=
  if isWhiteSpace c then Text.fill (width line k) ' ' else [c]

/-- A line as a report shows it. -/
def shownLine (line : Text) : Text :=
  (line.mapIdx (shown line)).flatten

/-! ## The drawing -/

/-- A piece of a bar with a tick at its first column; a piece without columns is empty. -/
def ticked (tick : Char) : (columns : Nat) → Text
  | 0 => []
  | columns + 1 => tick :: Text.fill columns '─'

/-- The bar under a span from `start` to `stop`, with the tick that the message hangs on. -/
def barRow (line : Text) (start stop middle : Nat) : Text :=
  (List.range (stop + 2)).flatMap fun k =>
    if k < start ∨ stop ≤ k then Text.fill (width line k) ' '
    else if k = middle then ticked '┬' (width line k)
    else Text.fill (width line k) '─'

/-- The row that leads from the tick to the message. -/
def leadRow (line : Text) (stop middle : Nat) : Text :=
  (List.range (stop + 2)).flatMap fun k =>
    if k < middle then Text.fill (width line k) ' '
    else if k = middle then ticked '╰' (width line k)
    else Text.fill (width line k) '─'

/-- The report of a failure in a source. -/
def render (s : Source) (f : Failure) : Text :=
  let start := spanStart s.content f
  let stop := spanStop s.content f
  let (number, whole, first) := locate 1 start (s.content.linesBy endsLine)
  let line := whole.trimEnd
  let last := first + (stop - start)
  let middle := first + (last - first) / 2
  let digits := Text.ofNat number
  let margin := Text.fill (digits.length + 2) ' '
  let lines : List Text :=
    ["Error: ".toList ++ f.category ++ " in ".toList ++ s.name,
      margin ++ "╭─[<unknown>:".toList ++ digits ++ ':' :: Text.ofNat (first + 1) ++ [']'],
      margin ++ ['│'],
      ' ' :: digits ++ " │ ".toList ++ shownLine line,
      margin ++ "│ ".toList ++ barRow line first last middle,
      margin ++ "│ ".toList ++ leadRow line last middle ++ ' ' :: f.message,
      Text.fill margin.length '─' ++ ['╯']]
  lines.flatMap (· ++ ['\n'])

end Report
end EcmaSyntax
