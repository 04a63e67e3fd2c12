import EcmaSyntax.Text

/-!
# Positions in a text

**Position.**  A line and a column, both counted from one in 32 bits; columns count
characters.  `Text.positionAt` finds the position of a byte offset by cutting
the text before it into lines: the line number is the number of those lines, the
column is one more than the length of the last of them.  Both are kept modulo
`2 ^ 32`.

**Place.**  A position together with its byte offset, moved along the text one
character at a time.  `Place.past` counts the lines it crosses, `Place.along`
stays on its line.

A carriage return directly before a line feed does not end a line of its own.
-/

namespace EcmaSyntax

/-- A number of 32 bits stands for a natural number. -/
instance coeUInt32Nat : Coe UInt32 Nat := ⟨UInt32.toNat⟩

/-- A line and a column, both counted from one.  A count that does not fit wraps around. -/
structure Position where
  line : UInt32
  column : UInt32
deriving DecidableEq, Repr

namespace Position

/-- The written form `line:column`. -/
def text (p : Position) : Text :=
  Text.ofNat p.line ++ ':' :: Text.ofNat p.column

end Position

/-- Position of a byte offset of a text; offsets past the end mean the end. -/
def Text.positionAt (t : Text) (offset : Nat) : Position :=
  let lines := linesBy isLineTerminator (t.takeBytes offset)
  ⟨.ofNat lines.length, .ofNat (lines.getLastD []).length + 1⟩

/-- A position together with its byte offset. -/
structure Place extends Position where
  offset : Nat
deriving DecidableEq, Repr

namespace Place

/-- The beginning of every text. -/
def start : Place := ⟨⟨1, 1⟩, 0⟩

/-- The place after one character, where `next` is the character after it. -/
def step (p : Place) (c : Char) (next : Option Char) : Place :=
  if isLineTerminator c && !(c = '\r' && next = some '\n') then
    ⟨⟨p.line + 1, 1⟩, p.offset + c.utf8Size⟩
  else
    ⟨⟨p.line, p.column + 1⟩, p.offset + c.utf8Size⟩

/-- The place after a text, with the lines counted that end in it. -/
def past (p : Place) : Text → Place
  | [] => p
  | c :: t => past (p.step c t.head?) t

/-- The place after a text, on the same line. -/
def along (p : Place) (t : Text) : Place :=
  ⟨⟨p.line, p.column + .ofNat t.length⟩, p.offset + t.size⟩

@[simp] theorem along_nil (p : Place) : p.along [] = p := by
  simp [along]

theorem along_append (p : Place) (s t : Text) : p.along (s ++ t) = (p.along s).along t := by
  simp [along, UInt32.add_assoc, Nat.add_assoc]

@[simp] theorem offset_step (p : Place) (c : Char) (next : Option Char) :
    (p.step c next).offset = p.offset + c.utf8Size := by
  unfold step
  split <;> rfl

@[simp] theorem offset_past (p : Place) (t : Text) : (p.past t).offset = p.offset + t.size := by
  induction t generalizing p with
  | nil => rfl
  | cons c t ih => simp [past, ih, Nat.add_assoc]

end Place

end EcmaSyntax
