import EcmaSyntax.Position

/-!
# Sources

**Sources.**  A source is a text with the name that messages use for it.  It is read from
the bytes of a file, which may be no text.  One byte order mark at the beginning of a file
is dropped.

**Paths.**  A path is walked step by step from a directory whose entries are known.  Nothing is
known of the directories above it but that they are there.  A step from a file leads
nowhere, not even to the file itself.
-/

namespace EcmaSyntax

/-- A text and its name. -/
structure Source where
  name : Text
  content : Text
deriving DecidableEq, Repr

namespace Source

/-- A text without a name of its own. -/
def anonymous (content : Text) : Source := ⟨"<input>".toList, content⟩

/-- The position of a byte offset. -/
def position (s : Source) (offset : Nat) : Position := s.content.positionAt offset

/-- A text without the byte order mark at its beginning. -/
def dropMark : Text → Text
  | '\ufeff' :: t => t
  | t => t

end Source

/-! ## Reading -/

/-- What a path stands for. -/
inductive Entry where
  | directory
  | file (bytes : ByteArray)

/-- Why a source cannot be read. -/
inductive ReadFault where
  | notFound
  | notDirectory
  | isDirectory
  | nameTooLong
  | notText
deriving DecidableEq, Repr

/-- What is wrong with a path or a file. -/
def ReadFault.message : ReadFault → Text
  | .notFound => "No such file or directory (os error 2)".toList
  | .notDirectory => "Not a directory (os error 20)".toList
  | .isDirectory => "Is a directory (os error 21)".toList
  | .nameTooLong => "File name too long (os error 36)".toList
  | .notText => "stream did not contain valid UTF-8".toList

/-- The text of a file. -/
def decode? (bytes : ByteArray) : Option Text :=
  (String.fromUTF8? bytes).map String.toList

/-- A source of some name from what the name stands for. -/
def Source.read (name : Text) (found : Except ReadFault Entry) : Except ReadFault Source := do
  match ← found with
  | .directory => throw .isDirectory
  | .file bytes =>
      match decode? bytes with
      | some content => return ⟨name, dropMark content⟩
      | none => throw .notText

/-! ## Paths -/

/-- The entries below a directory, by their paths from there. -/
abbrev Directory := List (Text × Entry)

namespace Directory

/-- Where a walk along a path is. -/
inductive Stage where
  /-- In a directory below the first one, or in the first one; the innermost name first. -/
  | below (names : List Text)
  /-- In a directory above the first one. -/
  | above
  /-- At a file. -/
  | file (bytes : ByteArray)

/-- The greatest number of bytes of one step. -/
def greatestStep : Nat := 255

/-- The greatest number of bytes of a path. -/
def greatestPath : Nat := 4095

/-- What the path through some directories stands for.  A directory need not be an entry if
there are entries below it. -/
def entry? (d : Directory) (names : List Text) : Option Entry :=
  let path := (names.reverse.intersperse ['/']).flatten
  (d.lookup path).or <|
    if d.any fun e => (path ++ ['/']).isPrefixOf e.1 then some .directory else none

/-- Goes from a directory to the entry with a name, through directories with known entries. -/
def enter (d : Directory) (names : List Text) : Except ReadFault Stage :=
  match d.entry? names with
  | some .directory => .ok (.below names)
  | some (.file bytes) => .ok (.file bytes)
  | none => .error .notFound

/-- One step of a walk. -/
def walkStep (d : Directory) (stage : Stage) (name : Text) : Except ReadFault Stage :=
  match stage with
  | .file _ => .error .notDirectory
  | .above =>
      if name = [] ∨ name = ['.'] ∨ name = ['.', '.'] then .ok .above
      else if greatestStep < name.size then .error .nameTooLong
      else .error .notFound
  | .below names =>
      if name = [] ∨ name = ['.'] then .ok (.below names)
      else if name = ['.', '.'] then .ok (if names = [] then .above else .below names.tail)
      else if greatestStep < name.size then .error .nameTooLong
      else d.enter (name :: names)

/-- What a path stands for; one that starts with a slash starts above. -/
def find (d : Directory) (path : Text) : Except ReadFault Entry := do
  if greatestPath < path.size then throw .nameTooLong
  let start := if path.head? = some '/' then Stage.above else .below []
  match ← (Text.splitAt '/' path).foldlM d.walkStep start with
  | .file bytes => return .file bytes
  | .below _ => return .directory
  | .above => return .directory

end Directory

end EcmaSyntax
