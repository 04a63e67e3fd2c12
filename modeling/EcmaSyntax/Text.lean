/-!
# Source text

**Text.**  A text is the list of its characters.  Its byte measure is the size
of its UTF-8 form: offsets into a text count bytes, columns count characters.

**Classes.**  The character classes of the lexical grammar: line terminators,
blanks, identifier characters and digits.  Identifiers and digits are ASCII;
blanks and line terminators are not.

**Lines.**  `linesBy` cuts a text at the characters that end a line; a carriage
return directly before a line feed belongs to the line feed.
-/

namespace EcmaSyntax

/-- A text is the list of its characters. -/
abbrev Text := List Char

namespace Text

/-- Number of bytes of the UTF-8 form. -/
def size : Text → Nat
  | [] => 0
  | c :: t => c.utf8Size + size t

/-- The characters that lie wholly within the first `n` bytes. -/
def takeBytes : Nat → Text → Text
  | _, [] => []
  | n, c :: t => if c.utf8Size ≤ n then c :: takeBytes (n - c.utf8Size) t else []

/-- What follows the characters that lie wholly within the first `n` bytes. -/
def dropBytes : Nat → Text → Text
  | _, [] => []
  | n, c :: t => if c.utf8Size ≤ n then dropBytes (n - c.utf8Size) t else c :: t

@[simp] theorem size_nil : size [] = 0 := rfl

@[simp] theorem size_cons (c : Char) (t : Text) : size (c :: t) = c.utf8Size + size t := rfl

@[simp] theorem size_append (s t : Text) : size (s ++ t) = size s + size t := by
  induction s with
  | nil => simp
  | cons c s ih => simp [ih, Nat.add_assoc]

/-- Each character takes up a byte or more. -/
theorem length_le_size (t : Text) : t.length ≤ t.size := by
  induction t with
  | nil => exact Nat.le_refl 0
  | cons c t ih =>
      have := c.utf8Size_pos
      rw [List.length_cons, size_cons]
      omega

@[simp] theorem takeBytes_zero (t : Text) : takeBytes 0 t = [] := by
  cases t <;> simp [takeBytes, Nat.not_le.mpr (Char.utf8Size_pos _)]

@[simp] theorem dropBytes_zero (t : Text) : dropBytes 0 t = t := by
  cases t <;> simp [dropBytes, Nat.not_le.mpr (Char.utf8Size_pos _)]

/-- Cutting at the end of a prefix gives the prefix back. -/
theorem takeBytes_size_append (s t : Text) (n : Nat) :
    takeBytes (size s + n) (s ++ t) = s ++ takeBytes n t := by
  induction s with
  | nil => simp
  | cons c s ih =>
      have h : c.utf8Size + size s + n - c.utf8Size = size s + n := by omega
      simp [takeBytes, Nat.add_assoc, ih]

theorem takeBytes_size (s t : Text) : takeBytes (size s) (s ++ t) = s := by
  have h := takeBytes_size_append s t 0
  rwa [Nat.add_zero, takeBytes_zero, List.append_nil] at h

/-- Dropping a prefix leaves what follows it. -/
theorem dropBytes_size_append (s t : Text) (n : Nat) :
    dropBytes (size s + n) (s ++ t) = dropBytes n t := by
  induction s with
  | nil => simp
  | cons c s ih =>
      have h : c.utf8Size + size s + n - c.utf8Size = size s + n := by omega
      simp [dropBytes, Nat.add_assoc, ih]

theorem dropBytes_size (s t : Text) : dropBytes (size s) (s ++ t) = t := by
  have h := dropBytes_size_append s t 0
  rwa [Nat.add_zero, dropBytes_zero] at h

end Text

/-! ## Character classes -/

/-- The four characters that end a line of a program. -/
def isLineTerminator (c : Char) : Bool :=
  c = '\n' || c = '\r' || c = '\u2028' || c = '\u2029'

/-- White space other than a line terminator. -/
def isBlank (c : Char) : Bool :=
  c = ' ' || c = '\t' || c = '\x0b' || c = '\x0c' || c = '\u00a0' || c = '\ufeff'
    || c = '\u1680' || ('\u2000' ≤ c && c ≤ '\u200a') || c = '\u202f' || c = '\u205f'
    || c = '\u3000'

/-- Characters with the Unicode property White_Space. -/
def isWhiteSpace (c : Char) : Bool :=
  ('\t' ≤ c && c ≤ '\r') || c = ' ' || c = '\u0085' || c = '\u00a0' || c = '\u1680'
    || ('\u2000' ≤ c && c ≤ '\u200a') || c = '\u2028' || c = '\u2029' || c = '\u202f'
    || c = '\u205f' || c = '\u3000'

/-- Characters an identifier may start with. -/
def isIdentifierStart (c : Char) : Bool :=
  c.isAlpha || c = '_' || c = '$'

/-- Characters an identifier may go on with. -/
def isIdentifierPart (c : Char) : Bool :=
  c.isAlphanum || c = '_' || c = '$'

/-- Whether the code point of a character lies in one of some ranges, whose ends belong to
them. -/
def inRanges (ranges : List (Nat × Nat)) (c : Char) : Bool :=
  ranges.any fun r => r.1 ≤ c.toNat && c.toNat ≤ r.2

/-- Value of a digit in a base of at most sixteen. -/
def digitValue? (base : Nat) (c : Char) : Option Nat :=
  let value :=
    if '0' ≤ c ∧ c ≤ '9' then some (c.toNat - '0'.toNat)
    else if 'a' ≤ c ∧ c ≤ 'f' then some (c.toNat - 'a'.toNat + 10)
    else if 'A' ≤ c ∧ c ≤ 'F' then some (c.toNat - 'A'.toNat + 10)
    else none
  value.filter (· < base)

/-- Digits of a base of at most sixteen. -/
def isDigitOf (base : Nat) (c : Char) : Bool :=
  (digitValue? base c).isSome

/-- Decimal digits. -/
def isDecimalDigit : Char → Bool := isDigitOf 10

/-- Hexadecimal digits of either case. -/
def isHexDigit : Char → Bool := isDigitOf 16

/-- Value of a digit string, most significant digit first; other characters count as zero. -/
def digitsValue (base : Nat) (digits : Text) : Nat :=
  digits.foldl (fun value c => value * base + (digitValue? base c).getD 0) 0

/-- The greatest number that is read. -/
def greatestNatural : Nat := Nat.pow 2 64 - 1

/-- Reads a number: digits, with a plus sign or without. -/
def natural? (t : Text) : Option Nat :=
  let digits := if t.head? = some '+' then t.drop 1 else t
  if digits ≠ [] ∧ digits.all isDecimalDigit then
    (some (digitsValue 10 digits)).filter (· ≤ greatestNatural)
  else none

/-! ## Lines -/

namespace Text

/-- The lines of a text, without the characters that end them, except that a carriage
return before a line feed stays with its line. -/
def linesBy (endsLine : Char → Bool) : Text → List Text
  | [] => [[]]
  | c :: t =>
      if endsLine c && !(c = '\r' && t.head? = some '\n') then [] :: linesBy endsLine t
      else
        match linesBy endsLine t with
        | [] => [[c]]
        | line :: lines => (c :: line) :: lines

/-- A text has at least one line. -/
theorem linesBy_ne_nil (endsLine : Char → Bool) (t : Text) : linesBy endsLine t ≠ [] := by
  cases t with
  | nil => simp [linesBy]
  | cons c t =>
      unfold linesBy
      split
      · simp
      · split <;> simp

/-- The pieces of a text between the places of a separator. -/
def splitAt (separator : Char) (t : Text) : List Text := linesBy (· = separator) t

/-- A text without the white space at its beginning. -/
def trimStart (t : Text) : Text := t.dropWhile isWhiteSpace

/-- A text without the white space at its end. -/
def trimEnd (t : Text) : Text :=
  (t.reverse.dropWhile isWhiteSpace).reverse

/-- `n` copies of a character. -/
def fill (n : Nat) (c : Char) : Text := List.replicate n c

/-- Decimal digits of a number. -/
def ofNat (n : Nat) : Text := Nat.toDigits 10 n

end Text

end EcmaSyntax
