import EcmaSyntax.Binary64.Decimal

/-!
# Values of literals

**Strings.**  The text between the quotes is cut into pieces: a character stands for
itself or is named by an escape, a numeric escape is a UTF-16 code unit, and an escaped
line terminator is a piece that stands for nothing.  `StringPiece.assemble` joins a high
surrogate with a low one directly after it; a surrogate alone becomes U+FFFD.

**Numbers.**  A hexadecimal or octal numeral is read digit by digit, any other one as a
decimal.

**Regular expressions.**  The last slash of a literal separates its pattern from its
flags.
-/

namespace EcmaSyntax

/-! ## Strings -/

/-- A piece of a string literal. -/
inductive StringPiece where
  | char (c : Char)
  | unit (value : Nat)
  | nothing
deriving DecidableEq, Repr

/-- Number of hexadecimal digits that a numeric escape takes. -/
def escapeDigits? : Char → Option Nat
  | 'x' => some 2
  | 'u' => some 4
  | _ => none

/-- The character that an escape of one letter names, where `next` follows the letter. -/
def simpleEscape (letter : Char) (next : Option Char) : Char :=
  match letter with
  | 'n' => '\n'
  | 't' => '\t'
  | 'r' => '\r'
  | 'b' => '\x08'
  | 'f' => '\x0c'
  | 'v' => '\x0b'
  | '0' => if next.any isDecimalDigit then '0' else '\x00'
  | c => c

/-- The pieces of the text between the quotes.  An escape that lacks a digit stands for its
letter and takes the character in place of the digit with it. -/
def pieces : Text → List StringPiece
  | [] => []
  | '\\' :: [] => []
  | '\\' :: letter :: t =>
      match escapeDigits? letter with
      | some count =>
          let digits := (t.take count).takeWhile isHexDigit
          if digits.length = count then
            .unit (digitsValue 16 digits) :: pieces (t.drop count)
          else .char letter :: pieces (t.drop (digits.length + 1))
      | none =>
          if letter = '\r' then .nothing :: pieces (t.drop (if t.head? = some '\n' then 1 else 0))
          else if isLineTerminator letter then .nothing :: pieces t
          else .char (simpleEscape letter t.head?) :: pieces t
  | c :: t => .char c :: pieces t
termination_by t => t.length
decreasing_by
  all_goals simp only [List.length_drop, List.length_cons]
  all_goals omega

/-- Code units that only start a pair. -/
def isHighSurrogate (unit : Nat) : Bool := 0xd800 ≤ unit && unit ≤ 0xdbff

/-- Code units that only end a pair. -/
def isLowSurrogate (unit : Nat) : Bool := 0xdc00 ≤ unit && unit ≤ 0xdfff

/-- The character of a code unit by itself. -/
def charOfUnit (unit : Nat) : Char :=
  if unit.isValidChar then Char.ofNat unit else '\ufffd'

/-- The character of a surrogate pair. -/
def charOfPair (high low : Nat) : Char :=
  charOfUnit (0x10000 + (high - 0xd800) * 0x400 + (low - 0xdc00))

/-- The text that a list of pieces stands for. -/
def assemble : List StringPiece → Text
  | [] => []
  | .unit high :: .unit low :: ps =>
      if isHighSurrogate high && isLowSurrogate low then charOfPair high low :: assemble ps
      else charOfUnit high :: assemble (.unit low :: ps)
  | .unit value :: ps => charOfUnit value :: assemble ps
  | .char c :: ps => c :: assemble ps
  | .nothing :: ps => assemble ps

/-- The value of a string literal, whose first and last characters are its quotes. -/
def stringValue (literal : Text) : Text :=
  assemble (pieces (literal.drop 1).dropLast)

/-! ## Numbers -/

/-- Whether a numeral is a zero followed by octal digits only. -/
def isOctalNumeral (t : Text) : Bool :=
  t.length > 1 && t.head? = some '0' && t.all (isDigitOf 8)

/-- The value of a numeral, if it is one. -/
def numberValue? (t : Text) : Option Binary64 :=
  if "0x".toList.isPrefixOf t || "0X".toList.isPrefixOf t then
    if t.drop 2 = [] then none else Binary64.ofDigits 16 (t.drop 2)
  else if isOctalNumeral t then Binary64.ofDigits 8 (t.drop 1)
  else Binary64.ofDecimalText t

/-! ## Regular expressions -/

/-- The pattern and the flags of a regular expression literal. -/
def regexParts (literal : Text) : Text × Text :=
  let flags := (literal.reverse.takeWhile (· ≠ '/')).reverse
  let close := literal.length - flags.length - 1
  if close = 0 then (literal.drop 1, [])
  else ((literal.take close).drop 1, flags)

end EcmaSyntax
