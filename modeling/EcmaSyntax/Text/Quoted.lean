import EcmaSyntax.Text.Extend
import EcmaSyntax.Text.Ignorable
import EcmaSyntax.Text.Unprintable

/-!
# Quoted text

A text in double quotes, on one line and in visible characters: the quote and the
backslash are escaped, the common controls have their letters, and any other character
that cannot be seen by itself is written as its code point.  A single quote stands as it is,
and so do the two halfwidth voicing marks, which extend the character before but can be seen.
-/

namespace EcmaSyntax
namespace Text

/-- The escape of a character by its code point. -/
def codePointEscape (c : Char) : Text :=
  '\\' :: 'u' :: '\x7b' :: Nat.toDigits 16 c.toNat ++ ['\x7d']

/-- The halfwidth marks of a voiced or half-voiced consonant. -/
def isVoicingMark (c : Char) : Bool := c = '\uff9e' || c = '\uff9f'

/-- Whether a character is hard to see by itself. -/
def isHidden (c : Char) : Bool :=
  isUnprintable c || isIgnorable c || (isGraphemeExtend c && !isVoicingMark c)

/-- A character as it stands in quoted text. -/
def quoteChar (c : Char) : Text :=
  match c with
  | '"' => ['\\', '"']
  | '\\' => ['\\', '\\']
  | '\n' => ['\\', 'n']
  | '\r' => ['\\', 'r']
  | '\t' => ['\\', 't']
  | '\x00' => ['\\', '0']
  | c => if isHidden c then codePointEscape c else [c]

/-- A text in double quotes. -/
def quote (t : Text) : Text :=
  '"' :: t.flatMap quoteChar ++ ['"']

end Text
end EcmaSyntax
