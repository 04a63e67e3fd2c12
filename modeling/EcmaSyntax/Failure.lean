import EcmaSyntax.Token

/-!
# Failures

**Causes.**  A text that is no program fails for one of three reasons: a piece of it
is no token, a token stands where the grammar has no use for it, or the grammar
nests deeper than the limit allows.

**Wording.**  `Failure.message` is the one place where a cause becomes a sentence.
-/

namespace EcmaSyntax

/-- Why a piece of text is no token. -/
inductive LexicalFault where
  | unexpectedCharacter
  | unterminatedString
  | invalidEscape
  | unterminatedComment
  | unterminatedRegex
  | invalidNumber
deriving DecidableEq, Repr

/-- What is wrong with such a piece of text. -/
def LexicalFault.message : LexicalFault → Text
  | .unexpectedCharacter => "unexpected character".toList
  | .unterminatedString => "unterminated string literal".toList
  | .invalidEscape => "invalid escape sequence in string literal".toList
  | .unterminatedComment => "unterminated block comment".toList
  | .unterminatedRegex => "unterminated regular expression literal".toList
  | .invalidNumber => "invalid numeric literal".toList

/-- Why a text is no program. -/
inductive Cause where
  /-- A piece of the text is no token. -/
  | lexical (fault : LexicalFault) (text : Text)
  /-- A token stands where no rule of the grammar allows it. -/
  | unexpected (kind : TokenKind) (text : Text)
  /-- A rule of the grammar would nest deeper than the limit. -/
  | tooDeep (limit : Nat)
deriving DecidableEq, Repr

/-- A cause and the place it was found at. -/
structure Failure where
  cause : Cause
  place : Place
deriving DecidableEq, Repr

namespace Failure

/-- The failure for a token that no rule allows. -/
def ofToken (t : Token) : Failure :=
  ⟨.unexpected t.kind t.text, t.place⟩

/-- The kind of failure in a few words. -/
def category (f : Failure) : Text :=
  match f.cause with
  | .lexical _ _ => "lex error".toList
  | .unexpected _ _ => "syntax error".toList
  | .tooDeep _ => "nesting too deep".toList

/-- The offending text; a limit has none. -/
def text (f : Failure) : Text :=
  match f.cause with
  | .lexical _ text => text
  | .unexpected _ text => text
  | .tooDeep _ => []

/-- The number of bytes to point at, at least one. -/
def size (f : Failure) : Nat := max f.text.size 1

/-- A text in code quotes. -/
def quoted (t : Text) : Text := '\x60' :: t ++ ['\x60']

/-- What went wrong, without the place. -/
def summary (f : Failure) : Text :=
  match f.cause with
  | .lexical fault text => fault.message ++ ' ' :: quoted text
  | .unexpected .endOfInput _ => "unexpected end of input".toList
  | .unexpected .insertedSemicolon _ => "unexpected end of statement".toList
  | .unexpected _ text => "unexpected token ".toList ++ quoted text
  | .tooDeep limit =>
      "nesting depth limit of ".toList ++ Text.ofNat limit ++ " exceeded".toList

/-- The whole sentence. -/
def message (f : Failure) : Text :=
  f.summary ++ " at line ".toList ++ Text.ofNat f.place.line
    ++ ", column ".toList ++ Text.ofNat f.place.column

end Failure

end EcmaSyntax
