import EcmaSyntax.Failure

/-!
# Lexemes

**Input.**  A text that starts with neither a blank, a line terminator nor a comment.

**Result.**  `lexeme?` finds the longest token at the head of the text and its kind,
or the fault that stands there.  The readers below it each find the longest piece
of one lexical class at the head of a text, and nothing when there is none:
numerals, words, punctuators, and what follows the opening quote of a string, the
opening delimiter of a comment or the opening slash of a regular expression.
-/

namespace EcmaSyntax

/-! ## Numerals -/

/-- The exponent of a numeral; nothing if it has no digits. -/
def exponentPart : Text → Text
  | [] => []
  | mark :: t =>
      if mark = 'e' ∨ mark = 'E' then
        let sign := t.take (if t.head? = some '+' ∨ t.head? = some '-' then 1 else 0)
        let digits := (t.drop sign.length).takeWhile isDecimalDigit
        if digits = [] then [] else mark :: sign ++ digits
      else []

/-- A point and the digits after it. -/
def fractionPart : Text → Text
  | '.' :: t => '.' :: t.takeWhile isDecimalDigit
  | _ => []

/-- A decimal numeral, which has a digit before its exponent. -/
def decimalNumeral (t : Text) : Text :=
  let whole := t.takeWhile isDecimalDigit
  let fraction := fractionPart (t.drop whole.length)
  if whole = [] ∧ fraction.length < 2 then []
  else
    let mantissa := whole ++ fraction
    mantissa ++ exponentPart (t.drop mantissa.length)

/-- A hexadecimal numeral, which has a digit after its mark. -/
def hexNumeral : Text → Text
  | '0' :: mark :: t =>
      let digits := t.takeWhile isHexDigit
      if (mark = 'x' ∨ mark = 'X') ∧ digits ≠ [] then '0' :: mark :: digits else []
  | _ => []

/-- A numeral of either form. -/
def numeral (t : Text) : Text :=
  if hexNumeral t = [] then decimalNumeral t else hexNumeral t

/-! ## Words and punctuators -/

/-- A run of identifier characters. -/
def word (t : Text) : Text := t.takeWhile isIdentifierPart

/-- The kind of a word: its keyword, or else an identifier. -/
def wordKind (w : Text) : TokenKind :=
  (TokenKind.keywords.find? (·.display = w)).getD .identifier

/-- The longest punctuator a text begins with. -/
def punctuator? (t : Text) : Option TokenKind :=
  TokenKind.punctuators.find? (·.display.isPrefixOf t)

/-! ## Strings -/

/-- What follows an opening quote: up to and with the closing quote, or else up to a line
terminator or the end.  A backslash takes the next character with it, and a line feed
after an escaped carriage return too. -/
def stringRest (quote : Char) : Text → Text × Bool
  | [] => ([], false)
  | '\\' :: '\r' :: '\n' :: t =>
      let (taken, closed) := stringRest quote t
      ('\\' :: '\r' :: '\n' :: taken, closed)
  | '\\' :: c :: t =>
      let (taken, closed) := stringRest quote t
      ('\\' :: c :: taken, closed)
  | c :: t =>
      if c = quote then ([c], true)
      else if isLineTerminator c then ([], false)
      else
        let (taken, closed) := stringRest quote t
        (c :: taken, closed)

/-- Whether a text goes on with `count` hexadecimal digits. -/
def startsWithHex (count : Nat) (t : Text) : Bool :=
  (t.take count).length = count && (t.take count).all isHexDigit

/-- Whether each numeric escape of a string has all its digits. -/
def wellEscaped : Text → Bool
  | [] => true
  | '\\' :: 'x' :: t => startsWithHex 2 t && wellEscaped t
  | '\\' :: 'u' :: t => startsWithHex 4 t && wellEscaped t
  | '\\' :: _ :: t => wellEscaped t
  | _ :: t => wellEscaped t

/-! ## Comments -/

/-- What follows the opening of a line comment. -/
def lineCommentRest (t : Text) : Text := t.takeWhile (!isLineTerminator ·)

/-- What follows the opening of a block comment, up to its closing delimiter. -/
def blockCommentRest? : Text → Option Text
  | [] => none
  | '*' :: '/' :: _ => some []
  | c :: t => (blockCommentRest? t).map (c :: ·)

/-! ## Regular expressions -/

/-- What follows the opening slash of a regular expression, up to the slash that closes it.
A slash within brackets closes nothing, a backslash takes the next character with it, and no
line may end inside. -/
def regexRest? (inClass : Bool) : Text → Option Text
  | [] => none
  | '\\' :: [] => none
  | '\\' :: c :: t =>
      if isLineTerminator c then none
      else (regexRest? inClass t).map ('\\' :: c :: ·)
  | c :: t =>
      if isLineTerminator c then none
      else if c = '/' && !inClass then some []
      else (regexRest? (c = '[' || (inClass && c != ']')) t).map (c :: ·)

/-- The regular expression literal whose opening slash stands before a text. -/
def regexLiteral? (t : Text) : Option Text :=
  match regexRest? false t with
  | some (c :: body) =>
      let flags := (t.drop (body.length + 2)).takeWhile isIdentifierPart
      some ('/' :: c :: body ++ '/' :: flags)
  | _ => none

/-! ## The lexeme at the head of a text -/

/-- What stands at the head of a text.  The offending text of a fault is `read ++ ahead`, of
which only `read` is taken off the input. -/
inductive Lexeme where
  | token (kind : TokenKind) (text : Text)
  | faulty (fault : LexicalFault) (read ahead : Text)
deriving DecidableEq, Repr

/-- A numeral, into which no identifier may run. -/
def numeralLexeme (t : Text) : Lexeme :=
  let digits := numeral t
  match word (t.drop digits.length) with
  | [] => .token .number digits
  | ahead => .faulty .invalidNumber digits ahead

/-- A string literal; one that has no closing quote is not looked at for bad escapes. -/
def stringLexeme (quote : Char) (t : Text) : Lexeme :=
  let (rest, closed) := stringRest quote t
  if !closed then .faulty .unterminatedString (quote :: rest) []
  else if wellEscaped rest then .token .string (quote :: rest)
  else .faulty .invalidEscape (quote :: rest) []

/-- The longest token at the head of a text, or the fault there. -/
def lexeme? : Text → Option Lexeme
  | [] => none
  | c :: t =>
      some <|
        if isIdentifierStart c then .token (wordKind (word (c :: t))) (word (c :: t))
        else if numeral (c :: t) ≠ [] then numeralLexeme (c :: t)
        else if c = '"' || c = '\'' then stringLexeme c t
        else
          match punctuator? (c :: t) with
          | some kind => .token kind kind.display
          | none => .faulty .unexpectedCharacter [c] []

end EcmaSyntax
