import EcmaSyntax.Position

/-!
# Tokens

**Kinds.**  One kind for each class of literals, for identifiers, for each keyword
and each punctuator, for the trivia between tokens, and for the marks that no
text stands for: inserted semicolons, increments that open a line, the end of
the input.

**Tables.**  `keywords` and `punctuators` list the kinds that have one spelling.
The punctuators stand longest first, so the first one that begins a text is the
longest one that does.
-/

namespace EcmaSyntax

/-- What a token is. -/
inductive TokenKind where
  | number | string | regex | identifier
  | kwBreak | kwCase | kwCatch | kwContinue | kwDebugger | kwDefault | kwDelete | kwDo | kwElse
  | kwFinally | kwFor | kwFunction | kwIf | kwIn | kwInstanceof | kwNew | kwReturn | kwSwitch
  | kwThis | kwThrow | kwTry | kwTypeof | kwVar | kwVoid | kwWhile | kwWith | kwNull | kwTrue
  | kwFalse
  | openBrace | closeBrace | openParen | closeParen | openBracket | closeBracket | dot
  | semicolon | comma | question | colon | logicalNot | tilde | increment | decrement | plus
  | minus | asterisk | slash | percent | shiftLeft | shiftRight | unsignedShiftRight | lessThan
  | greaterThan | lessThanEquals | greaterThanEquals | equalsEquals | notEquals | strictEquals
  | strictNotEquals | ampersand | pipe | caret | logicalAnd | logicalOr | equals | plusEquals
  | minusEquals | asteriskEquals | slashEquals | percentEquals | shiftLeftEquals
  | shiftRightEquals | unsignedShiftRightEquals | ampersandEquals | pipeEquals | caretEquals
  | lineBreak | lineComment | blockComment
  | insertedSemicolon | restrictedIncrement | restrictedDecrement | endOfInput
deriving DecidableEq, Repr

namespace TokenKind

/-- Keywords, in alphabetical order but for the literal words. -/
def keywords : List TokenKind :=
  [.kwBreak, .kwCase, .kwCatch, .kwContinue, .kwDebugger, .kwDefault, .kwDelete, .kwDo,
   .kwElse, .kwFinally, .kwFor, .kwFunction, .kwIf, .kwIn, .kwInstanceof, .kwNew, .kwReturn,
   .kwSwitch, .kwThis, .kwThrow, .kwTry, .kwTypeof, .kwVar, .kwVoid, .kwWhile, .kwWith,
   .kwNull, .kwTrue, .kwFalse]

/-- Punctuators, longest first. -/
def punctuators : List TokenKind :=
  [.unsignedShiftRightEquals,
   .unsignedShiftRight, .strictEquals, .strictNotEquals, .shiftLeftEquals, .shiftRightEquals,
   .increment, .decrement, .shiftLeft, .shiftRight, .lessThanEquals, .greaterThanEquals,
   .equalsEquals, .notEquals, .logicalAnd, .logicalOr, .plusEquals, .minusEquals,
   .asteriskEquals, .slashEquals, .percentEquals, .ampersandEquals, .pipeEquals, .caretEquals,
   .openBrace, .closeBrace, .openParen, .closeParen, .openBracket, .closeBracket, .dot,
   .semicolon, .comma, .question, .colon, .logicalNot, .tilde, .plus, .minus, .asterisk,
   .slash, .percent, .lessThan, .greaterThan, .ampersand, .pipe, .caret, .equals]

/-- The name for readers: the spelling, where the kind has one. -/
def display : TokenKind → Text
  | .number => "number".toList
  | .string => "string".toList
  | .regex => "regular expression".toList
  | .identifier => "identifier".toList
  | .kwBreak => "break".toList
  | .kwCase => "case".toList
  | .kwCatch => "catch".toList
  | .kwContinue => "continue".toList
  | .kwDebugger => "debugger".toList
  | .kwDefault => "default".toList
  | .kwDelete => "delete".toList
  | .kwDo => "do".toList
  | .kwElse => "else".toList
  | .kwFinally => "finally".toList
  | .kwFor => "for".toList
  | .kwFunction => "function".toList
  | .kwIf => "if".toList
  | .kwIn => "in".toList
  | .kwInstanceof => "instanceof".toList
  | .kwNew => "new".toList
  | .kwReturn => "return".toList
  | .kwSwitch => "switch".toList
  | .kwThis => "this".toList
  | .kwThrow => "throw".toList
  | .kwTry => "try".toList
  | .kwTypeof => "typeof".toList
  | .kwVar => "var".toList
  | .kwVoid => "void".toList
  | .kwWhile => "while".toList
  | .kwWith => "with".toList
  | .kwNull => "null".toList
  | .kwTrue => "true".toList
  | .kwFalse => "false".toList
  | .openBrace => "\x7b".toList
  | .closeBrace => "\x7d".toList
  | .openParen => "(".toList
  | .closeParen => ")".toList
  | .openBracket => "[".toList
  | .closeBracket => "]".toList
  | .dot => ".".toList
  | .semicolon => ";".toList
  | .comma => ",".toList
  | .question => "?".toList
  | .colon => ":".toList
  | .logicalNot => "!".toList
  | .tilde => "~".toList
  | .increment => "++".toList
  | .decrement => "--".toList
  | .plus => "+".toList
  | .minus => "-".toList
  | .asterisk => "*".toList
  | .slash => "/".toList
  | .percent => "%".toList
  | .shiftLeft => "<<".toList
  | .shiftRight => ">>".toList
  | .unsignedShiftRight => ">>>".toList
  | .lessThan => "<".toList
  | .greaterThan => ">".toList
  | .lessThanEquals => "<=".toList
  | .greaterThanEquals => ">=".toList
  | .equalsEquals => "==".toList
  | .notEquals => "!=".toList
  | .strictEquals => "===".toList
  | .strictNotEquals => "!==".toList
  | .ampersand => "&".toList
  | .pipe => "|".toList
  | .caret => "^".toList
  | .logicalAnd => "&&".toList
  | .logicalOr => "||".toList
  | .equals => "=".toList
  | .plusEquals => "+=".toList
  | .minusEquals => "-=".toList
  | .asteriskEquals => "*=".toList
  | .slashEquals => "/=".toList
  | .percentEquals => "%=".toList
  | .shiftLeftEquals => "<<=".toList
  | .shiftRightEquals => ">>=".toList
  | .unsignedShiftRightEquals => ">>>=".toList
  | .ampersandEquals => "&=".toList
  | .pipeEquals => "|=".toList
  | .caretEquals => "^=".toList
  | .restrictedIncrement => "++".toList
  | .restrictedDecrement => "--".toList
  | .lineBreak => "line break".toList
  | .lineComment => "comment".toList
  | .blockComment => "comment".toList
  | .insertedSemicolon => "inserted semicolon".toList
  | .endOfInput => "end of input".toList

/-- The name in records of a run. -/
def name : TokenKind → Text
  | .number => "NumberLit".toList
  | .string => "StringLit".toList
  | .regex => "RegexLit".toList
  | .identifier => "Identifier".toList
  | .openBrace => "OpenBrace".toList
  | .closeBrace => "CloseBrace".toList
  | .openParen => "OpenParen".toList
  | .closeParen => "CloseParen".toList
  | .openBracket => "OpenBracket".toList
  | .closeBracket => "CloseBracket".toList
  | .dot => "Dot".toList
  | .semicolon => "Semicolon".toList
  | .comma => "Comma".toList
  | .question => "Question".toList
  | .colon => "Colon".toList
  | .logicalNot => "LogicalNot".toList
  | .tilde => "Tilde".toList
  | .increment => "Increment".toList
  | .decrement => "Decrement".toList
  | .plus => "Plus".toList
  | .minus => "Minus".toList
  | .asterisk => "Asterisk".toList
  | .slash => "Slash".toList
  | .percent => "Percent".toList
  | .shiftLeft => "ShiftLeft".toList
  | .shiftRight => "ShiftRight".toList
  | .unsignedShiftRight => "UnsignedShiftRight".toList
  | .lessThan => "LessThan".toList
  | .greaterThan => "GreaterThan".toList
  | .lessThanEquals => "LessThanEquals".toList
  | .greaterThanEquals => "GreaterThanEquals".toList
  | .equalsEquals => "EqualsEquals".toList
  | .notEquals => "NotEquals".toList
  | .strictEquals => "StrictEquals".toList
  | .strictNotEquals => "StrictNotEquals".toList
  | .ampersand => "Ampersand".toList
  | .pipe => "Pipe".toList
  | .caret => "Caret".toList
  | .logicalAnd => "LogicalAnd".toList
  | .logicalOr => "LogicalOr".toList
  | .equals => "Equals".toList
  | .plusEquals => "PlusEquals".toList
  | .minusEquals => "MinusEquals".toList
  | .asteriskEquals => "AsteriskEquals".toList
  | .slashEquals => "SlashEquals".toList
  | .percentEquals => "PercentEquals".toList
  | .shiftLeftEquals => "ShiftLeftEquals".toList
  | .shiftRightEquals => "ShiftRightEquals".toList
  | .unsignedShiftRightEquals => "UnsignedShiftRightEquals".toList
  | .ampersandEquals => "AmpersandEquals".toList
  | .pipeEquals => "PipeEquals".toList
  | .caretEquals => "CaretEquals".toList
  | .lineBreak => "LineBreak".toList
  | .lineComment => "LineComment".toList
  | .blockComment => "BlockComment".toList
  | .insertedSemicolon => "SyntheticSemicolon".toList
  | .restrictedIncrement => "RestrictedIncrement".toList
  | .restrictedDecrement => "RestrictedDecrement".toList
  | .endOfInput => "Eof".toList
  | keyword =>
      match keyword.display with
      | c :: t => c.toUpper :: t
      | [] => []

/-- Every kind. -/
def all : List TokenKind :=
  [.number, .string, .regex, .identifier] ++ keywords ++ punctuators
    ++ [.lineBreak, .lineComment, .blockComment, .insertedSemicolon, .restrictedIncrement,
      .restrictedDecrement, .endOfInput]

/-- The kind with a given name in records. -/
def ofName? (name : Text) : Option TokenKind :=
  all.find? (·.name = name)

/-- Reserved words of the language. -/
def isKeyword (kind : TokenKind) : Bool :=
  keywords.contains kind

/-- Words that may name a property: identifiers and keywords. -/
def isIdentifierName (kind : TokenKind) : Bool :=
  kind = .identifier || kind.isKeyword

end TokenKind

/-- Identifiers that a later edition of the language may reserve. -/
def futureReservedWords : List Text :=
  ["class", "const", "enum", "export", "extends", "import", "super", "implements", "interface",
    "let", "package", "private", "protected", "public", "static", "yield"].map String.toList

/-- A classified piece of a text. -/
structure Token where
  kind : TokenKind
  text : Text
  /-- The place of the first character. -/
  place : Place
  /-- Whether a line ends between the token before and this one. -/
  newlineBefore : Bool
deriving DecidableEq, Repr

namespace Token

/-- The offset just past the last character. -/
def stop (t : Token) : Nat := t.place.offset + t.text.size

/-- A semicolon without text just before a token. -/
def semicolonBefore (t : Token) : Token :=
  { t with kind := .insertedSemicolon, text := [] }

/-- The token that stands before the first one is read. -/
def beforeStart : Token := ⟨.endOfInput, [], Place.start, false⟩

end Token

/-- The two forms of comments. -/
inductive CommentKind where
  | line
  | block
deriving DecidableEq, Repr

/-- The name of a form of comments. -/
def CommentKind.name : CommentKind → Text
  | .line => "Line".toList
  | .block => "Block".toList

/-- A comment, with the text between its delimiters. -/
structure Comment where
  kind : CommentKind
  text : Text
deriving DecidableEq, Repr

/-- A comment together with the offset it starts at. -/
structure PlacedComment extends Comment where
  offset : Nat
deriving DecidableEq, Repr

end EcmaSyntax
