import EcmaSyntax.Parser
import EcmaSyntax.Source
import EcmaSyntax.Text.Alphanumeric
import EcmaSyntax.Text.Quoted

/-!
# Log records

**Records.**  Each event of a run becomes a record, or two: a level, the part of the
program it comes from, a message and fields.  A run of the parser is also a span, which
records inside it name.

**Filters.**  A filter is a list of directives.  A directive sets the least severe level that
is shown, for the targets that begin with its own target if it has one.  The most specific
directive for a record decides, and a record without a directive is not shown.

**Directives.**  The written form of a directive is a level, a target, or both with an equals
sign between them; directives have commas between them.  One that cannot be read is left out,
with a complaint.
-/

namespace EcmaSyntax
namespace Log

/-- How severe a record is, the most severe level first. -/
inductive Level where
  | error
  | warn
  | info
  | debug
  | trace
deriving DecidableEq, Repr

namespace Level

/-- The place of a level in the order of severity. -/
def rank : Level → Nat
  | error => 1
  | warn => 2
  | info => 3
  | debug => 4
  | trace => 5

/-- The name of a level in records. -/
def name : Level → Text
  | error => "ERROR".toList
  | warn => "WARN".toList
  | info => "INFO".toList
  | debug => "DEBUG".toList
  | trace => "TRACE".toList

/-- Every level. -/
def all : List Level := [error, warn, info, debug, trace]

/-- The level with a given name. -/
def ofName? (name : Text) : Option Level := all.find? (·.name = name)

end Level

/-! ## Records -/

/-- The value of a field. -/
inductive Value where
  /-- A number. -/
  | number (n : Nat)
  /-- A name that stands without quotes. -/
  | bare (name : Text)
  /-- A text that stands in quotes. -/
  | text (value : Text)
deriving DecidableEq, Repr

/-- One entry of a log. -/
structure Record where
  level : Level
  target : Text
  message : Text
  fields : List (Text × Value)
deriving DecidableEq, Repr

/-- The part of the program that scans tokens. -/
def scannerTarget : Text := "esparse_parser::lexer".toList

/-- The part of the program that inserts semicolons. -/
def streamTarget : Text := "esparse_parser::asi".toList

/-- The part of the program that parses. -/
def parserTarget : Text := "esparse_parser::parser".toList

/-- The part of the program that reads the command line. -/
def commandTarget : Text := "esparse".toList

/-- A field with a number. -/
def numberField (name : String) (n : Nat) : Text × Value := (name.toList, .number n)

/-- Whether a token is an identifier that a later edition may reserve. -/
def isFutureReserved (t : Token) : Bool :=
  t.kind = .identifier && futureReservedWords.contains t.text

/-- The warning for such an identifier. -/
def reservedRecord (t : Token) : Record :=
  { level := .warn
    target := scannerTarget
    message := "the identifier `".toList ++ t.text ++ "` is a future reserved word".toList
    fields := [numberField "line" t.place.line] }

/-- The record of a token. -/
def scannedRecord (t : Token) : Record :=
  { level := .trace
    target := scannerTarget
    message := "scanned token".toList
    fields := [("kind".toList, .bare t.kind.name), ("text".toList, .text t.text),
      numberField "line" t.place.line] }

/-- The records of an event. -/
def records : Event → List Record
  | .scanned t =>
      (if isFutureReserved t then [reservedRecord t] else []) ++ [scannedRecord t]
  | .rescanned slash _ =>
      [{ level := .debug
         target := scannerTarget
         message := "rescanned `/` as a regular expression literal".toList
         fields := [numberField "line" slash.place.line] }]
  | .insertedAfterKeyword t =>
      [{ level := .debug
         target := streamTarget
         message := "inserted semicolon after restricted keyword".toList
         fields := [numberField "line" t.place.line] }]
  | .insertedBefore t =>
      [{ level := .debug
         target := streamTarget
         message := "inserted semicolon before `".toList ++ t.kind.display ++ "`".toList
         fields := [numberField "line" t.place.line, numberField "column" t.place.column] }]
  | .ended _ => []
  | .parsed elements =>
      [{ level := .debug
         target := parserTarget
         message := "parsed program".toList
         fields := [numberField "elements" elements] }]

/-- The record of a run of the parser on a source of some name, as a span. -/
def spanRecord (name : Text) : Record :=
  { level := .debug
    target := parserTarget
    message := "parse_program".toList
    fields := [("source".toList, .text name)] }

/-! ## Directives -/

/-- The least severe level shown, none if nothing is, for targets that begin alike. -/
structure Directive where
  target : Option Text
  level : Option Level
deriving DecidableEq, Repr

/-- Why a directive cannot be read. -/
inductive DirectiveFault where
  /-- It starts with no letter, digit, hyphen, colon or underscore. -/
  | malformed
  /-- There is no level with the name after its equals sign. -/
  | unknownLevel
deriving DecidableEq, Repr

/-- What is wrong with a directive. -/
def DirectiveFault.message : DirectiveFault → Text
  | .malformed => "invalid filter directive".toList
  | .unknownLevel =>
      ("error parsing level filter: expected one of \"off\", \"error\", \"warn\", "
        ++ "\"info\", \"debug\", \"trace\", or a number 0-5").toList

namespace Directive

/-- The levels of a directive, by their numbers. -/
def levels : List (Option Level) := none :: Level.all.map some

/-- The name of a level in directives. -/
def levelText : Option Level → Text
  | some level => level.name.map Char.toLower
  | none => "off".toList

/-- Reads a level: a number, or a name in any case. -/
def level? (t : Text) : Option (Option Level) :=
  match (natural? t).bind (levels[·]?) with
  | some level => some level
  | none => levels.find? fun level => levelText level = t.map Char.toLower

/-- Whether a directive may start with a character. -/
def isStart (c : Char) : Bool := c = '-' || c = ':' || c = '_' || isAlphanumeric c

/-- Reads a directive without an equals sign: a level, or else a target for every level. -/
def ofWord (t : Text) : Directive :=
  match level? t with
  | some level => ⟨none, level⟩
  | none => ⟨some t, some .trace⟩

/-- Reads a directive with an equals sign after some bytes; nothing after the sign means every
level. -/
def ofPair (t : Text) (place : Nat) : Except DirectiveFault Directive :=
  let target := t.takeBytes place
  match t.dropBytes (place + 1) with
  | [] => .ok ⟨some target, some .trace⟩
  | word =>
      match level? word with
      | some level => .ok ⟨some target, level⟩
      | none => .error .unknownLevel

/-- Reads a directive.  The white space around it belongs to its parts, but the place of the
equals sign is counted from the first character that is none. -/
def read (t : Text) : Except DirectiveFault Directive :=
  match (t.trimStart).trimEnd with
  | [] => .error .malformed
  | c :: rest =>
      let before := rest.takeWhile fun c => c ≠ '=' && c ≠ '['
      if !isStart c then .error .malformed
      else
        match rest.drop before.length with
        | [] => .ok (ofWord t)
        | '=' :: _ => ofPair t (Text.size (c :: before))
        | _ => .error .malformed

/-- The written form of a directive. -/
def text (d : Directive) : Text :=
  (match d.target with
    | some target => target ++ ['=']
    | none => []) ++ levelText d.level

/-- Whether a directive is for the records of a target. -/
def isFor (d : Directive) (target : Text) : Bool :=
  d.target.all (·.isPrefixOf target)

/-- Whether a directive is more specific than one with another target.  The longer target is,
and of two with one length the greater one. -/
def isBefore (d e : Directive) : Bool :=
  match d.target, e.target with
  | none, _ => false
  | some _, none => true
  | some s, some t => t.size < s.size || (s.size = t.size && decide (t < s))

end Directive

/-! ## Filters -/

/-- What is shown of a log: directives with different targets, the most specific first. -/
abbrev Filter := List Directive

namespace Filter

/-- The filter for everything from one level on. -/
def upTo (level : Level) : Filter := [⟨none, some level⟩]

/-- Adds a directive in place of one with the same target. -/
def insert (d : Directive) : Filter → Filter
  | [] => [d]
  | e :: rest =>
      if d.target = e.target then d :: rest
      else if d.isBefore e then d :: e :: rest
      else e :: insert d rest

/-- The written directives of a filter. -/
def pieces (t : Text) : List Text := (Text.splitAt ',' t).filter (· ≠ [])

/-- Reads a filter. -/
def read (t : Text) : Filter :=
  ((pieces t).filterMap fun piece => (Directive.read piece).toOption).foldl
    (fun filter d => insert d filter) []

/-- The complaint about a directive, if it cannot be read. -/
def complaint (piece : Text) : Text :=
  match Directive.read piece with
  | .ok _ => []
  | .error fault =>
      "ignoring `".toList ++ piece ++ "`: ".toList ++ fault.message ++ ['\n']

/-- The complaints about the directives that are left out. -/
def complaints (t : Text) : Text := (pieces t).flatMap complaint

/-- The written form of a filter. -/
def text (filter : Filter) : Text :=
  ([','] : Text).intercalate (filter.map Directive.text)

/-- Whether a record of some level and target is shown. -/
def shows (filter : Filter) (r : Record) : Bool :=
  (filter.find? (·.isFor r.target)).any fun d =>
    d.level.any fun level => r.level.rank ≤ level.rank

end Filter

/-! ## Settings -/

/-- What a command is told about its log: how often more was asked for, and the filter of the
environment. -/
structure Settings where
  verbosity : Nat
  environment : Option Text
deriving DecidableEq, Repr

namespace Settings

/-- The filter of a command.  Requests for more count before the environment, and without
either there are warnings. -/
def filter (s : Settings) : Filter :=
  match s.verbosity, s.environment with
  | 0, none => .upTo .warn
  | 0, some directives => .read directives
  | 1, _ => .upTo .info
  | 2, _ => .upTo .debug
  | _, _ => .upTo .trace

/-- The complaints about the filter of the environment, if it is read. -/
def complaints (s : Settings) : Text :=
  match s.verbosity, s.environment with
  | 0, some directives => Filter.complaints directives
  | _, _ => []

end Settings

/-! ## Lines -/

/-- The written form of a value. -/
def Value.written : Value → Text
  | number n => Text.ofNat n
  | bare name => name
  | text value => value.quote

/-- A field with its name. -/
def fieldText (f : Text × Value) : Text := f.1 ++ '=' :: f.2.written

/-- The line of a record inside a number of spans. -/
def line (spans : List Record) (r : Record) : Text :=
  let spanText (s : Record) : Text :=
    s.message ++ '\x7b' :: (s.fields.map fieldText).flatten ++ "\x7d: ".toList
  r.level.name ++ ' ' :: spans.flatMap spanText ++ r.target ++ ": ".toList ++ r.message
    ++ r.fields.flatMap (fun f => ' ' :: fieldText f) ++ ['\n']

/-- The lines of a run on a source of some name. -/
def runLines (filter : Filter) (name : Text) (events : List Event) : Text :=
  let span := spanRecord name
  let spans := if filter.shows span then [span] else []
  ((events.flatMap records).filter filter.shows).flatMap (line spans)

end Log
end EcmaSyntax
