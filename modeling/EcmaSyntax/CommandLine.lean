import EcmaSyntax.Log
import EcmaSyntax.Report
import EcmaSyntax.Syntax.Walk

/-!
# The command line

**Arguments.**  A command takes one file and options.  Arguments are read from the left.
The value of an option or of the file is only looked at when the next option is read, or at
the end, so an unknown option after a bad value is the fault that counts.

**Answer.**  A command says which directives of its log filter it cannot read, reads its
file, logs what the filter shows, parses, and prints the tree and a summary, or else an error
with a report.  The exit status is 0 for a program, 1
for a text that is none, and 2 for a file that cannot be read and for bad arguments.
-/

namespace EcmaSyntax
namespace CommandLine

/-! ## Arguments -/

/-- What a command asks for. -/
structure Options where
  file : Text
  dump : Bool
  maxDepth : Nat
  quiet : Bool
  verbosity : Nat
deriving DecidableEq, Repr

/-- Why arguments ask for no run. -/
inductive Usage where
  | missingRequiredArgument
  | unknownArgument
  | valueValidation
  | argumentConflict
  | tooManyValues
  | invalidValue
  | displayHelp
  | displayVersion
deriving DecidableEq, Repr

/-- The exit status of a command that does not run. -/
def Usage.exit : Usage → Nat
  | .displayHelp => 0
  | .displayVersion => 0
  | _ => 2

/-- An argument whose value is not looked at yet. -/
inductive Pending where
  | file (value : Text)
  | maxDepth (value : Option Text)
deriving DecidableEq, Repr

/-- The arguments read so far. -/
structure Reading where
  file : Option Text
  dump : Bool
  maxDepth : Option Nat
  quiet : Bool
  verbosity : Nat
  pending : Option Pending
  /-- Whether the next argument is the value of an option. -/
  wantsValue : Bool
  /-- Whether the file has been named. -/
  named : Bool
  /-- Whether options have come to an end. -/
  onlyFiles : Bool
deriving DecidableEq, Repr

namespace Reading

/-- Before the first argument. -/
def start : Reading := ⟨none, false, none, false, 0, none, false, false, false⟩

/-- Looks at the value that is waiting. -/
def settle (r : Reading) : Except Usage Reading :=
  match r.pending with
  | none => .ok r
  | some (.file value) =>
      if value = [] then .error .invalidValue
      else .ok { r with pending := none, file := some value }
  | some (.maxDepth none) => .error .invalidValue
  | some (.maxDepth (some value)) =>
      if r.maxDepth.isSome then .error .argumentConflict
      else
        match natural? value with
        | some limit => .ok { r with pending := none, maxDepth := some limit }
        | none => .error .valueValidation

/-- Options that take no value. -/
inductive Flag where
  | dump
  | quiet
  | verbose
  | help
  | version
deriving DecidableEq, Repr

/-- The greatest verbosity that is told apart. -/
def greatestVerbosity : Nat := 255

/-- Applies a flag. -/
def flag (r : Reading) (f : Flag) : Except Usage Reading := do
  let settled ← r.settle
  let r : Reading := { settled with wantsValue := false }
  match f with
  | .dump => if r.dump then throw .argumentConflict else return { r with dump := true }
  | .quiet => if r.quiet then throw .argumentConflict else return { r with quiet := true }
  | .verbose => return { r with verbosity := min (r.verbosity + 1) greatestVerbosity }
  | .help => throw .displayHelp
  | .version => throw .displayVersion

/-- The flag with a long name. -/
def longFlag? (name : Text) : Option Flag :=
  [("dump", Flag.dump), ("quiet", .quiet), ("verbose", .verbose), ("help", .help),
    ("version", .version)].findSome? fun entry =>
      if entry.1.toList = name then some entry.2 else none

/-- The flag with a letter. -/
def shortFlag? : Char → Option Flag
  | 'q' => some .quiet
  | 'v' => some .verbose
  | 'h' => some .help
  | 'V' => some .version
  | _ => none

/-- Reads an option with a long name, with what follows its equals sign. -/
def long (r : Reading) (name : Text) (value : Option Text) : Except Usage Reading :=
  if name = "max-depth".toList then do
    let r ← r.settle
    match value with
    | some v => settle { r with pending := some (.maxDepth (some v)), wantsValue := false }
    | none => return { r with pending := some (.maxDepth none), wantsValue := true }
  else
    match longFlag? name, value with
    | none, _ => .error .unknownArgument
    | some _, some _ => .error .tooManyValues
    | some f, none => r.flag f

/-- Reads options of one letter each. -/
def short (r : Reading) : Text → Except Usage Reading
  | [] => .ok r
  | c :: t =>
      match shortFlag? c with
      | none => .error .unknownArgument
      | some f => do
          let r ← r.flag f
          short r t

/-- Reads the name of the file. -/
def positional (r : Reading) (value : Text) : Except Usage Reading :=
  if r.named then .error .unknownArgument
  else do
    let r ← r.settle
    return { r with pending := some (.file value), named := true, wantsValue := false }

/-- Reads an argument that is no option. -/
def plain (r : Reading) (value : Text) : Except Usage Reading :=
  if r.wantsValue then
    .ok { r with pending := some (.maxDepth (some value)), wantsValue := false }
  else r.positional value

/-- Reads one argument. -/
def argument (r : Reading) (a : Text) : Except Usage Reading :=
  if r.onlyFiles then r.positional a
  else
    match a with
    | ['-', '-'] => .ok { r with onlyFiles := true }
    | '-' :: '-' :: t =>
        let name := t.takeWhile (· ≠ '=')
        r.long name (if name = t then none else some (t.drop (name.length + 1)))
    | '-' :: c :: t => r.short (c :: t)
    | _ => r.plain a

/-- The options, once all arguments are read. -/
def finish (r : Reading) : Except Usage Options := do
  let r ← r.settle
  match r.file with
  | some file => return ⟨file, r.dump, r.maxDepth.getD defaultLimit, r.quiet, r.verbosity⟩
  | none => throw .missingRequiredArgument

end Reading

/-- Reads the arguments of a command. -/
def Options.read (arguments : List Text) : Except Usage Options := do
  let r ← arguments.foldlM Reading.argument Reading.start
  r.finish

/-! ## Running -/

/-- What a command prints, and its exit status. -/
structure Answer where
  exit : Nat
  output : Text
  errors : Text
deriving DecidableEq, Repr

/-- The record of a file that is about to be parsed. -/
def parsingRecord (s : Source) : Log.Record :=
  { level := .info
    target := Log.commandTarget
    message := "parsing".toList
    fields := [("file".toList, .text s.name), Log.numberField "bytes" s.content.size] }

/-- The log of a command on a source. -/
def logText (filter : Log.Filter) (s : Source) (events : List Event) : Text :=
  ([parsingRecord s].filter filter.shows).flatMap (Log.line [])
    ++ Log.runLines filter s.name events

/-- What a command prints about a program. -/
def programText (o : Options) (s : Source) (p : Program) : Text :=
  (if o.dump then p.dump ++ ['\n'] else [])
    ++ if o.quiet then []
      else "ok ".toList ++ s.name ++ " (".toList ++ Text.ofNat p.body.length
        ++ " top-level elements)\n".toList

/-- What a command prints about a failure. -/
def failureText (s : Source) (f : Failure) : Text :=
  "error: ".toList ++ s.name ++ ':' :: (s.position f.place.offset).text ++ '\n'
    :: Report.render s f

/-- What a command prints about a file that cannot be read. -/
def readFaultText (name : Text) (fault : ReadFault) : Text :=
  "error: cannot read `".toList ++ name ++ "`: ".toList ++ fault.message ++ ['\n']

/-- Runs a command on what the name of its file stands for. -/
def Options.run (o : Options) (environment : Option Text) (found : Except ReadFault Entry) :
    Answer :=
  let settings : Log.Settings := ⟨o.verbosity, environment⟩
  match Source.read o.file found with
  | .error fault => ⟨2, [], settings.complaints ++ readFaultText o.file fault⟩
  | .ok s =>
      let result := EcmaSyntax.run o.maxDepth s.content
      let log := settings.complaints ++ logText settings.filter s (history result)
      match outcome result with
      | .ok p => ⟨0, programText o s p, log⟩
      | .error f => ⟨1, [], log ++ failureText s f⟩

end CommandLine
end EcmaSyntax
