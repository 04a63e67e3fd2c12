import EcmaSyntax.CommandLine

/-!
# The program

Reads the arguments, the environment and the file, runs the command, and prints its answer.
-/

open EcmaSyntax

/-- What a path stands for in the file system. -/
def entryAt (path : String) : IO (Except ReadFault Entry) := do
  try
    let bytes ← IO.FS.readBinFile path
    return .ok (.file bytes)
  catch
    | .inappropriateType _ code _ =>
        return if code = 20 then .error .notDirectory else .ok .directory
    | .invalidArgument .. => return .error .nameTooLong
    | _ => return .error .notFound

/-- The summary of the arguments. -/
def usageText : String :=
  "usage: esparse [--dump] [--max-depth N] [-q] [-v] FILE\n"

/-- Runs a command on its arguments. -/
def main (arguments : List String) : IO UInt32 := do
  match CommandLine.Options.read (arguments.map String.toList) with
  | .error usage =>
      if usage.exit = 0 then IO.print usageText else IO.eprint usageText
      return usage.exit.toUInt32
  | .ok options =>
      let environment ← IO.getEnv "ESPARSE_LOG"
      let found ← entryAt (String.ofList options.file)
      let answer := options.run (environment.map String.toList) found
      IO.print (String.ofList answer.output)
      IO.eprint (String.ofList answer.errors)
      return answer.exit.toUInt32
