import FuncIR.Cli.Execute

/-!
# The command line program

Results go to the standard output; errors, usage and the log go to the standard error.
-/

namespace FuncIR.Main

open Cli

def version : String := "0.1.0"

def usage : String :=
  "Compile pineapl source to LLVM-style IR\n\n" ++
  "Usage: pineapl [OPTIONS] [FILE]\n" ++
  "       pineapl [OPTIONS] build <FILE> [-o <OUT>]\n\n" ++
  "Options:\n" ++
  "  -i, --input <FILE>          File to compile\n" ++
  "  -o, --output <OUT>          Output file of build (default: stdout)\n" ++
  "      --lex <FILE>            Print the tokens of a file\n" ++
  "      --parse <FILE>          Print the syntax tree of a file\n" ++
  "      --json                  Print the syntax tree as JSON\n" ++
  "      --alternation <POLICY>  How alternatives are chosen: first-set or exhaustive\n" ++
  "      --trace                 Log every parser step\n" ++
  "      --strict                Accept no blanks between or around functions\n" ++
  "  -h, --help                  Print help\n" ++
  "  -V, --version               Print version\n"

/-- The words of an error of the operating system, with its number, which some calls give negated. -/
def cause (error : IO.Error) : String :=
  match error with
  | .noFileOrDirectory _ code details | .permissionDenied _ code details | .inappropriateType _ code details
  | .invalidArgument _ code details =>
    let number := (min code (0 - code)).toNat
    match FileError.ofNumber? number with
    | some error => error.message
    | none => details.capitalize ++ " (os error " ++ toString number ++ ")"
  | other => toString other

/-- Runs an action that can fail. -/
def attempt {α : Type} (action : IO α) : IO (Except String α) := do
  match ← action.toBaseIO with
  | .ok value => return .ok value
  | .error error => return .error (cause error)

def host : Host IO where
  stat := fun path => attempt do
    let file := (← IO.currentDir) / path
    return (← file.metadata).byteSize.toNat
  read := fun path => do
    match ← attempt (IO.FS.readBinFile path) with
    | .error cause => return .error cause
    | .ok bytes =>
      match String.fromUTF8? bytes with
      | some text => return .ok text
      | none => return .error FileError.notUtf8.message
  write := fun path contents => attempt (IO.FS.writeFile (Text.Utf8.decode path) contents)
  print := fun text => do (← IO.getStdout).putStr text
  log := fun entries => do
    let stderr ← IO.getStderr
    for line in entries.filterMap Log.Entry.line? do
      stderr.putStrLn line

/-- An error with its help and the places in the source that it points to. -/
def report (path : String) (diagnostic : Diagnostic) : String :=
  let labels := diagnostic.labels.map fun label =>
    "  " ++ path ++ ":" ++ toString label.offset ++ ": " ++ label.text ++ "\n"
  let help := diagnostic.help.map fun help => "  help: " ++ help ++ "\n"
  diagnostic.code ++ ": " ++ diagnostic.message ++ "\n" ++ String.join labels ++ help.getD ""

def run (words : List String) : IO UInt32 := do
  let stderr ← IO.getStderr
  match Invocation.ofWords words with
  | .error .displayHelp =>
    IO.print usage
    return UsageError.displayHelp.exitCode
  | .error .displayVersion =>
    IO.println ("pineapl " ++ version)
    return UsageError.displayVersion.exitCode
  | .error error =>
    stderr.putStr ("error: " ++ error.name ++ "\n\n" ++ usage)
    return error.exitCode
  | .ok invocation =>
    match ← (execute host invocation).run with
    | .ok () => return 0
    | .error (.diagnostic path diagnostic) =>
      stderr.putStr (report path diagnostic)
      return Failure.exitCode
    | .error (.message text) =>
      stderr.putStrLn text
      return Failure.exitCode

end FuncIR.Main

def main (words : List String) : IO UInt32 :=
  FuncIR.Main.run words
