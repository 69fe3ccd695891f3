import FuncIR.Cli.Usage
import FuncIR.Parser.Options

/-!
# Options of the command line

What can be set on a command line, by which options, and where: some options belong to the program, some to
its subcommand `build`, and some to both.
-/

namespace FuncIR.Cli

inductive Scope where
  | program
  | build
  deriving DecidableEq, Repr

inductive Setting where
  /-- The positional word. -/
  | file
  | input
  | lex
  | parse
  | json
  | output
  | alternation
  | trace
  | strict
  deriving DecidableEq, Repr

namespace Setting

/-- A switch takes no value. -/
def isSwitch : Setting → Bool
  | json | trace | strict => true
  | file | input | lex | parse | output | alternation => false

/-- A path must not be empty, and a policy must exist. -/
def checkValue (setting : Setting) (value : String) : Except UsageError Unit :=
  match setting with
  | json | trace | strict => .ok ()
  | alternation => (Alternation.ofName value).map (fun _ => ()) |>.mapError fun _ => .valueValidation
  | file | input | lex | parse | output => if value.isEmpty then .error .invalidValue else .ok ()

/-- The settings that exclude each other. -/
def conflicts : List (Setting × Setting) :=
  [(input, file), (lex, file), (lex, input), (parse, file), (parse, input), (json, file), (json, input),
    (json, lex)]

end Setting

/-- What an option asks for. -/
inductive Request where
  | set (setting : Setting)
  | help
  | version
  deriving DecidableEq, Repr

namespace Scope

/-- The words that start a subcommand. -/
def subcommands : Scope → List String
  | program => ["build", "help"]
  | build => []

/-- The option with two dashes and this name. -/
def long? (scope : Scope) (name : String) : Option Request :=
  match name, scope with
  | "alternation", _ => some (.set .alternation)
  | "trace", _ => some (.set .trace)
  | "strict", _ => some (.set .strict)
  | "help", _ => some .help
  | "version", program => some .version
  | "input", program => some (.set .input)
  | "lex", program => some (.set .lex)
  | "parse", program => some (.set .parse)
  | "json", program => some (.set .json)
  | "output", build => some (.set .output)
  | _, _ => none

/-- The option with one dash and this letter. -/
def short? (scope : Scope) (letter : Char) : Option Request :=
  match letter, scope with
  | 'h', _ => some .help
  | 'V', program => some .version
  | 'i', program => some (.set .input)
  | 'o', build => some (.set .output)
  | _, _ => none

end Scope

end FuncIR.Cli
