/-!
# Usage errors

The ways in which a command line cannot be followed. A request for help or for the version is one of them, as
it ends the reading of the command line; it alone is no failure.
-/

namespace FuncIR.Cli

inductive UsageError where
  | displayHelp
  | displayVersion
  /-- An option that does not exist, or a positional word too many. -/
  | unknownArgument
  /-- A word after `help` that names no subcommand, or a positional word too many that resembles one. -/
  | invalidSubcommand
  /-- An option without the value that it needs, or an empty path. -/
  | invalidValue
  /-- A value that is none of the allowed ones. -/
  | valueValidation
  /-- A switch with a value. -/
  | tooManyValues
  /-- Two settings that exclude each other, or the same one twice. -/
  | argumentConflict
  | missingRequiredArgument
  deriving DecidableEq, Repr

namespace UsageError

def name : UsageError → String
  | displayHelp => "DisplayHelp"
  | displayVersion => "DisplayVersion"
  | unknownArgument => "UnknownArgument"
  | invalidSubcommand => "InvalidSubcommand"
  | invalidValue => "InvalidValue"
  | valueValidation => "ValueValidation"
  | tooManyValues => "TooManyValues"
  | argumentConflict => "ArgumentConflict"
  | missingRequiredArgument => "MissingRequiredArgument"

def exitCode : UsageError → UInt32
  | displayHelp | displayVersion => 0
  | _ => 2

end UsageError

end FuncIR.Cli
