import FuncIR.Cli.Option
import FuncIR.Text.Similarity
import FuncIR.Text.Utf8

/-!
# Reading a command line

`Invocation.ofWords` reads the words of a command line from left to right. An option that takes a value waits
for the next word, and a value is looked at only when the next option or positional word settles it: an
unknown option right after a bad value is what gets reported. The settings that exclude or need each other
are compared at the end. An `Invocation` is what a command line comes to. Its paths are bytes, as the operating
system has them; those that stand in words are the bytes of texts.
-/

namespace FuncIR.Cli

open Text (Bytes)

/-- A word by its shape. -/
inductive Word where
  /-- Two dashes: all later words are positional. -/
  | separator
  | long (name : String) (value : Option String)
  /-- A dash, a letter and what follows it. -/
  | short (letter : Char) (rest : List Char)
  | plain (text : String)
  deriving DecidableEq, Repr

/-- Divides `name=value` at the first sign. -/
def divide (text : List Char) : String × Option String :=
  let name := text.takeWhile (· != '=')
  match text.drop name.length with
  | [] => (String.ofList name, none)
  | _ :: value => (String.ofList name, some (String.ofList value))

/-- A single dash is a plain word. -/
def Word.ofString (text : String) : Word :=
  match text.toList with
  | ['-', '-'] => separator
  | '-' :: '-' :: rest => long (divide rest).1 (divide rest).2
  | '-' :: letter :: rest => short letter rest
  | _ => plain text

/-- What was read so far in one scope. -/
structure Reading where
  /-- The settings with their values, in order; that of a switch is empty. -/
  given : List (Setting × String) := []
  /-- The setting read last, whose value may still have to come. -/
  pending : Option (Setting × Option String) := none
  /-- Whether all that follows is positional. -/
  positionalOnly : Bool := false
  deriving DecidableEq, Repr

namespace Reading

def value? (reading : Reading) (setting : Setting) : Option String :=
  reading.given.lookup setting

/-- The value as a path. -/
def path? (reading : Reading) (setting : Setting) : Option Bytes :=
  (reading.value? setting).map Text.Utf8.encode

def isGiven (reading : Reading) (setting : Setting) : Bool :=
  (reading.value? setting).isSome

/-- Adds a setting. It must have its value, must not have been given yet, and the value must be allowed. -/
def give (reading : Reading) (setting : Setting) (value : Option String) : Except UsageError Reading := do
  match value with
  | none => .error .invalidValue
  | some value =>
    if reading.isGiven setting then .error .argumentConflict
    else
      setting.checkValue value
      return { reading with given := reading.given ++ [(setting, value)] }

/-- Adds the pending setting. -/
def settle (reading : Reading) : Except UsageError Reading :=
  match reading.pending with
  | none => .ok reading
  | some (setting, value) => { reading with pending := none }.give setting value

/-- Whether the last option still waits for its value. -/
def awaits (reading : Reading) : Bool :=
  match reading.pending with
  | some (_, none) => true
  | _ => false

/-- Adds a setting whose value stands in the same word. -/
def giveNow (reading : Reading) (setting : Setting) (value : String) : Except UsageError Reading := do
  (← reading.settle).give setting (some value)

/-- Adds a setting whose value can still be replaced by an error. -/
def defer (reading : Reading) (setting : Setting) (value : Option String) : Except UsageError Reading := do
  return { ← reading.settle with pending := some (setting, value) }

/-- Ends the reading with a request for information. -/
def inform (reading : Reading) (request : UsageError) : Except UsageError Reading := do
  let _ ← reading.settle
  .error request

def long (reading : Reading) (request : Option Request) (value : Option String) : Except UsageError Reading :=
  match request, value with
  | none, _ => .error .unknownArgument
  | some .help, none => reading.inform .displayHelp
  | some .version, none => reading.inform .displayVersion
  | some .help, some _ | some .version, some _ => .error .tooManyValues
  | some (.set setting), value =>
    match setting.isSwitch, value with
    | true, none => reading.giveNow setting ""
    | true, some _ => .error .tooManyValues
    | false, some value => reading.giveNow setting value
    | false, none => reading.defer setting none

/-- The value of a letter is the rest of its word, with or without a sign in front. -/
def short (reading : Reading) (request : Option Request) (rest : List Char) : Except UsageError Reading :=
  match request, rest with
  | none, _ => .error .unknownArgument
  | some .help, _ => reading.inform .displayHelp
  | some .version, _ => reading.inform .displayVersion
  | some (.set setting), [] => reading.defer setting none
  | some (.set setting), '=' :: value => reading.giveNow setting (String.ofList value)
  | some (.set setting), value => reading.giveNow setting (String.ofList value)

/-- What is wrong with a positional word too many: it is taken for a misspelled subcommand if it resembles one.
Among words that are positional only, a subcommand itself is misplaced, not misspelled. -/
def excess (reading : Reading) (scope : Scope) (text : String) : UsageError :=
  if reading.positionalOnly && scope.subcommands.contains text then .unknownArgument
  else if scope.subcommands.any (Text.isSimilar text) then .invalidSubcommand
  else .unknownArgument

/-- There is room for one positional word. -/
def positional (reading : Reading) (scope : Scope) (text : String) : Except UsageError Reading :=
  if reading.isGiven .file || reading.pending.any (·.1 == .file) then .error (reading.excess scope text)
  else reading.defer .file (some text)

/-- Reads a word that is no subcommand. -/
def word (reading : Reading) (scope : Scope) (text : String) : Except UsageError Reading :=
  if reading.positionalOnly then reading.positional scope text
  else
    match Word.ofString text with
    | .separator => .ok { reading with positionalOnly := true }
    | .long name value => reading.long (scope.long? name) value
    | .short letter rest => reading.short (scope.short? letter) rest
    | .plain text =>
      match reading.pending with
      | some (setting, none) => .ok { reading with pending := some (setting, some text) }
      | _ => reading.positional scope text

/-- Reads the words of a subcommand. -/
def buildWords (reading : Reading) : List String → Except UsageError Reading
  | [] => reading.settle
  | text :: words => do (← reading.word .build text).buildWords words

end Reading

/-- The outcome of `help`: only `build` and `help` itself have a help text. -/
def helpOn : List String → UsageError
  | [] | ["build"] | ["help"] => .displayHelp
  | _ => .invalidSubcommand

/-- Reads the words of the program up to its subcommand, and those after `build`. -/
def readProgram (reading : Reading) : List String → Except UsageError (Reading × Option Reading)
  | [] => do return (← reading.settle, none)
  | text :: words => do
    if !reading.positionalOnly && !reading.awaits && text == "help" then .error (helpOn words)
    else if !reading.positionalOnly && !reading.awaits && text == "build" then
      let build ← ({} : Reading).buildWords words
      if build.isGiven .file then return (← reading.settle, some build)
      else .error .missingRequiredArgument
    else readProgram (← reading.word .program text) words

/-- The subcommand `build`. -/
structure BuildCommand where
  file : Bytes
  output : Option Bytes := none
  deriving DecidableEq, Repr

/-- What a command line asks for. -/
structure Invocation where
  build : Option BuildCommand := none
  file : Option Bytes := none
  input : Option Bytes := none
  lex : Option Bytes := none
  parse : Option Bytes := none
  json : Bool := false
  alternation : Alternation := .firstSet
  trace : Bool := false
  strict : Bool := false
  deriving DecidableEq, Repr

namespace Invocation

/-- The parse options that the switches stand for. -/
def options (invocation : Invocation) : ParseOptions where
  alternation := invocation.alternation
  layout := if invocation.strict then .strict else .spaced
  trace := invocation.trace

/-- The policy given last, if any. -/
def policyGiven (program : Reading) (build : Option Reading) : Alternation :=
  match ((build.bind (·.value? .alternation)).or (program.value? .alternation)).map Alternation.ofName with
  | some (.ok policy) => policy
  | _ => .firstSet

/-- What the settings of the program and of its subcommand mean; a policy after `build` wins, and a switch
counts in either place. -/
def ofReadings (program : Reading) (build : Option Reading) : Invocation where
  build := build.bind fun build => (build.path? .file).map fun file => ⟨file, build.path? .output⟩
  file := program.path? .file
  input := program.path? .input
  lex := program.path? .lex
  parse := program.path? .parse
  json := program.isGiven .json
  alternation := policyGiven program build
  trace := program.isGiven .trace || build.any (·.isGiven .trace)
  strict := program.isGiven .strict || build.any (·.isGiven .strict)

def ofWords (words : List String) : Except UsageError Invocation := do
  let (program, build) ← readProgram {} words
  if Setting.conflicts.any fun (one, other) => program.isGiven one && program.isGiven other then
    .error .argumentConflict
  else if program.isGiven .json && !program.isGiven .parse then .error .missingRequiredArgument
  else return ofReadings program build

end Invocation

end FuncIR.Cli
