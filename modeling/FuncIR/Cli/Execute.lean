import FuncIR.Cli.Arguments
import FuncIR.Cli.Store
import FuncIR.Dump
import FuncIR.Log

/-!
# Following a command line

`execute` does what an `Invocation` asks for. It meets the outside only through a `Host`, and what it prints
and writes comes last: an invocation that fails has printed and written nothing. The path of a source is read as
a text before anything is done with it, so that one which is not UTF-8 leads elsewhere; the path of an output is
taken as it is. `World` is a host in memory.
-/

namespace FuncIR.Cli

open Text (Bytes)
open Text.Utf8 (encode decode)

/-- What the compiler needs from the outside. An error comes with its cause in words. -/
structure Host (m : Type → Type) where
  /-- The size in bytes of the file at a path. -/
  stat : String → m (Except String Nat)
  read : String → m (Except String String)
  write (path : Bytes) (contents : String) : m (Except String Unit)
  print : String → m Unit
  log : List Log.Entry → m Unit

inductive Failure where
  /-- The source text of a file is at fault. -/
  | diagnostic (path : String) (diagnostic : Diagnostic)
  /-- Anything else, in words. -/
  | message (text : String)
  deriving DecidableEq, Repr

/-- The exit code of an invocation that fails. -/
def Failure.exitCode : UInt32 := 1

/-- The largest source file that is read, 16 MiB. -/
def maxSourceSize : Nat := 16 * 1024 * 1024

section
variable {m : Type → Type} [Monad m] (host : Host m)

/-- The contents of a source file. Its size is looked at first. -/
def readSource (path : String) : ExceptT Failure m String := do
  match ← host.stat path with
  | .error cause => throw (.message ("Cannot access file '" ++ path ++ "': " ++ cause))
  | .ok size =>
    if maxSourceSize < size then
      throw (.message ("Source file '" ++ path ++ "' is too large (" ++ toString size ++ " bytes, max " ++
        toString maxSourceSize ++ " bytes)"))
    match ← host.read path with
    | .error cause => throw (.message ("Error reading file '" ++ path ++ "': " ++ cause))
    | .ok text => return text

/-- Logs the steps of the parser if that is wanted. -/
def logSteps (options : ParseOptions) (entries : Unit → List Log.Entry) : ExceptT Failure m Unit := do
  if options.trace then host.log (entries ())

/-- Prints the tokens of a source file. -/
def lexFile (path : String) (options : ParseOptions) : ExceptT Failure m Unit := do
  let text ← readSource host path
  logSteps host options fun _ => Log.ofLexing text
  match lex text with
  | .error error => throw (.diagnostic path error.diagnostic)
  | .ok tokens => host.print (Token.dump tokens)

/-- Prints the syntax tree of a source file. -/
def parseFile (path : String) (json : Bool) (options : ParseOptions) : ExceptT Failure m Unit := do
  let text ← readSource host path
  logSteps host options fun _ => Log.ofSource text options
  match parseSource text options with
  | .error error => throw (.diagnostic path error.diagnostic)
  | .ok file => host.print ((if json then file.json else file.outline) ++ "\n")

/-- The IR of a source file. -/
def compileFile (path : String) (options : ParseOptions) : ExceptT Failure m String := do
  let text ← readSource host path
  logSteps host options fun _ => Log.ofSource text options
  match compile text options with
  | .error error => throw (.diagnostic path error.diagnostic)
  | .ok ir => return ir

/-- Compiles a source file, and prints the IR or writes it to a file. -/
def buildFile (path : String) (output : Option Bytes) (options : ParseOptions) : ExceptT Failure m Unit := do
  let ir ← compileFile host path options
  match output with
  | none => host.print ir
  | some output =>
    match ← host.write output ir with
    | .error cause => throw (.message ("Error writing output file '" ++ decode output ++ "': " ++ cause))
    | .ok () =>
      host.log [.event .info "wrote IR" [("output", .text (decode output)), ("bytes", .number ir.utf8ByteSize)]]
      host.print ("✓ Build successful: " ++ decode output ++ "\n")

/-- Does what is asked for: tokens before a tree, and a tree before IR. -/
def execute (invocation : Invocation) : ExceptT Failure m Unit :=
  if invocation.json && invocation.parse.isNone then throw (.message "Error: --json requires --parse <FILE>")
  else
    match invocation.lex, invocation.parse, invocation.build, invocation.file.or invocation.input with
    | some path, _, _, _ => lexFile host (decode path) invocation.options
    | none, some path, _, _ => parseFile host (decode path) invocation.json invocation.options
    | none, none, some build, _ => buildFile host (decode build.file) build.output invocation.options
    | none, none, none, some path => buildFile host (decode path) none invocation.options
    | none, none, none, none => throw (.message "Error: no input file (try `pineapl --help`)")

end

/-- The outcome of an invocation, and the state of the host after it. -/
def Host.run {σ : Type} (host : Host (StateM σ)) (invocation : Invocation) (state : σ) : Except Failure Unit × σ :=
  ((execute host invocation).run).run state

/-! ## A host in memory -/

structure World where
  store : Store
  stdout : String := ""
  log : List Log.Entry := []

namespace World

/-- A query of the store. -/
def ask {α : Type} (query : Store → Except FileError α) : StateM World (Except String α) := do
  return (query (← get).store).mapError FileError.message

def print (text : String) : StateM World Unit :=
  modify fun world => { world with stdout := world.stdout ++ text }

/-- What is written to a printer appears on the standard output. -/
def write (path : Bytes) (contents : String) : StateM World (Except String Unit) := do
  let world ← get
  match world.store.write path contents with
  | .error error => return .error error.message
  | .ok store =>
    set { world with store := store }
    if world.store.find path matches .ok .printer then print contents
    return .ok ()

def host : Host (StateM World) where
  stat := fun path => ask (·.stat (encode path))
  read := fun path => ask (·.read (encode path))
  write := write
  print := print
  log := fun entries => modify fun world => { world with log := world.log ++ entries }

/-- The outcome of an invocation in a world, and the world after it. -/
def run (invocation : Invocation) (world : World) : Except Failure Unit × World :=
  host.run invocation world

end World

end FuncIR.Cli
