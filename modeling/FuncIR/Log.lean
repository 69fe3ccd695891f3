import FuncIR.Compile

/-!
# The log of a compilation

What the stages tell while they work, in order: a span around each stage and events inside it. A stage that
fails still closes its span, and no later stage appears.
-/

namespace FuncIR.Log

inductive Level where
  | info
  | debug
  | trace
  deriving DecidableEq, Repr

def Level.name : Level → String
  | info => "INFO"
  | debug => "DEBUG"
  | trace => "TRACE"

inductive Value where
  | number (value : Nat)
  | text (value : String)
  deriving DecidableEq, Repr

abbrev Fields := List (String × Value)

inductive Entry where
  | span (name : String) (level : Level) (fields : Fields)
  | event (level : Level) (message : String) (fields : Fields)
  | close (name : String)
  deriving DecidableEq, Repr

def Value.toText : Value → String
  | number value => toString value
  | text value => value

/-- The line that shows an event; a span has none. -/
def Entry.line? : Entry → Option String
  | .event level message fields =>
    some (String.intercalate " "
      (level.name :: message :: fields.map fun (key, value) => key ++ "=" ++ value.toText))
  | .span _ _ _ | .close _ => none

/-- The entries of a stage, between its opening and its close. -/
def stage (name : String) (fields : Fields) (inner : List Entry) : List Entry :=
  .span name .info fields :: inner ++ [.close name]

def ofLexing (text : String) : List Entry :=
  stage "lex" [("source_len", .number text.utf8ByteSize)]
    (match lex text with
    | .ok tokens => [.event .debug "lexed source" [("token_count", .number tokens.length)]]
    | .error _ => [])

/-- A message on a parser, indented by the depth of the parser. -/
def parserMessage (depth : Nat) (label rest : String) : String :=
  String.join (List.replicate depth "  ") ++ "[" ++ label ++ "] " ++ rest

/-- The entry for an event of the parser. Without `steps`, only failed alternatives are told. -/
def ofEvent? (steps : Bool) : Parser.Event → Option Entry
  | .rejected index consumed =>
    some (.event .trace "alternative failed" [("index", .number index), ("consumed", .number consumed)])
  | .enter depth label token =>
    if steps then
      some (.event .trace (parserMessage depth label ("enter at " ++ token.kind.name))
        [("depth", .number depth), ("offset", .number token.span.start)])
    else none
  | .matched depth label consumed =>
    if steps then
      some (.event .trace (parserMessage depth label "matched")
        [("depth", .number depth), ("consumed", .number consumed)])
    else none
  | .skipped depth label =>
    if steps then some (.event .trace (parserMessage depth label "skipped") [("depth", .number depth)]) else none
  | .failed depth label error =>
    if steps then
      some (.event .trace (parserMessage depth label ("failed: " ++ error.message)) [("depth", .number depth)])
    else none

/-- The entries for the run of a parser. -/
def ofEvents (steps : Bool) (events : List Parser.Event) : List Entry :=
  events.filterMap (ofEvent? steps)

def ofParsing (tokens : List Token) (options : ParseOptions) : List Entry :=
  let outcome := Grammar.standard.run tokens options
  let fields := [("token_count", Value.number tokens.length), ("alternation", .text options.alternation.name),
    ("top_level", .text options.layout.name)]
  stage "parse_with" fields
    (ofEvents options.trace outcome.events ++
      match outcome.file with
      | .ok file => [.event .debug "parsed file" [("functions", .number file.functions.length)]]
      | .error _ => [])

def ofFunction (function : FuncDecl) : Entry :=
  .event .debug "emitting function"
    [("function", .text function.name), ("parameters", .number function.parameters.length)]

/-- The functions up to the first that cannot be lowered, and that one. -/
def attempted : List FuncDecl → List FuncDecl
  | [] => []
  | function :: functions => function :: if function.lower.isOk then attempted functions else []

def ofLowering (file : SourceFile) : List Entry :=
  stage "generate" [("functions", .number file.functions.length)] ((attempted file.functions).map ofFunction)

/-- The log of `parseSource`. -/
def ofSource (text : String) (options : ParseOptions) : List Entry :=
  ofLexing text ++
    match lex text with
    | .ok tokens => ofParsing tokens options
    | .error _ => []

/-- The log of `compile`. -/
def ofCompiling (text : String) (options : ParseOptions) : List Entry :=
  ofSource text options ++
    match parseSource text options with
    | .ok file => ofLowering file
    | .error _ => []

end FuncIR.Log
