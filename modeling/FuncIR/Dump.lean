import FuncIR.Text.Quoted
import FuncIR.Text.Shape
import FuncIR.Tree.Basic

/-!
# Dumps

A dump of tokens shows one of them a line: the name of its kind, its span and its text in quotes, in columns of a
fixed least width. A syntax tree has two printed forms: an outline with the name of each node, and JSON.
-/

/-! ## Columns -/

namespace FuncIR.Text

/-- `text` at the left of a column: a shorter text is filled up with blanks, a longer one is kept whole. -/
def padRight (width : Nat) (text : String) : String :=
  text ++ String.ofList (List.replicate (width - text.length) ' ')

/-- `text` at the right of a column. -/
def padLeft (width : Nat) (text : String) : String :=
  String.ofList (List.replicate (width - text.length) ' ') ++ text

end FuncIR.Text

/-! ## Tokens -/

namespace FuncIR.Token

/-- The line of a dump, without a line feed. -/
def dumpLine (token : Token) : String :=
  Text.padRight 20 token.kind.name ++ " " ++ Text.padLeft 3 (toString token.span.start) ++ ".." ++
    Text.padRight 3 (toString token.span.stop) ++ " " ++ Text.Quoted.ofString token.text

/-- The lines of a token list, each ended by a line feed. -/
def dump (tokens : List Token) : String :=
  String.join (tokens.map fun token => token.dumpLine ++ "\n")

end FuncIR.Token

/-! ## Trees -/

namespace FuncIR

open Text (Dialect FieldLabel Shape)

def Span.shape (span : Span) : Shape :=
  .record "Span" [⟨"start", "start"⟩, ⟨"end", "end"⟩] [.number span.start, .number span.stop]

def Call.shape (call : Call) : Shape :=
  .record "FunctionCall" [⟨"name", "name"⟩, ⟨"span", "span"⟩] [.text call.name, call.span.shape]

def CodeBlock.shape (block : CodeBlock) : Shape :=
  .record "CodeBlock" [⟨"calls", "calls"⟩, ⟨"span", "span"⟩] [.list (block.calls.map Call.shape), block.span.shape]

def Parameter.shape (parameter : Parameter) : Shape :=
  .record "Parameter" [⟨"name", "name"⟩, ⟨"type_name", "type"⟩, ⟨"span", "span"⟩]
    [.text parameter.name, .text parameter.typeName, parameter.span.shape]

def FuncDecl.shape (function : FuncDecl) : Shape :=
  .record "Function" [⟨"name", "name"⟩, ⟨"parameters", "parameters"⟩, ⟨"body", "body"⟩, ⟨"span", "span"⟩]
    [.text function.name, .list (function.parameters.map Parameter.shape), function.body.shape, function.span.shape]

namespace SourceFile

def shape (file : SourceFile) : Shape :=
  .record "File" [⟨"functions", "functions"⟩, ⟨"span", "span"⟩]
    [.list (file.functions.map FuncDecl.shape), file.span.shape]

/-- Records open with their name, and a comma ends each line that holds a whole item. -/
def outlineDialect : Dialect where
  indent := "    "
  closingComma := true
  text := Text.Quoted.ofString
  openRecord := (· ++ " \x7b")
  label := FieldLabel.name

def jsonDialect : Dialect where
  indent := "  "
  closingComma := false
  text := Text.JsonString.ofString
  openRecord := fun _ => "\x7b"
  label := fun label => Text.JsonString.ofString label.key

def outline (file : SourceFile) : String :=
  file.shape.render outlineDialect

def json (file : SourceFile) : String :=
  file.shape.render jsonDialect

end SourceFile

end FuncIR
