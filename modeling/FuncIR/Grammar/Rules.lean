import FuncIR.Grammar.Reduction
import FuncIR.Parser.Options
import FuncIR.Parser.Run

/-!
# The grammar

    file         := (function | blank)* eof       in a spaced layout
                  | function* eof                 in a strict layout
    function     := func blank identifier "(" blank? parameter* ")" blank? codeBlock
    parameter    := blank? identifier blank identifier ","
    codeBlock    := "{" blank? functionCall? blank? "}"
    functionCall := identifier "(" ")"

`parseTokens` reads a token list as a file.
-/

namespace FuncIR

open FuncIR.Parser (expect inOrder anyOf upTo)

inductive Rule where
  | parameter
  | functionCall
  | codeBlock
  | function
  | file (layout : Layout)
  deriving DecidableEq, Repr

namespace Rule

/-- The comma is wanted after every parameter, also after the last one. -/
def parameterParser : Parser :=
  (inOrder [
    (expect .whitespace).optional,
    (expect .identifier).withTag "name",
    expect .whitespace,
    (expect .identifier).withTag "type",
    expect .comma]).withReduction Reduction.parameter |>.withLabel "parameter"

def functionCallParser : Parser :=
  (inOrder [
    (expect .identifier).withTag "name",
    expect .roundOpen,
    expect .roundClose]).withReduction Reduction.functionCall |>.withLabel "function_call"

def codeBlockParser : Parser :=
  (inOrder [
    expect .curlyOpen,
    (expect .whitespace).optional,
    functionCallParser.optional.withTag "call",
    (expect .whitespace).optional,
    expect .curlyClose]).withReduction Reduction.codeBlock |>.withLabel "code_block"

def functionParser : Parser :=
  (inOrder [
    expect .keywordFunc,
    expect .whitespace,
    (expect .identifier).withTag "name",
    expect .roundOpen,
    (expect .whitespace).optional,
    parameterParser.many.withTag "parameter",
    expect .roundClose,
    (expect .whitespace).optional,
    codeBlockParser.withTag "body"]).withReduction Reduction.function |>.withLabel "function"

/-- What may stand at the top level. -/
def itemParser : Layout → Parser
  | .spaced => (anyOf [functionParser.withTag "function", expect .whitespace]).withLabel "item"
  | .strict => functionParser.withTag "function"

def fileParser (layout : Layout) : Parser :=
  (upTo .eof (itemParser layout)).withReduction Reduction.file |>.withLabel "file"

def parser : Rule → Parser
  | parameter => parameterParser
  | functionCall => functionCallParser
  | codeBlock => codeBlockParser
  | function => functionParser
  | file layout => fileParser layout

end Rule

/-- The parser of a whole file for each layout. -/
abbrev Grammar := Layout → Parser

namespace Grammar

def standard : Grammar := Rule.fileParser

/-- The run of a grammar on a token list. -/
def run (grammar : Grammar) (tokens : List Token) (options : ParseOptions) : Parser.Outcome :=
  (grammar options.layout).parse (.ofList tokens) options.alternation

end Grammar

/-- The file that a parser built; any other value is an error of the grammar. -/
def Parser.Outcome.file (outcome : Parser.Outcome) : Except ParseError SourceFile :=
  match outcome.result with
  | .error error => .error error
  | .ok parsed =>
    match parsed.node with
    | some (.file file) => .ok file
    | some other => .error (.construction ⟨"file", "rule produced a " ++ other.describe⟩)
    | none => .error (.construction ⟨"file", "rule produced no value"⟩)

/-- The tree of a token list. -/
def parseTokens (tokens : List Token) (options : ParseOptions) : Except ParseError SourceFile :=
  (Grammar.standard.run tokens options).file

end FuncIR
