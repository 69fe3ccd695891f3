import FuncIR.Grammar.Rules
import FuncIR.IR.Lowering
import FuncIR.Token.Lexer

/-!
# The compiler

From a source text to its tree (`parseSource`) and to its IR (`compile`). The first stage that fails ends the
work.
-/

namespace FuncIR

/-- A source text that has no tree. -/
inductive SourceError where
  | lex (error : LexError)
  | parse (error : ParseError)
  deriving DecidableEq, Repr

inductive CompileError where
  | source (error : SourceError)
  | lowering (error : UnsupportedType)
  deriving DecidableEq, Repr

namespace SourceError

/-- The stage that failed. -/
def stage : SourceError → String
  | lex _ => "lex"
  | parse _ => "parse"

def diagnostic : SourceError → Diagnostic
  | lex error => error.diagnostic
  | parse error => error.diagnostic

end SourceError

namespace CompileError

/-- The stage that failed. -/
def stage : CompileError → String
  | source error => error.stage
  | lowering _ => "codegen"

def diagnostic : CompileError → Diagnostic
  | source error => error.diagnostic
  | lowering error => error.diagnostic

end CompileError

/-- The tree of a source text. -/
def parseSource (text : String) (options : ParseOptions) : Except SourceError SourceFile := do
  let tokens ← (lex text).mapError .lex
  (parseTokens tokens options).mapError .parse

theorem parseSource_of_lex {text : String} {tokens : List Token} (h : lex text = .ok tokens) (options : ParseOptions) :
    parseSource text options = (parseTokens tokens options).mapError .parse := by
  rw [parseSource, h]
  rfl

/-- The IR of a source text. -/
def compile (text : String) (options : ParseOptions) : Except CompileError String := do
  let file ← (parseSource text options).mapError .source
  file.toIR.mapError .lowering

theorem compile_of_parseSource {text : String} {options : ParseOptions} {file : SourceFile}
    (h : parseSource text options = .ok file) : compile text options = file.toIR.mapError .lowering := by
  rw [compile, h]
  rfl

end FuncIR
