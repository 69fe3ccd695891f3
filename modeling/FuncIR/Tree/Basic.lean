import FuncIR.Token.Basic

/-!
# Syntax trees

The tree of a source file. Each node but a token has the span of the tokens that it was built from, and its
lists are in source order. Type names are not looked up here.
-/

namespace FuncIR

/-- A call without arguments, `name()`. -/
structure Call where
  name : String
  span : Span
  deriving DecidableEq, Repr, Inhabited

/-- The calls between the braces of a function. -/
structure CodeBlock where
  calls : List Call
  span : Span
  deriving DecidableEq, Repr, Inhabited

structure Parameter where
  name : String
  typeName : String
  span : Span
  deriving DecidableEq, Repr, Inhabited

structure FuncDecl where
  name : String
  parameters : List Parameter
  body : CodeBlock
  span : Span
  deriving DecidableEq, Repr, Inhabited

structure SourceFile where
  functions : List FuncDecl
  span : Span
  deriving DecidableEq, Repr, Inhabited

/-- What a parser can build. -/
inductive SyntaxNode where
  | token (token : Token)
  | function (function : FuncDecl)
  | parameter (parameter : Parameter)
  | file (file : SourceFile)
  | codeBlock (block : CodeBlock)
  | call (call : Call)
  deriving DecidableEq, Repr

/-- The words that name a node in a diagnostic. -/
def SyntaxNode.describe : SyntaxNode → String
  | token _ => "token"
  | function _ => "function"
  | parameter _ => "parameter"
  | file _ => "file"
  | codeBlock _ => "code block"
  | call _ => "function call"

end FuncIR
