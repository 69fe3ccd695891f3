import FuncIR.Text.Indented
import FuncIR.Tree.Basic

/-!
# Lowering

The IR text of a syntax tree: one definition for each function, in order, with a blank line between two of
them. The only error is a parameter whose type has no counterpart; the first such parameter is reported.
-/

namespace FuncIR

/-! ## Types -/

/-- The types that a parameter can have. -/
inductive IRType where
  | i1
  | i32
  | float
  deriving DecidableEq, Repr, Inhabited

namespace IRType

def name : IRType → String
  | i1 => "i1"
  | i32 => "i32"
  | float => "float"

def constructorName : IRType → String
  | i1 => "I1"
  | i32 => "I32"
  | float => "Float"

/-- The type that a source calls by this name; case matters. -/
def ofSourceName? (name : String) : Option IRType :=
  if name = "Bool" then some i1
  else if name = "Int" then some i32
  else if name = "Float" then some float
  else none

end IRType

/-! ## Definitions -/

/-- A parameter whose type name stands for no type of the IR. -/
structure UnsupportedType where
  parameter : Parameter
  /-- The function that has the parameter. -/
  function : String
  deriving DecidableEq, Repr

namespace UnsupportedType

def message (error : UnsupportedType) : String :=
  "unsupported type `" ++ error.parameter.typeName ++ "` for parameter `" ++ error.parameter.name ++
    "` of function `" ++ error.function ++ "`"

def diagnostic (error : UnsupportedType) : Diagnostic where
  code := "pineapl::codegen::unsupported_type"
  message := error.message
  help := some "supported parameter types are Bool, Int and Float"
  labels := [⟨"no IR type for this parameter", error.parameter.span.start, error.parameter.span.length⟩]

end UnsupportedType

open Text.Indented (Step)

/-- A parameter with its type, as in the head of a definition. -/
def Parameter.lower (function : String) (parameter : Parameter) : Except UnsupportedType String :=
  match IRType.ofSourceName? parameter.typeName with
  | some type => .ok (type.name ++ " %" ++ parameter.name)
  | none => .error ⟨parameter, function⟩

def Call.lower (call : Call) : Step :=
  .line ("call void @" ++ call.name ++ "()")

/-- The definition of a function: the calls of its body, then a return. -/
def FuncDecl.lower (function : FuncDecl) : Except UnsupportedType Step := do
  let parameters ← function.parameters.mapM (·.lower function.name)
  let header := "define void @" ++ function.name ++ "(" ++ String.intercalate ", " parameters ++ ")"
  return .block header (.label "entry" :: function.body.calls.map Call.lower ++ [.line "ret void"])

def SourceFile.toIR (file : SourceFile) : Except UnsupportedType String := do
  let definitions ← file.functions.mapM FuncDecl.lower
  return Text.renderSteps (definitions.intersperse .blank)

end FuncIR
