import FuncIR.Parser.Basic

/-!
# Reductions of the grammar

How each rule builds its node. A reduction knows the captures that its rule delivers, by tag and sort of
node; any other capture is an error of the grammar, and so is a missing value. Where one value is wanted and
several are captured, the last one counts.
-/

namespace FuncIR

namespace Capture

/-- The text of a token captured under `tag`. -/
def text? (tag : String) (capture : Capture) : Option String :=
  match capture.node with
  | .token token => if capture.tag = tag then some token.text else none
  | _ => none

def parameter? (capture : Capture) : Option Parameter :=
  match capture.node with
  | .parameter parameter => if capture.tag = "parameter" then some parameter else none
  | _ => none

def call? (capture : Capture) : Option Call :=
  match capture.node with
  | .call call => if capture.tag = "call" then some call else none
  | _ => none

def body? (capture : Capture) : Option CodeBlock :=
  match capture.node with
  | .codeBlock block => if capture.tag = "body" then some block else none
  | _ => none

def function? (capture : Capture) : Option FuncDecl :=
  match capture.node with
  | .function function => if capture.tag = "function" then some function else none
  | _ => none

end Capture

namespace Reduction

/-- Accepts captures that `known` holds of, and fails on the first other one. -/
def check (rule : String) (known : Capture → Bool) (captures : List Capture) : Except ParseError Unit :=
  match captures.find? (fun capture => !known capture) with
  | none => .ok ()
  | some stray => .error (.construction ⟨rule, "unexpected " ++ stray.node.describe ++ " tagged `" ++ stray.tag ++ "`"⟩)

/-- The last value, which must exist. -/
def required {α : Type} (rule tag : String) (values : List α) : Except ParseError α :=
  match values.getLast? with
  | some value => .ok value
  | none => .error (.construction ⟨rule, "no `" ++ tag ++ "` value captured"⟩)

def parameter : Reduction := fun span captures => do
  check "parameter" (fun c => (c.text? "name").isSome || (c.text? "type").isSome) captures
  let name ← required "parameter" "name" (captures.filterMap (·.text? "name"))
  let typeName ← required "parameter" "type" (captures.filterMap (·.text? "type"))
  return .parameter ⟨name, typeName, span⟩

def functionCall : Reduction := fun span captures => do
  check "function_call" (fun c => (c.text? "name").isSome) captures
  let name ← required "function_call" "name" (captures.filterMap (·.text? "name"))
  return .call ⟨name, span⟩

def codeBlock : Reduction := fun span captures => do
  check "code_block" (fun c => c.call?.isSome) captures
  return .codeBlock ⟨captures.filterMap Capture.call?, span⟩

def function : Reduction := fun span captures => do
  check "function" (fun c => (c.text? "name").isSome || c.parameter?.isSome || c.body?.isSome) captures
  let name ← required "function" "name" (captures.filterMap (·.text? "name"))
  let body ← required "function" "body" (captures.filterMap Capture.body?)
  return .function ⟨name, captures.filterMap Capture.parameter?, body, span⟩

def file : Reduction := fun span captures => do
  check "file" (fun c => c.function?.isSome) captures
  return .file ⟨captures.filterMap Capture.function?, span⟩

end Reduction

end FuncIR
