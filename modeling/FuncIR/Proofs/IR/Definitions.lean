import FuncIR.IR.Lowering
import FuncIR.Proofs.Grammar.Words

/-!
# The IR of an outline

What a function says decides its IR: `Outline.definition` is the text of its definition, and `Outline.unsupported?` its
first parameter whose type has no counterpart. Lowering a file gives the definitions of its functions with a blank line
between two of them, or reports the first unsupported parameter (`toIR_eq`).
-/

namespace FuncIR

/-- The types of parameters, each with its name in the IR. -/
def irTypes : List (String × String) :=
  [("Bool", "i1"), ("Int", "i32"), ("Float", "float")]

namespace Outline

/-- A parameter in the head of a definition. -/
def irParameter (parameter : String × String) : String :=
  (irTypes.lookup parameter.2).getD "" ++ " %" ++ parameter.1

/-- The definition of a function: a block with one label, its calls, and a return. -/
def definition (outline : Outline) : String :=
  "define void @" ++ outline.name ++ "(" ++ String.intercalate ", " (outline.parameters.map irParameter) ++ ")" ++
    " \x7b\n" ++ "entry:\n" ++ String.join (outline.calls.map fun name => "  call void @" ++ name ++ "()\n") ++
    "  ret void\n" ++ "\x7d\n"

/-- The name of the function, and the name and type of its first parameter whose type has no counterpart. -/
def unsupported? (outline : Outline) : Option (String × String × String) :=
  outline.parameters.findSome? fun (name, type) =>
    if (irTypes.lookup type).isNone then some (outline.name, name, type) else none

/-- The definitions of functions, with a blank line between two of them. -/
def irText (outlines : List Outline) : String :=
  String.intercalate "\n" (outlines.map definition)

end Outline

/-! ## Writing -/

namespace Text.Indented

/-- At the outermost level the step adds this text. -/
def Writes (step : Step) (text : String) : Prop :=
  ∀ before, write ⟨before, 0⟩ step = ⟨before ++ text, 0⟩

theorem writeAll_calls (calls : List Call) (steps : List Step) (text : String) :
    writeAll ⟨text, 1⟩ (calls.map Call.lower ++ steps) =
      writeAll ⟨text ++ String.join ((calls.map (·.name)).map fun name => "  call void @" ++ name ++ "()\n"), 1⟩
        steps := by
  induction calls generalizing text with
  | nil => simp
  | cons call calls ih =>
    have call_eq : margin 1 ++ "call void @" = "  call void @" := by decide
    rw [List.map_cons, List.cons_append, writeAll, Call.lower, write, line, ih]
    simp [String.append_assoc, ← call_eq]

/-- The text of a block with one label, calls and a return. -/
theorem write_definition (header : String) (calls : List Call) (before : String) :
    write ⟨before, 0⟩ (.block header (.label "entry" :: calls.map Call.lower ++ [.line "ret void"])) =
      ⟨before ++ (header ++ " \x7b\n" ++ "entry:\n" ++
        String.join ((calls.map (·.name)).map fun name => "  call void @" ++ name ++ "()\n") ++ "  ret void\n" ++
        "\x7d\n"), 0⟩ := by
  rw [write, openBlock, line, indent, List.cons_append, writeAll, write, label, writeAll_calls, writeAll, writeAll,
    write, line, closeBlock, dedent, line]
  generalize String.join _ = written
  -- The two sides cut the same characters into different literals.
  refine congrArg (Indented.mk · 0) (String.toList_inj.1 ?_)
  simp only [String.toList_append, List.append_assoc]
  rfl

theorem writeAll_intersperse {α : Type} {step : α → Step} {text : α → String} (h : ∀ x, Writes (step x) (text x))
    (l : List α) (before : String) :
    writeAll ⟨before, 0⟩ ((l.map step).intersperse .blank) = ⟨before ++ String.intercalate "\n" (l.map text), 0⟩ := by
  induction l generalizing before with
  | nil => simp [writeAll]
  | cons x l ih =>
    cases l with
    | nil => simp [writeAll, h x before]
    | cons y l =>
      rw [List.map_cons, List.map_cons] at *
      rw [List.intersperse_cons_cons, writeAll, writeAll, h x before, write, blank, ih, List.map_cons, List.map_cons,
        String.intercalate_cons_cons]
      simp only [String.append_assoc]

end Text.Indented

open Text.Indented

/-! ## Lowering -/

/-- A list is mapped as a whole, unless the mapping fails on an element: then it fails as on the first such one. -/
theorem mapM_eq_elim {ε α β : Type} {f : α → Except ε β} {bad : α → Option ε} {good : α → β}
    (h : ∀ x, f x = (bad x).elim (.ok (good x)) .error) (l : List α) :
    l.mapM f = (l.findSome? bad).elim (.ok (l.map good)) .error := by
  induction l with
  | nil => rfl
  | cons x l ih =>
    rw [List.mapM_cons, h x, ih, List.findSome?_cons]
    cases bad x with
    | some e => rfl
    | none => cases l.findSome? bad <;> rfl

def Parameter.unsupported? (function : String) (parameter : Parameter) : Option UnsupportedType :=
  if (irTypes.lookup parameter.typeName).isNone then some ⟨parameter, function⟩ else none

def FuncDecl.unsupported? (function : FuncDecl) : Option UnsupportedType :=
  function.parameters.findSome? (·.unsupported? function.name)

theorem lookup_irTypes (name : String) : irTypes.lookup name = (IRType.ofSourceName? name).map (·.name) := by
  unfold IRType.ofSourceName? irTypes
  by_cases hb : name = "Bool"
  · subst hb; rfl
  by_cases hi : name = "Int"
  · subst hi; rfl
  by_cases hf : name = "Float"
  · subst hf; rfl
  simp only [List.lookup_cons, List.lookup_nil, beq_false_of_ne hb, beq_false_of_ne hi, beq_false_of_ne hf, hb, hi, hf,
    if_false, Option.map_none]

theorem Parameter.unsupported?_eq_none_iff {function : String} {parameter : Parameter} :
    parameter.unsupported? function = none ↔ IRType.ofSourceName? parameter.typeName ≠ none := by
  unfold unsupported?
  rw [lookup_irTypes]
  cases IRType.ofSourceName? parameter.typeName <;> simp

theorem Parameter.unsupported?_eq_some_iff {function : String} {parameter : Parameter} {error : UnsupportedType} :
    parameter.unsupported? function = some error ↔
      IRType.ofSourceName? parameter.typeName = none ∧ error = ⟨parameter, function⟩ := by
  unfold unsupported?
  rw [lookup_irTypes]
  cases IRType.ofSourceName? parameter.typeName <;> simp [eq_comm]

theorem Parameter.lower_eq (function : String) (parameter : Parameter) : parameter.lower function =
    (parameter.unsupported? function).elim (.ok (Outline.irParameter (parameter.name, parameter.typeName))) .error := by
  unfold lower unsupported? Outline.irParameter
  dsimp only
  rw [lookup_irTypes]
  cases IRType.ofSourceName? parameter.typeName <;> simp

/-- The step that writes a definition. -/
def FuncDecl.step (function : FuncDecl) : Step :=
  .block ("define void @" ++ function.name ++ "(" ++
      String.intercalate ", " (function.outline.parameters.map Outline.irParameter) ++ ")")
    (.label "entry" :: function.body.calls.map Call.lower ++ [.line "ret void"])

theorem FuncDecl.lower_eq (function : FuncDecl) :
    function.lower = function.unsupported?.elim (.ok function.step) .error := by
  rw [lower, mapM_eq_elim (Parameter.lower_eq function.name), unsupported?]
  cases function.parameters.findSome? (·.unsupported? function.name) with
  | some e => rfl
  | none =>
    simp only [step, outline, List.map_map, Function.comp_def]
    rfl

theorem FuncDecl.writes_step (function : FuncDecl) : Writes function.step function.outline.definition :=
  fun before => write_definition _ function.body.calls before

/-- A file is lowered to the definitions of its functions, unless a parameter has no counterpart. -/
theorem toIR_eq (file : SourceFile) : file.toIR = (file.functions.findSome? FuncDecl.unsupported?).elim
    (.ok (Outline.irText (file.functions.map FuncDecl.outline))) .error := by
  rw [SourceFile.toIR, mapM_eq_elim FuncDecl.lower_eq]
  cases file.functions.findSome? FuncDecl.unsupported? with
  | some e => rfl
  | none =>
    have written := writeAll_intersperse FuncDecl.writes_step file.functions ""
    rw [String.empty_append] at written
    simp only [Option.elim, bind, Except.bind, pure, Except.pure, Text.renderSteps, Outline.irText, List.map_map,
      Function.comp_def]
    rw [written]

/-- Two functions, where the first calls the second. -/
example : Outline.irText [⟨"f", [("a", "Int"), ("b", "Float")], ["g"]⟩, ⟨"g", [], []⟩] =
    "define void @f(i32 %a, float %b) \x7b\nentry:\n  call void @g()\n  ret void\n\x7d\n\n" ++
      "define void @g() \x7b\nentry:\n  ret void\n\x7d\n" := by decide

/-- The first unsupported parameter, as outlines have it. -/
theorem findSome?_outline (functions : List FuncDecl) :
    (functions.map FuncDecl.outline).findSome? Outline.unsupported? =
      (functions.findSome? FuncDecl.unsupported?).map fun e =>
        (e.function, e.parameter.name, e.parameter.typeName) := by
  have each : ∀ function : FuncDecl, function.outline.unsupported? =
      function.unsupported?.map fun e => (e.function, e.parameter.name, e.parameter.typeName) := by
    intro function
    rw [Outline.unsupported?, FuncDecl.unsupported?, List.map_findSome?, FuncDecl.outline, List.findSome?_map]
    congr 1
    funext parameter
    simp only [Function.comp, Parameter.unsupported?]
    split <;> rfl
  rw [List.findSome?_map, List.map_findSome?]
  congr 1
  funext function
  exact each function

end FuncIR
