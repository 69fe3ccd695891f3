import FuncIR.Proofs.IR.Definitions

/-!
# Lowering part by part

A file is lowered function by function to one text that stays at the outermost level (`toIR_eq_foldlM`): what is there
when some functions are done is the IR of these functions, and whether there is anything decides on the blank line
before the next one. So the IR of a file in two parts is that of the parts, with a blank line in between, or the error
of the first part that has one (`toIR_composes`).
-/

namespace FuncIR

open Text (Indented)

/-! ## The IR of some functions -/

namespace Outline

/-- A definition ends with its closing brace. -/
theorem exists_definition_eq (outline : Outline) : ∃ text, outline.definition = text ++ "\x7d\n" :=
  ⟨_, rfl⟩

theorem irText_singleton (outline : Outline) : irText [outline] = outline.definition :=
  String.intercalate_singleton

theorem irText_append {outlines others : List Outline} (h : outlines ≠ []) (ho : others ≠ []) :
    irText (outlines ++ others) = irText outlines ++ "\n" ++ irText others := by
  have texts {l : List Outline} (hl : l ≠ []) : l.map definition ≠ [] := by simpa using hl
  rw [irText, List.map_append, String.intercalate_append_of_ne_nil (texts h) (texts ho)]
  rfl

/-- The IR of something ends with a line break. -/
theorem exists_irText_eq {outlines : List Outline} (h : outlines ≠ []) : ∃ text, irText outlines = text ++ "\n" := by
  obtain ⟨others, last, rfl⟩ := (List.eq_nil_or_concat outlines).resolve_left h
  obtain ⟨text, ht⟩ := last.exists_definition_eq
  have brace : "\x7d\n" = "\x7d" ++ "\n" := by decide
  rw [List.concat_eq_append]
  by_cases ho : others = []
  · refine ⟨text ++ "\x7d", ?_⟩
    rw [ho, List.nil_append, irText_singleton, ht, brace, String.append_assoc]
  · refine ⟨irText others ++ "\n" ++ (text ++ "\x7d"), ?_⟩
    rw [irText_append ho (by simp), irText_singleton, ht, brace]
    simp only [String.append_assoc]

/-- There is no IR only if there is nothing to define. -/
theorem isEmpty_irText (outlines : List Outline) : (irText outlines).isEmpty = outlines.isEmpty := by
  by_cases h : outlines = []
  · rw [h]
    rfl
  · obtain ⟨text, ht⟩ := exists_irText_eq h
    rw [ht, List.isEmpty_eq_false_iff.2 h]
    simp

end Outline

/-! ## One function after the other -/

/-- Writes the definition of a function behind what there is, with a blank line in between. -/
def Text.Indented.addFunction (written : Indented) (function : FuncDecl) : Except UnsupportedType Indented := do
  let definition ← function.lower
  return (if written.isEmpty then written else written.blank).write definition

namespace Text.Indented

/-- The IR of functions, at the outermost level. -/
def ofFunctions (functions : List FuncDecl) : Indented :=
  ⟨Outline.irText (functions.map FuncDecl.outline), 0⟩

theorem addFunction_eq (done : List FuncDecl) (function : FuncDecl) :
    (ofFunctions done).addFunction function =
      function.unsupported?.elim (.ok (ofFunctions (done ++ [function]))) .error := by
  have written : (if (ofFunctions done).isEmpty then ofFunctions done else (ofFunctions done).blank).write
      function.step = ofFunctions (done ++ [function]) := by
    have first : (ofFunctions done).isEmpty = done.isEmpty :=
      (Outline.isEmpty_irText _).trans List.isEmpty_map
    rw [first]
    -- A blank line stands before every definition but the first.
    by_cases h : done = []
    · subst h
      have := function.writes_step ""
      simpa [ofFunctions, Outline.irText] using this
    · have := function.writes_step (Outline.irText (done.map FuncDecl.outline) ++ "\n")
      rw [List.isEmpty_eq_false_iff.2 h, if_neg Bool.false_ne_true, ofFunctions, blank, this, ofFunctions,
        List.map_append, Outline.irText_append (by simpa using h) (by simp), List.map_singleton,
        Outline.irText_singleton]
  rw [addFunction, FuncDecl.lower_eq]
  cases function.unsupported? with
  | some e => rfl
  | none => exact congrArg Except.ok written

/-- Functions behind those that are done. -/
theorem foldlM_addFunction (done functions : List FuncDecl) :
    functions.foldlM addFunction (ofFunctions done) =
      (functions.findSome? FuncDecl.unsupported?).elim (.ok (ofFunctions (done ++ functions))) .error := by
  induction functions generalizing done with
  | nil => simp [pure, Except.pure]
  | cons function functions ih =>
    rw [List.foldlM_cons, addFunction_eq, List.findSome?_cons]
    cases function.unsupported? with
    | some e => rfl
    | none => simpa [bind, Except.bind] using ih (done ++ [function])

end Text.Indented

/-- A file is lowered by adding its functions one after the other to an empty text. -/
theorem toIR_eq_foldlM (file : SourceFile) :
    file.toIR = (file.functions.foldlM Indented.addFunction {}).map (·.text) := by
  have all := Indented.foldlM_addFunction [] file.functions
  rw [toIR_eq, show ({} : Indented) = Indented.ofFunctions [] from rfl, all]
  cases file.functions.findSome? FuncDecl.unsupported? <;> rfl

/-! ## The first unsupported parameter -/

/-- The type of the parameter is one that the IR has. -/
def Parameter.Supported (parameter : Parameter) : Prop :=
  parameter.typeName ∈ ["Bool", "Int", "Float"]

theorem Parameter.supported_iff {parameter : Parameter} :
    parameter.Supported ↔ IRType.ofSourceName? parameter.typeName ≠ none := by
  unfold Supported IRType.ofSourceName?
  split_ifs <;> simp_all

/-- The error is about the first parameter that is not supported: all those of the functions before are, and all those
before it in its own function. -/
def UnsupportedType.FirstIn (functions : List FuncDecl) (error : UnsupportedType) : Prop :=
  ∃ earlier function later before after, functions = earlier ++ function :: later ∧
    function.parameters = before ++ error.parameter :: after ∧ error.function = function.name ∧
      ¬ error.parameter.Supported ∧ (∀ parameter ∈ before, parameter.Supported) ∧
        ∀ other ∈ earlier, ∀ parameter ∈ other.parameters, parameter.Supported

theorem FuncDecl.unsupported?_eq_none_iff {function : FuncDecl} :
    function.unsupported? = none ↔ ∀ parameter ∈ function.parameters, parameter.Supported := by
  simp only [unsupported?, List.findSome?_eq_none_iff, Parameter.unsupported?_eq_none_iff, Parameter.supported_iff]

theorem firstIn_iff {functions : List FuncDecl} {error : UnsupportedType} :
    error.FirstIn functions ↔ functions.findSome? FuncDecl.unsupported? = some error := by
  constructor
  · rintro ⟨earlier, function, later, before, after, rfl, hp, hf, unsupported, before_ok, earlier_ok⟩
    refine List.findSome?_eq_some_iff.2 ⟨earlier, function, later, rfl, ?_, fun other ho => ?_⟩
    · refine List.findSome?_eq_some_iff.2 ⟨before, error.parameter, after, hp, ?_, fun parameter hb => ?_⟩
      · refine Parameter.unsupported?_eq_some_iff.2 ⟨?_, by rw [← hf]⟩
        simpa [Parameter.supported_iff] using unsupported
      · exact Parameter.unsupported?_eq_none_iff.2 (Parameter.supported_iff.1 (before_ok parameter hb))
    · exact FuncDecl.unsupported?_eq_none_iff.2 (earlier_ok other ho)
  · intro h
    obtain ⟨earlier, function, later, rfl, hu, earlier_ok⟩ := List.findSome?_eq_some_iff.1 h
    obtain ⟨before, parameter, after, hp, hu, before_ok⟩ := List.findSome?_eq_some_iff.1 hu
    obtain ⟨unsupported, rfl⟩ := Parameter.unsupported?_eq_some_iff.1 hu
    refine ⟨earlier, function, later, before, after, rfl, hp, rfl, ?_, fun other hb => ?_, fun other ho => ?_⟩
    · simpa [Parameter.supported_iff] using unsupported
    · exact Parameter.supported_iff.2 (Parameter.unsupported?_eq_none_iff.1 (before_ok other hb))
    · exact FuncDecl.unsupported?_eq_none_iff.1 (earlier_ok other ho)

/-! ## Two parts -/

namespace Text.Indented

theorem text_ofFunctions_append (functions others : List FuncDecl) :
    (ofFunctions (functions ++ others)).text =
      if functions = [] ∨ others = [] then (ofFunctions functions).text ++ (ofFunctions others).text
      else (ofFunctions functions).text ++ "\n" ++ (ofFunctions others).text := by
  split
  · rename_i h
    rcases h with rfl | rfl <;> simp [ofFunctions, Outline.irText]
  · rename_i h
    obtain ⟨hf, ho⟩ := not_or.1 h
    simp only [ofFunctions, List.map_append]
    exact Outline.irText_append (by simpa using hf) (by simpa using ho)

end Text.Indented

theorem toIR_eq_error_iff {file : SourceFile} {error : UnsupportedType} :
    file.toIR = .error error ↔ error.FirstIn file.functions := by
  rw [toIR_eq, firstIn_iff]
  cases file.functions.findSome? FuncDecl.unsupported? <;> simp

theorem exists_toIR_error_iff {file : SourceFile} : (∃ error, file.toIR = .error error) ↔
    ∃ function ∈ file.functions, ∃ parameter ∈ function.parameters, ¬ parameter.Supported := by
  constructor
  · rintro ⟨error, h⟩
    obtain ⟨earlier, function, later, before, after, hf, hp, -, unsupported, -⟩ := toIR_eq_error_iff.1 h
    exact ⟨function, by simp [hf], error.parameter, by simp [hp], unsupported⟩
  · rintro ⟨function, hf, parameter, hp, unsupported⟩
    cases hu : file.functions.findSome? FuncDecl.unsupported? with
    | some error => exact ⟨error, toIR_eq_error_iff.2 (firstIn_iff.2 hu)⟩
    | none =>
      have supported := FuncDecl.unsupported?_eq_none_iff.1 (List.findSome?_eq_none_iff.1 hu function hf)
      exact absurd (supported parameter hp) unsupported

theorem toIR_ends {file : SourceFile} {text : String} (h : file.toIR = .ok text) (hf : file.functions ≠ []) :
    ∃ lines, text = lines ++ "\n" := by
  rw [toIR_eq] at h
  cases hu : file.functions.findSome? FuncDecl.unsupported? with
  | some error =>
    rw [hu] at h
    cases h
  | none =>
    rw [hu] at h
    cases h
    exact Outline.exists_irText_eq (by simpa using hf)

/-- The IR of a file in two parts is that of the parts, with a line break in between if there is something in both of
them; if a part has no IR, the error is that of the first such part. A file has no IR exactly if some parameter is not
supported, and the error is about the first one. IR of any function ends with a line break. -/
theorem toIR_composes (functions others : List FuncDecl) (span here there : Span) :
    SourceFile.toIR ⟨functions ++ others, span⟩ =
        (match SourceFile.toIR ⟨functions, here⟩, SourceFile.toIR ⟨others, there⟩ with
        | .error error, _ => .error error
        | .ok _, .error error => .error error
        | .ok text, .ok more => .ok (if functions = [] ∨ others = [] then text ++ more else text ++ "\n" ++ more)) ∧
      (∀ error, SourceFile.toIR ⟨functions, here⟩ = .error error ↔ error.FirstIn functions) ∧
      ((∃ error, SourceFile.toIR ⟨functions, here⟩ = .error error) ↔
        ∃ function ∈ functions, ∃ parameter ∈ function.parameters, ¬ parameter.Supported) ∧
      ∀ text, SourceFile.toIR ⟨functions, here⟩ = .ok text → functions ≠ [] → ∃ lines, text = lines ++ "\n" := by
  refine ⟨?_, fun _ => toIR_eq_error_iff, exists_toIR_error_iff, fun _ => toIR_ends⟩
  have first := Indented.foldlM_addFunction [] functions
  have second := Indented.foldlM_addFunction functions others
  rw [toIR_eq_foldlM, toIR_eq ⟨functions, here⟩, toIR_eq ⟨others, there⟩, List.foldlM_append,
    show ({} : Indented) = Indented.ofFunctions [] from rfl, first]
  cases functions.findSome? FuncDecl.unsupported? with
  | some error => rfl
  | none =>
    change (others.foldlM Indented.addFunction (Indented.ofFunctions functions)).map (·.text) = _
    rw [second]
    cases others.findSome? FuncDecl.unsupported? with
    | some error => rfl
    | none => exact congrArg Except.ok (Indented.text_ofFunctions_append functions others)

/-- A function without parameters and calls. -/
def idle (name : String) : FuncDecl :=
  ⟨name, [], ⟨[], ⟨0, 0⟩⟩, ⟨0, 0⟩⟩

/-- Two such functions. -/
theorem toIR_composes_idle :
    SourceFile.toIR ⟨[idle "f"], ⟨0, 0⟩⟩ = .ok "define void @f() \x7b\nentry:\n  ret void\n\x7d\n" ∧ [idle "f"] ≠ [] ∧
      (∃ lines, "define void @f() \x7b\nentry:\n  ret void\n\x7d\n" = lines ++ "\n") ∧
      SourceFile.toIR ⟨[idle "f"] ++ [idle "g"], ⟨0, 0⟩⟩ = .ok
        ("define void @f() \x7b\nentry:\n  ret void\n\x7d\n" ++ "\n" ++
          "define void @g() \x7b\nentry:\n  ret void\n\x7d\n") := by
  have f : SourceFile.toIR ⟨[idle "f"], ⟨0, 0⟩⟩ = .ok "define void @f() \x7b\nentry:\n  ret void\n\x7d\n" := by decide
  have g : SourceFile.toIR ⟨[idle "g"], ⟨0, 0⟩⟩ = .ok "define void @g() \x7b\nentry:\n  ret void\n\x7d\n" := by decide
  obtain ⟨both, -, -, ends⟩ := toIR_composes [idle "f"] [idle "g"] ⟨0, 0⟩ ⟨0, 0⟩ ⟨0, 0⟩
  refine ⟨f, by simp, ends _ f (by simp), both.trans ?_⟩
  rw [f, g]
  rfl

end FuncIR
