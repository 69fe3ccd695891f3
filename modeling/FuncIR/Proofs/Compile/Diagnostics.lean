import FuncIR.Proofs.Grammar.Spans
import FuncIR.Proofs.IR.Definitions

/-!
# Diagnostics of a source

Whatever keeps a source from being compiled, its diagnostic has one label, which cuts a text out of the source, and the
error is about this text (`compile_diagnostic`). Lexing and parsing point at a character and at a token. Lowering points
at a parameter, and since the parameters of a file stand in ascending order (`parameters_ascend`), the first unsupported
one that it comes to is also the first in the source.
-/

namespace FuncIR

/-! ## Where an error points -/

/-- The span is that of an unsupported parameter of the file, which is read again from its slice. It belongs to the
function that the error names, and no parameter in front of it is unsupported. -/
structure UnsupportedType.PointsAt (error : UnsupportedType) (source : String) (file : SourceFile) (span : Span) :
    Prop where
  span_eq : error.parameter.span = span
  rereads : span.Rereads source .parameter (.parameter (error.parameter.relativeTo span.start))
  unsupported : IRType.ofSourceName? error.parameter.typeName = none
  owned : ∃ function ∈ file.functions, function.name = error.function ∧ error.parameter ∈ function.parameters ∧
    span.Within function.span
  first : ∀ function ∈ file.functions, ∀ parameter ∈ function.parameters, parameter.span.start < span.start →
    IRType.ofSourceName? parameter.typeName ≠ none

/-- The error is about the text at a span of the source. -/
def CompileError.PointsAt (source : String) (options : ParseOptions) (span : Span) (text : String) :
    CompileError → Prop
  | .source (.lex error) => text = String.singleton error.character
  | .source (.parse (.unexpectedToken error)) => (error.offset = span.start ∧ error.extent = span.extent) ∧
    text = error.foundText ∧ (error.found = .eof → text = "" ∧ span.start = source.utf8ByteSize)
  | .source (.parse (.construction _)) => False
  | .lowering error => ∃ file, parseSource source options = .ok file ∧ error.PointsAt source file span

/-! ## Characters and tokens -/

section Cuts
variable {source text : String} {span : Span}

theorem Span.Cuts.ordered (h : span.Cuts source text) : span.start ≤ span.stop := by
  obtain ⟨before, after, -, hs, ht⟩ := h
  omega

theorem Span.Cuts.stop_le (h : span.Cuts source text) : span.stop ≤ source.utf8ByteSize := by
  obtain ⟨before, after, rfl, hs, ht⟩ := h
  rw [String.utf8ByteSize_append, String.utf8ByteSize_append]
  omega

theorem lex_error_cuts {error : LexError} (h : lex source = .error error) :
    Span.Cuts ⟨error.offset, error.offset + error.character.utf8Size⟩ source (String.singleton error.character) := by
  obtain ⟨tokens, rest, scans, hr⟩ := Lexer.exists_scans source.toList 0
  rw [lex, tokenize_of_scans scans hr] at h
  cases rest with
  | nil => cases h
  | cons c rest =>
    obtain rfl := Except.error.inj h
    refine ⟨spelling tokens, String.ofList rest, ?_, rfl, by simp⟩
    rw [← String.toList_inj, scans.text_eq]
    simp

/-- A reader of a lexed source finds slices of it, and the end of input at its end. -/
theorem lex_get_cuts {tokens : List Token} (h : lex source = .ok tokens) (n : Nat) :
    let token := (TokenStream.ofList tokens).get n
    token.span.Cuts source token.text ∧
      (token.kind = .eof → token.text = "" ∧ token.span.start = source.utf8ByteSize) := by
  intro token
  obtain ⟨read, scans, rfl⟩ := lex_eq_ok_iff.1 h
  have found : token ∈ read ∨ token = .endOfInput source.utf8ByteSize := by
    simp only [token, get_ofList]
    cases hn : (read ++ [Token.endOfInput source.utf8ByteSize])[n]? with
    | none => exact .inr (by simp [Token.endOfInput])
    | some token => simpa using List.mem_of_getElem? hn
  clear_value token
  rcases found with found | rfl
  · obtain ⟨a, b, rfl⟩ := List.append_of_mem found
    obtain ⟨-, whole⟩ := at_of_scans scans
    have hat := (At.right (b := [token] ++ b) whole).left
    refine ⟨?_, fun he => absurd he (scans.proper token found).1⟩
    simpa [Span.cover, spelling] using hat.cover_cuts (List.cons_ne_nil token [])
  · exact ⟨⟨source, "", by simp [Token.endOfInput], rfl, rfl⟩, fun _ => ⟨rfl, rfl⟩⟩

end Cuts

/-! ## Parameters in order -/

/-- The second parameter starts no earlier than the first. -/
def Parameter.NotBehind (first second : Parameter) : Prop := first.span.start ≤ second.span.start

instance : Trans Parameter.NotBehind Parameter.NotBehind Parameter.NotBehind := ⟨Nat.le_trans⟩

section Parameters
variable {source : String} {functions : List FuncDecl}

theorem Spread.pairwise {start : Nat} (h : Spread source start functions)
    (ordered : ∀ function ∈ functions, function.span.start ≤ function.span.stop) :
    (∀ function ∈ functions, start ≤ function.span.start) ∧
      functions.Pairwise fun first second => first.span.stop ≤ second.span.start := by
  induction functions generalizing start with
  | nil => exact ⟨by simp, .nil⟩
  | cons function functions ih =>
    obtain ⟨⟨gap, cuts, -⟩, rest⟩ := h
    obtain ⟨hf, hs⟩ := List.forall_mem_cons.1 ordered
    obtain ⟨behind, pairwise⟩ := ih rest hs
    have hg : start ≤ function.span.start := cuts.ordered
    refine ⟨List.forall_mem_cons.2 ⟨hg, fun other ho => ?_⟩, .cons behind pairwise⟩
    exact (hg.trans hf).trans (behind other ho)

theorem FuncDecl.Nested.parameters_ascend {function : FuncDecl} (h : function.Nested) :
    function.parameters.Pairwise Parameter.NotBehind :=
  (h.parameters_adjacent.imp_of_mem_imp fun first second hf _ adjacent =>
    show first.span.start ≤ second.span.start from adjacent ▸ (h.parameters_within first hf).ordered).pairwise

/-- Going over the functions of a file and over their parameters is going forward in the source. -/
theorem parameters_ascend {start : Nat} (h : Spread source start functions)
    (nested : ∀ function ∈ functions, function.Nested) :
    (functions.flatMap (·.parameters)).Pairwise Parameter.NotBehind := by
  obtain ⟨-, pairwise⟩ := h.pairwise fun function hf => (nested function hf).ordered
  refine List.pairwise_flatMap.2 ⟨fun function hf => (nested function hf).parameters_ascend, ?_⟩
  refine pairwise.imp_of_mem fun {f g} hf hg hfg p hp q hq => ?_
  have first := (nested f hf).parameters_within p hp
  have second := (nested g hg).parameters_within q hq
  exact ((first.ordered.trans first.stop_le).trans hfg).trans second.start_le

end Parameters

/-! ## The first unsupported parameter -/

/-- The parameter that is reported is the first unsupported one of all parameters in order. -/
theorem exists_of_unsupported {functions : List FuncDecl} {error : UnsupportedType}
    (h : functions.findSome? FuncDecl.unsupported? = some error) :
    IRType.ofSourceName? error.parameter.typeName = none ∧
      (∃ function ∈ functions, function.name = error.function ∧ error.parameter ∈ function.parameters) ∧
      ∃ before after, functions.flatMap (·.parameters) = before ++ error.parameter :: after ∧
        ∀ parameter ∈ before, IRType.ofSourceName? parameter.typeName ≠ none := by
  obtain ⟨earlier, function, later, rfl, h, supported⟩ := List.findSome?_eq_some_iff.1 h
  obtain ⟨before, parameter, after, hp, h, supported'⟩ := List.findSome?_eq_some_iff.1 h
  obtain ⟨unsupported, rfl⟩ := Parameter.unsupported?_eq_some_iff.1 h
  refine ⟨unsupported, ⟨function, by simp, rfl, by simp [hp]⟩,
    earlier.flatMap (·.parameters) ++ before, after ++ later.flatMap (·.parameters), by simp [hp], ?_⟩
  intro other ho
  rcases List.mem_append.1 ho with ho | ho
  · obtain ⟨function', hf, ho⟩ := List.mem_flatMap.1 ho
    have none := List.findSome?_eq_none_iff.1 (supported function' hf) other ho
    exact Parameter.unsupported?_eq_none_iff.1 none
  · exact Parameter.unsupported?_eq_none_iff.1 (supported' other ho)

theorem toIR_points {source : String} {options : ParseOptions} {file : SourceFile} {error : UnsupportedType}
    (hp : parseSource source options = .ok file) (h : file.toIR = .error error) :
    error.parameter.span.start ≤ error.parameter.span.stop ∧
      error.PointsAt source file error.parameter.span := by
  obtain ⟨word, hs, hat, tree, -⟩ := exists_tree_of_parseSource hp
  have parts := tree.parts hat
  have ascend := parameters_ascend (tree.spread_source hs hat) fun function hf => (parts function hf).1
  rw [toIR_eq] at h
  cases hu : file.functions.findSome? FuncDecl.unsupported? with
  | none => rw [hu] at h; cases h
  | some found =>
    rw [hu] at h
    obtain rfl : found = error := Except.error.inj h
    obtain ⟨unsupported, ⟨function, hf, name, hm⟩, before, after, split, supported⟩ := exists_of_unsupported hu
    obtain ⟨nested, rereads⟩ := parts function hf
    have within := nested.parameters_within _ hm
    refine ⟨within.ordered, rfl, rereads.parameters _ hm, unsupported, ⟨function, hf, name, hm, within⟩, ?_⟩
    intro other ho parameter hp hlt
    have here : parameter ∈ before ++ found.parameter :: after := split ▸ List.mem_flatMap.2 ⟨other, ho, hp⟩
    rw [split, List.pairwise_append, List.pairwise_cons] at ascend
    rcases List.mem_append.1 here with here | here
    · exact supported parameter here
    · -- from the reported parameter on, none starts before it
      have behind : found.parameter.NotBehind parameter := by
        rcases List.mem_cons.1 here with rfl | here
        · exact Nat.le_refl _
        · exact ascend.2.1.1 parameter here
      exact absurd behind (Nat.not_le_of_lt hlt)

/-! ## Every error -/

theorem Span.extent_eq {span : Span} (h : span.start ≤ span.stop) : ⟨span.start, span.start + span.length⟩ = span := by
  rw [Span.length_of_le h, Nat.add_sub_cancel' h]

/-- The stage that failed, with what the stages before it came to. -/
theorem compile_error_cases {source : String} {options : ParseOptions} {e : CompileError}
    (h : compile source options = .error e) :
    (∃ error, lex source = .error error ∧ e = .source (.lex error)) ∨
      (∃ tokens error, lex source = .ok tokens ∧ parseTokens tokens options = .error error ∧
        e = .source (.parse error)) ∨
      ∃ file error, parseSource source options = .ok file ∧ file.toIR = .error error ∧ e = .lowering error := by
  cases hp : parseSource source options with
  | ok file =>
    rw [compile_of_parseSource hp] at h
    cases hi : file.toIR with
    | ok ir => rw [hi] at h; cases h
    | error error =>
      rw [hi] at h
      exact .inr (.inr ⟨file, error, rfl, hi, (Except.error.inj h).symm⟩)
  | error error =>
    rw [compile, hp] at h
    obtain rfl : CompileError.source error = e := Except.error.inj h
    cases hl : lex source with
    | error lexical =>
      rw [parseSource, hl] at hp
      exact .inl ⟨lexical, rfl, congrArg CompileError.source (Except.error.inj hp).symm⟩
    | ok tokens =>
      rw [parseSource_of_lex hl] at hp
      cases ht : parseTokens tokens options with
      | ok file => rw [ht] at hp; cases hp
      | error unexpected =>
        rw [ht] at hp
        exact .inr (.inl ⟨tokens, unexpected, rfl, ht, congrArg CompileError.source (Except.error.inj hp).symm⟩)

/-- The diagnostic of a source that is not compiled has one label. It cuts the text out of the source that the error is
about. No token that the parser can come to starts behind its stop. -/
theorem compile_diagnostic {source : String} {options : ParseOptions} {e : CompileError}
    (h : compile source options = .error e) :
    (∃ label text, e.diagnostic.labels = [label] ∧
      let span : Span := ⟨label.offset, label.offset + label.length⟩
      span.stop ≤ source.utf8ByteSize ∧ span.Cuts source text ∧ e.PointsAt source options span text) ∧
    ∀ tokens, lex source = .ok tokens → ∀ n,
      ((TokenStream.ofList tokens).get n).span.start ≤ ((TokenStream.ofList tokens).get n).span.stop := by
  refine ⟨?_, fun tokens hl n => (lex_get_cuts hl n).1.ordered⟩
  suffices pointed : ∃ text label offset length, e.diagnostic.labels = [⟨label, offset, length⟩] ∧
      Span.Cuts ⟨offset, offset + length⟩ source text ∧ e.PointsAt source options ⟨offset, offset + length⟩ text by
    obtain ⟨text, label, offset, length, labels, cuts, points⟩ := pointed
    exact ⟨_, text, labels, cuts.stop_le, cuts, points⟩
  rcases compile_error_cases h with ⟨error, hl, rfl⟩ | ⟨tokens, error, hl, ht, rfl⟩ | ⟨file, error, hp, hi, rfl⟩
  · exact ⟨_, _, _, _, rfl, lex_error_cuts hl, rfl⟩
  · obtain ⟨-, -, n, -, -, rfl⟩ := refused_iff.1 ht
    obtain ⟨cuts, ending⟩ := lex_get_cuts hl n
    refine ⟨((TokenStream.ofList tokens).get n).text, _, _, _, rfl, ?_⟩
    rw [Span.extent, Span.extent_eq cuts.ordered]
    exact ⟨cuts, ⟨rfl, rfl⟩, rfl, ending⟩
  · obtain ⟨ordered, points⟩ := toIR_points hp hi
    obtain ⟨text, -, cuts, -⟩ := points.rereads
    refine ⟨text, _, _, _, rfl, ?_⟩
    rw [Span.extent_eq ordered]
    exact ⟨cuts, file, hp, points⟩

/-- A source where the second parameter has a type without a counterpart. -/
def textParameter : String := "func f(a Int, b Text,)\x7b\x7d"

theorem compile_diagnostic_textParameter :
    let error : CompileError := .lowering ⟨⟨"b", "Text", ⟨13, 21⟩⟩, "f"⟩
    compile textParameter {} = .error error ∧
      ∃ text, Span.Cuts ⟨13, 21⟩ textParameter text ∧ error.PointsAt textParameter {} ⟨13, 21⟩ text := by
  intro error
  have failed : compile textParameter {} = .error error := by decide +kernel
  obtain ⟨⟨label, text, labels, -, cuts, points⟩, -⟩ := compile_diagnostic failed
  obtain rfl : ⟨"no IR type for this parameter", 13, 8⟩ = label := (List.cons.inj labels).1
  exact ⟨failed, text, cuts, points⟩

end FuncIR
