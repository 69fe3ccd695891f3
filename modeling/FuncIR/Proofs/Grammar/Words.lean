import FuncIR.Grammar.Rules
import Mathlib.Computability.Language

/-!
# The words of the grammar

`Ebnf.file` is the grammar as a language over token kinds. The words of it are read by derivations: `FileWord` holds
of a token list and the `Outline`s of the functions that it spells, which are the texts of its identifiers. The
grammar is ambiguous, since a blank may belong to a function or to its first parameter, but a token list has one
reading only (`FileWord.unique`).
-/

namespace FuncIR

open scoped Computability

/-! ## The language -/

namespace Ebnf

def one (kind : TokenKind) : Language TokenKind := {[kind]}

/-- An optional blank. -/
def gap : Language TokenKind := 1 + one .whitespace

def parameter : Language TokenKind :=
  gap * one .identifier * one .whitespace * one .identifier * one .comma

def functionCall : Language TokenKind :=
  one .identifier * one .roundOpen * one .roundClose

def codeBlock : Language TokenKind :=
  one .curlyOpen * gap * (1 + functionCall) * gap * one .curlyClose

def function : Language TokenKind :=
  one .keywordFunc * one .whitespace * one .identifier * one .roundOpen * gap * parameter∗ * one .roundClose * gap *
    codeBlock

def file : Layout → Language TokenKind
  | .spaced => (function + one .whitespace)∗
  | .strict => function∗

end Ebnf

/-! ## Derivations -/

/-- What a function says, without its layout. -/
structure Outline where
  name : String
  /-- Name and type of each parameter. -/
  parameters : List (String × String)
  calls : List String
  deriving DecidableEq, Repr

def FuncDecl.outline (function : FuncDecl) : Outline where
  name := function.name
  parameters := function.parameters.map fun parameter => (parameter.name, parameter.typeName)
  calls := function.body.calls.map (·.name)

inductive Gap : List Token → Prop
  | none : Gap []
  | blank {blank : Token} : blank.kind = .whitespace → Gap [blank]

inductive ParameterWord : List Token → String × String → Prop
  | mk {gap : List Token} {name blank type comma : Token} : Gap gap → name.kind = .identifier →
      blank.kind = .whitespace → type.kind = .identifier → comma.kind = .comma →
      ParameterWord (gap ++ [name, blank, type, comma]) (name.text, type.text)

inductive ParameterWords : List Token → List (String × String) → Prop
  | nil : ParameterWords [] []
  | cons {first word : List Token} {parameter : String × String} {parameters : List (String × String)} :
      ParameterWord first parameter → ParameterWords word parameters →
      ParameterWords (first ++ word) (parameter :: parameters)

/-- An optional call, as the list of the names that are called. -/
inductive CallWord : List Token → List String → Prop
  | none : CallWord [] []
  | call {name opener closer : Token} : name.kind = .identifier → opener.kind = .roundOpen →
      closer.kind = .roundClose → CallWord [name, opener, closer] [name.text]

inductive BlockWord : List Token → List String → Prop
  | mk {opener closer : Token} {gap word gap' : List Token} {calls : List String} : opener.kind = .curlyOpen →
      Gap gap → CallWord word calls → Gap gap' → closer.kind = .curlyClose →
      BlockWord ([opener] ++ gap ++ word ++ gap' ++ [closer]) calls

inductive FunctionWord : List Token → Outline → Prop
  | mk {keyword blank name opener closer : Token} {gap word gap' block : List Token}
      {parameters : List (String × String)} {calls : List String} : keyword.kind = .keywordFunc →
      blank.kind = .whitespace → name.kind = .identifier → opener.kind = .roundOpen → Gap gap →
      ParameterWords word parameters → closer.kind = .roundClose → Gap gap' → BlockWord block calls →
      FunctionWord ([keyword, blank, name, opener] ++ gap ++ word ++ [closer] ++ gap' ++ block)
        ⟨name.text, parameters, calls⟩

/-- The token list is a file in this layout, and its functions say this. -/
inductive FileWord (layout : Layout) : List Token → List Outline → Prop
  | nil : FileWord layout [] []
  | function {first word : List Token} {outline : Outline} {outlines : List Outline} : FunctionWord first outline →
      FileWord layout word outlines → FileWord layout (first ++ word) (outline :: outlines)
  | blank {blank : Token} {word : List Token} {outlines : List Outline} : layout = .spaced →
      blank.kind = .whitespace → FileWord layout word outlines → FileWord layout (blank :: word) outlines

/-! ## What is derived is in the language -/

namespace Ebnf

theorem kind_mem_one {token : Token} {kind : TokenKind} (h : token.kind = kind) : [token.kind] ∈ one kind :=
  congrArg (fun kind => [kind]) h

theorem append_mem_kstar {l : Language TokenKind} {a b : List TokenKind} (ha : a ∈ l) (hb : b ∈ l∗) :
    a ++ b ∈ l∗ := by
  obtain ⟨parts, rfl, hp⟩ := Language.mem_kstar.1 hb
  exact Language.join_mem_kstar (List.forall_mem_cons.2 ⟨ha, hp⟩)

theorem gap_mem {word : List Token} (h : Gap word) : word.map (·.kind) ∈ gap := by
  cases h with
  | none => exact .inl Language.nil_mem_one
  | blank hb => exact .inr (kind_mem_one hb)

theorem parameter_mem {word : List Token} {parameter : String × String} (h : ParameterWord word parameter) :
    word.map (·.kind) ∈ Ebnf.parameter := by
  obtain ⟨hg, hn, hb, ht, hc⟩ := h
  have := Language.append_mem_mul (Language.append_mem_mul (Language.append_mem_mul (Language.append_mem_mul
    (gap_mem hg) (kind_mem_one hn)) (kind_mem_one hb)) (kind_mem_one ht)) (kind_mem_one hc)
  simpa only [Ebnf.parameter, List.map_append, List.map_cons, List.map_nil, List.append_assoc, List.cons_append,
    List.nil_append] using this

theorem parameters_mem {word : List Token} {parameters : List (String × String)}
    (h : ParameterWords word parameters) : word.map (·.kind) ∈ Ebnf.parameter∗ := by
  induction h with
  | nil => exact Language.nil_mem_kstar _
  | cons hp _ ih =>
    rw [List.map_append]
    exact append_mem_kstar (parameter_mem hp) ih

theorem call_mem {word : List Token} {calls : List String} (h : CallWord word calls) :
    word.map (·.kind) ∈ 1 + functionCall := by
  cases h with
  | none => exact .inl Language.nil_mem_one
  | call hn ho hc =>
    have header := Language.append_mem_mul (kind_mem_one hn) (kind_mem_one ho)
    exact .inr (Language.append_mem_mul header (kind_mem_one hc))

theorem block_mem {word : List Token} {calls : List String} (h : BlockWord word calls) :
    word.map (·.kind) ∈ codeBlock := by
  obtain ⟨ho, hg, hw, hg', hc⟩ := h
  have := Language.append_mem_mul (Language.append_mem_mul (Language.append_mem_mul (Language.append_mem_mul
    (kind_mem_one ho) (gap_mem hg)) (call_mem hw)) (gap_mem hg')) (kind_mem_one hc)
  simpa only [codeBlock, List.map_append, List.map_cons, List.map_nil, List.append_assoc, List.cons_append,
    List.nil_append] using this

theorem function_mem {word : List Token} {outline : Outline} (h : FunctionWord word outline) :
    word.map (·.kind) ∈ Ebnf.function := by
  obtain ⟨hk, hb, hn, ho, hg, hp, hc, hg', hw⟩ := h
  have header := Language.append_mem_mul (Language.append_mem_mul (Language.append_mem_mul
    (kind_mem_one hk) (kind_mem_one hb)) (kind_mem_one hn)) (kind_mem_one ho)
  have list := Language.append_mem_mul (Language.append_mem_mul (Language.append_mem_mul
    header (gap_mem hg)) (parameters_mem hp)) (kind_mem_one hc)
  have := Language.append_mem_mul (Language.append_mem_mul list (gap_mem hg')) (block_mem hw)
  simpa only [Ebnf.function, List.map_append, List.map_cons, List.map_nil, List.append_assoc, List.cons_append,
    List.nil_append] using this

theorem file_mem {layout : Layout} {word : List Token} {outlines : List Outline}
    (h : FileWord layout word outlines) : word.map (·.kind) ∈ file layout := by
  induction h with
  | nil => cases layout <;> exact Language.nil_mem_kstar _
  | function hf _ ih =>
    rw [List.map_append]
    cases layout with
    | spaced => exact append_mem_kstar (.inl (function_mem hf)) ih
    | strict => exact append_mem_kstar (function_mem hf) ih
  | blank hl hb _ ih =>
    subst hl
    exact append_mem_kstar (.inr (kind_mem_one hb)) ih

end Ebnf

/-! ## One reading -/

/-- A token by what a reading depends on: its kind, and the text of an identifier. -/
def Token.gist (token : Token) : TokenKind × String :=
  (token.kind, if token.kind = .identifier then token.text else "")

/-- A token list without its blanks. -/
def gists (word : List Token) : List (TokenKind × String) :=
  (word.filter (·.kind ≠ .whitespace)).map (·.gist)

namespace Outline

def spellParameter (parameter : String × String) : List (TokenKind × String) :=
  [(.identifier, parameter.1), (.identifier, parameter.2), (.comma, "")]

def spellCall (name : String) : List (TokenKind × String) :=
  [(.identifier, name), (.roundOpen, ""), (.roundClose, "")]

/-- The one spelling of an outline without blanks. -/
def spell (outline : Outline) : List (TokenKind × String) :=
  [(.keywordFunc, ""), (.identifier, outline.name), (.roundOpen, "")] ++ outline.parameters.flatMap spellParameter ++
    [(.roundClose, ""), (.curlyOpen, "")] ++ outline.calls.flatMap spellCall ++ [(.curlyClose, "")]

theorem spellParameters_inj {a b : List (String × String)} {r s : List (TokenKind × String)}
    (h : a.flatMap spellParameter ++ (.roundClose, "") :: r = b.flatMap spellParameter ++ (.roundClose, "") :: s) :
    a = b ∧ r = s := by
  induction a generalizing b with
  | nil => cases b <;> simp_all [spellParameter]
  | cons x a ih =>
    cases b with
    | nil => simp [spellParameter] at h
    | cons y b =>
      simp only [List.flatMap_cons, spellParameter, List.cons_append, List.nil_append, List.cons.injEq, Prod.mk.injEq,
        true_and] at h
      -- A parameter begins with an identifier and the rest with a parenthesis, so both lists end together.
      obtain ⟨h₁, h₂, h⟩ := h
      obtain ⟨rfl, rfl⟩ := ih h
      exact ⟨by rw [Prod.ext h₁ h₂], rfl⟩

theorem spellCalls_inj {a b : List String} {r s : List (TokenKind × String)}
    (h : a.flatMap spellCall ++ (.curlyClose, "") :: r = b.flatMap spellCall ++ (.curlyClose, "") :: s) :
    a = b ∧ r = s := by
  induction a generalizing b with
  | nil => cases b <;> simp_all [spellCall]
  | cons x a ih =>
    cases b with
    | nil => simp [spellCall] at h
    | cons y b =>
      simp only [List.flatMap_cons, spellCall, List.cons_append, List.nil_append, List.cons.injEq, Prod.mk.injEq,
        true_and] at h
      obtain ⟨rfl, h⟩ := h
      obtain ⟨rfl, rfl⟩ := ih h
      exact ⟨rfl, rfl⟩

theorem spell_inj {a b : Outline} {r s : List (TokenKind × String)} (h : a.spell ++ r = b.spell ++ s) :
    a = b ∧ r = s := by
  obtain ⟨name, parameters, calls⟩ := a
  obtain ⟨name', parameters', calls'⟩ := b
  simp only [spell, List.append_assoc, List.cons_append, List.nil_append, List.cons.injEq, Prod.mk.injEq,
    true_and] at h
  obtain ⟨rfl, hp⟩ := h
  obtain ⟨rfl, hc⟩ := spellParameters_inj hp
  obtain ⟨rfl, rfl⟩ := spellCalls_inj (List.cons.inj hc).2
  exact ⟨rfl, rfl⟩

theorem spells_inj {a b : List Outline} (h : a.flatMap spell = b.flatMap spell) : a = b := by
  induction a generalizing b with
  | nil => cases b <;> simp_all [spell]
  | cons x a ih =>
    cases b with
    | nil => simp [spell] at h
    | cons y b =>
      rw [List.flatMap_cons, List.flatMap_cons] at h
      obtain ⟨rfl, hr⟩ := spell_inj h
      rw [ih hr]

end Outline

theorem gists_append (a b : List Token) : gists (a ++ b) = gists a ++ gists b := by
  simp [gists]

theorem Gap.gists {word : List Token} (h : Gap word) : gists word = [] := by
  cases h with
  | none => rfl
  | blank hb => simp [FuncIR.gists, hb]

theorem ParameterWord.gists {word : List Token} {parameter : String × String} (h : ParameterWord word parameter) :
    gists word = Outline.spellParameter parameter := by
  obtain ⟨hg, hn, hb, ht, hc⟩ := h
  rw [gists_append, hg.gists]
  simp [FuncIR.gists, Token.gist, Outline.spellParameter, hn, hb, ht, hc]

theorem ParameterWords.gists {word : List Token} {parameters : List (String × String)}
    (h : ParameterWords word parameters) : gists word = parameters.flatMap Outline.spellParameter := by
  induction h with
  | nil => rfl
  | cons hp _ ih => rw [gists_append, hp.gists, ih, List.flatMap_cons]

theorem CallWord.gists {word : List Token} {calls : List String} (h : CallWord word calls) :
    gists word = calls.flatMap Outline.spellCall := by
  cases h with
  | none => rfl
  | call hn ho hc => simp [FuncIR.gists, Token.gist, Outline.spellCall, hn, ho, hc]

theorem FunctionWord.gists {word : List Token} {outline : Outline} (h : FunctionWord word outline) :
    gists word = outline.spell := by
  obtain ⟨hk, hb, hn, ho, hg, hp, hc, hg', ⟨ho', hi, hw, hi', hc'⟩⟩ := h
  simp only [gists_append, hg.gists, hp.gists, hg'.gists, hi.gists, hw.gists, hi'.gists]
  simp [FuncIR.gists, Token.gist, Outline.spell, hk, hb, hn, ho, hc, ho', hc']

theorem FileWord.gists {layout : Layout} {word : List Token} {outlines : List Outline}
    (h : FileWord layout word outlines) : gists word = outlines.flatMap Outline.spell := by
  induction h with
  | nil => rfl
  | function hf _ ih => rw [gists_append, hf.gists, ih, List.flatMap_cons]
  | blank _ hb _ ih => rw [← List.singleton_append, gists_append, Gap.gists (.blank hb), List.nil_append, ih]

/-- However the blanks of a file are placed in the grammar, it says the same. -/
theorem FileWord.unique {layout : Layout} {word : List Token} {a b : List Outline} (ha : FileWord layout word a)
    (hb : FileWord layout word b) : a = b :=
  Outline.spells_inj (ha.gists.symm.trans hb.gists)

end FuncIR
