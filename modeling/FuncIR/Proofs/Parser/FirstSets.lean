import FuncIR.Proofs.Parser.Language

/-!
# First sets are exact

The first set of a parser is computed from those of its parts. It holds exactly the kinds that start a word of the
parser's language, and a parser accepts the empty input exactly if the empty word is one of them
(`firstSet_exact`). A choice without alternatives has no words at all, so that nothing follows it in a sequence; such
choices are left out.
-/

namespace FuncIR.Parser

open scoped Computability

/-! ## How words start -/

/-- A word of the language starts with the kind. -/
def Starts (l : Language TokenKind) (kind : TokenKind) : Prop := ∃ word, kind :: word ∈ l

section Starts
variable {l m : Language TokenKind} {kind : TokenKind}

theorem starts_singleton {closer : TokenKind} : Starts {[closer]} kind ↔ kind = closer := by
  constructor
  · rintro ⟨word, hw⟩
    exact (List.cons.inj hw).1
  · rintro rfl
    exact ⟨[], rfl⟩

theorem starts_add : Starts (l + m) kind ↔ Starts l kind ∨ Starts m kind :=
  exists_or

/-- A word of two parts starts with the first part, or with the second if the first is empty. -/
theorem starts_mul (hm : ∃ word, word ∈ m) : Starts (l * m) kind ↔ Starts l kind ∨ [] ∈ l ∧ Starts m kind := by
  constructor
  · rintro ⟨word, hw⟩
    obtain ⟨a, ha, b, hb, hab⟩ := Language.mem_mul.1 hw
    cases a with
    | nil =>
      rw [List.nil_append] at hab
      subst hab
      exact .inr ⟨ha, word, hb⟩
    | cons first a =>
      obtain ⟨rfl, -⟩ := List.cons.inj hab
      exact .inl ⟨a, ha⟩
  · rintro (⟨a, ha⟩ | ⟨hl, b, hb⟩)
    · obtain ⟨b, hb⟩ := hm
      exact ⟨a ++ b, Language.append_mem_mul ha hb⟩
    · exact ⟨b, Language.append_mem_mul hl hb⟩

/-- Repeating adds no way to start. -/
theorem starts_kstar : Starts l∗ kind ↔ Starts l kind := by
  constructor
  · rintro ⟨word, hw⟩
    obtain ⟨words, hj, hl⟩ := Language.mem_kstar_iff_exists_nonempty.1 hw
    cases words with
    | nil => cases hj
    | cons first words =>
      obtain ⟨hf, hn⟩ := hl first List.mem_cons_self
      cases first with
      | nil => exact absurd rfl hn
      | cons start first =>
        obtain ⟨rfl, -⟩ := List.cons.inj hj
        exact ⟨first, hf⟩
  · rintro ⟨word, hw⟩
    exact ⟨word, Language.mem_kstar.2 ⟨[kind :: word], by simp, by simpa using hw⟩⟩

variable {traits : Traits}

/-- How often a parser occurs does not change how it starts. -/
theorem starts_occurring : Starts (traits.occurring l) kind ↔ Starts l kind := by
  have ho : ¬ Starts (if traits.optional then 1 else 0) kind := by
    rintro ⟨word, hw⟩
    split at hw <;> cases hw
  have hr : Starts (if traits.repeated then l * l∗ else l) kind ↔ Starts l kind := by
    split
    · rw [starts_mul ⟨[], Language.nil_mem_kstar l⟩, starts_kstar]
      exact or_iff_left_of_imp And.right
    · rfl
  rw [Traits.occurring, starts_add, hr]
  exact or_iff_right ho

end Starts

/-! ## Words at all -/

/-- Every choice in the parser has an alternative. -/
def Populated (parser : Parser) : Prop := parser.Throughout fun part => ∀ traits, part ≠ .choice [] traits

theorem exists_mem_languageOfSequence {parts : List Parser} (h : ∀ part ∈ parts, ∃ word, word ∈ part.language) :
    ∃ word, word ∈ languageOfSequence parts := by
  induction parts with
  | nil => exact ⟨[], Language.nil_mem_one⟩
  | cons part parts ih =>
    obtain ⟨a, ha⟩ := h part List.mem_cons_self
    obtain ⟨b, hb⟩ := ih fun other ho => h other (List.mem_cons_of_mem _ ho)
    exact ⟨a ++ b, Language.append_mem_mul ha hb⟩

theorem Populated.exists_mem_language {parser : Parser} (h : parser.Populated) : ∃ word, word ∈ parser.language := by
  induction parser with
  | token kind traits => exact ⟨[kind], Traits.mem_occurring rfl⟩
  | sequence parts traits ih =>
    obtain ⟨word, hw⟩ := exists_mem_languageOfSequence fun part hp => ih part hp (h.sequence hp)
    exact ⟨word, Traits.mem_occurring hw⟩
  | choice alternatives traits ih =>
    cases alternatives with
    | nil => exact absurd rfl (h.self traits)
    | cons alternative alternatives =>
      have ha : alternative ∈ alternative :: alternatives := List.mem_cons_self
      obtain ⟨word, hw⟩ := ih alternative ha (h.choice ha)
      exact ⟨word, Traits.mem_occurring (.inl hw)⟩
  | items item closer traits _ =>
    exact ⟨[] ++ [closer], Traits.mem_occurring (Language.append_mem_mul (Language.nil_mem_kstar _) rfl)⟩

/-! ## First sets -/

section Lists
variable {kind : TokenKind}

/-- A later part starts a sequence if all before it may be empty. What follows a part must have some word, or the
sequence has none. -/
theorem mem_firstSetOfSequence {parts : List Parser}
    (h : ∀ part ∈ parts, kind ∈ part.firstSet ↔ Starts part.language kind)
    (hw : ∀ part ∈ parts, ∃ word, word ∈ part.language) :
    kind ∈ firstSetOfSequence parts ↔ Starts (languageOfSequence parts) kind := by
  induction parts with
  | nil =>
    constructor
    · exact fun hk => by cases hk
    · rintro ⟨_, hk⟩
      cases hk
  | cons part parts ih =>
    have others := exists_mem_languageOfSequence fun other ho => hw other (List.mem_cons_of_mem _ ho)
    have first := h part List.mem_cons_self
    have rest := ih (fun other ho => h other (List.mem_cons_of_mem _ ho))
      fun other ho => hw other (List.mem_cons_of_mem _ ho)
    rw [languageOfSequence, starts_mul others, ← acceptsEmpty_iff, ← first, ← rest, firstSetOfSequence]
    split
    · rename_i he
      rw [KindSet.mem_union, and_iff_right he]
    · rename_i he
      exact (or_iff_left fun hr => he hr.1).symm

theorem starts_languageOfChoice {alternatives : List Parser} :
    Starts (languageOfChoice alternatives) kind ↔ ∃ alternative ∈ alternatives, Starts alternative.language kind := by
  induction alternatives with
  | nil =>
    constructor
    · rintro ⟨_, hk⟩
      cases hk
    · rintro ⟨_, ha, _⟩
      cases ha
  | cons alternative alternatives ih =>
    rw [languageOfChoice, starts_add, ih]
    simp

theorem nodup_firstSetOfSequence {parts : List Parser} (h : ∀ part ∈ parts, part.firstSet.Nodup) :
    (firstSetOfSequence parts).Nodup := by
  induction parts with
  | nil => exact List.nodup_nil
  | cons part parts ih =>
    have first := h part List.mem_cons_self
    rw [firstSetOfSequence]
    split
    · exact KindSet.nodup_union first (ih fun other ho => h other (List.mem_cons_of_mem _ ho))
    · exact first

theorem nodup_firstSetOfChoice {alternatives : List Parser}
    (h : ∀ alternative ∈ alternatives, alternative.firstSet.Nodup) : (firstSetOfChoice alternatives).Nodup := by
  induction alternatives with
  | nil => exact List.nodup_nil
  | cons alternative alternatives ih =>
    have later := ih fun other ho => h other (List.mem_cons_of_mem _ ho)
    exact KindSet.nodup_union (h alternative List.mem_cons_self) later

end Lists

theorem nodup_firstSet (parser : Parser) : parser.firstSet.Nodup := by
  induction parser with
  | token kind traits => exact List.nodup_singleton kind
  | sequence parts traits ih => exact nodup_firstSetOfSequence ih
  | choice alternatives traits ih => exact nodup_firstSetOfChoice ih
  | items item closer traits ih => exact KindSet.nodup_union (List.nodup_singleton closer) ih

/-- The first set holds the kinds that start a word of the parser. -/
theorem Populated.mem_firstSet {parser : Parser} (h : parser.Populated) (kind : TokenKind) :
    kind ∈ parser.firstSet ↔ Starts parser.language kind := by
  induction parser with
  | token own traits => rw [firstSet, language, starts_occurring, starts_singleton, List.mem_singleton]
  | sequence parts traits ih =>
    have words : ∀ part ∈ parts, ∃ word, word ∈ part.language := fun part hp =>
      Populated.exists_mem_language (h.sequence hp)
    rw [firstSet, language, starts_occurring]
    exact mem_firstSetOfSequence (fun part hp => ih part hp (h.sequence hp)) words
  | choice alternatives traits ih =>
    rw [firstSet, language, starts_occurring, mem_firstSetOfChoice, starts_languageOfChoice]
    refine exists_congr fun alternative => and_congr_right fun ha => ?_
    exact ih alternative ha (h.choice ha)
  | items item closer traits ih =>
    have hi : item.Populated := h.items
    have hc : ∃ word, word ∈ ({[closer]} : Language TokenKind) := ⟨[closer], rfl⟩
    rw [firstSet, language, starts_occurring, KindSet.mem_union, List.mem_singleton, ih hi, starts_mul hc, starts_kstar,
      starts_singleton, and_iff_right (Language.nil_mem_kstar _)]
    exact or_comm

/-- What is known of a parser before it runs agrees with its language: the kinds that it can start with, each listed
once, and whether it can do without any token. -/
theorem firstSet_exact (parser : Parser) (h : parser.Populated) :
    (∀ kind, kind ∈ parser.firstSet ↔ ∃ word, kind :: word ∈ parser.language) ∧
      (parser.acceptsEmpty = true ↔ [] ∈ parser.language) ∧ parser.firstSet.Nodup :=
  ⟨h.mem_firstSet, acceptsEmpty_iff parser, nodup_firstSet parser⟩

/-- Numbers, then a blank or a comma, both of which may be missing, and names up to a closing parenthesis. -/
def labelled : Parser :=
  inOrder [
    (inOrder [(expect .number).many, (anyOf [expect .whitespace, expect .comma]).optional]).repeating,
    upTo .roundClose (expect .identifier)]

/-- The third part of it can be the first to have a token, but there is always one. -/
theorem firstSet_exact_labelled : (∃ word, .identifier :: word ∈ labelled.language) ∧
    (¬ ∃ word, .equals :: word ∈ labelled.language) ∧ [] ∉ labelled.language := by
  have populated : labelled.Populated := by
    simp [Populated, Throughout, labelled, inOrder, many, repeating, optional, anyOf, upTo, expect, mapTraits,
      subparsers, subparsersOf]
  obtain ⟨starts, empty, -⟩ := firstSet_exact labelled populated
  refine ⟨(starts _).1 (by decide), mt (starts _).2 (by decide), mt empty.2 (by decide)⟩

end FuncIR.Parser
