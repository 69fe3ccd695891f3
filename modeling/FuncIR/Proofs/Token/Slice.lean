import FuncIR.Proofs.Token.Image

/-!
# Slices of a source

A word of tokens stands `At` a byte offset of a source if the source spells it there and the lexer reads it so. Then
the `cover` of the word is the span of what it spells, and lexing this slice alone gives the same tokens, with spans
that count from the start of the slice (`At.lex`).
-/

namespace FuncIR

namespace Span

/-- The text stands between the start and the stop of the span. -/
def Cuts (span : Span) (source text : String) : Prop :=
  ∃ before after, source = before ++ text ++ after ∧ before.utf8ByteSize = span.start ∧
    before.utf8ByteSize + text.utf8ByteSize = span.stop

/-- The span as seen from `origin`, which must not lie behind its start. -/
def relativeTo (origin : Nat) (span : Span) : Span :=
  ⟨span.start - origin, span.stop - origin⟩

/-- From the start of the first token to the stop of the last one. -/
def cover (word : List Token) : Span :=
  ⟨(word.head?.map (·.span.start)).getD 0, (word.getLast?.map (·.span.stop)).getD 0⟩

end Span

def Token.relativeTo (origin : Nat) (token : Token) : Token :=
  { token with span := token.span.relativeTo origin }

theorem Span.cover_relativeTo (origin : Nat) (word : List Token) :
    cover (word.map (·.relativeTo origin)) = (cover word).relativeTo origin := by
  unfold cover Span.relativeTo
  rw [List.head?_map, List.getLast?_map]
  cases word.head? <;> cases word.getLast? <;> simp [Token.relativeTo, Span.relativeTo]

theorem spelling_nil : spelling [] = "" := rfl

theorem spelling_append (a b : List Token) : spelling (a ++ b) = spelling a ++ spelling b := by
  simp [spelling]

theorem spelling_cons (token : Token) (word : List Token) :
    spelling (token :: word) = token.text ++ spelling word := by
  simp [spelling]

/-! ## Scans -/

namespace Lexer.Scans
variable {offset : Nat} {text rest : List Char} {word a b : List Token}

theorem split (h : Scans offset text (a ++ b) rest) : ∃ middle, Scans offset text a middle ∧
    Scans (offset + (spelling a).utf8ByteSize) middle b rest := by
  induction a generalizing offset text with
  | nil => exact ⟨text, .nil, by simpa [spelling] using h⟩
  | cons token a ih =>
    cases h with
    | cons hl hs =>
      obtain ⟨middle, ha, hb⟩ := ih hs
      refine ⟨middle, .cons hl ha, ?_⟩
      rwa [spelling_cons, String.utf8ByteSize_append, ← Nat.add_assoc]

/-- The same text is read as the same tokens from any other offset. -/
theorem relativeTo {origin : Nat} (h : Scans offset text word rest) (ho : origin ≤ offset) :
    Scans (offset - origin) text (word.map (·.relativeTo origin)) rest := by
  induction h with
  | nil => exact .nil
  | @cons offset kind lexeme text rest word hl _ ih =>
    have he : offset + (String.ofList lexeme).utf8ByteSize - origin =
        offset - origin + (String.ofList lexeme).utf8ByteSize := by omega
    have ih := ih (by omega)
    rw [he] at ih
    rw [List.map_cons, Token.relativeTo, Span.relativeTo, he]
    exact .cons hl ih

theorem cover_eq (h : Scans offset text word rest) (hw : word ≠ []) :
    Span.cover word = ⟨offset, offset + (spelling word).utf8ByteSize⟩ := by
  induction h with
  | nil => exact absurd rfl hw
  | @cons offset kind lexeme text rest word _ _ ih =>
    rw [spelling_cons, String.utf8ByteSize_append, ← Nat.add_assoc]
    cases word with
    | nil => simp [Span.cover, spelling]
    | cons token word =>
      have stop := congrArg Span.stop (ih (List.cons_ne_nil token word))
      simp only [Span.cover] at stop ⊢
      rw [List.getLast?_cons_cons, stop]
      rfl

theorem blank (h : Scans offset text word rest) {token : Token} (ht : token ∈ word) (hk : token.kind = .whitespace) :
    ∀ c ∈ token.text.toList, isBlank c = true := by
  have spelled := h.legible.spelled token.form (List.mem_map_of_mem ht)
  simp only [Token.form, hk] at spelled
  exact fun c hc => isBlank_iff.2 (by simpa using (mem_someOf.1 spelled).2 c hc)

end Lexer.Scans

/-! ## Words in place -/

/-- The source spells these tokens from a byte offset on, and they are what the lexer reads there. -/
structure At (source : String) (offset : Nat) (word : List Token) : Prop where
  cuts : Span.Cuts ⟨offset, offset + (spelling word).utf8ByteSize⟩ source (spelling word)
  scans : Lexer.Scans offset (spelling word).toList word []

namespace At
variable {source : String} {offset : Nat} {word a b : List Token}

theorem left (h : At source offset (a ++ b)) : At source offset a := by
  obtain ⟨⟨before, after, hs, ho, -⟩, scans⟩ := h
  obtain ⟨middle, ha, -⟩ := scans.split
  refine ⟨⟨before, spelling b ++ after, ?_, ho, by rw [ho]⟩, ha.cut⟩
  rw [hs, spelling_append]
  simp only [String.append_assoc]

theorem right (h : At source offset (a ++ b)) : At source (offset + (spelling a).utf8ByteSize) b := by
  obtain ⟨⟨before, after, hs, ho, -⟩, scans⟩ := h
  obtain ⟨middle, -, hb⟩ := scans.split
  have hs : source = before ++ spelling a ++ spelling b ++ after := by
    rw [hs, spelling_append]
    simp only [String.append_assoc]
  refine ⟨⟨before ++ spelling a, after, hs, ?_, ?_⟩, hb.cut⟩ <;> rw [String.utf8ByteSize_append, ho]

theorem cover_eq (h : At source offset word) (hw : word ≠ []) :
    Span.cover word = ⟨offset, offset + (spelling word).utf8ByteSize⟩ :=
  h.scans.cover_eq hw

theorem cover_start (h : At source offset word) (hw : word ≠ []) : (Span.cover word).start = offset := by
  rw [h.cover_eq hw]

theorem cover_cuts (h : At source offset word) (hw : word ≠ []) : (Span.cover word).Cuts source (spelling word) := by
  rw [h.cover_eq hw]
  exact h.cuts

theorem spelling_pos (h : At source offset word) (hw : word ≠ []) : 0 < (spelling word).utf8ByteSize := by
  cases word with
  | nil => exact absurd rfl hw
  | cons token word =>
    have ht := (h.scans.proper token List.mem_cons_self).2
    rw [spelling_cons, String.utf8ByteSize_append]
    have : token.text.utf8ByteSize ≠ 0 := fun he => ht (String.utf8ByteSize_eq_zero_iff.1 he)
    omega

/-- Cutting the source at the ends of the word changes nothing in it. -/
theorem lex (h : At source offset word) : FuncIR.lex (spelling word) =
    .ok (word.map (·.relativeTo offset) ++ [.endOfInput (spelling word).utf8ByteSize]) := by
  refine lex_eq_ok_iff.2 ⟨_, ?_, rfl⟩
  have := h.scans.relativeTo (Nat.le_refl offset)
  rwa [Nat.sub_self] at this

end At

/-- All that the lexer read stands at the start of the source. -/
theorem at_of_scans {source : String} {read : List Token} (h : Lexer.Scans 0 source.toList read []) :
    spelling read = source ∧ At source 0 read := by
  have hs : spelling read = source := by
    rw [← String.toList_inj, h.text_eq, List.append_nil]
  refine ⟨hs, ⟨"", "", by simp [hs], rfl, by simp⟩, ?_⟩
  rwa [hs]

end FuncIR
