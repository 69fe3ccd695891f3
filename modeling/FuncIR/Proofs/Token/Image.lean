import FuncIR.Proofs.Token.Lossless
import FuncIR.Proofs.Token.Spelling
import Mathlib.Data.List.Chain

/-!
# The image of the lexer

Two neighbours `Fuse` if the lexer would read them as one token or cut them elsewhere. A list of kinds and texts is
what the lexer makes of some source exactly if it is `Legible`: each text is spelled as its kind, and no two
neighbours fuse. That source is then the texts in a row (`lex_image`).
-/

namespace FuncIR

/-! ## Neighbours -/

/-- A number without a sign begins with a digit. -/
def Unsigned (text : String) : Prop := ∀ c ∈ text.toList.head?, c ≠ '-' ∧ c ≠ '+'

/-- The two are read as one token, or cut elsewhere, if nothing stands between them. -/
def Fuse (first second : TokenKind × String) : Prop :=
  first.1 = .whitespace ∧ second.1 = .whitespace ∨
  (first.1 = .identifier ∨ first.1 = .keywordFunc) ∧
    (second.1 = .identifier ∨ second.1 = .keywordFunc ∨ second.1 = .number ∧ Unsigned second.2) ∨
  first.1 = .number ∧ second.1 = .number ∧ Unsigned second.2

namespace Lexer

theorem fuse_iff {first second : TokenKind × String} (h : second.2.toList ∈ second.1.spellings) :
    Fuse first second ↔ ∃ c ∈ second.2.toList.head?, goesOn first.1 c = true := by
  obtain ⟨c, hc, -, hb, ha, hd⟩ := head_spelled h
  obtain ⟨kind, text⟩ := first
  have hu : Unsigned second.2 ↔ c ≠ '-' ∧ c ≠ '+' := by simp [Unsigned, Option.mem_def.1 hc]
  cases kind <;> simp [Fuse, goesOn, hu, hb, hd, ha, Option.mem_def.1 hc, Char.isAlphanum, or_assoc]

end Lexer

/-! ## Lists of kinds and texts -/

def Token.form (token : Token) : TokenKind × String := (token.kind, token.text)

/-- The tokens of these kinds and texts, one behind the other from a byte offset on. -/
def placed : Nat → List (TokenKind × String) → List Token
  | _, [] => []
  | offset, (kind, text) :: forms =>
    ⟨kind, text, ⟨offset, offset + text.utf8ByteSize⟩⟩ :: placed (offset + text.utf8ByteSize) forms

/-- Each text is spelled as its kind, and no two neighbours fuse. -/
structure Legible (forms : List (TokenKind × String)) : Prop where
  spelled : ∀ form ∈ forms, form.2.toList ∈ form.1.spellings
  apart : forms.IsChain fun first second => ¬ Fuse first second

theorem map_form_placed (offset : Nat) (forms : List (TokenKind × String)) :
    (placed offset forms).map Token.form = forms := by
  induction forms generalizing offset with
  | nil => rfl
  | cons form forms ih => rw [placed, List.map_cons, ih]; rfl

theorem spelling_eq_join (tokens : List Token) : spelling tokens = String.join ((tokens.map Token.form).map (·.2)) := by
  rw [spelling, List.map_map]
  rfl

namespace Lexer

theorem Scans.legible {offset : Nat} {text rest : List Char} {tokens : List Token}
    (h : Scans offset text tokens rest) : Legible (tokens.map Token.form) := by
  induction h with
  | nil => exact ⟨by simp, .nil⟩
  | @cons offset kind lexeme text rest tokens hl hs ih =>
    obtain ⟨spelled, stop⟩ := lexeme?_spelled hl
    refine ⟨List.forall_mem_cons.2 ⟨by simpa [Token.form] using spelled, ih.spelled⟩,
      List.isChain_cons.2 ⟨fun second hm => ?_, ih.apart⟩⟩
    rw [fuse_iff (ih.spelled second (List.mem_of_head? hm))]
    rintro ⟨c, hc, hg⟩
    cases tokens with
    | nil => cases hm
    | cons token tokens =>
      obtain rfl : token.form = second := by simpa using hm
      have hc : c ∈ text.head? := by
        rw [hs.text_eq, spelling, List.map_cons, String.join_cons, String.toList_append, List.append_assoc]
        exact List.mem_head?_append_of_mem_head? hc
      simp [Token.form, stop c hc] at hg

/-- One more token in front, by its spelling. -/
theorem Scans.spelled {offset : Nat} {kind : TokenKind} {word : String} {text rest : List Char} {tokens : List Token}
    (hw : word.toList ∈ kind.spellings) (stop : ∀ c ∈ text.head?, goesOn kind c = false ∧ c ≠ '.')
    (h : Scans (offset + word.utf8ByteSize) text tokens rest) :
    Scans offset (word.toList ++ text) (⟨kind, word, ⟨offset, offset + word.utf8ByteSize⟩⟩ :: tokens) rest := by
  have hs : String.ofList word.toList = word := String.ofList_toList
  have cons := @Scans.cons offset kind word.toList text rest tokens (lexeme?_of_spelled hw stop)
  rw [hs] at cons
  exact cons h

theorem scans_placed {forms : List (TokenKind × String)} (h : Legible forms) :
    ∀ offset, Scans offset (String.join (forms.map (·.2))).toList (placed offset forms) [] := by
  induction forms with
  | nil => exact fun _ => .nil
  | cons form forms ih =>
    intro offset
    obtain ⟨spelled, others⟩ := List.forall_mem_cons.1 h.spelled
    obtain ⟨apart, chain⟩ := List.isChain_cons.1 h.apart
    have stop : ∀ c ∈ (String.join (forms.map (·.2))).toList.head?, goesOn form.1 c = false ∧ c ≠ '.' := by
      cases forms with
      | nil => simp
      | cons second forms =>
        have hs := others second List.mem_cons_self
        obtain ⟨d, hd, hp, -⟩ := head_spelled hs
        have hf := apart second rfl
        rw [fuse_iff hs] at hf
        intro c hc
        rw [List.map_cons, String.join_cons, String.toList_append] at hc
        obtain rfl : c = d := Option.mem_unique hc (List.mem_head?_append_of_mem_head? hd)
        exact ⟨by simpa using fun hg => hf ⟨c, hd, hg⟩, hp⟩
    rw [List.map_cons, String.join_cons, String.toList_append]
    exact .spelled spelled stop (ih ⟨others, chain⟩ _)

end Lexer

/-- A list of kinds and texts is what some source is read as exactly if it is legible, and this source is the texts in
a row. -/
theorem lex_image (forms : List (TokenKind × String)) :
    ((∃ source, lex source = .ok (placed 0 forms ++ [.endOfInput source.utf8ByteSize])) ↔ Legible forms) ∧
    ∀ source, lex source = .ok (placed 0 forms ++ [.endOfInput source.utf8ByteSize]) →
      source = String.join (forms.map (·.2)) := by
  have read : ∀ source, lex source = .ok (placed 0 forms ++ [.endOfInput source.utf8ByteSize]) ↔
      Lexer.Scans 0 source.toList (placed 0 forms) [] := by
    intro source
    rw [lex_eq_ok_iff]
    constructor
    · rintro ⟨tokens, hs, he⟩
      rwa [(List.append_inj' he rfl).1]
    · intro hs
      exact ⟨_, hs, rfl⟩
  constructor
  · constructor
    · rintro ⟨source, h⟩
      have := ((read source).1 h).legible
      rwa [map_form_placed] at this
    · intro h
      exact ⟨_, (read _).2 (Lexer.scans_placed h 0)⟩
  · intro source h
    have := ((read source).1 h).text_eq
    rwa [List.append_nil, String.toList_inj, spelling_eq_join, map_form_placed] at this

/-- A sign stands between two numbers that are not fused. -/
theorem lex_image_sign :
    lex "1-2" = .ok (placed 0 [(.number, "1"), (.number, "-2")] ++ [.endOfInput 3]) ∧
    Legible [(.number, "1"), (.number, "-2")] ∧ "1-2" = String.join ["1", "-2"] := by
  have h : lex "1-2" = .ok (placed 0 [(.number, "1"), (.number, "-2")] ++ [.endOfInput 3]) := by decide +kernel
  have image := lex_image [(.number, "1"), (.number, "-2")]
  exact ⟨h, image.1.1 ⟨_, h⟩, image.2 _ h⟩

end FuncIR
