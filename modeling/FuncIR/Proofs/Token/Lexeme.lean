import FuncIR.Token.Lexer

/-!
# Lexemes

The lexeme at the head of a text is a part of the text (`lexeme?_isPrefix`), and stays the same when the text is cut
off anywhere behind it (`lexeme?_cut`): no class of lexeme looks further ahead than to the character that ends it,
except for the point of a number, which counts only if digits follow.
-/

namespace FuncIR.Lexer

/-- Cutting the text anywhere behind what the reader takes changes nothing. -/
def Local (read : List Char → List Char) : Prop :=
  ∀ taken rest cut, read (taken ++ rest) = taken → cut <+: rest → read (taken ++ cut) = taken

theorem takeWhile_eq_nil_of_isPrefix {p : Char → Bool} {rest cut : List Char} (h : rest.takeWhile p = [])
    (hc : cut <+: rest) : cut.takeWhile p = [] := by
  cases cut with
  | nil => rfl
  | cons c cut =>
    obtain ⟨more, rfl⟩ := hc
    by_cases hp : p c = true
    · simp [hp] at h
    · simp [hp]

theorem takeWhile_append_eq {p : Char → Bool} {taken rest : List Char} (h : (taken ++ rest).takeWhile p = taken) :
    (∀ c ∈ taken, p c = true) ∧ rest.takeWhile p = [] := by
  have all : ∀ c ∈ taken, p c = true := by
    rw [← h]
    exact List.all_eq_true.1 List.all_takeWhile
  rw [List.takeWhile_append_of_pos all] at h
  exact ⟨all, by simpa using h⟩

theorem local_takeWhile (p : Char → Bool) : Local (List.takeWhile p) := by
  intro taken rest cut h hc
  obtain ⟨all, stop⟩ := takeWhile_append_eq h
  rw [List.takeWhile_append_of_pos all, takeWhile_eq_nil_of_isPrefix stop hc, List.append_nil]

/-! ## Numbers -/

theorem sign_isPrefix (text : List Char) : sign text <+: text := by
  unfold sign
  split <;> simp

theorem sign_append {taken : List Char} (h : taken ≠ []) (rest : List Char) : sign (taken ++ rest) = sign taken := by
  cases taken with
  | nil => exact absurd rfl h
  | cons c taken => simp only [sign, List.cons_append]; split <;> simp_all

theorem fraction_cons (c : Char) (text : List Char) : fraction (c :: text) =
    if c = '.' ∧ text.takeWhile Char.isDigit ≠ [] then '.' :: text.takeWhile Char.isDigit else [] := by
  unfold fraction
  split
  · rename_i rest h
    obtain ⟨rfl, rfl⟩ := List.cons.inj h
    by_cases hd : text.takeWhile Char.isDigit = [] <;> simp [hd]
  · rename_i h
    by_cases hc : c = '.'
    · exact absurd (hc ▸ rfl) (h text)
    · simp [hc]

theorem fraction_isPrefix (text : List Char) : fraction text <+: text := by
  cases text with
  | nil => exact List.nil_prefix
  | cons c text =>
    rw [fraction_cons]
    split
    · rename_i h
      exact List.cons_prefix_cons.2 ⟨h.1.symm, List.takeWhile_prefix _⟩
    · exact List.nil_prefix

theorem local_fraction : Local fraction := by
  intro taken rest cut h hc
  cases taken with
  | nil =>
    cases cut with
    | nil => rfl
    | cons c cut =>
      obtain ⟨more, rfl⟩ := hc
      rw [List.nil_append, List.cons_append, fraction_cons] at h
      rw [List.nil_append, fraction_cons]
      -- No point is taken: either no digits follow it, and none do in less text, or there is none.
      by_cases hd : (cut ++ more).takeWhile Char.isDigit = []
      · simp [takeWhile_eq_nil_of_isPrefix hd (List.prefix_append cut more)]
      · have hp : c ≠ '.' := fun hp => by simp [hp, hd] at h
        simp [hp]
  | cons c taken =>
    rw [List.cons_append, fraction_cons] at h
    rw [List.cons_append, fraction_cons]
    split at h
    · rename_i hd
      obtain ⟨rfl, ht⟩ := List.cons.inj h
      rw [ht] at hd
      rw [local_takeWhile _ taken rest cut ht hc, if_pos hd]
    · cases h

/-- A number, with its sign and digits named. -/
theorem number_append {s u : List Char} (h : sign (s ++ u) = s) :
    number (s ++ u) =
      if u.takeWhile Char.isDigit = [] then []
      else s ++ u.takeWhile Char.isDigit ++ fraction (u.drop (u.takeWhile Char.isDigit).length) := by
  simp only [number, h, List.drop_left, List.isEmpty_iff]

theorem number_eq_nil_iff {text : List Char} :
    number text = [] ↔ (text.drop (sign text).length).takeWhile Char.isDigit = [] := by
  by_cases hd : (text.drop (sign text).length).takeWhile Char.isDigit = []
  · simp only [number, hd, List.isEmpty_nil, if_true]
  · simp only [number, List.isEmpty_iff, hd, if_false, List.append_eq_nil_iff, and_false, false_and]

theorem local_number : Local number := by
  intro taken rest cut h hc
  by_cases ht : taken = []
  · subst ht
    rw [List.nil_append, number_eq_nil_iff] at *
    obtain ⟨more, rfl⟩ := hc
    by_cases hn : cut = []
    · simp [hn]
    · rw [sign_append hn] at h
      apply takeWhile_eq_nil_of_isPrefix h
      rw [List.drop_append]
      exact List.prefix_append _ _
  · -- the sign is settled by the first character, so the parts of the number can be named
    obtain ⟨u, hu⟩ := sign_isPrefix taken
    have hs : ∀ other, sign (sign taken ++ (u ++ other)) = sign taken := by
      intro other
      rw [← List.append_assoc, hu, sign_append ht]
    have hr : taken ++ rest = sign taken ++ (u ++ rest) := by rw [← List.append_assoc, hu]
    have hk : taken ++ cut = sign taken ++ (u ++ cut) := by rw [← List.append_assoc, hu]
    rw [hr, number_append (hs rest)] at h
    rw [hk, number_append (hs cut)]
    split at h
    · exact absurd h.symm ht
    · rename_i hd
      generalize hdigits : (u ++ rest).takeWhile Char.isDigit = digits at h hd
      generalize hpoint : fraction ((u ++ rest).drop digits.length) = point at h
      have hparts : digits ++ point = u := by
        have h := h.trans hu.symm
        rw [List.append_assoc] at h
        exact List.append_cancel_left h
      subst hparts
      rw [List.append_assoc] at hdigits hpoint
      rw [List.drop_left] at hpoint
      have digits_cut := local_takeWhile _ _ _ (point ++ cut) hdigits ((List.prefix_append_right_inj point).2 hc)
      rw [List.append_assoc, digits_cut, if_neg hd, List.drop_left, local_fraction _ _ _ hpoint hc]
      exact h

theorem number_isPrefix (text : List Char) : number text <+: text := by
  obtain ⟨u, hu⟩ := sign_isPrefix text
  have hs : sign (sign text ++ u) = sign text := by rw [hu]
  have hp : number (sign text ++ u) <+: sign text ++ u := by
    rw [number_append hs]
    split
    · exact List.nil_prefix
    · have hd : u.takeWhile Char.isDigit <+: u := List.takeWhile_prefix _
      rw [List.prefix_iff_eq_append] at hd
      have hf := fraction_isPrefix (u.drop (u.takeWhile Char.isDigit).length)
      have hp := (List.prefix_append_right_inj (sign text ++ u.takeWhile Char.isDigit)).2 hf
      rwa [List.append_assoc (sign text) _ (u.drop _), hd] at hp
  rwa [hu] at hp

/-! ## Every lexeme -/

theorem ofKeyword?_ne_eof (word : String) : TokenKind.ofKeyword? word ≠ some .eof := by
  unfold TokenKind.ofKeyword?
  split <;> simp

theorem wordKind_ne_eof (word : List Char) : wordKind word ≠ .eof := by
  unfold wordKind
  have := ofKeyword?_ne_eof (String.ofList word)
  cases h : TokenKind.ofKeyword? (String.ofList word) with
  | none => simp
  | some kind => simp_all

theorem punctuation?_ne_eof (c : Char) : punctuation? c ≠ some .eof := by
  unfold punctuation?
  split <;> simp

theorem lexeme?_isPrefix {text lexeme : List Char} {kind : TokenKind} (h : lexeme? text = some (kind, lexeme)) :
    lexeme <+: text := by
  cases text with
  | nil => cases h
  | cons c rest =>
    simp only [lexeme?] at h
    by_cases hb : isBlank c = true
    · rw [if_pos hb] at h
      cases h
      exact List.cons_prefix_cons.2 ⟨rfl, List.takeWhile_prefix _⟩
    · rw [if_neg hb] at h
      by_cases ha : c.isAlpha = true
      · rw [if_pos ha] at h
        cases h
        exact List.cons_prefix_cons.2 ⟨rfl, List.takeWhile_prefix _⟩
      · rw [if_neg ha] at h
        by_cases hn : (number (c :: rest)).isEmpty = true
        · rw [if_pos hn, Option.map_eq_some_iff] at h
          obtain ⟨_, -, h⟩ := h
          cases h
          exact List.cons_prefix_cons.2 ⟨rfl, List.nil_prefix⟩
        · rw [if_neg hn] at h
          cases h
          exact number_isPrefix _

theorem lexeme?_ne_eof {text lexeme : List Char} {kind : TokenKind} (h : lexeme? text = some (kind, lexeme)) :
    kind ≠ .eof := by
  cases text with
  | nil => cases h
  | cons c rest =>
    have := punctuation?_ne_eof c
    have := wordKind_ne_eof (c :: rest.takeWhile Char.isAlphanum)
    simp only [lexeme?] at h
    grind [Option.map_eq_some_iff]

theorem lexeme?_cut {kind : TokenKind} {lexeme rest cut : List Char}
    (h : lexeme? (lexeme ++ rest) = some (kind, lexeme)) (hc : cut <+: rest) :
    lexeme? (lexeme ++ cut) = some (kind, lexeme) := by
  cases lexeme with
  | nil => exact absurd rfl (lexeme?_ne_nil h).2
  | cons c lexeme =>
    rw [List.cons_append] at h ⊢
    simp only [lexeme?] at h ⊢
    by_cases hb : isBlank c = true
    · rw [if_pos hb] at h ⊢
      obtain ⟨rfl, ht⟩ : .whitespace = kind ∧ (lexeme ++ rest).takeWhile isBlank = lexeme := by simpa using h
      rw [local_takeWhile _ _ _ _ ht hc]
    · rw [if_neg hb] at h ⊢
      by_cases ha : c.isAlpha = true
      · rw [if_pos ha] at h ⊢
        have ht : (lexeme ++ rest).takeWhile Char.isAlphanum = lexeme :=
          (List.cons.inj (Prod.mk.inj (Option.some.inj h)).2).2
        rw [ht] at h
        rwa [local_takeWhile _ _ _ _ ht hc]
      · rw [if_neg ha] at h ⊢
        by_cases hn : number (c :: (lexeme ++ rest)) = []
        · have hn' : number (c :: (lexeme ++ cut)) = [] :=
            local_number [] _ _ hn (List.cons_prefix_cons.2 ⟨rfl, (List.prefix_append_right_inj lexeme).2 hc⟩)
          simpa [hn, hn'] using h
        · rw [if_neg (by simpa using hn)] at h
          obtain ⟨rfl, ht⟩ : .number = kind ∧ number (c :: (lexeme ++ rest)) = c :: lexeme := by simpa using h
          have ht' := local_number (c :: lexeme) _ _ ht hc
          rw [List.cons_append] at ht'
          simp [ht']

end FuncIR.Lexer
