import FuncIR.Proofs.Token.Lexeme
import Mathlib.Computability.Language

/-!
# Spellings

`TokenKind.spellings` are the texts of each kind of token. A lexeme is the longest such text at its place: it is
spelled as its kind, and what stands behind it does not go on with it (`lexeme?_spelled`). Conversely a text that is
spelled as its kind is read as a whole if the character behind it does not go on with it (`lexeme?_of_spelled`).
-/

namespace FuncIR

open scoped Computability

/-! ## Classes of text -/

/-- One character of a class. -/
def oneOf (p : Char → Bool) : Language Char := {text | ∃ c, p c = true ∧ text = [c]}

/-- One character of a class or more. -/
def someOf (p : Char → Bool) : Language Char := oneOf p * (oneOf p)∗

namespace TokenKind

/-- The texts that a token of this kind may have. -/
def spellings : TokenKind → Language Char
  | whitespace => someOf fun c => c ∈ ['\t', '\n', '\x0c', '\r', ' ']
  | identifier => oneOf Char.isAlpha * (oneOf Char.isAlphanum)∗ - {"func".toList}
  | keywordFunc => {"func".toList}
  | number => (1 + oneOf fun c => c ∈ ['-', '+']) * someOf Char.isDigit * (1 + {['.']} * someOf Char.isDigit)
  | roundOpen => {['(']}
  | roundClose => {[')']}
  | curlyOpen => {['\x7b']}
  | curlyClose => {['\x7d']}
  | equals => {['=']}
  | lessThan => {['<']}
  | comma => {[',']}
  | eof => 0
  | unknown => 0

end TokenKind

theorem mem_kstar_oneOf {p : Char → Bool} {text : List Char} : text ∈ (oneOf p)∗ ↔ ∀ c ∈ text, p c = true := by
  constructor
  · intro h
    obtain ⟨parts, rfl, hp⟩ := Language.mem_kstar.1 h
    intro c hc
    obtain ⟨part, hm, hc⟩ := List.mem_flatten.1 hc
    obtain ⟨d, hd, rfl⟩ := hp part hm
    rwa [List.mem_singleton.1 hc]
  · intro h
    refine Language.mem_kstar.2 ⟨text.map fun c => [c], (List.flatMap_singleton' text).symm, fun part hm => ?_⟩
    obtain ⟨c, hc, rfl⟩ := List.mem_map.1 hm
    exact ⟨c, h c hc, rfl⟩

theorem cons_mem_oneOf_mul {p : Char → Bool} {l : Language Char} {c : Char} {text : List Char} :
    c :: text ∈ oneOf p * l ↔ p c = true ∧ text ∈ l := by
  constructor
  · rintro ⟨_, ⟨d, hd, rfl⟩, rest, hr, he⟩
    obtain ⟨rfl, rfl⟩ := List.cons.inj he
    exact ⟨hd, hr⟩
  · rintro ⟨hc, ht⟩
    exact Language.append_mem_mul (a := [c]) ⟨c, hc, rfl⟩ ht

theorem mem_someOf {p : Char → Bool} {text : List Char} :
    text ∈ someOf p ↔ text ≠ [] ∧ ∀ c ∈ text, p c = true := by
  cases text with
  | nil =>
    refine ⟨?_, fun h => absurd rfl h.1⟩
    rintro ⟨_, ⟨c, _, rfl⟩, rest, _, he⟩
    cases he
  | cons c text => rw [someOf, cons_mem_oneOf_mul, mem_kstar_oneOf]; simp

theorem mem_identifier {text : List Char} : text ∈ TokenKind.identifier.spellings ↔ ∃ c tail, text = c :: tail ∧
    c.isAlpha = true ∧ (∀ d ∈ tail, d.isAlphanum = true) ∧ text ≠ "func".toList := by
  constructor
  · rintro ⟨⟨_, ⟨c, hc, rfl⟩, tail, ht, rfl⟩, hf⟩
    exact ⟨c, tail, rfl, hc, mem_kstar_oneOf.1 ht, hf⟩
  · rintro ⟨c, tail, rfl, hc, ht, hf⟩
    exact ⟨cons_mem_oneOf_mul.2 ⟨hc, mem_kstar_oneOf.2 ht⟩, hf⟩

/-- The parts of a number. -/
theorem mem_number {text : List Char} : text ∈ TokenKind.number.spellings ↔ ∃ sign digits fraction,
    text = sign ++ digits ++ fraction ∧ (sign = [] ∨ sign = ['-'] ∨ sign = ['+']) ∧ digits ∈ someOf Char.isDigit ∧
      (fraction = [] ∨ ∃ decimals ∈ someOf Char.isDigit, fraction = '.' :: decimals) := by
  constructor
  · rintro ⟨_, ⟨sign, hs, digits, hd, rfl⟩, fraction, hf, rfl⟩
    refine ⟨sign, digits, fraction, rfl, ?_, hd, ?_⟩
    · rcases hs with hs | ⟨c, hc, rfl⟩
      · exact .inl hs
      · simp only [List.mem_cons, List.not_mem_nil, or_false, decide_eq_true_eq] at hc
        rcases hc with rfl | rfl <;> simp
    · rcases hf with hf | ⟨_, rfl, decimals, hm, rfl⟩
      · exact .inl hf
      · exact .inr ⟨decimals, hm, rfl⟩
  · rintro ⟨sign, digits, fraction, rfl, hs, hd, hf⟩
    refine Language.append_mem_mul (Language.append_mem_mul ?_ hd) ?_
    · rcases hs with rfl | rfl | rfl
      · exact .inl rfl
      · exact .inr ⟨'-', by decide, rfl⟩
      · exact .inr ⟨'+', by decide, rfl⟩
    · rcases hf with rfl | ⟨decimals, hm, rfl⟩
      · exact .inl rfl
      · exact .inr (Language.append_mem_mul (a := ['.']) rfl hm)

/-! ## Where a lexeme ends -/

namespace Lexer

/-- The characters with which a lexeme of this kind would go on. -/
def goesOn : TokenKind → Char → Bool
  | .whitespace => isBlank
  | .identifier | .keywordFunc => Char.isAlphanum
  | .number => Char.isDigit
  | _ => fun _ => false

theorem isBlank_iff {c : Char} : isBlank c = true ↔ c ∈ ['\t', '\n', '\x0c', '\r', ' '] := by
  simp [isBlank, or_assoc]

theorem toNat_of_isAlpha {c : Char} (h : c.isAlpha = true) : 65 ≤ c.toNat := by
  rcases Bool.or_eq_true_iff.1 h with upper | lower
  · exact (of_decide_eq_true upper).1
  · have : 97 ≤ c.toNat := of_decide_eq_true (Bool.and_eq_true_iff.1 lower).1
    omega

theorem toNat_of_isDigit {c : Char} (h : c.isDigit = true) : 48 ≤ c.toNat ∧ c.toNat ≤ 57 := by
  obtain ⟨low, high⟩ := Bool.and_eq_true_iff.1 h
  exact ⟨of_decide_eq_true low, of_decide_eq_true high⟩

theorem isAlphanum_of_isAlpha {c : Char} (h : c.isAlpha = true) : c.isAlphanum = true :=
  Bool.or_eq_true_iff.2 (.inl h)

theorem isAlphanum_of_isDigit {c : Char} (h : c.isDigit = true) : c.isAlphanum = true :=
  Bool.or_eq_true_iff.2 (.inr h)

/-- Letters and digits are neither blanks nor parts of a number's sign or fraction, and no letter is a digit. -/
theorem not_of_isAlphanum {c : Char} (h : c.isAlphanum = true) :
    isBlank c = false ∧ c ≠ '.' ∧ c ≠ '-' ∧ c ≠ '+' := by
  have hn : 48 ≤ c.toNat := by
    rw [Char.isAlphanum, Bool.or_eq_true] at h
    rcases h with h | h
    · have := toNat_of_isAlpha h
      omega
    · exact (toNat_of_isDigit h).1
  refine ⟨?_, ?_, ?_, ?_⟩
  · by_contra hb
    rw [Bool.not_eq_false, isBlank_iff] at hb
    simp only [List.mem_cons, List.not_mem_nil, or_false] at hb
    rcases hb with rfl | rfl | rfl | rfl | rfl <;> simp at hn
  all_goals rintro rfl; simp at hn

theorem not_isDigit_of_isAlpha {c : Char} (h : c.isAlpha = true) : c.isDigit = false := by
  by_contra hd
  have := toNat_of_isAlpha h
  have := (toNat_of_isDigit (by simpa using hd)).2
  omega

theorem not_isAlpha_of_isDigit {c : Char} (h : c.isDigit = true) : c.isAlpha = false := by
  by_contra ha
  rw [not_isDigit_of_isAlpha (by simpa using ha)] at h
  cases h

theorem takeWhile_eq_nil_iff {p : Char → Bool} {rest : List Char} :
    rest.takeWhile p = [] ↔ ∀ c ∈ rest.head?, p c = false := by
  cases rest with
  | nil => simp
  | cons c rest => cases hp : p c <;> simp [hp]

theorem takeWhile_append_of_head? {p : Char → Bool} {taken rest : List Char} (all : ∀ c ∈ taken, p c = true)
    (stop : ∀ c ∈ rest.head?, p c = false) : (taken ++ rest).takeWhile p = taken := by
  rw [List.takeWhile_append_of_pos all, takeWhile_eq_nil_iff.2 stop, List.append_nil]

/-- What `takeWhile` takes, and why it stops. -/
theorem exists_takeWhile (p : Char → Bool) (text : List Char) : ∃ taken rest, text = taken ++ rest ∧
    text.takeWhile p = taken ∧ (∀ c ∈ taken, p c = true) ∧ ∀ c ∈ rest.head?, p c = false := by
  have ht : text.takeWhile p ++ text.dropWhile p = text := List.takeWhile_append_dropWhile
  obtain ⟨all, stop⟩ := takeWhile_append_eq (congrArg (List.takeWhile p) ht)
  exact ⟨_, _, ht.symm, rfl, all, takeWhile_eq_nil_iff.1 stop⟩

/-! ## Texts that are lexemes -/

section Lexemes
variable {kind : TokenKind} {lexeme rest : List Char}

theorem wordKind_eq (word : List Char) :
    wordKind word = if word = "func".toList then .keywordFunc else .identifier := by
  have h : String.ofList word = "func" ↔ word = "func".toList :=
    ⟨fun h => h ▸ (String.toList_ofList).symm, fun h => h ▸ String.ofList_toList⟩
  simp only [wordKind, TokenKind.ofKeyword?, h]
  split <;> rfl

theorem lexeme?_word {c : Char} {tail : List Char} (hc : c.isAlpha = true) (ht : ∀ d ∈ tail, d.isAlphanum = true)
    (stop : ∀ d ∈ rest.head?, d.isAlphanum = false) :
    lexeme? (c :: tail ++ rest) = some (wordKind (c :: tail), c :: tail) := by
  have hb := (not_of_isAlphanum (isAlphanum_of_isAlpha hc)).1
  simp only [List.cons_append, lexeme?, hb, hc, takeWhile_append_of_head? ht stop, if_true, Bool.false_eq_true,
    if_false]

theorem lexeme?_mark {c : Char} (h : punctuation? c = some kind) (rest : List Char) :
    lexeme? (c :: rest) = some (kind, [c]) := by
  unfold punctuation? at h
  split at h <;> cases h <;> rfl

theorem sign_of_not_sign {c : Char} (h : c ≠ '-' ∧ c ≠ '+') (rest : List Char) : sign (c :: rest) = [] := by
  unfold sign
  split
  · rename_i he
    exact absurd (List.cons.inj he).1 h.2
  · rename_i he
    exact absurd (List.cons.inj he).1 h.1
  · rfl

/-- Where a number is read, nothing else is. -/
theorem lexeme?_of_number {text : List Char} (h : number text ≠ []) : lexeme? text = some (.number, number text) := by
  cases text with
  | nil => exact absurd rfl h
  | cons c rest =>
    have first : isBlank c = false ∧ c.isAlpha = false := by
      by_cases hs : c = '-' ∨ c = '+'
      · rcases hs with rfl | rfl <;> decide
      · have hd : c.isDigit = true := by
          by_contra hd
          apply h
          rw [number_eq_nil_iff, sign_of_not_sign (not_or.1 hs)]
          simp [hd]
        exact ⟨(not_of_isAlphanum (isAlphanum_of_isDigit hd)).1, not_isAlpha_of_isDigit hd⟩
    simp [lexeme?, first, h]

/-- What stands behind a number must not be read as its fraction. -/
theorem lexeme?_number (h : lexeme ∈ TokenKind.number.spellings)
    (stop : ∀ c ∈ rest.head?, c.isDigit = false ∧ c ≠ '.') :
    lexeme? (lexeme ++ rest) = some (.number, lexeme) := by
  obtain ⟨s, digits, point, rfl, hs, hd, hp⟩ := mem_number.1 h
  obtain ⟨hn, hd⟩ := mem_someOf.1 hd
  have point_stop : ∀ c ∈ (point ++ rest).head?, c.isDigit = false := by
    rcases hp with rfl | ⟨decimals, -, rfl⟩
    · exact fun c hc => (stop c hc).1
    · rintro _ ⟨⟩
      rfl
  have point_eq : fraction (point ++ rest) = point := by
    rcases hp with rfl | ⟨decimals, hm, rfl⟩
    · cases rest with
      | nil => rfl
      | cons c rest => rw [List.nil_append, fraction_cons, if_neg fun h => (stop c rfl).2 h.1]
    · obtain ⟨hm, ha⟩ := mem_someOf.1 hm
      rw [List.cons_append, fraction_cons, takeWhile_append_of_head? ha fun c hc => (stop c hc).1, if_pos ⟨rfl, hm⟩]
  have sign_eq : sign (s ++ (digits ++ (point ++ rest))) = s := by
    rcases hs with rfl | rfl | rfl
    · cases digits with
      | nil => exact absurd rfl hn
      | cons d digits =>
        have hd := hd d List.mem_cons_self
        exact sign_of_not_sign (not_of_isAlphanum (isAlphanum_of_isDigit hd)).2.2 _
    · rfl
    · rfl
  have number_eq : number (s ++ digits ++ point ++ rest) = s ++ digits ++ point := by
    rw [List.append_assoc, List.append_assoc, number_append sign_eq, takeWhile_append_of_head? hd point_stop,
      if_neg hn, List.drop_left, point_eq]
  have ne : number (s ++ digits ++ point ++ rest) ≠ [] := by
    rw [number_eq]
    simp [hn]
  rw [lexeme?_of_number ne, number_eq]

/-- A text that is spelled as its kind is read as a whole where the text behind it does not go on with it. -/
theorem lexeme?_of_spelled (h : lexeme ∈ kind.spellings) (stop : ∀ c ∈ rest.head?, goesOn kind c = false ∧ c ≠ '.') :
    lexeme? (lexeme ++ rest) = some (kind, lexeme) := by
  cases kind with
  | whitespace =>
    obtain ⟨hn, ha⟩ := mem_someOf.1 h
    have ha : ∀ c ∈ lexeme, isBlank c = true := fun c hc => isBlank_iff.2 (by simpa using ha c hc)
    cases lexeme with
    | nil => exact absurd rfl hn
    | cons c run =>
      have hrun := takeWhile_append_of_head? (fun d hd => ha d (List.mem_cons_of_mem _ hd)) fun d hd => (stop d hd).1
      simp [lexeme?, ha c List.mem_cons_self, hrun]
  | identifier =>
    obtain ⟨c, tail, rfl, hc, ht, hf⟩ := mem_identifier.1 h
    rw [lexeme?_word hc ht fun d hd => (stop d hd).1, wordKind_eq, if_neg hf]
  | keywordFunc =>
    obtain rfl : lexeme = 'f' :: ['u', 'n', 'c'] := h
    exact lexeme?_word rfl (by simp) fun d hd => (stop d hd).1
  | number => exact lexeme?_number h stop
  | eof => exact absurd h (Language.notMem_zero _)
  | unknown => exact absurd h (Language.notMem_zero _)
  | _ =>
    obtain rfl := h
    exact lexeme?_mark rfl rest

theorem sign_cases (text : List Char) : sign text = [] ∨ sign text = ['-'] ∨ sign text = ['+'] := by
  unfold sign
  split <;> simp

theorem fraction_cases (text : List Char) : fraction text = [] ∨
    ∃ decimals rest, text = '.' :: (decimals ++ rest) ∧ decimals ∈ someOf Char.isDigit ∧
      fraction text = '.' :: decimals ∧ ∀ c ∈ rest.head?, c.isDigit = false := by
  cases text with
  | nil => exact .inl rfl
  | cons c text =>
    rw [fraction_cons]
    split
    · rename_i h
      obtain ⟨decimals, rest, rfl, ht, all, stop⟩ := exists_takeWhile Char.isDigit text
      rw [ht] at h ⊢
      exact .inr ⟨decimals, rest, by rw [h.1], mem_someOf.2 ⟨h.2, all⟩, rfl, stop⟩
    · exact .inl rfl

/-- A number is spelled as one, and no digit stands behind it. -/
theorem number_spelled (h : number (lexeme ++ rest) = lexeme) (hn : lexeme ≠ []) :
    lexeme ∈ TokenKind.number.spellings ∧ ∀ c ∈ rest.head?, c.isDigit = false := by
  obtain ⟨u, hu⟩ := sign_isPrefix (lexeme ++ rest)
  have hs := sign_cases (lexeme ++ rest)
  have sign_eq : sign (sign (lexeme ++ rest) ++ u) = sign (lexeme ++ rest) := by rw [hu]
  rw [← hu, number_append sign_eq] at h
  generalize sign (lexeme ++ rest) = s at *
  obtain ⟨digits, v, rfl, hd, all, stop⟩ := exists_takeWhile Char.isDigit u
  rw [hd, List.drop_left] at h
  split at h
  · exact absurd h.symm hn
  · rename_i hne
    have hr : v = fraction v ++ rest := by
      rw [← List.append_assoc, ← h, List.append_assoc (s ++ digits)] at hu
      exact List.append_cancel_left hu
    have digits_mem : digits ∈ someOf Char.isDigit := mem_someOf.2 ⟨hne, all⟩
    rcases fraction_cases v with hf | ⟨decimals, more, rfl, hm, hf, hmore⟩ <;> rw [hf] at h hr
    · obtain rfl : v = rest := hr
      exact ⟨mem_number.2 ⟨s, digits, [], h.symm, hs, digits_mem, .inl rfl⟩, stop⟩
    · obtain rfl : more = rest := by simpa using hr
      exact ⟨mem_number.2 ⟨s, digits, _, h.symm, hs, digits_mem, .inr ⟨decimals, hm, rfl⟩⟩, hmore⟩

theorem punctuation?_spelled {c : Char} (h : punctuation? c = some kind) :
    [c] ∈ kind.spellings ∧ ∀ d, goesOn kind d = false := by
  unfold punctuation? at h
  split at h <;> cases h <;> exact ⟨rfl, fun _ => rfl⟩

theorem lexeme?_spelled (h : lexeme? (lexeme ++ rest) = some (kind, lexeme)) :
    lexeme ∈ kind.spellings ∧ ∀ c ∈ rest.head?, goesOn kind c = false := by
  cases lexeme with
  | nil => exact absurd rfl (lexeme?_ne_nil h).2
  | cons c tail =>
    rw [List.cons_append] at h
    simp only [lexeme?] at h
    by_cases hb : isBlank c = true
    · obtain ⟨rfl, ht⟩ : .whitespace = kind ∧ (tail ++ rest).takeWhile isBlank = tail := by simpa [hb] using h
      obtain ⟨all, stop⟩ := takeWhile_append_eq ht
      refine ⟨mem_someOf.2 ⟨by simp, ?_⟩, takeWhile_eq_nil_iff.1 stop⟩
      intro d hd
      rw [decide_eq_true_eq, ← isBlank_iff]
      rcases List.mem_cons.1 hd with rfl | hd
      · exact hb
      · exact all d hd
    · rw [if_neg hb] at h
      by_cases ha : c.isAlpha = true
      · rw [if_pos ha] at h
        have ht : (tail ++ rest).takeWhile Char.isAlphanum = tail :=
          (List.cons.inj (Prod.mk.inj (Option.some.inj h)).2).2
        rw [ht, wordKind_eq] at h
        obtain ⟨all, stop⟩ := takeWhile_append_eq ht
        have stop := takeWhile_eq_nil_iff.1 stop
        split at h
        · rename_i hf
          obtain rfl : .keywordFunc = kind := (Prod.mk.inj (Option.some.inj h)).1
          exact ⟨hf, stop⟩
        · rename_i hf
          obtain rfl : .identifier = kind := (Prod.mk.inj (Option.some.inj h)).1
          exact ⟨mem_identifier.2 ⟨c, tail, rfl, ha, all, hf⟩, stop⟩
      · rw [if_neg ha] at h
        by_cases hn : number (c :: (tail ++ rest)) = []
        · obtain ⟨hp, rfl⟩ : punctuation? c = some kind ∧ tail = [] := by simpa [hn] using h
          obtain ⟨hs, hg⟩ := punctuation?_spelled hp
          exact ⟨hs, fun d _ => hg d⟩
        · obtain ⟨rfl, ht⟩ : .number = kind ∧ number (c :: (tail ++ rest)) = c :: tail := by simpa [hn] using h
          exact number_spelled ht (by simp)

/-- How a text of each kind begins. -/
theorem head_spelled {kind : TokenKind} {text : List Char} (h : text ∈ kind.spellings) : ∃ c ∈ text.head?,
    c ≠ '.' ∧ (isBlank c = true ↔ kind = .whitespace) ∧
    (c.isAlpha = true ↔ kind = .identifier ∨ kind = .keywordFunc) ∧
    (c.isDigit = true ↔ kind = .number ∧ c ≠ '-' ∧ c ≠ '+') := by
  cases kind with
  | whitespace =>
    obtain ⟨hn, ha⟩ := mem_someOf.1 h
    cases text with
    | nil => exact absurd rfl hn
    | cons c rest =>
      have hc : c ∈ ['\t', '\n', '\x0c', '\r', ' '] := by simpa using ha c List.mem_cons_self
      have first : ∀ c ∈ ['\t', '\n', '\x0c', '\r', ' '], c ≠ '.' ∧ isBlank c = true ∧ c.isAlpha = false ∧
          c.isDigit = false := by simp [isBlank]
      exact ⟨c, rfl, by simp [first c hc]⟩
  | identifier =>
    obtain ⟨c, rest, rfl, hc, -⟩ := mem_identifier.1 h
    obtain ⟨hb, hp, -⟩ := not_of_isAlphanum (isAlphanum_of_isAlpha hc)
    exact ⟨c, rfl, by simp [hb, hp, hc, not_isDigit_of_isAlpha hc]⟩
  | keywordFunc =>
    obtain rfl := h
    exact ⟨'f', rfl, by decide⟩
  | number =>
    obtain ⟨sign, digits, fraction, rfl, hs, hd, -⟩ := mem_number.1 h
    rcases hs with rfl | rfl | rfl
    · obtain ⟨hn, ha⟩ := mem_someOf.1 hd
      cases digits with
      | nil => exact absurd rfl hn
      | cons c rest =>
        have hc := ha c List.mem_cons_self
        obtain ⟨hb, hp, hm, hq⟩ := not_of_isAlphanum (isAlphanum_of_isDigit hc)
        exact ⟨c, rfl, by simp [hb, hp, hm, hq, hc, not_isAlpha_of_isDigit hc]⟩
    · exact ⟨'-', rfl, by decide⟩
    · exact ⟨'+', rfl, by decide⟩
  | eof => exact absurd h (Language.notMem_zero _)
  | unknown => exact absurd h (Language.notMem_zero _)
  | _ =>
    obtain rfl := h
    exact ⟨_, rfl, by decide⟩

end Lexemes

end Lexer

end FuncIR
