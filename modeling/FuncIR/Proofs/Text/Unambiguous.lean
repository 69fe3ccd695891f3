import FuncIR.Dump
import Mathlib.Data.List.Basic
import Mathlib.Tactic.SplitIfs

/-!
# Text that can be told apart

Digits, columns and quoted texts say what they were written for, whatever follows: two that start the same text are the
same and leave the same rest (`padRight_append_inj`, `padLeft_append_inj`, `quote_append_inj`). A quoted text is also
free of line feeds (`newline_notMem_quote`).
-/

namespace FuncIR.Text

/-! ## Digits -/

/-- The digits of the bases up to sixteen. -/
def digitChars : List Char :=
  ['0', '1', '2', '3', '4', '5', '6', '7', '8', '9', 'a', 'b', 'c', 'd', 'e', 'f']

theorem digitChar_mem {n : Nat} (h : n < 16) : Nat.digitChar n ∈ digitChars := by
  have all : ∀ n : Fin 16, Nat.digitChar n ∈ digitChars := by decide
  exact all ⟨n, h⟩

theorem digitChar_injective {m n : Nat} (hm : m < 16) (hn : n < 16) (h : Nat.digitChar m = Nat.digitChar n) :
    m = n := by
  have distinct : ∀ m n : Fin 16, Nat.digitChar m = Nat.digitChar n → m = n := by decide
  exact congrArg Fin.val (distinct ⟨m, hm⟩ ⟨n, hn⟩ h)

section
variable {base m n : Nat} (h1 : 1 < base) (h16 : base ≤ 16)
include h1 h16

theorem mem_digitChars_of_mem_toDigits {c : Char} (h : c ∈ Nat.toDigits base n) : c ∈ digitChars := by
  have digit {d : Nat} (hd : d < base) : Nat.digitChar d ∈ digitChars :=
    digitChar_mem (Nat.lt_of_lt_of_le hd h16)
  induction n using Nat.strongRecOn with
  | ind n ih =>
    by_cases hn : n < base
    · rw [Nat.toDigits_of_lt_base hn, List.mem_singleton] at h
      exact h ▸ digit hn
    · have hb : base ≤ n := Nat.le_of_not_lt hn
      rw [Nat.toDigits_of_base_le h1 hb, List.mem_append, List.mem_singleton] at h
      rcases h with h | rfl
      · exact ih (n / base) (Nat.div_lt_self (by omega) h1) h
      · exact digit (Nat.mod_lt n (by omega))

theorem notMem_toDigits {c : Char} (hc : c ∉ digitChars) : c ∉ Nat.toDigits base n :=
  fun h => hc (mem_digitChars_of_mem_toDigits h1 h16 h)

theorem toDigits_injective (h : Nat.toDigits base m = Nat.toDigits base n) : m = n := by
  have small {k : Nat} : k % base < 16 := Nat.lt_of_lt_of_le (Nat.mod_lt k (by omega)) h16
  induction m using Nat.strongRecOn generalizing n with
  | ind m ih =>
    by_cases hm : m < base <;> by_cases hn : n < base
    · rw [Nat.toDigits_of_lt_base hm, Nat.toDigits_of_lt_base hn] at h
      exact digitChar_injective (Nat.lt_of_lt_of_le hm h16) (Nat.lt_of_lt_of_le hn h16) (List.cons.inj h).1
    -- A number with one digit is none with more.
    · rw [Nat.toDigits_of_lt_base hm, Nat.toDigits_of_base_le h1 (Nat.le_of_not_lt hn)] at h
      have front := (List.append_inj' (show [] ++ _ = _ from h) rfl).1
      exact absurd front.symm Nat.toDigits_ne_nil
    · rw [Nat.toDigits_of_base_le h1 (Nat.le_of_not_lt hm), Nat.toDigits_of_lt_base hn] at h
      have front := (List.append_inj' (show _ = [] ++ _ from h) rfl).1
      exact absurd front Nat.toDigits_ne_nil
    · rw [Nat.toDigits_of_base_le h1 (Nat.le_of_not_lt hm), Nat.toDigits_of_base_le h1 (Nat.le_of_not_lt hn)] at h
      obtain ⟨front, last⟩ := List.append_inj' h rfl
      have quotient := ih (m / base) (Nat.div_lt_self (by omega) h1) front
      have remainder := digitChar_injective small small (List.cons.inj last).1
      rw [← Nat.div_add_mod m base, ← Nat.div_add_mod n base, quotient, remainder]

end

/-! ## Columns -/

section
variable {width : Nat} {text other : String} {rest rest' : List Char} {mark : Char}

/-- What is written up to a mark. -/
theorem append_mark_inj {front front' : List Char} (hf : mark ∉ front) (hf' : mark ∉ front')
    (h : front ++ mark :: rest = front' ++ mark :: rest') : front = front' ∧ rest = rest' := by
  induction front generalizing front' with
  | nil =>
    cases front' with
    | nil => exact ⟨rfl, (List.cons.inj h).2⟩
    | cons c front' => exact absurd (by simp [(List.cons.inj h).1]) hf'
  | cons c front ih =>
    cases front' with
    | nil => exact absurd (by simp [(List.cons.inj h).1]) hf
    | cons c' front' =>
      obtain ⟨same, later⟩ := List.cons.inj h
      obtain ⟨fronts, rests⟩ := ih (List.not_mem_of_not_mem_cons hf) (List.not_mem_of_not_mem_cons hf') later
      exact ⟨by rw [same, fronts], rests⟩

/-- Blanks end at the first other character. -/
theorem blanks_append_inj {m n : Nat} (hr : rest.head? ≠ some ' ') (hr' : rest'.head? ≠ some ' ')
    (h : List.replicate m ' ' ++ rest = List.replicate n ' ' ++ rest') : rest = rest' := by
  have strip {k : Nat} {l : List Char} (hl : l.head? ≠ some ' ') :
      (List.replicate k ' ' ++ l).dropWhile (· == ' ') = l := by
    rw [List.dropWhile_append_of_pos fun c hc => by simp [List.eq_of_mem_replicate hc]]
    cases l with
    | nil => rfl
    | cons c l => exact List.dropWhile_cons_of_neg (by simpa using hl)
  rw [← strip hr, h, strip hr']

/-- A column that is filled up at its right, and a blank. -/
theorem padRight_append_inj (ht : ' ' ∉ text.toList) (ho : ' ' ∉ other.toList)
    (h : (padRight width text).toList ++ ' ' :: rest = (padRight width other).toList ++ ' ' :: rest') :
    text = other ∧ rest = rest' := by
  have blank_first (text : String) (rest : List Char) : (padRight width text).toList ++ ' ' :: rest =
      text.toList ++ ' ' :: (List.replicate (width - text.length) ' ' ++ rest) := by
    rw [padRight, String.toList_append, String.toList_ofList, List.append_assoc]
    congr 1
    rw [← List.cons_append, ← List.replicate_succ, List.replicate_succ', List.append_assoc]
    rfl
  rw [blank_first, blank_first] at h
  obtain ⟨same, after⟩ := append_mark_inj ht ho h
  obtain rfl := String.toList_inj.1 same
  exact ⟨rfl, List.append_cancel_left after⟩

/-- A column that is filled up at its left, and a mark that is not in it. -/
theorem padLeft_append_inj (hm : mark ≠ ' ') (ht : ' ' ∉ text.toList) (ho : ' ' ∉ other.toList)
    (htm : mark ∉ text.toList) (hom : mark ∉ other.toList)
    (h : (padLeft width text).toList ++ mark :: rest = (padLeft width other).toList ++ mark :: rest') :
    text = other ∧ rest = rest' := by
  have starts {text : String} {rest : List Char} (ht : ' ' ∉ text.toList) :
      (text.toList ++ mark :: rest).head? ≠ some ' ' := by
    cases hl : text.toList with
    | nil => simpa using hm
    | cons c l =>
      rw [hl] at ht
      simpa using fun blank : c = ' ' => ht (by simp [blank])
  simp only [padLeft, String.toList_append, String.toList_ofList, List.append_assoc] at h
  obtain ⟨same, after⟩ := append_mark_inj htm hom (blanks_append_inj (starts ht) (starts ho) h)
  exact ⟨String.toList_inj.1 same, after⟩

end

/-! ## Quoted text -/

namespace Quoted

/-- The characters that are written as a letter or mark after a backslash, between double quotes. -/
def marked : List (Char × Char) :=
  [('\x00', '0'), ('\t', 't'), ('\n', 'n'), ('\r', 'r'), ('\\', '\\'), ('\x22', '\x22')]

/-- The three ways in which a character is written. -/
inductive Spells : Char → List Char → Prop
  | mark {c mark : Char} (h : (c, mark) ∈ marked) : Spells c ['\\', mark]
  | codePoint {c : Char} : Spells c ('\\' :: 'u' :: '\x7b' :: hexDigits c ++ ['\x7d'])
  | plain {c : Char} (h : c ∉ marked.map Prod.fst) : Spells c [c]

theorem spells_escape (c : Char) : Spells c (escape '\x22' c) := by
  unfold escape
  split_ifs with nul tab feed ret slash quote hidden
  · exact .mark (by simp [marked, nul])
  · exact .mark (by simp [marked, tab])
  · exact .mark (by simp [marked, feed])
  · exact .mark (by simp [marked, ret])
  · exact .mark (by simp [marked, slash])
  · exact .mark (by simp [marked, quote])
  · exact .codePoint
  · exact .plain (by simp [marked, nul, tab, feed, ret, slash, quote])

theorem notMem_hexDigits (c : Char) {d : Char} (h : d ∉ digitChars) : d ∉ hexDigits c :=
  notMem_toDigits (by decide) (by decide) h

/-- No two characters are written so that one text goes on where the other ends. -/
theorem Spells.append_inj {c d : Char} {text other rest rest' : List Char} (hc : Spells c text) (hd : Spells d other)
    (h : text ++ rest = other ++ rest') : c = d ∧ rest = rest' := by
  have slash : ('\\' : Char) ∈ marked.map Prod.fst := by decide
  have distinct : ∀ a ∈ marked, ∀ b ∈ marked, a.2 = b.2 → a.1 = b.1 := by decide
  have noCode : ∀ a ∈ marked, a.2 ≠ 'u' := by decide
  have brace : '\x7d' ∉ digitChars := by decide
  cases hc with
  | mark hc =>
    cases hd with
    | mark hd =>
      obtain ⟨same, rests⟩ : _ ∧ rest = rest' := by simpa using h
      exact ⟨distinct _ hc _ hd same, rests⟩
    | codePoint => exact absurd (by simpa using h : _ ∧ _).1 (noCode _ hc)
    | plain hd => exact absurd ((List.cons.inj h).1 ▸ slash) hd
  | codePoint =>
    cases hd with
    | mark hd => exact absurd (by simpa using h.symm : _ ∧ _).1 (noCode _ hd)
    | codePoint =>
      simp only [List.cons_append, List.append_assoc, List.nil_append, List.cons.injEq, true_and] at h
      obtain ⟨digits, rests⟩ := append_mark_inj (notMem_hexDigits c brace) (notMem_hexDigits d brace) h
      exact ⟨Char.toNat_inj.1 (toDigits_injective (by decide) (by decide) digits), rests⟩
    | plain hd => exact absurd ((List.cons.inj h).1 ▸ slash) hd
  | plain hc =>
    cases hd with
    | mark hd => exact absurd ((List.cons.inj h).1 ▸ slash) hc
    | codePoint => exact absurd ((List.cons.inj h).1 ▸ slash) hc
    | plain hd => exact List.cons.inj h

theorem Spells.newline_notMem {c : Char} {text : List Char} (h : Spells c text) : '\n' ∉ text := by
  have noFeed : ∀ a ∈ marked, a.2 ≠ '\n' := by decide
  have feed : '\n' ∈ marked.map Prod.fst := by decide
  have digits := notMem_hexDigits c (show '\n' ∉ digitChars by decide)
  cases h with
  | mark h => simpa using (noFeed _ h).symm
  | codePoint => simpa using digits
  | plain h => simpa using fun same : '\n' = c => h (same ▸ feed)

/-- What is written for a character does not start like the quote that ends the text. -/
theorem Spells.ne_quote {c : Char} {text rest rest' : List Char} (h : Spells c text) :
    text ++ rest ≠ '\x22' :: rest' := by
  have quote : '\x22' ∈ marked.map Prod.fst := by decide
  cases h with
  | mark h => simp
  | codePoint => simp
  | plain h => exact fun same => h ((List.cons.inj same).1 ▸ quote)

theorem quote_append_inj {text other rest rest' : List Char}
    (h : quote '\x22' text ++ rest = quote '\x22' other ++ rest') : text = other ∧ rest = rest' := by
  simp only [quote, List.cons_append, List.append_assoc, List.nil_append, List.cons.injEq, true_and] at h
  induction text generalizing other with
  | nil =>
    cases other with
    | nil => exact ⟨rfl, (List.cons.inj h).2⟩
    | cons d other =>
      rw [List.flatMap_cons, List.append_assoc] at h
      exact absurd h.symm (spells_escape d).ne_quote
  | cons c text ih =>
    cases other with
    | nil =>
      rw [List.flatMap_cons, List.append_assoc] at h
      exact absurd h (spells_escape c).ne_quote
    | cons d other =>
      rw [List.flatMap_cons, List.flatMap_cons, List.append_assoc, List.append_assoc] at h
      obtain ⟨same, later⟩ := (spells_escape c).append_inj (spells_escape d) h
      obtain ⟨texts, rests⟩ := ih later
      exact ⟨by rw [same, texts], rests⟩

theorem quote_injective {text other : List Char} (h : quote '\x22' text = quote '\x22' other) : text = other := by
  have ended : quote '\x22' text ++ [] = quote '\x22' other ++ [] := by rw [h]
  exact (quote_append_inj ended).1

theorem newline_notMem_quote (text : List Char) : '\n' ∉ quote '\x22' text := by
  simp only [quote, List.mem_append, List.mem_cons, List.mem_flatMap]
  rintro ((feed | ⟨c, -, h⟩) | feed)
  · exact absurd feed (by decide)
  · exact (spells_escape c).newline_notMem h
  · exact absurd feed (by simp)

end Quoted

end FuncIR.Text
