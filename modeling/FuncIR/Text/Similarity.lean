/-!
# Similar words

Which words look like a misspelled name. Characters match if they are equal and stand at about the same place;
how similar two texts are is the mean of three shares: the matched part of either text, and the part of the
matches that come in the same order in both.
-/

namespace FuncIR.Text

/-- The characters of a name that are matched by those of a word, in the order of the word, with their places.
Each character of the word takes the first equal one that is still free and at most `reach` places away. -/
def matched (reach : Nat) : List (Char × Nat) → List (Char × Nat) → List (Char × Nat)
  | [], _ => []
  | (c, i) :: word, free =>
    match free.find? fun (d, j) => d == c && decide (i ≤ j + reach) && decide (j ≤ i + reach) with
    | some taken => taken :: matched reach word (free.erase taken)
    | none => matched reach word free

/-- How many matches are out of order; two that are swapped count once. -/
def transposed (taken name : List (Char × Nat)) : Nat :=
  ((taken.zip (name.filter taken.contains)).countP fun (one, other) => one.1 != other.1) / 2

/-- Whether the mean of the three shares is at least seven tenths. -/
def isSimilar (word name : String) : Bool :=
  let placed := name.toList.zipIdx
  let taken := matched (max word.length name.length / 2 - 1) word.toList.zipIdx placed
  let ordered := taken.length - transposed taken placed
  !taken.isEmpty && decide
    (21 * (word.length * name.length * taken.length) ≤
      10 * (taken.length * taken.length * (word.length + name.length) + ordered * (word.length * name.length)))

/-- A text matches itself place by place. -/
theorem matched_self (reach : Nat) (text : List (Char × Nat)) : matched reach text text = text := by
  induction text with
  | nil => rfl
  | cons place text ih => simp [matched, ih]

theorem transposed_self (text : List (Char × Nat)) : transposed text text = 0 := by
  have kept : text.filter text.contains = text := List.filter_eq_self.2 (by simp)
  have equal : (text.zip text).countP (fun (one, other) => one.1 != other.1) = 0 := by
    simp [List.countP_eq_zero, List.zip_eq_zipWith]
  simp [transposed, kept, equal]

theorem isSimilar_self {text : String} (h : text ≠ "") : isSimilar text text = true := by
  have shares : 21 * (text.length * text.length * text.length) ≤
      10 * (text.length * text.length * (text.length + text.length) + text.length * (text.length * text.length)) := by
    grind
  simpa [isSimilar, matched_self, transposed_self, h, String.length_toList] using shares

end FuncIR.Text
