import FuncIR.Text.Utf8

/-!
# Reading UTF-8

The bytes of a text are read as that text (`decode_encode`), one character at a time (`charsFrom_utf8EncodeChar`): its
first byte says how many others come and in which range the first of them lies.
-/

namespace FuncIR.Text.Utf8

section
variable {n : Nat} {bytes : Bytes}

theorem toNat_ofNat (h : n < 256) : (UInt8.ofNat n).toNat = n := by
  simp [Nat.mod_eq_of_lt h]

theorem holds_ofNat {range : ByteRange} (h : n < 256) (least : range.least ≤ n) (greatest : n ≤ range.greatest) :
    range.holds (UInt8.ofNat n) = true := by
  simp only [ByteRange.holds, toNat_ofNat h, least, greatest, decide_true, Bool.and_self]

/-! ## The bytes of a character -/

/-- The byte goes on with the character, and others are still to come. -/
theorem charsFrom_next {bits : Nat} {range other : ByteRange} {ranges : List ByteRange} {byte : UInt8}
    (h : range.holds byte = true) : charsFrom ⟨bits, range :: other :: ranges⟩ (byte :: bytes) =
      charsFrom ⟨bits * 64 + byte.toNat % 64, other :: ranges⟩ bytes := by
  simp [charsFrom, Partial.step, Partial.settle, h]

/-- The byte is the last of the character. -/
theorem charsFrom_last {bits : Nat} {range : ByteRange} {byte : UInt8} (h : range.holds byte = true) :
    charsFrom ⟨bits, [range]⟩ (byte :: bytes) =
      Char.ofNat (bits * 64 + byte.toNat % 64) :: charsFrom {} bytes := by
  simp [charsFrom, Partial.step, Partial.settle, h]

/-- The byte is the first of the character, and others are still to come. -/
theorem charsFrom_lead {bits : Nat} {range : ByteRange} {ranges : List ByteRange} {byte : UInt8}
    (h : Partial.ofLead? byte = some ⟨bits, range :: ranges⟩) :
    charsFrom {} (byte :: bytes) = charsFrom ⟨bits, range :: ranges⟩ bytes := by
  simp [charsFrom, Partial.step, begin, h, Partial.settle]

theorem ofLead?_one (h : n < 0x80) : Partial.ofLead? (UInt8.ofNat n) = some ⟨n, []⟩ := by
  simp [Partial.ofLead?, toNat_ofNat (Nat.lt_trans h (by decide)), h]

theorem ofLead?_two (hl : 0xc2 ≤ n) (hu : n < 0xe0) :
    Partial.ofLead? (UInt8.ofNat n) = some ⟨n - 0xc0, [continuation]⟩ := by
  have lead := toNat_ofNat (Nat.lt_trans hu (by decide))
  simp [Partial.ofLead?, lead, Nat.not_lt.2 hl, hu, Nat.not_lt.2 (Nat.le_trans (by decide : 0x80 ≤ 0xc2) hl)]

/-- A first byte with two others to come, of which the next one is `m`. -/
theorem exists_ofLead?_three {m : Nat} (hl : 0xe0 ≤ n) (hu : n < 0xf0) (hn : 0x80 ≤ m) (hm : m ≤ 0xbf)
    (short : n = 0xe0 → 0xa0 ≤ m) (surrogate : n = 0xed → m ≤ 0x9f) :
    ∃ range : ByteRange, Partial.ofLead? (UInt8.ofNat n) = some ⟨n - 0xe0, [range, continuation]⟩ ∧
      range.holds (UInt8.ofNat m) = true := by
  have lead := toNat_ofNat (Nat.lt_trans hu (by decide))
  have small : m < 256 := Nat.lt_of_le_of_lt hm (by decide)
  have h80 : ¬ n < 0x80 := by omega
  have hc2 : ¬ n < 0xc2 := by omega
  have he0 : ¬ n < 0xe0 := by omega
  by_cases first : n = 0xe0
  · exact ⟨⟨0xa0, 0xbf⟩, by simp [Partial.ofLead?, first], holds_ofNat small (short first) hm⟩
  by_cases last : n = 0xed
  · exact ⟨⟨0x80, 0x9f⟩, by simp [Partial.ofLead?, last], holds_ofNat small hn (surrogate last)⟩
  · exact ⟨continuation, by simp [Partial.ofLead?, lead, h80, hc2, he0, first, last, hu], holds_ofNat small hn hm⟩

/-- A first byte with three others to come, of which the next one is `m`. -/
theorem exists_ofLead?_four {m : Nat} (hl : 0xf0 ≤ n) (hu : n ≤ 0xf4) (hn : 0x80 ≤ m) (hm : m ≤ 0xbf)
    (short : n = 0xf0 → 0x90 ≤ m) (beyond : n = 0xf4 → m ≤ 0x8f) :
    ∃ range : ByteRange, Partial.ofLead? (UInt8.ofNat n) = some ⟨n - 0xf0, [range, continuation, continuation]⟩ ∧
      range.holds (UInt8.ofNat m) = true := by
  have lead := toNat_ofNat (Nat.lt_of_le_of_lt hu (by decide))
  have small : m < 256 := Nat.lt_of_le_of_lt hm (by decide)
  have h80 : ¬ n < 0x80 := by omega
  have hc2 : ¬ n < 0xc2 := by omega
  have he0 : ¬ n < 0xe0 := by omega
  have hf0 : ¬ n < 0xf0 := by omega
  have three : n ≠ 0xe0 ∧ n ≠ 0xed := by omega
  by_cases first : n = 0xf0
  · exact ⟨⟨0x90, 0xbf⟩, by simp [Partial.ofLead?, first], holds_ofNat small (short first) hm⟩
  by_cases last : n = 0xf4
  · exact ⟨⟨0x80, 0x8f⟩, by simp [Partial.ofLead?, last], holds_ofNat small hn (beyond last)⟩
  · have hf4 : n < 0xf4 := by omega
    exact ⟨continuation, by simp [Partial.ofLead?, lead, h80, hc2, he0, hf0, three, first, hf4],
      holds_ofNat small hn hm⟩

theorem holds_continuation (h : n < 0x40) : continuation.holds (UInt8.ofNat (n + 0x80)) = true :=
  holds_ofNat (by omega) (by simp [continuation]) (by simp [continuation]; omega)

/-! The bits of a character lie six to a byte, from the last one on. -/

theorem charsFrom_one (h : n < 0x80) : charsFrom {} (UInt8.ofNat n :: bytes) = Char.ofNat n :: charsFrom {} bytes := by
  simp [charsFrom, Partial.step, begin, ofLead?_one h, Partial.settle]

theorem charsFrom_two (hl : 0x80 ≤ n) (hu : n < 0x800) :
    charsFrom {} (UInt8.ofNat (n / 64 % 32 + 0xc0) :: UInt8.ofNat (n % 64 + 0x80) :: bytes) =
      Char.ofNat n :: charsFrom {} bytes := by
  have lead := ofLead?_two (n := n / 64 % 32 + 0xc0) (by omega) (by omega)
  have last := holds_continuation (n := n % 64) (by omega)
  have bits : (n / 64 % 32 + 0xc0 - 0xc0) * 64 + (n % 64 + 0x80) % 64 = n := by omega
  rw [charsFrom_lead lead, charsFrom_last last, toNat_ofNat (by omega), bits]

theorem charsFrom_three (hl : 0x800 ≤ n) (hu : n < 0x10000) (hs : n < 0xd800 ∨ 0xdfff < n) :
    charsFrom {} (UInt8.ofNat (n / 4096 % 16 + 0xe0) :: UInt8.ofNat (n / 64 % 64 + 0x80) ::
      UInt8.ofNat (n % 64 + 0x80) :: bytes) = Char.ofNat n :: charsFrom {} bytes := by
  obtain ⟨range, lead, second⟩ := exists_ofLead?_three (n := n / 4096 % 16 + 0xe0) (m := n / 64 % 64 + 0x80)
    (by omega) (by omega) (by omega) (by omega) (by omega) (by omega)
  have last := holds_continuation (n := n % 64) (by omega)
  have bits : ((n / 4096 % 16 + 0xe0 - 0xe0) * 64 + (n / 64 % 64 + 0x80) % 64) * 64 + (n % 64 + 0x80) % 64 = n := by
    omega
  rw [charsFrom_lead lead, charsFrom_next second, charsFrom_last last, toNat_ofNat (by omega), toNat_ofNat (by omega),
    bits]

theorem charsFrom_four (hl : 0x10000 ≤ n) (hu : n < 0x110000) :
    charsFrom {} (UInt8.ofNat (n / 262144 % 8 + 0xf0) :: UInt8.ofNat (n / 4096 % 64 + 0x80) ::
      UInt8.ofNat (n / 64 % 64 + 0x80) :: UInt8.ofNat (n % 64 + 0x80) :: bytes) =
        Char.ofNat n :: charsFrom {} bytes := by
  obtain ⟨range, lead, second⟩ := exists_ofLead?_four (n := n / 262144 % 8 + 0xf0) (m := n / 4096 % 64 + 0x80)
    (by omega) (by omega) (by omega) (by omega) (by omega) (by omega)
  have third := holds_continuation (n := n / 64 % 64) (by omega)
  have last := holds_continuation (n := n % 64) (by omega)
  have bits : (((n / 262144 % 8 + 0xf0 - 0xf0) * 64 + (n / 4096 % 64 + 0x80) % 64) * 64 +
      (n / 64 % 64 + 0x80) % 64) * 64 + (n % 64 + 0x80) % 64 = n := by omega
  rw [charsFrom_lead lead, charsFrom_next second, charsFrom_next third, charsFrom_last last, toNat_ofNat (by omega),
    toNat_ofNat (by omega), toNat_ofNat (by omega), bits]

end

/-- A character is read off its bytes. -/
theorem charsFrom_utf8EncodeChar (c : Char) (bytes : Bytes) :
    charsFrom {} (String.utf8EncodeChar c ++ bytes) = c :: charsFrom {} bytes := by
  have valid : c.val.toNat < 0xd800 ∨ 0xdfff < c.val.toNat ∧ c.val.toNat < 0x110000 := c.valid
  suffices h : charsFrom {} (String.utf8EncodeChar c ++ bytes) = Char.ofNat c.val.toNat :: charsFrom {} bytes from
    h.trans (congrArg (· :: charsFrom {} bytes) (Char.ofNat_toNat c))
  unfold String.utf8EncodeChar
  dsimp only
  split
  · exact charsFrom_one (by omega)
  split
  · exact charsFrom_two (by omega) (by omega)
  split
  · exact charsFrom_three (by omega) (by omega) (by omega)
  · exact charsFrom_four (by omega) (by omega)

/-! ## Texts -/

theorem charsFrom_flatMap (text : List Char) : charsFrom {} (text.flatMap String.utf8EncodeChar) = text := by
  induction text with
  | nil => rfl
  | cons c text ih => rw [List.flatMap_cons, charsFrom_utf8EncodeChar, ih]

/-- What is UTF-8 is read as it is written. -/
@[simp] theorem decode_encode (text : String) : decode (encode text) = text := by
  rw [decode, encode, charsFrom_flatMap, String.ofList_toList]

/-- The bytes are those of a text. -/
def IsText (bytes : Bytes) : Prop :=
  ∃ text, bytes = encode text

theorem IsText.encode_decode {bytes : Bytes} (h : IsText bytes) : encode (decode bytes) = bytes := by
  obtain ⟨text, rfl⟩ := h
  rw [decode_encode]

end FuncIR.Text.Utf8
