import FuncIR.Proofs.Text.Unambiguous
import FuncIR.Proofs.Token.Lossless
import FuncIR.Dump

/-!
# What a dump says

A line of a dump can be read column by column, so it says which token it is of (`dumpLine_injective`). No line has a
line feed in it (`newline_notMem_dumpLine`), so a dump has the lines of its tokens (`splitOn_dump`), and with the tokens
it says what the source was (`dump_injective`, `eq_of_lex`).
-/

namespace FuncIR.Token

open Text (padLeft padRight)

/-! ## Lines -/

theorem blank_notMem_name (kind : TokenKind) : ' ' ∉ kind.name.toList := by
  have all : ∀ kind ∈ TokenKind.all, ' ' ∉ kind.name.toList := by decide
  exact all kind (TokenKind.mem_all kind)

/-- A number is written with digits only. -/
theorem notMem_toString (n : Nat) {c : Char} (h : c ∉ Text.digitChars) : c ∉ (toString n).toList := by
  rw [Nat.toString_eq_ofList_toDigits, String.toList_ofList]
  exact Text.notMem_toDigits (by decide) (by decide) h

theorem toString_injective {m n : Nat} (h : toString m = toString n) : m = n := by
  rw [Nat.toString_eq_ofList_toDigits, Nat.toString_eq_ofList_toDigits, String.ofList_inj] at h
  exact Text.toDigits_injective (by decide) (by decide) h

/-- The columns of a line. -/
theorem toList_dumpLine (token : Token) : token.dumpLine.toList =
    (padRight 20 token.kind.name).toList ++ ' ' ::
      ((padLeft 3 (toString token.span.start)).toList ++ '.' :: '.' ::
        ((padRight 3 (toString token.span.stop)).toList ++ ' ' :: Text.Quoted.quote '\x22' token.text.toList)) := by
  simp [dumpLine, Text.Quoted.ofString]

theorem dumpLine_injective {token other : Token} (h : token.dumpLine = other.dumpLine) : token = other := by
  have blank : ' ' ∉ Text.digitChars := by decide
  have point : '.' ∉ Text.digitChars := by decide
  have columns := String.toList_inj.2 h
  rw [toList_dumpLine, toList_dumpLine] at columns
  obtain ⟨kinds, columns⟩ :=
    Text.padRight_append_inj (blank_notMem_name token.kind) (blank_notMem_name other.kind) columns
  obtain ⟨starts, columns⟩ := Text.padLeft_append_inj (by decide) (notMem_toString _ blank) (notMem_toString _ blank)
    (notMem_toString _ point) (notMem_toString _ point) columns
  obtain ⟨stops, quotes⟩ :=
    Text.padRight_append_inj (notMem_toString _ blank) (notMem_toString _ blank) (List.cons.inj columns).2
  have texts := String.toList_inj.1 (Text.Quoted.quote_injective quotes)
  have same : token = ⟨other.kind, other.text, ⟨other.span.start, other.span.stop⟩⟩ := by
    rw [← TokenKind.name_injective kinds, ← texts, ← toString_injective starts,
      ← toString_injective stops]
  exact same

theorem newline_notMem_dumpLine (token : Token) : '\n' ∉ token.dumpLine.toList := by
  have digits (n : Nat) : '\n' ∉ Nat.toDigits 10 n := Text.notMem_toDigits (by decide) (by decide) (by decide)
  have name : '\n' ∉ token.kind.name.toList := by
    have all : ∀ kind ∈ TokenKind.all, '\n' ∉ kind.name.toList := by decide
    exact all token.kind (TokenKind.mem_all token.kind)
  have text := Text.Quoted.newline_notMem_quote token.text.toList
  rw [toList_dumpLine]
  simp [padLeft, padRight, name, digits, text]

/-! ## Dumps -/

theorem toList_dump_cons (token : Token) (tokens : List Token) :
    (dump (token :: tokens)).toList = token.dumpLine.toList ++ '\n' :: (dump tokens).toList := by
  simp [dump]

/-- A dump has one line for each token, and ends with a line feed if there is one. -/
theorem splitOn_dump (tokens : List Token) :
    (dump tokens).toList.splitOn '\n' = tokens.map (·.dumpLine.toList) ++ [[]] := by
  induction tokens with
  | nil => rfl
  | cons token tokens ih =>
    rw [toList_dump_cons, List.splitOn_append_cons_self_of_not_mem (newline_notMem_dumpLine token), ih]
    rfl

theorem dump_injective {tokens others : List Token} (h : dump tokens = dump others) : tokens = others := by
  have lines : tokens.map (·.dumpLine.toList) = others.map (·.dumpLine.toList) := by
    have split := congrArg (fun text => text.toList.splitOn '\n') h
    simpa only [splitOn_dump, List.append_cancel_right_eq] using split
  refine List.map_injective_iff.2 (fun token other same => ?_) lines
  exact dumpLine_injective (String.toList_inj.1 same)

end FuncIR.Token

namespace FuncIR

/-- The tokens say what the source was. -/
theorem eq_of_lex {source other : String} {tokens : List Token} (h : lex source = .ok tokens)
    (ho : lex other = .ok tokens) : source = other := by
  have spelled {source : String} (h : lex source = .ok tokens) : spelling tokens = source := by
    obtain ⟨read, hs, rfl⟩ := lex_eq_ok_iff.1 h
    rw [← String.toList_inj, hs.text_eq]
    simp [spelling, Token.endOfInput]
  rw [← spelled h, spelled ho]

end FuncIR
