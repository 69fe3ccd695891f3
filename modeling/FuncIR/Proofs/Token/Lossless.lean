import FuncIR.Proofs.Token.Lexeme

/-!
# Lossless lexing

`Scans` relates a text to its tokens and to what is left behind them. The scan is such a relation (`scan_of_scans`),
each token of it is the slice of the source that its span says (`Scans.slices`), and it holds of the read part alone
(`Scans.cut`). So the texts of the tokens spell the source up to where the lexer stopped, and lexing only this part
gives the same tokens (`tokenize_lossless`).
-/

namespace FuncIR

/-- What the tokens spell. -/
def spelling (tokens : List Token) : String :=
  String.join (tokens.map (·.text))

/-- Each token begins where the one before it ended, the first at the offset. -/
def Contiguous : Nat → List Token → Prop
  | _, [] => True
  | offset, token :: tokens => token.span.start = offset ∧ Contiguous token.span.stop tokens

/-- The span begins and ends between two characters of the source, and the text is what stands between. -/
structure Token.Slices (token : Token) (source : String) : Prop where
  start_valid : (⟨token.span.start⟩ : String.Pos.Raw).IsValid source
  stop_valid : (⟨token.span.stop⟩ : String.Pos.Raw).IsValid source
  text_eq : source.toByteArray.extract token.span.start token.span.stop = token.text.toByteArray

theorem Token.slices_of_append (token : Token) (before after : String)
    (hs : token.span.start = before.utf8ByteSize)
    (ht : token.span.stop = before.utf8ByteSize + token.text.utf8ByteSize) :
    token.Slices (before ++ token.text ++ after) where
  start_valid := by
    refine String.Pos.Raw.isValid_iff_exists_append.2 ⟨before, token.text ++ after, by rw [String.append_assoc], ?_⟩
    rw [hs]
    rfl
  stop_valid := by
    refine String.Pos.Raw.isValid_iff_exists_append.2 ⟨before ++ token.text, after, rfl, ?_⟩
    rw [ht, ← String.utf8ByteSize_append]
    rfl
  text_eq := by
    rw [String.toByteArray_append, String.toByteArray_append, ByteArray.append_assoc]
    have skip := ByteArray.extract_append_size_add (a := before.toByteArray)
      (b := token.text.toByteArray ++ after.toByteArray) (i := 0) (j := token.text.utf8ByteSize)
    rw [hs, ht]
    exact skip.trans (ByteArray.extract_append_eq_left rfl)

theorem Token.slices_endOfInput (source : String) : (endOfInput source.utf8ByteSize).Slices source := by
  have := slices_of_append (endOfInput source.utf8ByteSize) source "" rfl rfl
  simpa [endOfInput] using this

namespace Lexer

/-- From a byte offset on, the text begins with these tokens, and the rest stands behind them. -/
inductive Scans : Nat → List Char → List Token → List Char → Prop
  | nil {offset : Nat} {text : List Char} : Scans offset text [] text
  | cons {offset : Nat} {kind : TokenKind} {lexeme text rest : List Char} {tokens : List Token} :
      lexeme? (lexeme ++ text) = some (kind, lexeme) →
      Scans (offset + (String.ofList lexeme).utf8ByteSize) text tokens rest →
      Scans offset (lexeme ++ text)
        (⟨kind, String.ofList lexeme, ⟨offset, offset + (String.ofList lexeme).utf8ByteSize⟩⟩ :: tokens) rest

namespace Scans
variable {offset : Nat} {text rest : List Char} {tokens : List Token}

theorem text_eq (h : Scans offset text tokens rest) : text = (spelling tokens).toList ++ rest := by
  induction h with
  | nil => rfl
  | cons _ _ ih => simp [spelling, ih]

/-- Tokens that follow where these end follow these. -/
theorem contiguous (h : Scans offset text tokens rest) {later : List Token}
    (hl : Contiguous (offset + (spelling tokens).utf8ByteSize) later) : Contiguous offset (tokens ++ later) := by
  induction h with
  | nil => simpa [spelling] using hl
  | cons _ _ ih =>
    refine ⟨rfl, ih ?_⟩
    simpa [spelling, Nat.add_assoc] using hl

theorem proper (h : Scans offset text tokens rest) :
    ∀ token ∈ tokens, token.kind ≠ .eof ∧ token.text ≠ "" := by
  induction h with
  | nil => simp
  | cons hl _ ih =>
    refine List.forall_mem_cons.2 ⟨⟨lexeme?_ne_eof hl, ?_⟩, ih⟩
    simpa using (lexeme?_ne_nil hl).2

/-- The tokens are the same if the text ends behind them. -/
theorem cut (h : Scans offset text tokens rest) : Scans offset (spelling tokens).toList tokens [] := by
  induction h with
  | nil => exact .nil
  | @cons offset kind lexeme text rest tokens hl hs ih =>
    have hc : (spelling tokens).toList <+: text := ⟨rest, hs.text_eq.symm⟩
    rw [show (spelling (_ :: tokens)).toList = lexeme ++ (spelling tokens).toList by simp [spelling]]
    exact .cons (lexeme?_cut hl hc) ih

theorem slices (h : Scans offset text tokens rest) : ∀ before : String, before.utf8ByteSize = offset →
    ∀ token ∈ tokens, token.Slices (before ++ String.ofList text) := by
  induction h with
  | nil => simp
  | @cons offset kind lexeme text rest tokens hl hs ih =>
    rintro before rfl
    rw [String.ofList_append, ← String.append_assoc]
    refine List.forall_mem_cons.2 ⟨Token.slices_of_append _ _ _ rfl rfl, ?_⟩
    exact ih (before ++ String.ofList lexeme) String.utf8ByteSize_append

end Scans

/-! ## The scan -/

/-- Every text has tokens up to a place where none begins. -/
theorem exists_scans (text : List Char) :
    ∀ offset, ∃ tokens rest, Scans offset text tokens rest ∧ lexeme? rest = none := by
  -- A lexeme is not empty, so the text gets shorter.
  induction hn : text.length using Nat.strongRecOn generalizing text with
  | ind n ih =>
    intro offset
    cases hl : lexeme? text with
    | none => exact ⟨[], text, .nil, hl⟩
    | some found =>
      obtain ⟨kind, lexeme⟩ := found
      obtain ⟨more, rfl⟩ := lexeme?_isPrefix hl
      have := List.length_pos_iff.2 (lexeme?_ne_nil hl).2
      obtain ⟨tokens, rest, hs, hr⟩ := ih more.length (by simp at hn; omega) more rfl
        (offset + (String.ofList lexeme).utf8ByteSize)
      exact ⟨_, rest, .cons hl hs, hr⟩

/-- How a scan ends, after the tokens read, where no token begins. -/
def halt (offset : Nat) (rest : List Char) (read : Array Token) : Array Token × Option LexError :=
  match rest with
  | [] => (read.push (.endOfInput offset), none)
  | c :: _ => (read, some ⟨offset, c⟩)

theorem scan_of_scans {offset : Nat} {text rest : List Char} {tokens : List Token} (h : Scans offset text tokens rest)
    (hr : lexeme? rest = none) :
    ∀ read, scan offset text read = halt (offset + (spelling tokens).utf8ByteSize) rest (read ++ tokens) := by
  induction h with
  | @nil offset text =>
    intro read
    rw [scan.eq_def]
    split
    · rename_i hl
      rw [hr] at hl
      cases hl
    · cases text <;> simp [spelling, halt]
  | @cons offset kind lexeme text rest tokens hl _ ih =>
    intro read
    rw [scan.eq_def]
    split
    · rename_i hl'
      rw [hl] at hl'
      cases hl'
      rw [List.drop_left, ih hr]
      simp [spelling, Nat.add_assoc]
    · rename_i hl'
      rw [hl] at hl'
      cases hl'

end Lexer

theorem tokenize_of_scans {source : String} {tokens : List Token} {rest : List Char}
    (h : Lexer.Scans 0 source.toList tokens rest) (hr : Lexer.lexeme? rest = none) :
    tokenize source = match rest with
      | [] => (tokens ++ [.endOfInput (spelling tokens).utf8ByteSize], none)
      | c :: _ => (tokens, some ⟨(spelling tokens).utf8ByteSize, c⟩) := by
  rw [tokenize, Lexer.scan_of_scans h hr, Nat.zero_add]
  cases rest <;> simp [Lexer.halt]

/-- Lexing succeeds where the tokens leave nothing of the source behind. -/
theorem lex_eq_ok_iff {source : String} {tokens : List Token} : lex source = .ok tokens ↔
    ∃ read, Lexer.Scans 0 source.toList read [] ∧ tokens = read ++ [.endOfInput source.utf8ByteSize] := by
  have spelled : ∀ {read}, Lexer.Scans 0 source.toList read [] → spelling read = source := fun hs => by
    rw [← String.toList_inj, hs.text_eq, List.append_nil]
  constructor
  · intro h
    obtain ⟨read, rest, hs, hr⟩ := Lexer.exists_scans source.toList 0
    rw [lex, tokenize_of_scans hs hr] at h
    cases rest with
    | nil =>
      rw [spelled hs] at h
      exact ⟨read, hs, (Except.ok.inj h).symm⟩
    | cons c rest => cases h
  · rintro ⟨read, hs, rfl⟩
    rw [lex, tokenize_of_scans hs rfl, spelled hs]

/-- Tokens are slices of the source that follow each other from its start, and nothing is lost: they spell all of the
source, or all before the first character that begins no token. What stands there or behind does not matter to them. -/
theorem tokenize_lossless (source : String) :
    (∀ token ∈ (tokenize source).1, token.Slices source ∧ (token.kind ≠ .eof → token.text ≠ "")) ∧
    Contiguous 0 (tokenize source).1 ∧
    ((tokenize source).2 = none → spelling (tokenize source).1 = source ∧
      ∃ tokens, (tokenize source).1 = tokens ++ [.endOfInput source.utf8ByteSize] ∧
        ∀ token ∈ tokens, token.kind ≠ .eof) ∧
    ∀ error, (tokenize source).2 = some error → (∀ token ∈ (tokenize source).1, token.kind ≠ .eof) ∧
      ∃ before after, source = before ++ String.singleton error.character ++ after ∧
        before.utf8ByteSize = error.offset ∧ spelling (tokenize source).1 = before ∧
        lex before = .ok ((tokenize source).1 ++ [.endOfInput error.offset]) := by
  obtain ⟨tokens, rest, hs, hr⟩ := Lexer.exists_scans source.toList 0
  have slices : ∀ token ∈ tokens, token.Slices source := by
    have := hs.slices "" rfl
    rwa [String.empty_append, String.ofList_toList] at this
  cases rest with
  | nil =>
    have hx : source = spelling tokens := by
      rw [← String.toList_inj, hs.text_eq, List.append_nil]
    have ht := tokenize_of_scans hs hr
    simp only [ht, ← hx]
    refine ⟨?_, hs.contiguous ?_, fun _ => ⟨?_, tokens, rfl, fun token h => (hs.proper token h).1⟩, by simp⟩
    · intro token h
      rcases List.mem_append.1 h with h | h
      · exact ⟨slices token h, fun _ => (hs.proper token h).2⟩
      · obtain rfl := List.mem_singleton.1 h
        exact ⟨Token.slices_endOfInput source, fun hk => absurd rfl hk⟩
    · rw [Nat.zero_add, ← hx]
      exact ⟨rfl, trivial⟩
    · rw [hx]
      simp [spelling, Token.endOfInput]
  | cons c rest =>
    have hx : source = spelling tokens ++ String.singleton c ++ String.ofList rest := by
      rw [← String.toList_inj, hs.text_eq]
      simp
    have ht := tokenize_of_scans hs hr
    have hc := tokenize_of_scans hs.cut rfl
    simp only [ht]
    refine ⟨fun token h => ⟨slices token h, fun _ => (hs.proper token h).2⟩, ?_, by simp, ?_⟩
    · simpa using hs.contiguous (show Contiguous _ [] from trivial)
    · rintro error ⟨⟩
      refine ⟨fun token h => (hs.proper token h).1, spelling tokens, String.ofList rest, hx, rfl, rfl, ?_⟩
      rw [lex, hc]

/-- The point of a number needs digits, so it belongs to no token here, and the number is the same without it. -/
theorem tokenize_point : (tokenize "f 1.é").2 = some ⟨3, '.'⟩ ∧ ∃ before after, "f 1.é" = before ++ "." ++ after ∧
    before.utf8ByteSize = 3 ∧ lex before = .ok ((tokenize "f 1.é").1 ++ [.endOfInput 3]) := by
  have h : (tokenize "f 1.é").2 = some ⟨3, '.'⟩ := by decide +kernel
  obtain ⟨-, before, after, hs, hb, -, hl⟩ := (tokenize_lossless "f 1.é").2.2.2 _ h
  exact ⟨h, before, after, hs, hb, hl⟩

end FuncIR
