import FuncIR.Proofs.Grammar.Files

/-!
# What is accepted

`parseTokens` accepts a token list exactly if the kinds before the end of input are a word of the grammar, and the
functions of the file that it returns are those of the one reading of these tokens (`parseTokens_recognizes`).
-/

namespace FuncIR

/-- The tokens before the first end of input, or all of them if there is none. -/
def beforeEof (tokens : List Token) : List Token :=
  tokens.takeWhile (!·.isEof)

theorem isEof_iff {token : Token} : token.isEof = true ↔ token.kind = .eof := by
  simp [Token.isEof]

theorem beforeEof_append {word : List Token} {ending : Token} (hw : ∀ token ∈ word, token.kind ≠ .eof)
    (he : ending.kind = .eof) : beforeEof (word ++ [ending]) = word := by
  have hw : ∀ token ∈ word, (!token.isEof) = true := fun token ht => by simpa [Token.isEof] using hw token ht
  rw [beforeEof, List.takeWhile_append_of_pos hw]
  simp [Token.isEof, he]

section Readings
variable {layout : Layout} {tokens : List Token} {word : List Token} {s : State} {q : Nat}

/-- A reading up to the end of input goes over all tokens before it. -/
theorem Reads.eq_beforeEof (h : Reads layout (.ofList tokens) s 0 word .top q)
    (he : ((TokenStream.ofList tokens).get q).kind = .eof) : word = beforeEof tokens := by
  have hd : tokens = word ++ tokens.drop q := by simpa using h.drop_eq
  have hw : ∀ token ∈ word, (!token.isEof) = true := fun token ht => by simp [h.all_not_eof token ht]
  have hq : (tokens.drop q).takeWhile (!·.isEof) = [] := by
    by_cases hl : q < tokens.length
    · have hg : (TokenStream.ofList tokens).get q = tokens[q] := by simp [TokenStream.get, TokenStream.ofList, hl]
      rw [List.drop_eq_getElem_cons hl, ← hg]
      simp [isEof_iff.2 he]
    · simp [List.drop_eq_nil_of_le (Nat.le_of_not_lt hl)]
  rw [beforeEof]
  conv_rhs => rw [hd]
  rw [List.takeWhile_append_of_pos hw, hq, List.append_nil]

/-- Behind the tokens before the end of input stands the end of input. -/
theorem kind_get_beforeEof (tokens : List Token) :
    ((TokenStream.ofList tokens).get (beforeEof tokens).length).kind = .eof := by
  have hs : beforeEof tokens ++ tokens.dropWhile (!·.isEof) = tokens := List.takeWhile_append_dropWhile
  refine isEof_iff.1 ?_
  cases hd : tokens.dropWhile (!·.isEof) with
  | nil =>
    rw [hd, List.append_nil] at hs
    rw [hs]
    exact isEof_get_length tokens
  | cons token rest =>
    have ht := List.head_dropWhile_not (fun token : Token => !token.isEof) (hd ▸ List.cons_ne_nil token rest)
    simp only [hd, List.head_cons] at ht
    rw [hd] at hs
    have hg := get_append (beforeEof tokens) rest token
    rw [hs] at hg
    rw [hg]
    simpa using ht

/-- Tokens that the automaton can read are read up to the end of input. -/
theorem reads_beforeEof (h : State.after layout .top ((beforeEof tokens).map (·.kind)) = some .top) :
    ∃ q, Reads layout (.ofList tokens) .top 0 (beforeEof tokens) .top q ∧
      ((TokenStream.ofList tokens).get q).kind = .eof := by
  have hs : beforeEof tokens ++ tokens.dropWhile (!·.isEof) = tokens := List.takeWhile_append_dropWhile
  have hr := reads_of_after h [] (tokens.dropWhile (!·.isEof))
  rw [List.nil_append, hs, List.length_nil, Nat.zero_add] at hr
  exact ⟨_, hr, kind_get_beforeEof tokens⟩

end Readings

section Parses
variable {tokens : List Token} {options : ParseOptions} {e : ParseError}

/-- The reading of an accepted token list ends between two functions, at the end of input. -/
theorem accepted_iff : (∃ file, parseTokens tokens options = .ok file) ↔
    ∃ word q, Reads options.layout (.ofList tokens) .top 0 word .top q ∧
      ((TokenStream.ofList tokens).get q).kind = .eof := by
  have follows := parseTokens_follows tokens options
  constructor
  · rintro ⟨file, hf⟩
    rw [hf] at follows
    obtain ⟨word, q, hr, he, -⟩ := follows
    exact ⟨word, q, hr, he⟩
  · rintro ⟨word, q, hr, he⟩
    rcases hv : parseTokens tokens options with e | file
    · rw [hv] at follows
      exact (Blames.not_ends follows hr he).elim
    · exact ⟨file, rfl⟩

/-- The reading of any other token list gets stuck, and the error is about where. -/
theorem refused_iff : parseTokens tokens options = .error e ↔ Blames options.layout (.ofList tokens) .top 0 e := by
  have follows := parseTokens_follows tokens options
  constructor
  · intro h
    rwa [h] at follows
  · intro h
    rcases hv : parseTokens tokens options with e' | file <;> rw [hv] at follows
    · obtain ⟨word, t, n, hr, hn, rfl⟩ := h
      rw [Blames.unique hr hn follows]
    · obtain ⟨word, q, hr, he, -⟩ := follows
      exact (h.not_ends hr he).elim

end Parses

/-- A token list is accepted exactly if it is a word of the grammar up to the end of input, and what the file says
then is the one thing that these tokens can say. -/
theorem parseTokens_recognizes (tokens : List Token) (options : ParseOptions) :
    ((∃ file, parseTokens tokens options = .ok file) ↔
      (beforeEof tokens).map (·.kind) ∈ Ebnf.file options.layout) ∧
    ∀ file, parseTokens tokens options = .ok file → ∀ outlines,
      FileWord options.layout (beforeEof tokens) outlines ↔ outlines = file.functions.map FuncDecl.outline := by
  have reading : ∀ file, parseTokens tokens options = .ok file →
      FileWord options.layout (beforeEof tokens) (file.functions.map FuncDecl.outline) := by
    intro file hf
    have follows := parseTokens_follows tokens options
    rw [hf] at follows
    obtain ⟨word, q, hr, he, hw⟩ := follows
    rwa [hr.eq_beforeEof he] at hw
  constructor
  · constructor
    · rintro ⟨file, hf⟩
      exact Ebnf.file_mem (reading file hf)
    · intro hm
      obtain ⟨q, hr, he⟩ := reads_beforeEof (State.after_of_mem_file hm)
      exact accepted_iff.2 ⟨_, q, hr, he⟩
  · intro file hf outlines
    constructor
    · intro hw
      exact hw.unique (reading file hf)
    · rintro rfl
      exact reading file hf

/-- `func f( a b,)` and an empty block. -/
def oneFunction : List Token :=
  [⟨.keywordFunc, "func", ⟨0, 4⟩⟩, ⟨.whitespace, " ", ⟨4, 5⟩⟩, ⟨.identifier, "f", ⟨5, 6⟩⟩, ⟨.roundOpen, "(", ⟨6, 7⟩⟩,
    ⟨.whitespace, " ", ⟨7, 8⟩⟩, ⟨.identifier, "a", ⟨8, 9⟩⟩, ⟨.whitespace, " ", ⟨9, 10⟩⟩, ⟨.identifier, "b", ⟨10, 11⟩⟩,
    ⟨.comma, ",", ⟨11, 12⟩⟩, ⟨.roundClose, ")", ⟨12, 13⟩⟩, ⟨.curlyOpen, "\x7b", ⟨13, 14⟩⟩,
    ⟨.curlyClose, "\x7d", ⟨14, 15⟩⟩, ⟨.eof, "", ⟨15, 15⟩⟩]

theorem parseTokens_oneFunction : ∃ file, parseTokens oneFunction {} = .ok file ∧
    ∀ outlines, FileWord .spaced (beforeEof oneFunction) outlines ↔ outlines = [⟨"f", [("a", "b")], []⟩] :=
  ⟨_, rfl, (parseTokens_recognizes oneFunction {}).2 _ rfl⟩

end FuncIR
