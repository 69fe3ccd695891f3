import FuncIR.Proofs.Grammar.Completion

/-!
# Layouts

A strict file is a spaced file without blanks between its functions. A blank is `Loose` in a file if it stands there. A
file without loose blanks is read alike in both layouts, and otherwise the strict layout fails at the first of them
(`layouts_agree`), since up to there the automaton cannot tell the two apart (`Loose.le_of_strict`).
-/

namespace FuncIR

/-- The token at a position of a word is a blank that is in none of the functions of the word: these stand before it and
behind it. -/
def Loose (word : List Token) (functions : List FuncDecl) (position : Nat) : Prop :=
  ∃ before blank after first rest, word = before ++ blank :: after ∧ before.length = position ∧
    blank.kind = .whitespace ∧ functions = first ++ rest ∧
    FileTree .spaced before first ∧ FileTree .spaced after rest

section Trees
variable {word : List Token} {functions : List FuncDecl}

theorem FileTree.spaced (h : FileTree .strict word functions) : FileTree .spaced word functions := by
  induction h with
  | nil => exact .nil
  | function hf _ ih => exact .function hf ih
  | blank hl _ _ _ => cases hl

/-- A spaced file is a strict one, or is cut by its first loose blank into a strict one and what follows. -/
theorem FileTree.strict_or_cut (h : FileTree .spaced word functions) : FileTree .strict word functions ∨
    ∃ before blank after first rest, word = before ++ blank :: after ∧ blank.kind = .whitespace ∧
      functions = first ++ rest ∧ FileTree .strict before first ∧ FileTree .spaced after rest := by
  induction h with
  | nil => exact .inl .nil
  | @function part word function functions hf _ ih =>
    rcases ih with strict | ⟨before, blank, after, first, rest, rfl, hb, rfl, strict, spaced⟩
    · exact .inl (.function hf strict)
    · exact .inr ⟨part ++ before, blank, after, function :: first, rest, by simp, hb, rfl, .function hf strict, spaced⟩
  | @blank blank word functions _ hb spaced _ =>
    exact .inr ⟨[], blank, word, [], functions, rfl, hb, rfl, .nil, spaced⟩

/-- Between two functions of a file the automaton is at the top. -/
theorem FileTree.after_top {layout : Layout} (h : FileTree layout word functions) :
    State.after layout .top (word.map (·.kind)) = some .top :=
  State.after_of_mem_file (Ebnf.file_mem h.word)

end Trees

/-! ## The two automata -/

namespace State
variable {s t : State}

theorem next_spaced {kind : TokenKind} (h : next .strict s kind = some t) : next .spaced s kind = some t := by
  revert h
  cases s <;> cases kind <;> simp [next]

theorem after_spaced {kinds : List TokenKind} (h : after .strict s kinds = some t) :
    after .spaced s kinds = some t := by
  induction kinds generalizing s with
  | nil => exact h
  | cons kind kinds ih =>
    rw [after, Option.bind_eq_some_iff] at h ⊢
    obtain ⟨u, hn, h⟩ := h
    exact ⟨u, next_spaced hn, ih h⟩

end State

/-- No blank is loose within the strict beginning of a file. -/
theorem Loose.le_of_strict {before rest : List Token} {first functions : List FuncDecl} {n : Nat}
    (h : Loose (before ++ rest) functions n) (strict : FileTree .strict before first) : before.length ≤ n := by
  refine Nat.le_of_not_lt fun hn => ?_
  obtain ⟨front, blank, back, _, _, he, rfl, hb, -, spaced, -⟩ := h
  obtain ⟨back, rfl⟩ : ∃ back, before = front ++ blank :: back := by
    rcases List.append_eq_append_iff.1 he with ⟨more, rfl, -⟩ | ⟨more, rfl, hm⟩
    · rw [List.length_append] at hn
      omega
    · cases more with
      | nil => simp at hn
      | cons token more => exact ⟨more, by rw [(List.cons.inj hm).1]⟩
  -- The spaced automaton is at the top in front of the blank, so the strict one is as well, and gets stuck.
  have read := strict.after_top
  rw [List.map_append, List.map_cons, hb, State.after_append, Option.bind_eq_some_iff] at read
  obtain ⟨u, hu, hn⟩ := read
  obtain rfl : u = .top := Option.some.inj ((State.after_spaced hu).symm.trans spaced.after_top)
  cases hn

/-- The strict layout refuses a blank behind a function. -/
theorem refused_at_blank {before behind : List Token} {blank : Token} {first : List FuncDecl} {options : ParseOptions}
    (hl : options.layout = .strict) (tree : FileTree .strict before first) (hb : blank.kind = .whitespace) :
    parseTokens (before ++ blank :: behind) options =
      .error (.unexpected [.eof, .keywordFunc] blank before.length) := by
  have read := reads_of_after tree.after_top [] (blank :: behind)
  rw [List.nil_append, List.length_nil, Nat.zero_add] at read
  have here := get_append before behind blank
  rw [refused_iff, hl]
  refine ⟨before, .top, before.length, read, ?_, by rw [here]; rfl⟩
  rw [here, hb]
  decide

/-- What is read in the strict layout is read alike in the spaced one. What is read in the spaced layout is read alike
in the strict one if no blank before the end of input is loose; else the first loose blank is found where a function or
the end of input is expected. -/
theorem layouts_agree (tokens : List Token) (options : ParseOptions) (file : SourceFile) :
    let strict := parseTokens tokens { options with layout := .strict }
    let spaced := parseTokens tokens { options with layout := .spaced }
    (strict = .ok file → spaced = .ok file) ∧
      (spaced = .ok file →
        (strict = .ok file ∧ ∀ n, ¬ Loose (beforeEof tokens) file.functions n) ∨
        ∃ n blank, Loose (beforeEof tokens) file.functions n ∧
          (∀ m < n, ¬ Loose (beforeEof tokens) file.functions m) ∧
          tokens[n]? = some blank ∧ blank.kind = .whitespace ∧
          strict = .error (.unexpected [.eof, .keywordFunc] blank n)) := by
  intro strict spaced
  constructor
  · intro h
    obtain ⟨tree, span⟩ := parseTokens_eq_ok_iff.1 h
    exact parseTokens_eq_ok_iff.2 ⟨tree.spaced, span⟩
  · intro h
    obtain ⟨whole, span⟩ := parseTokens_eq_ok_iff.1 h
    rcases whole.strict_or_cut with tree | ⟨before, blank, after, first, rest, hw, hb, hf, tree, spaced⟩
    · refine .inl ⟨parseTokens_eq_ok_iff.2 ⟨tree, span⟩, fun n loose => ?_⟩
      have hn : n < (beforeEof tokens).length := by
        obtain ⟨front, blank, back, _, _, he, rfl, -⟩ := loose
        rw [he, List.length_append, List.length_cons]
        omega
      rw [← List.append_nil (beforeEof tokens)] at loose
      exact Nat.not_le_of_lt hn (loose.le_of_strict tree)
    · obtain ⟨behind, ht⟩ : ∃ behind, tokens = before ++ blank :: behind := by
        refine ⟨after ++ tokens.dropWhile (!·.isEof), ?_⟩
        rw [← List.cons_append, ← List.append_assoc, ← hw]
        exact List.takeWhile_append_dropWhile.symm
      refine .inr ⟨before.length, blank, ?_, fun m hm loose => ?_, by simp [ht], hb, ?_⟩
      · exact ⟨before, blank, after, first, rest, hw, rfl, hb, hf, tree.spaced, spaced⟩
      · rw [hw] at loose
        exact Nat.not_le_of_lt hm (loose.le_of_strict tree)
      · simp only [strict, ht]
        exact refused_at_blank rfl tree hb

/-- `func f()`, an empty block and a line break. -/
def brokenLine : List Token :=
  [⟨.keywordFunc, "func", ⟨0, 4⟩⟩, ⟨.whitespace, " ", ⟨4, 5⟩⟩, ⟨.identifier, "f", ⟨5, 6⟩⟩, ⟨.roundOpen, "(", ⟨6, 7⟩⟩,
    ⟨.roundClose, ")", ⟨7, 8⟩⟩, ⟨.curlyOpen, "\x7b", ⟨8, 9⟩⟩, ⟨.curlyClose, "\x7d", ⟨9, 10⟩⟩,
    ⟨.whitespace, "\n", ⟨10, 11⟩⟩]

/-- The blank behind `func` is the function's, the line break is not. -/
theorem layouts_agree_brokenLine : ∃ file, parseTokens brokenLine { layout := .spaced } = .ok file ∧
    Loose (beforeEof brokenLine) file.functions 7 ∧ ¬ Loose (beforeEof brokenLine) file.functions 1 := by
  have accepted : parseTokens brokenLine { layout := .spaced } =
      .ok ⟨[⟨"f", [], ⟨[], ⟨8, 10⟩⟩, ⟨0, 10⟩⟩], ⟨0, 11⟩⟩ := rfl
  have refused : parseTokens brokenLine { layout := .strict } =
      .error (.unexpected [.eof, .keywordFunc] ⟨.whitespace, "\n", ⟨10, 11⟩⟩ 7) := rfl
  refine ⟨_, accepted, ?_⟩
  rcases (layouts_agree brokenLine {} _).2 accepted with ⟨h, -⟩ | ⟨n, blank, loose, first, -, -, h⟩
  · cases refused.symm.trans h
  · obtain ⟨-, rfl⟩ := ParseError.unexpected_inj (Except.error.inj (refused.symm.trans h))
    exact ⟨loose, first 1 (by decide)⟩

end FuncIR
