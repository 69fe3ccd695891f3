import FuncIR.Proofs.Grammar.Recognition

/-!
# What an error expects

An error of `parseTokens` names the first token at which the list stops being the start of a file, and expects there
what may follow in a file, each kind once. It depends on nothing behind that token (`parseTokens_expects`).
-/

namespace FuncIR

section
variable {tokens : List Token} {options : ParseOptions} {t : State} {n : Nat} {kind : TokenKind}

theorem accepted_of_after (h : State.after options.layout .top (tokens.map (·.kind)) = some .top) :
    ∃ file, parseTokens tokens options = .ok file := by
  have hr := reads_of_after h [] []
  simp only [List.nil_append, List.append_nil, List.length_nil, Nat.zero_add] at hr
  exact accepted_iff.2 ⟨tokens, tokens.length, hr, isEof_iff.1 (isEof_get_length tokens)⟩

/-- What the state after some tokens wants is what stands behind them in an accepted list. -/
theorem mem_wanted_iff_accepted (h : State.after options.layout .top (tokens.map (·.kind)) = some t) :
    kind ∈ State.wanted options.layout t ↔
      ∃ token rest, token.kind = kind ∧ ∃ file, parseTokens (tokens ++ token :: rest) options = .ok file := by
  constructor
  · intro hk
    rcases State.mem_wanted_iff.1 hk with ⟨u, hn⟩ | ⟨rfl, rfl⟩
    · -- the shortest way out of the function goes on from there
      refine ⟨⟨kind, "", ⟨0, 0⟩⟩, u.finish.map fun kind => ⟨kind, "", ⟨0, 0⟩⟩, rfl, accepted_of_after ?_⟩
      rw [List.map_append, State.after_append, h, List.map_cons, List.map_map]
      simp only [Option.bind_some, State.after, hn, Function.comp_def, List.map_id']
      exact State.after_finish options.layout u
    · refine ⟨.endOfInput 0, [], rfl, accepted_iff.2 ⟨tokens, tokens.length, reads_ofList_iff.2 ⟨h, ?_, ?_⟩, ?_⟩⟩
      · rw [List.take_left]
      · simp
      · rw [get_append]
        rfl
  · rintro ⟨token, rest, rfl, file, hf⟩
    by_contra hk
    have hr : Reads options.layout (.ofList (tokens ++ token :: rest)) .top 0 tokens t tokens.length :=
      reads_ofList_iff.2 ⟨h, by rw [List.take_left], by simp⟩
    have hb := Blames.after hr (Blames.here (by rwa [get_append]))
    rw [refused_iff.2 hb] at hf
    cases hf

end

/-- The error of a token list that is no file: where it stands, what it expects, and on what it depends. -/
theorem parseTokens_expects {tokens : List Token} {options : ParseOptions} {e : ParseError}
    (h : parseTokens tokens options = .error e) :
    ∃ expected n, n ≤ tokens.length ∧ e = .unexpected expected ((TokenStream.ofList tokens).get n) n ∧
      (∀ kind, kind ∈ expected ↔ ∃ token rest, token.kind = kind ∧
        ∃ file, parseTokens (tokens.take n ++ token :: rest) options = .ok file) ∧
      ((TokenStream.ofList tokens).get n).kind ∉ expected ∧ expected ≠ [] ∧ expected.Nodup ∧
      ∀ others : List Token, others.take n = tokens.take n →
        (TokenStream.ofList others).get n = (TokenStream.ofList tokens).get n →
        parseTokens others options = .error e := by
  obtain ⟨word, t, n, hr, hn, rfl⟩ := refused_iff.1 h
  obtain ⟨ha, rfl, hl⟩ := reads_ofList_iff.1 hr
  refine ⟨_, n, hl, rfl, fun kind => mem_wanted_iff_accepted ha, hn, State.wanted_ne_nil _ _,
    State.nodup_wanted _ _, ?_⟩
  intro others ht hg
  have hl' : n ≤ others.length := by
    have := congrArg List.length ht
    rw [List.length_take, List.length_take] at this
    omega
  rw [← hg] at hn ⊢
  exact refused_iff.2 (Blames.after (reads_ofList_iff.2 ⟨ha, ht.symm, hl'⟩) (Blames.here hn))

/-- Only a blank may follow `func`. -/
theorem parseTokens_keyword :
    parseTokens [⟨.keywordFunc, "func", ⟨0, 4⟩⟩] {} = .error (.unexpected [.whitespace] (.endOfInput 4) 1) ∧
      ∀ kind, kind ∈ [TokenKind.whitespace] ↔ ∃ token rest, token.kind = kind ∧
        ∃ file, parseTokens (⟨.keywordFunc, "func", ⟨0, 4⟩⟩ :: token :: rest) {} = .ok file := by
  have h : parseTokens [⟨.keywordFunc, "func", ⟨0, 4⟩⟩] {} =
      .error (.unexpected [.whitespace] (.endOfInput 4) 1) := rfl
  obtain ⟨expected, n, -, he, hk, -⟩ := parseTokens_expects h
  obtain ⟨rfl, rfl⟩ := ParseError.unexpected_inj he
  exact ⟨h, hk⟩

end FuncIR
