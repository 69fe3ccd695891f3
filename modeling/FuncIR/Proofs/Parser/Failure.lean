import FuncIR.Proofs.Parser.FirstSets
import FuncIR.Proofs.Parser.Lockstep

/-!
# Failures

An error tells where a run failed and what was expected there. What it expects is collected from first sets alone, so
it lists each kind once, and it lists some kind unless a choice in the parser has nothing to choose from
(`run_lists`). With what is known of the place (`run_placed`), this says what an error blames (`failure_located`). An
error that a reduction makes up is passed on as it is, whatever it says (`failure_made_up`).
-/

namespace FuncIR.Parser

/-! ## What is listed -/

/-- Each kind is listed once, by an error as by a success that could have been longer. If `filled` holds, an error
lists some kind. An error of a reduction may list anything. -/
def Verdict.Lists (refusals : Refusals) (filled : Prop) : Verdict → Prop
  | .ok (parsed, _) => parsed.trailing.Nodup
  | .error e => refusals.Holds e ∨ e.expected.Nodup ∧ (filled → e.expected ≠ [])

namespace Verdict.Lists
variable {refusals : Refusals} {c d : Prop} {v : Verdict}

theorem mono (h : v.Lists refusals c) (hd : d → c) : v.Lists refusals d := by
  rcases v with e | ⟨parsed, q⟩
  · exact h.imp_right fun listed => ⟨listed.1, fun filled => listed.2 (hd filled)⟩
  · exact h

theorem bind (h : v.Lists refusals c) {f : Parsed × Nat → Verdict}
    (hf : ∀ parsed q, parsed.trailing.Nodup → Verdict.Lists refusals c (f (parsed, q))) :
    Verdict.Lists refusals c (v.bind f) := by
  rcases v with e | ⟨parsed, q⟩
  · exact h
  · exact hf parsed q h

theorem map (h : v.Lists refusals c) {f : Parsed × Nat → Parsed × Nat}
    (hf : ∀ parsed q, parsed.trailing.Nodup → (f (parsed, q)).1.trailing.Nodup) :
    Verdict.Lists refusals c (v.map f) := by
  rcases v with e | ⟨parsed, q⟩
  · exact h
  · exact hf parsed q h

theorem widen (h : v.Lists refusals c) {kinds : KindSet} (hk : kinds.Nodup) (p : Nat) :
    Verdict.Lists refusals c (v.mapError fun e => if e.consumed = p then e.widen kinds else e) := by
  rcases v with e | value
  · rw [Except.mapError]
    split
    · refine h.imp (fun refused => refusals.widen refused kinds) fun listed => ?_
      cases e with
      | unexpectedToken error =>
        exact ⟨KindSet.nodup_union listed.1 hk, fun hc => List.append_ne_nil_of_left_ne_nil (listed.2 hc) _⟩
      | construction error => exact listed
    · exact h
  · exact h

end Verdict.Lists

namespace Step
variable {refusals : Refusals} {stream : TokenStream} {c : Prop} {p : Nat}

theorem lists_token (kind : TokenKind) (p : Nat) : (token stream kind p).verdict.Lists refusals c := by
  rw [verdict_token]
  split
  · exact List.nodup_nil
  · exact .inr ⟨List.nodup_singleton kind, fun _ => List.cons_ne_nil kind []⟩

/-- What is pending in a sequence is added to the error of a part, so it must be listed once as well. -/
theorem lists_inOrder {parts : List Step} (h : ∀ part ∈ parts, ∀ p, (part p).verdict.Lists refusals c) :
    ∀ pending : KindSet, pending.Nodup → ∀ p, (inOrder pending parts p).verdict.Lists refusals c := by
  induction parts with
  | nil => exact fun pending hp _ => hp
  | cons part parts ih =>
    intro pending hp p
    have first := (h part List.mem_cons_self p).widen hp p
    rw [verdict_inOrder_bind]
    refine first.bind fun parsed q ht => ?_
    have kept : (if p < q then [] else pending).Nodup := by
      split
      · exact List.nodup_nil
      · exact hp
    have rest := ih (fun other ho => h other (List.mem_cons_of_mem _ ho)) _ (KindSet.nodup_union kept ht) q
    exact rest.map fun _ _ hn => hn

theorem lists_finished {traits : Traits} {body : Step} (hr : traits.RefusesWith refusals)
    (h : (body p).verdict.Lists refusals c) : (finished stream traits body p).verdict.Lists refusals c := by
  rw [verdict_finished_bind]
  refine h.bind fun parsed q ht => ?_
  unfold valued
  split
  · rename_i refused hd
    exact .inl (hr.reduceBy hd)
  · rename_i reduced hd
    have same : (reduced.captureAs traits.tag).trailing = parsed.trailing :=
      (captureAs_trailing reduced traits.tag).trans (reduceBy_trailing hd)
    change (reduced.captureAs traits.tag).trailing.Nodup
    rwa [same]

/-- A round of a loop matters only where it is wanted. -/
theorem lists_loop {wanted : Nat → Bool} {step : Step} (hb : Bounded stream step)
    (h : ∀ p, wanted p = true → (step p).verdict.Lists refusals c) (p : Nat) :
    (loop stream wanted step p).verdict.Lists refusals c := by
  induction hd : stream.endFrom p - p using Nat.strongRecOn generalizing p with
  | ind d ih =>
    rw [verdict_loop hb]
    split
    · rename_i hw
      have first := h p hw
      have placed := hb p
      cases hr : (step p).result with
      | error e =>
        rw [Outcome.verdict_eq_error.2 hr] at first ⊢
        exact first
      | ok parsed =>
        rw [Outcome.verdict_of_result_ok hr] at first ⊢
        dsimp only [Except.bind, afterRound]
        split
        · -- The later rounds have less ahead of them.
          rename_i hq
          have hlt : p < (step p).position := by simpa using (Bool.and_eq_true_iff.1 hq).1
          have he := TokenStream.endFrom_eq placed.start_le placed.le_end
          have later := ih _ (by have := placed.le_end; omega) (step p).position rfl
          exact later.map fun _ _ hn => hn
        · exact first
    · exact List.nodup_nil

theorem lists_repeating {firstSet : KindSet} {step : Step} (hb : Bounded stream step) (hf : firstSet.Nodup)
    (h : ∀ p, startsAt stream firstSet p = true → (step p).verdict.Lists refusals c) (p : Nat) :
    (repeating stream firstSet step p).verdict.Lists refusals c := by
  rw [verdict_repeating_loop]
  exact (lists_loop hb h p).map fun _ _ hn => KindSet.nodup_union hn hf

theorem lists_items {firstSet : KindSet} {closer : TokenKind} {item : Step} (hb : Bounded stream item)
    (hf : firstSet.Nodup) (h : ∀ p, (item p).verdict.Lists refusals c) (p : Nat) :
    (items stream firstSet closer item p).verdict.Lists refusals c := by
  rw [verdict_items_loop]
  refine (lists_loop hb (fun p _ => h p) p).bind fun parsed q _ => ?_
  unfold closed close
  dsimp only
  split
  · exact List.nodup_nil
  · split
    · exact .inr ⟨List.nodup_singleton closer, fun _ => List.cons_ne_nil closer []⟩
    · exact .inr ⟨KindSet.nodup_union (List.nodup_singleton closer) hf, fun _ => List.cons_ne_nil closer _⟩

end Step

/-! ## Parsers -/

/-- A parser that must be present can start with something. -/
theorem Populated.firstSet_ne_nil {parser : Parser} (h : parser.Populated) (he : parser.acceptsEmpty = false) :
    parser.firstSet ≠ [] := by
  obtain ⟨word, hw⟩ := h.exists_mem_language
  cases word with
  | nil =>
    rw [(acceptsEmpty_iff parser).2 hw] at he
    cases he
  | cons kind word => exact List.ne_nil_of_mem ((h.mem_firstSet kind).2 ⟨word, hw⟩)

section
variable {refusals : Refusals} {stream : TokenStream} {policy : Alternation} {depth : Nat}

/-- Where a choice can start, there is an alternative to try. -/
theorem lists_choice {c : Prop} {alternatives : List Parser} {p : Nat}
    (hs : (stream.get p).kind ∈ firstSetOfChoice alternatives)
    (h : ∀ alternative ∈ alternatives, (run stream policy depth alternative p).verdict.Lists refusals c) :
    (Step.choice stream policy (branchesOf stream policy depth alternatives) p).verdict.Lists refusals c := by
  rw [Step.verdict_choice]
  refine Step.inTurn_holds (fun step hm => ?_) 0 none (by simp) fun _ none => ?_
  · obtain ⟨alternative, ha, rfl⟩ := exists_of_mem_candidates hm
    exact h alternative ha
  · obtain ⟨alternative, ha, hk⟩ := mem_firstSetOfChoice.1 hs
    cases policy with
    | firstSet =>
      have hm : alternative ∈ alternatives.filter (·.startsWith (stream.get p).kind) :=
        List.mem_filter.2 ⟨ha, startsAt_iff.2 hk⟩
      rw [candidates_firstSet] at none
      rw [List.map_eq_nil_iff.1 none] at hm
      cases hm
    | exhaustive =>
      rw [candidates_exhaustive] at none
      rw [List.map_eq_nil_iff.1 none] at ha
      cases ha

theorem lists_enclosed {parser : Parser} {body : Step} (hr : parser.traits.RefusesWith refusals)
    (hb : Step.Bounded stream body)
    (h : ∀ p, Step.startsAt stream parser.firstSet p = true → (body p).verdict.Lists refusals parser.Populated)
    (p : Nat) : (enclosed stream depth parser body p).verdict.Lists refusals parser.Populated := by
  have distinct := nodup_firstSet parser
  have once : ∀ p, Step.startsAt stream parser.firstSet p = true →
      (Step.finished stream parser.traits body p).verdict.Lists refusals parser.Populated :=
    fun p hs => Step.lists_finished hr (h p hs)
  cases hs : Step.startsAt stream parser.firstSet p with
  | true =>
    rw [verdict_enclosed_of_startsAt hs]
    split
    · exact Step.lists_repeating (bounded_finished hb) distinct once p
    · exact once p hs
  | false =>
    rw [enclosed, Step.verdict_guarded, hs, if_neg Bool.false_ne_true]
    split
    · exact distinct
    · rename_i he
      exact .inr ⟨distinct, fun populated => populated.firstSet_ne_nil (by simpa using he)⟩

end

/-- Every run lists each kind once, and some kind where it fails, if each choice in its parser has an alternative. -/
theorem run_lists {refusals : Refusals} (stream : TokenStream) (policy : Alternation) {parser : Parser}
    (hr : parser.RefusesWith refusals) :
    ∀ depth p, (run stream policy depth parser p).verdict.Lists refusals parser.Populated := by
  induction parser with
  | token kind traits =>
    intro depth p
    rw [run_token]
    exact lists_enclosed hr.self (Step.placing_token kind) (fun p _ => Step.lists_token kind p) p
  | sequence parts traits ih =>
    intro depth p
    refine lists_enclosed hr.self (body_bounded stream policy _ depth) (fun p _ => ?_) p
    rw [body_sequence]
    refine Step.lists_inOrder (fun step hs p => ?_) [] List.nodup_nil p
    obtain ⟨part, hp, rfl⟩ := List.mem_map.1 hs
    exact (ih part hp (hr.sequence hp) _ p).mono fun populated => populated.sequence hp
  | choice alternatives traits ih =>
    intro depth p
    refine lists_enclosed hr.self (body_bounded stream policy _ depth) (fun p hs => ?_) p
    rw [body_choice]
    refine lists_choice (startsAt_iff.1 hs) fun alternative ha => ?_
    exact (ih alternative ha (hr.choice ha) _ p).mono fun populated => populated.choice ha
  | items item closer traits ih =>
    intro depth p
    refine lists_enclosed hr.self (body_bounded stream policy _ depth) (fun p _ => ?_) p
    have inside : (Parser.items item closer traits).Populated → item.Populated := fun populated => populated.items
    have item_lists := fun p => (ih hr.items (depth + 1) p).mono inside
    exact Step.lists_items (run_bounded stream policy _ item) (nodup_firstSet item) item_lists p

/-! ## What an error blames -/

/-- The token that a failed run blames, if not a reduction made up the error, stands no earlier than where the run
stopped, and no later than the first end of input it could come to. The error shows that very token, and the kinds that
were wanted there: each of them once, and at least one if every choice in the parser has an alternative. It points at
the token from its start on, and as far as it stops if this is not before the start. -/
theorem failure_located (parser : Parser) (tokens : List Token) (policy : Alternation) (start : Nat)
    {error : UnexpectedToken}
    (h : (parser.parseAt (.ofList tokens) policy start).result = .error (.unexpectedToken error))
    (own : ¬ parser.Refused (.unexpectedToken error)) :
    let position := (parser.parseAt (.ofList tokens) policy start).position
    let blamed := tokens[error.consumed]?.getD (.endOfInput ((tokens.getLast?.map (·.span.stop)).getD 0))
    (start ≤ position ∧ position ≤ error.consumed) ∧
      (error.consumed ≤ (TokenStream.ofList tokens).endFrom start ∧
        (start ≤ tokens.length → error.consumed ≤ tokens.length)) ∧
      (error.found = blamed.kind ∧ error.foundText = blamed.text ∧ error.offset = blamed.span.start) ∧
      ((ParseError.unexpectedToken error).diagnostic.labels =
          [⟨"unexpected token", blamed.span.start, blamed.span.length⟩] ∧
        (blamed.span.start ≤ blamed.span.stop → blamed.span.length = blamed.span.stop - blamed.span.start)) ∧
      error.expected.Nodup ∧ (parser.Populated → error.expected ≠ []) := by
  intro position blamed
  have placed := run_placed (.ofList tokens) policy (refusesWith_refusals parser) 0 start
  have listed : (parser.parseAt (.ofList tokens) policy start).verdict.Lists parser.refusals parser.Populated :=
    run_lists (.ofList tokens) policy (refusesWith_refusals parser) 0 start
  rw [Outcome.verdict_eq_error.2 h] at listed
  obtain ⟨expected, n, hp, he, located⟩ := (placed.blames _ h).resolve_left own
  have listed := listed.resolve_left own
  obtain rfl := ParseError.unexpectedToken.inj located
  have shown : (TokenStream.ofList tokens).get n = blamed := get_ofList tokens n
  refine ⟨⟨placed.start_le, hp⟩, ⟨he, fun hs => ?_⟩, ?_, ⟨?_, Span.length_of_le⟩, listed⟩
  · rw [← size_ofList tokens] at hs ⊢
    exact Nat.le_trans he (TokenStream.endFrom_le_size hs)
  · rw [← shown]
    exact ⟨rfl, rfl, rfl⟩
  · rw [← shown]
    rfl

/-- A number, then a comma or a bracket. -/
def followed : Parser :=
  anyOf [inOrder [expect .number, expect .comma], inOrder [expect .number, expect .lessThan]]

theorem unreduced_followed : followed.Unreduced := by decide

/-- Both alternatives miss the token behind the number, so the end of input is blamed, though the run goes back to
where it started. -/
theorem failure_located_followed :
    let run := followed.parseAt (.ofList [⟨.number, "1", ⟨0, 1⟩⟩]) .firstSet 0
    run.result = .error (.unexpected [.comma] (.endOfInput 1) 1) ∧ run.position = 0 ∧
      ¬ followed.Refused (.unexpected [.comma] (.endOfInput 1) 1) ∧ followed.Populated ∧ [TokenKind.comma] ≠ [] := by
  intro run
  have failed : run.result = .error (.unexpected [.comma] (.endOfInput 1) 1) := rfl
  have own : ¬ followed.Refused (.unexpected [.comma] (.endOfInput 1) 1) :=
    (unreduced_followed.reductionsSucceed.refusesWith .none).holds
  have populated : followed.Populated := by
    simp [Populated, Throughout, followed, inOrder, anyOf, expect, subparsers, subparsersOf]
  obtain ⟨-, -, -, -, -, listed⟩ := failure_located followed _ .firstSet 0 failed own
  exact ⟨failed, rfl, own, populated, listed populated⟩

/-- What the reduction says is passed on, though it blames a place behind the end of input and lists a kind twice. A
token that stops before it starts is blamed where it stands, but the length of its label is not the difference of its
ends. -/
theorem failure_made_up :
    let stream := TokenStream.ofList [⟨.comma, ",", ⟨0, 1⟩⟩]
    let parser := refusing .comma (.unexpected [.comma, .comma] (.endOfInput 99) 42)
    (∃ error, (parser.parseAt stream .firstSet 0).result = .error (.unexpectedToken error) ∧
        ¬ error.consumed ≤ stream.endFrom 0 ∧ ¬ error.expected.Nodup) ∧
      ∃ error, ((expect .comma).parse (.ofList [⟨.whitespace, " ", ⟨5, 3⟩⟩]) .firstSet).result = .error error ∧
        error.diagnostic.labels = [⟨"unexpected token", 5, 2 ^ 64 - 2⟩] :=
  ⟨⟨⟨[.comma, .comma], .eof, "", 99, 42, ⟨99, 0⟩⟩, rfl, by decide, by decide⟩,
    .unexpected [.comma] ⟨.whitespace, " ", ⟨5, 3⟩⟩ 0, rfl, rfl⟩

end FuncIR.Parser
