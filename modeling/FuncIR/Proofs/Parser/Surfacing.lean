import FuncIR.Proofs.Parser.OrderedChoice
import FuncIR.Proofs.Parser.Position
import FuncIR.Grammar.Reduction

/-!
# Construction errors in a choice

A rule that cannot build its node from what it captured is an error of the grammar, not of the input. Such an error
counts as having consumed no token, however many the rule took, so a choice prefers every error that blames a later
token. It reports the construction error of its first alternative, and only if all others say that they consumed
nothing (`construction_surfaces_iff`); otherwise it hides it (`construction_hidden`).
-/

namespace FuncIR

/-- The error is that a node cannot be built. -/
def ParseError.isConstruction : ParseError → Bool
  | unexpectedToken _ => false
  | construction _ => true

namespace ParseError
variable {error : ParseError}

theorem isConstruction_iff : error.isConstruction = true ↔ ∃ c, error = .construction c := by
  cases error <;> simp [isConstruction]

theorem consumed_of_isConstruction (h : error.isConstruction = true) : error.consumed = 0 := by
  obtain ⟨c, rfl⟩ := isConstruction_iff.1 h
  rfl

end ParseError

namespace Parser

/-! ## From the alternatives to the choice -/

section
variable {stream : TokenStream} {policy : Alternation} {depth p : Nat}

/-- Where the body of a parser fails, the parser fails likewise; a repetition fails in its first round. -/
theorem verdict_enclosed_of_error {parser : Parser} {body : Step} {error : ParseError}
    (hs : Step.startsAt stream parser.firstSet p = true) (hb : (body p).verdict = .error error) :
    (enclosed stream depth parser body p).verdict = .error error := by
  have once : (Step.finished stream parser.traits body p).verdict = .error error := by
    rw [Step.verdict_finished, hb]
  rw [verdict_enclosed_of_startsAt hs]
  split
  · rw [Step.verdict_repeating, Step.rounds, Step.tally_roundsWithin, if_pos hs, once]
    rfl
  · exact once

/-- The alternatives that are tried may as well be run by themselves. -/
theorem verdict_choice_alone (alternatives : List Parser) :
    (Step.choice stream policy (branchesOf stream policy depth alternatives) p).verdict =
      (Step.inTurn stream 0 none
        ((contenders policy (stream.get p).kind alternatives).map (run stream policy 0)) p).verdict := by
  rw [Step.verdict_choice, candidates_eq]
  exact Step.Alike.inTurn (fun alternative _ => run_depth alternative depth 0) 0 none p

end

/-! ## Which error is reported -/

section Furthest
variable {α : Type} {outcome : α → Outcome} {tried : List α} {error : ParseError}

/-- Nothing gets less far than a construction error, so one is reported only if it comes first. -/
theorem Furthest.of_isConstruction (h : Furthest outcome tried error)
    (fail : ∀ x ∈ tried, ∃ e, (outcome x).result = .error e) (hc : error.isConstruction = true) :
    (∃ first ∈ tried.head?, ∃ c, (outcome first).result = .error (.construction c)) ∧
      ∀ x ∈ tried, ∀ e, (outcome x).result = .error e → e.consumed = 0 := by
  obtain ⟨before, best, after, rfl, hr, hb, ha⟩ := h
  have zero := ParseError.consumed_of_isConstruction hc
  obtain ⟨c, rfl⟩ := ParseError.isConstruction_iff.1 hc
  -- An error before the best one would have to count less than nothing.
  cases before with
  | cons x before =>
    obtain ⟨e, he⟩ := fail x List.mem_cons_self
    have := hb x List.mem_cons_self e he
    omega
  | nil =>
    refine ⟨⟨best, rfl, c, hr⟩, List.forall_mem_cons.2 ⟨fun e he => ?_, fun x hx e he => ?_⟩⟩
    · rwa [Except.error.inj (he.symm.trans hr)]
    · exact Nat.eq_zero_of_le_zero (zero ▸ ha x hx e he)

/-- Where nothing got anywhere, the first error is reported. -/
theorem Furthest.eq_first (h : Furthest outcome tried error) {first : α} (hf : first ∈ tried.head?)
    {e : ParseError} (he : (outcome first).result = .error e)
    (idle : ∀ x ∈ tried, ∀ e, (outcome x).result = .error e → e.consumed = 0) : error = e := by
  obtain ⟨before, best, after, rfl, hr, hb, -⟩ := h
  have zero : error.consumed = 0 := idle best (by simp) error hr
  cases before with
  | cons x before =>
    obtain rfl : x = first := by simpa using hf
    have := hb x List.mem_cons_self e he
    omega
  | nil =>
    obtain rfl : best = first := by simpa using hf
    exact Except.error.inj (hr.symm.trans he)

end Furthest

/-- Behind the first token, only a construction error counts as having consumed nothing, unless a reduction made up
another one that does. -/
theorem isConstruction_iff_consumed {stream : TokenStream} {policy : Alternation} {parser : Parser} {start : Nat}
    {e : ParseError} (hr : parser.RefusesWith .constructions) (hs : 0 < start)
    (he : (parser.parseAt stream policy start).result = .error e) : e.isConstruction = true ↔ e.consumed = 0 := by
  refine ⟨ParseError.consumed_of_isConstruction, fun zero => ParseError.isConstruction_iff.2 ?_⟩
  have placed := run_placed stream policy hr 0 start
  refine (placed.blames e he).resolve_right ?_
  rintro ⟨expected, n, hn, -, rfl⟩
  have hp := placed.start_le
  rw [ParseError.consumed_unexpected] at zero
  omega

/-- A choice all of whose alternatives fail reports a construction error exactly if the first that is tried fails with
one and all others say that they consumed nothing. Behind the first token of the stream, where no reduction makes up
another error, that is: exactly if all of them fail with construction errors. -/
theorem construction_surfaces_iff (alternatives : List Parser) (traits : Traits) (tokens : List Token)
    (policy : Alternation) (start : Nat)
    (hs : ((TokenStream.ofList tokens).get start).kind ∈ (Parser.choice alternatives traits).firstSet) :
    let alone (alternative : Parser) := (alternative.parseAt (.ofList tokens) policy start).result
    let tried := contenders policy ((TokenStream.ofList tokens).get start).kind alternatives
    (∀ alternative ∈ tried, ∃ e, alone alternative = .error e) →
      ∃ error, alone (.choice alternatives traits) = .error error ∧
        (error.isConstruction = true ↔
          (∃ first ∈ tried.head?, ∃ c, alone first = .error (.construction c)) ∧
            ∀ alternative ∈ tried, ∀ e, alone alternative = .error e → e.consumed = 0) ∧
        (0 < start → (∀ alternative ∈ tried, alternative.RefusesWith .constructions) →
          (error.isConstruction = true ↔
            ∀ alternative ∈ tried, ∃ c, alone alternative = .error (.construction c))) := by
  intro alone tried fail
  have hk : ((TokenStream.ofList tokens).get start).kind ∈ firstSetOfChoice alternatives := by
    simpa only [firstSet] using hs
  have some_tried : tried ≠ [] := contenders_ne_nil hk
  obtain ⟨error, hv, furthest⟩ := Step.inTurn_furthest (.ofList tokens) fail some_tried
  have chosen : (body (.ofList tokens) policy 0 (.choice alternatives traits) start).verdict = .error error := by
    rw [body_choice, verdict_choice_alone]
    exact hv
  have reported : alone (.choice alternatives traits) = .error error :=
    Outcome.verdict_eq_error.1 (verdict_enclosed_of_error (startsAt_iff.2 hs) chosen)
  have surfaces : error.isConstruction = true ↔
      (∃ first ∈ tried.head?, ∃ c, alone first = .error (.construction c)) ∧
        ∀ alternative ∈ tried, ∀ e, alone alternative = .error e → e.consumed = 0 := by
    refine ⟨furthest.of_isConstruction fail, ?_⟩
    rintro ⟨⟨first, hf, c, hc⟩, idle⟩
    rw [furthest.eq_first hf hc idle]
    rfl
  refine ⟨error, reported, surfaces, fun hp hr => surfaces.trans ⟨?_, fun all => ⟨?_, fun alternative ha e he => ?_⟩⟩⟩
  · rintro ⟨-, idle⟩ alternative ha
    obtain ⟨e, he⟩ := fail alternative ha
    have stuck := (isConstruction_iff_consumed (hr alternative ha) hp he).2 (idle alternative ha e he)
    obtain ⟨c, rfl⟩ := ParseError.isConstruction_iff.1 stuck
    exact ⟨c, he⟩
  · obtain ⟨first, others, ht⟩ := List.exists_cons_of_ne_nil some_tried
    exact ⟨first, by simp [ht], all first (by simp [ht])⟩
  · obtain ⟨c, hc⟩ := all alternative ha
    rw [Except.error.inj (he.symm.trans hc)]
    rfl

/-- A call whose name is captured under a tag that no call has. -/
def strayCall : Parser :=
  (inOrder [(expect .identifier).withTag "stray", expect .roundOpen, expect .roundClose]).withReduction
    Reduction.functionCall

/-- A name with a comma. -/
def listed : Parser :=
  inOrder [expect .identifier, expect .comma]

/-- The call takes all three tokens and cannot be built, but the missing comma behind the first of them is blamed. -/
theorem construction_hidden :
    let alone (parser : Parser) := parser.parseAt (.ofList [⟨.identifier, "foo", ⟨0, 3⟩⟩,
      ⟨.roundOpen, "(", ⟨3, 4⟩⟩, ⟨.roundClose, ")", ⟨4, 5⟩⟩, .endOfInput 5]) .firstSet 0
    (alone strayCall).result = .error (.construction ⟨"function_call", "unexpected token tagged `stray`"⟩) ∧
      (alone strayCall).position = 3 ∧
      (alone listed).result = .error (.unexpected [.comma] ⟨.roundOpen, "(", ⟨3, 4⟩⟩ 1) ∧
      (alone (anyOf [strayCall, listed])).result = .error (.unexpected [.comma] ⟨.roundOpen, "(", ⟨3, 4⟩⟩ 1) := by
  intro alone
  exact ⟨rfl, rfl, rfl, rfl⟩

/-- An alternative that cannot start gets nowhere, so the call before it is blamed. -/
theorem construction_surfaces_iff_stray :
    let tokens : List Token := [⟨.identifier, "foo", ⟨0, 3⟩⟩, ⟨.roundOpen, "(", ⟨3, 4⟩⟩, ⟨.roundClose, ")", ⟨4, 5⟩⟩]
    let alone (parser : Parser) := (parser.parseAt (.ofList tokens) .exhaustive 0).result
    TokenKind.identifier ∈ (anyOf [strayCall, expect .number]).firstSet ∧
      alone strayCall = .error (.construction ⟨"function_call", "unexpected token tagged `stray`"⟩) ∧
      alone (expect .number) = .error (.unexpected [.number] ⟨.identifier, "foo", ⟨0, 3⟩⟩ 0) ∧
      ∃ c, alone (anyOf [strayCall, expect .number]) = .error (.construction c) := by
  intro tokens alone
  have stray : alone strayCall = .error (.construction ⟨"function_call", "unexpected token tagged `stray`"⟩) := rfl
  have number : alone (expect .number) = .error (.unexpected [.number] ⟨.identifier, "foo", ⟨0, 3⟩⟩ 0) := rfl
  obtain ⟨error, he, surfaces, -⟩ := construction_surfaces_iff [strayCall, expect .number] { label := "one_of" } tokens
    .exhaustive 0 (by decide) (List.forall_mem_cons.2 ⟨⟨_, stray⟩, List.forall_mem_singleton.2 ⟨_, number⟩⟩)
  have idle : ∀ alternative ∈ [strayCall, expect .number], ∀ e, alone alternative = .error e → e.consumed = 0 := by
    refine List.forall_mem_cons.2 ⟨fun e he => ?_, List.forall_mem_singleton.2 fun e he => ?_⟩
    · rw [Except.error.inj (he.symm.trans stray)]
      rfl
    · rw [Except.error.inj (he.symm.trans number)]
      rfl
  obtain ⟨c, rfl⟩ := ParseError.isConstruction_iff.1 (surfaces.2 ⟨⟨strayCall, rfl, _, stray⟩, idle⟩)
  exact ⟨by decide, stray, number, c, he⟩

end Parser

end FuncIR
