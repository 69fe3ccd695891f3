import FuncIR.Proofs.Parser.Alternation

/-!
# One token of lookahead

The current token decides whether a parser starts, and a parser that starts takes it (`firstSet_commits`): it stops
behind that token, or fails on a later one. One that does not start leaves everything as it is. If all alternatives of
a choice are tried, this needs them to be present and their reductions to succeed (`commits_exhaustive`), for otherwise
one that is absent may succeed in front of the token, or one that takes it may fail without saying how far it got. By
first sets it needs nothing, but an error that a reduction made up may say anything (`firstSet_commits_refused`).
-/

namespace FuncIR.Parser

/-- No alternative of a choice in the parser can be absent. -/
def AlternativesPresent (parser : Parser) : Prop :=
  parser.Throughout fun choice => ∀ alternative ∈ choice.alternatives, alternative.acceptsEmpty = false

instance (parser : Parser) : Decidable parser.AlternativesPresent :=
  inferInstanceAs (Decidable (parser.Throughout _))

section
variable {refusals : Refusals} {stream : TokenStream} {policy : Alternation} {depth p : Nat}

/-- Those that cannot start fail in front of the token, which counts for less than what the others come to. -/
theorem commits_exhaustive {choice : Parser}
    (present : ∀ alternative ∈ choice.alternatives, alternative.acceptsEmpty = false) :
    Commits .none stream .exhaustive p choice := by
  intro depth hk past
  obtain ⟨starter, hm, hs⟩ := mem_firstSetOfChoice.1 hk
  rw [Step.verdict_choice, candidates_exhaustive,
    inTurn_startsWith present past 0 0 none none (.inl ⟨rfl, by simp⟩) fun _ => ⟨starter, hm, startsAt_iff.2 hs⟩]
  exact inTurn_past hk past

/-- Where all alternatives are tried, none can be absent and the reductions succeed, the run gets past the token that
it starts with. -/
theorem run_past_exhaustive {parser : Parser} (hn : (stream.get p).isEof = false)
    (present : parser.AlternativesPresent) (hr : parser.ReductionsSucceed)
    (hs : Step.startsAt stream parser.firstSet p = true) :
    (run stream .exhaustive depth parser p).verdict.From .none (p + 1) :=
  run_past_of_commits hn (hr.refusesWith .none) (fun choice hc => commits_exhaustive (present choice hc)) depth hs

/-- Where a parser cannot start, nothing happens but that it is skipped, or fails and says what it could have started
with. -/
theorem run_of_not_startsAt {parser : Parser} (h : Step.startsAt stream parser.firstSet p = false) :
    (run stream policy depth parser p).position = p ∧
      (run stream policy depth parser p).result =
        if parser.acceptsEmpty then .ok { trailing := parser.firstSet }
        else .error (.unexpected parser.firstSet (stream.get p) p) := by
  unfold run enclosed Step.guarded
  rw [h]
  cases parser.acceptsEmpty <;> exact ⟨rfl, rfl⟩

end

/-- A parser starts exactly if its first set has the current token, as long as the input does not end there. Then it
stops behind that token or fails on a later one; an error that a reduction made up is bound by this only where all
alternatives are tried, since none may fail there. Otherwise the parser stays where it is and makes no value: it
succeeds if it accepts the empty input, and else fails at this token with its first set as what it expected. -/
theorem firstSet_commits (parser : Parser) (tokens : List Token) (policy : Alternation) (start : Nat)
    (decisive : policy = .exhaustive → parser.AlternativesPresent ∧ parser.ReductionsSucceed)
    (hn : ((TokenStream.ofList tokens).get start).kind ≠ .eof) :
    let current := (TokenStream.ofList tokens).get start
    let outcome := parser.parseAt (.ofList tokens) policy start
    (current.kind ∈ parser.firstSet →
      (∀ parsed, outcome.result = .ok parsed → start < outcome.position) ∧
        ∀ error, outcome.result = .error (.unexpectedToken error) →
          (policy = .firstSet → ¬ parser.Refused (.unexpectedToken error)) → start < error.consumed) ∧
    (current.kind ∉ parser.firstSet →
      outcome.position = start ∧ outcome.result =
        if parser.acceptsEmpty then .ok { node := none, captures := [], trailing := parser.firstSet }
        else .error (.unexpected parser.firstSet current start)) := by
  intro current outcome
  constructor
  · intro hk
    have live : current.isEof = false := by simpa [Token.isEof] using hn
    have hs : Step.startsAt (.ofList tokens) parser.firstSet start = true := startsAt_iff.2 hk
    obtain ⟨refusals, past, own⟩ : ∃ refusals : Refusals, outcome.verdict.From refusals (start + 1) ∧
        ∀ e, refusals.Holds e → policy = .firstSet ∧ parser.Refused e := by
      cases policy with
      | firstSet => exact ⟨parser.refusals, run_past live (refusesWith_refusals parser) 0 hs, fun e he => ⟨rfl, he⟩⟩
      | exhaustive =>
        obtain ⟨present, reductions⟩ := decisive rfl
        exact ⟨.none, run_past_exhaustive live present reductions hs, fun e he => he.elim⟩
    constructor
    · intro parsed hr
      rw [Outcome.verdict_of_result_ok hr] at past
      exact past
    · intro error hr unrefused
      rw [Outcome.verdict_eq_error.2 hr] at past
      refine past.resolve_left fun refused => ?_
      obtain ⟨hp, refused⟩ := own _ refused
      exact unrefused hp refused
  · intro hk
    have idle : Step.startsAt (.ofList tokens) parser.firstSet start = false := by
      simpa [Step.startsAt] using hk
    exact run_of_not_startsAt idle

/-- A comma is taken, but the error of its reduction says that nothing was. -/
theorem firstSet_commits_refused :
    let parser := refusing .comma (.unexpected [.number] ⟨.comma, ",", ⟨0, 1⟩⟩ 0)
    let stream := TokenStream.ofList [⟨.comma, ",", ⟨0, 1⟩⟩]
    (stream.get 0).kind ≠ .eof ∧ (stream.get 0).kind ∈ parser.firstSet ∧
      ∃ error, (parser.parseAt stream .firstSet 0).result = .error (.unexpectedToken error) ∧ ¬ 0 < error.consumed :=
  ⟨by decide, by decide, ⟨[.number], .comma, ",", 0, 0, ⟨0, 1⟩⟩, rfl, Nat.lt_irrefl 0⟩

/-- A number with a comma, perhaps behind a blank, or one with a sign. -/
def measured : Parser :=
  anyOf [
    inOrder [(expect .whitespace).optional, expect .number, expect .comma],
    inOrder [expect .number, anyOf [expect .lessThan, expect .equals]]]

/-- Both alternatives are tried and take the number, so the bracket behind it is blamed. At the bracket neither starts.
-/
theorem firstSet_commits_measured :
    let tokens : List Token := [⟨.number, "1", ⟨0, 1⟩⟩, ⟨.roundClose, ")", ⟨1, 2⟩⟩]
    measured.AlternativesPresent ∧ measured.ReductionsSucceed ∧
      (measured.parseAt (.ofList tokens) .exhaustive 0).result =
        .error (.unexpected [.comma] ⟨.roundClose, ")", ⟨1, 2⟩⟩ 1) ∧ 0 < 1 ∧
      (measured.parseAt (.ofList tokens) .exhaustive 1).result =
        .error (.unexpected [.whitespace, .number] ⟨.roundClose, ")", ⟨1, 2⟩⟩ 1) := by
  intro tokens
  have decisive : measured.AlternativesPresent ∧ measured.ReductionsSucceed :=
    ⟨by decide, Unreduced.reductionsSucceed (by decide)⟩
  have failed : (measured.parseAt (.ofList tokens) .exhaustive 0).result =
    .error (.unexpected [.comma] ⟨.roundClose, ")", ⟨1, 2⟩⟩ 1) := rfl
  have taken := (firstSet_commits measured tokens .exhaustive 0 (fun _ => decisive) (by decide)).1 (by decide)
  have refused := (firstSet_commits measured tokens .exhaustive 1 (fun _ => decisive) (by decide)).2 (by decide)
  exact ⟨decisive.1, decisive.2, failed, taken.2 _ failed nofun, refused.2⟩

end FuncIR.Parser
