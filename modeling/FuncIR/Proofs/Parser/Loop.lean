import FuncIR.Proofs.Parser.Position

/-!
# Loops end

`Step.rounds` puts a bound on the rounds of a loop. `Step.Loop` has none: it goes on as long as rounds are wanted,
succeed and consume a token. Since a step stops between its start and the end of the input, the two agree
(`loop_iff_rounds`), and neither loop of a parser has more than one round over the number of tokens that lie ahead
(`loops_end`).
-/

namespace FuncIR.Parser.Step

/-! ## Loops without a bound -/

/-- The round succeeded and consumed a token. -/
def Advances (start : Nat) (round : Outcome) : Prop :=
  round.result.isOk = true ∧ start < round.position

/-- The rounds of a loop from a position on, as many as come about: there is one wherever `wanted` holds, and
others only follow one that advances. -/
inductive Loop (wanted : Nat → Bool) (step : Step) : Nat → List Outcome → Prop
  | idle {p : Nat} : wanted p = false → Loop wanted step p []
  | last {p : Nat} : wanted p = true → ¬ Advances p (step p) → Loop wanted step p [step p]
  | again {p : Nat} {rounds : List Outcome} : wanted p = true → Advances p (step p) →
      Loop wanted step (step p).position rounds → Loop wanted step p (step p :: rounds)

section
variable {stream : TokenStream} {wanted : Nat → Bool} {step : Step} {p : Nat}

/-- A loop has no choice. -/
theorem Loop.unique {rounds others : List Outcome} (h : Loop wanted step p rounds) (h' : Loop wanted step p others) :
    rounds = others := by
  induction h generalizing others with
  | idle hw =>
    cases h' with
    | idle => rfl
    | last hw' | again hw' => simp [hw] at hw'
  | last hw ha =>
    cases h' with
    | idle hw' => simp [hw] at hw'
    | last => rfl
    | again _ ha' => exact absurd ha' ha
  | again hw ha _ ih =>
    cases h' with
    | idle hw' => simp [hw] at hw'
    | last _ ha' => exact absurd ha ha'
    | again _ _ rest => rw [ih rest]

theorem advances_iff {start : Nat} {round : Outcome} :
    (round.result.isOk && decide (start < round.position)) = true ↔ Advances start round := by
  simp [Advances]

/-- A bound above what lies ahead does not end the loop before it ends itself. Each round but the last takes one of
the tokens up to the end of the input. -/
theorem loop_roundsWithin (h : Bounded stream step) (bound : Nat) : ∀ p, stream.endFrom p - p < bound →
    Loop wanted step p (roundsWithin wanted step bound p) ∧
      (roundsWithin wanted step bound p).length ≤ stream.endFrom p - p + 1 := by
  induction bound with
  | zero => exact fun p hb => absurd hb (Nat.not_lt_zero _)
  | succ bound ih =>
    intro p hb
    rw [roundsWithin]
    cases hw : wanted p with
    | false => exact ⟨.idle hw, by simp⟩
    | true =>
      have placed := h p
      have he := TokenStream.endFrom_eq placed.start_le placed.le_end
      have hl := placed.le_end
      dsimp only
      by_cases ha : Advances p (step p)
      · have hp := ha.2
        obtain ⟨rest, hn⟩ := ih (step p).position (by omega)
        rw [if_pos rfl, if_pos (advances_iff.2 ha), List.length_cons]
        exact ⟨.again hw ha rest, by omega⟩
      · rw [if_pos rfl, if_neg (mt advances_iff.1 ha), List.length_singleton]
        exact ⟨.last hw ha, by omega⟩

theorem loop_rounds (h : Bounded stream step) (wanted : Nat → Bool) (p : Nat) :
    Loop wanted step p (rounds stream wanted step p) ∧
      (rounds stream wanted step p).length ≤ stream.endFrom p - p + 1 :=
  loop_roundsWithin h _ p (Nat.lt_succ_of_le (stream.endFrom_sub_le p))

/-- The rounds are those of the loop without a bound. -/
theorem loop_iff_rounds (h : Bounded stream step) {rounds : List Outcome} :
    Loop wanted step p rounds ↔ rounds = Step.rounds stream wanted step p := by
  constructor
  · exact fun loop => loop.unique (loop_rounds h wanted p).1
  · rintro rfl
    exact (loop_rounds h wanted p).1

/-- The rounds of a loop, the first one apart. -/
theorem rounds_eq (h : Bounded stream step) (wanted : Nat → Bool) (p : Nat) :
    rounds stream wanted step p =
      if wanted p then
        step p :: if (step p).result.isOk && decide (p < (step p).position) then
          rounds stream wanted step (step p).position
        else []
      else [] := by
  refine ((loop_iff_rounds h).1 ?_).symm
  cases hw : wanted p with
  | false => exact .idle hw
  | true =>
    by_cases ha : Advances p (step p)
    · rw [if_pos rfl, if_pos (advances_iff.2 ha)]
      exact .again hw ha (loop_rounds h wanted _).1
    · rw [if_pos rfl, if_neg (mt advances_iff.1 ha)]
      exact .last hw ha

/-! ## What a loop comes to -/

theorem verdict_loop_tally (wanted : Nat → Bool) (step : Step) (p : Nat) :
    (loop stream wanted step p).verdict =
      (tally p (rounds stream wanted step p)).map fun (captures, rest, q) =>
        ({ captures := captures, trailing := rest }, q) := by
  unfold loop looped tally Outcome.verdict
  cases captured (rounds stream wanted step p) <;> rfl

theorem rounds_isEmpty (h : Bounded stream step) (wanted : Nat → Bool) (p : Nat) :
    (rounds stream wanted step p).isEmpty = !wanted p := by
  rw [rounds_eq h]
  cases wanted p <;> rfl

/-- What a loop comes to after a round from `start` that succeeded. -/
def afterRound (stream : TokenStream) (wanted : Nat → Bool) (step : Step) (start : Nat) (round : Parsed × Nat) :
    Verdict :=
  if start < round.2 && wanted round.2 then
    (loop stream wanted step round.2).verdict.map fun later =>
      ({ later.1 with captures := round.1.captures ++ later.1.captures }, later.2)
  else .ok ({ round.1 with node := none }, round.2)

/-- What a loop comes to, the first round apart. -/
theorem verdict_loop (h : Bounded stream step) (wanted : Nat → Bool) (p : Nat) :
    (loop stream wanted step p).verdict =
      if wanted p then (step p).verdict.bind (afterRound stream wanted step p) else .ok ({}, p) := by
  rw [verdict_loop_tally, rounds_eq h]
  split
  · rw [tally_cons]
    cases hr : (step p).result with
    | error e => simp [Outcome.verdict_eq_error.2 hr, Except.map, Except.bind]
    | ok parsed =>
      simp only [Outcome.verdict_of_result_ok hr, Except.bind, Except.isOk, Except.toBool, afterRound, Bool.true_and]
      by_cases hp : p < (step p).position
      · have none := rounds_isEmpty h wanted (step p).position
        cases hw : wanted (step p).position with
        | true =>
          simp only [hp, hw, none, verdict_loop_tally, decide_true, Bool.and_self, if_true]
          cases tally (step p).position (rounds stream wanted step (step p).position) <;> rfl
        | false =>
          rw [rounds_eq h, hw]
          simp [tally_nil, Except.map]
      · simp [hp, tally_nil, Except.map]
  · rfl

end

/-! ## The ends of loops -/

/-- The outcome is made of rounds: it has their events in this order, the error of the round that failed, at the place
where that stopped, and otherwise all that they captured, unless what follows them fails. -/
structure MadeOf (outcome : Outcome) (start : Nat) (rounds : List Outcome) : Prop where
  events : outcome.events = rounds.flatMap (·.events)
  error : ∀ e, captured rounds = .error e → outcome.result = .error e ∧ outcome.position = stop start rounds
  ok : ∀ parsed, outcome.result = .ok parsed → captured rounds = .ok parsed.captures

section
variable (stream : TokenStream) (firstSet : KindSet) (step : Step) (start : Nat)

theorem repeating_madeOf : MadeOf (repeating stream firstSet step start) start
    (rounds stream (startsAt stream firstSet) step start) where
  events := rfl
  error := fun e he => by simp [repeating, he, Except.map]
  ok := fun parsed hr => by
    unfold repeating at hr
    cases hc : captured (rounds stream (startsAt stream firstSet) step start) with
    | error e => simp [hc, Except.map] at hr
    | ok captures =>
      simp only [hc, Except.map, Except.ok.injEq] at hr
      rw [← hr]

theorem items_madeOf (closer : TokenKind) : MadeOf (items stream firstSet closer step start) start
    (rounds stream (itemAt stream firstSet closer) step start) := by
  unfold items
  generalize rounds stream (itemAt stream firstSet closer) step start = rounds
  dsimp only
  cases hc : captured rounds with
  | error e =>
    refine ⟨rfl, fun e' he => ?_, nofun⟩
    rw [hc] at he
    cases he
    exact ⟨rfl, rfl⟩
  | ok captures =>
    dsimp only
    -- Without the closing token the items fail, though no round did.
    cases close stream firstSet closer (stop start rounds) with
    | error e => exact ⟨rfl, by simp [hc], nofun⟩
    | ok =>
      refine ⟨rfl, by simp [hc], fun parsed hr => ?_⟩
      cases hr
      exact hc

end

/-- The loop from a position ends of itself, with the rounds that `rounds` gives. Of these there is at most one more
than tokens up to the end of the input, and the outcome is made of them. -/
structure Ends (stream : TokenStream) (wanted : Nat → Bool) (step : Step) (start : Nat) (outcome : Outcome) :
    Prop where
  loop_iff : ∀ rounds, Loop wanted step start rounds ↔ rounds = Step.rounds stream wanted step start
  length_le : (Step.rounds stream wanted step start).length ≤ stream.endFrom start - start + 1
  madeOf : MadeOf outcome start (Step.rounds stream wanted step start)

theorem Bounded.ends {stream : TokenStream} {step : Step} (h : Bounded stream step) {wanted : Nat → Bool}
    {start : Nat} {outcome : Outcome} (made : MadeOf outcome start (rounds stream wanted step start)) :
    Ends stream wanted step start outcome :=
  ⟨fun _ => loop_iff_rounds h, (loop_rounds h wanted start).2, made⟩

end FuncIR.Parser.Step

namespace FuncIR.Parser

/-- Both loops of a parser end, wherever they start: that of its repetition, and that which takes it as the item up to
a closing token. -/
theorem loops_end (parser : Parser) (tokens : List Token) (policy : Alternation) (depth start : Nat) :
    let stream := TokenStream.ofList tokens
    let once := Step.finished stream parser.traits (body stream policy depth parser)
    let item := run stream policy depth parser
    Step.Ends stream (Step.startsAt stream parser.firstSet) once start
        (Step.repeating stream parser.firstSet once start) ∧
      ∀ closer, Step.Ends stream (Step.itemAt stream parser.firstSet closer) item start
        (Step.items stream parser.firstSet closer item start) := by
  intro stream once item
  have inner := body_bounded stream policy parser depth
  exact ⟨(bounded_finished inner).ends (Step.repeating_madeOf stream parser.firstSet once start),
    fun closer => (bounded_enclosed stream inner).ends (Step.items_madeOf stream parser.firstSet item start closer)⟩

end FuncIR.Parser
