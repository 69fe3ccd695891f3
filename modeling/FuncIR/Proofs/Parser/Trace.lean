import FuncIR.Proofs.Parser.Commitment
import FuncIR.Proofs.Parser.Loop
import FuncIR.Proofs.Parser.OrderedChoice

/-!
# The shape of a trace

A trace tells of a parser from where it is entered until it matches or fails, and in between of the parsers in it, one
level deeper. So the trace of a run is that of one tree of visits, `Visit`, or it is empty because the parser could not
start (`trace_nested`). What matched consumed at least what was matched directly in it (`Visit.Accounted`); alternatives
that failed before count for nothing, since the choice went back.
-/

namespace FuncIR.Parser

/-- How a parser that was entered ends. -/
inductive Ending where
  | matched (consumed : Nat)
  | failed (error : ParseError)
  deriving DecidableEq, Repr

def Ending.event (depth : Nat) (label : String) : Ending → Event
  | matched consumed => .matched depth label consumed
  | failed error => .failed depth label error

/-- What a trace tells of one parser. `inner` are the parsers that ran in it, in order. -/
inductive Visit where
  | skipped (label : String)
  | entered (label : String) (current : Token) (inner : List Visit) (ending : Ending)

namespace Visit

mutual

/-- The events of a visit at a depth. -/
def events (depth : Nat) : Visit → List Event
  | skipped label => [.skipped depth label]
  | entered label current inner ending =>
    .enter depth label current :: eventsOf (depth + 1) inner ++ [ending.event depth label]

def eventsOf (depth : Nat) : List Visit → List Event
  | [] => []
  | visit :: visits => events depth visit ++ eventsOf depth visits

end

/-- Whether the parser was skipped or matched. -/
def succeeded : Visit → Bool
  | skipped _ => true
  | entered _ _ _ (.matched _) => true
  | entered _ _ _ (.failed _) => false

/-- How many tokens the parser consumed; only one that matched keeps what it consumed. -/
def consumed : Visit → Nat
  | entered _ _ _ (.matched consumed) => consumed
  | _ => 0

/-- What the visits consumed that matched. -/
def total : List Visit → Nat
  | [] => 0
  | visit :: visits => visit.consumed + total visits

/-- Wherever a parser matched in this visit, it consumed at least what those consumed that matched directly in it. -/
inductive Accounted : Visit → Prop
  | skipped {label : String} : Accounted (skipped label)
  | matched {label : String} {current : Token} {inner : List Visit} {consumed : Nat} :
      (∀ visit ∈ inner, Accounted visit) → total inner ≤ consumed →
        Accounted (entered label current inner (.matched consumed))
  | failed {label : String} {current : Token} {inner : List Visit} {error : ParseError} :
      (∀ visit ∈ inner, Accounted visit) → Accounted (entered label current inner (.failed error))

theorem eventsOf_append (depth : Nat) (visits others : List Visit) :
    eventsOf depth (visits ++ others) = eventsOf depth visits ++ eventsOf depth others := by
  induction visits with
  | nil => rfl
  | cons visit visits ih => rw [List.cons_append, eventsOf, eventsOf, ih, List.append_assoc]

theorem eventsOf_singleton (depth : Nat) (visit : Visit) : eventsOf depth [visit] = visit.events depth := by
  rw [eventsOf, eventsOf, List.append_nil]

theorem total_append (visits others : List Visit) : total (visits ++ others) = total visits + total others := by
  induction visits with
  | nil => exact (Nat.zero_add _).symm
  | cons visit visits ih => rw [List.cons_append, total, total, ih, Nat.add_assoc]

theorem consumed_of_not_succeeded {visit : Visit} (h : visit.succeeded = false) : visit.consumed = 0 := by
  rcases visit with label | ⟨label, current, inner, n | e⟩
  · rfl
  · cases h
  · rfl

end Visit

/-! ## Outcomes -/

/-- From `start` on, the trace tells of these visits at a depth, and a success lies behind all that they consumed. -/
structure Outcome.Visits (depth start : Nat) (visits : List Visit) (outcome : Outcome) : Prop where
  trace_eq : outcome.trace = Visit.eventsOf depth visits
  accounted : ∀ visit ∈ visits, visit.Accounted
  covered : outcome.result.isOk = true → start + Visit.total visits ≤ outcome.position

/-- The trace tells of `root` at a depth, if it tells of anything, and `root` tells how the run from `start` ended. -/
structure Outcome.Rooted (depth start : Nat) (root : Option Visit) (outcome : Outcome) : Prop where
  trace_eq : outcome.trace = Visit.eventsOf depth root.toList
  accounted : ∀ visit ∈ root, visit.Accounted
  isOk_eq : outcome.result.isOk = root.any Visit.succeeded
  position_eq : ∀ visit ∈ root, visit.succeeded = true → outcome.position = start + visit.consumed

section
variable {depth start : Nat} {visits others : List Visit} {root : Option Visit} {outcome other : Outcome}

theorem Outcome.Visits.congr (h : outcome.Visits depth start visits) (he : other.events = outcome.events)
    (hp : other.result.isOk = true → outcome.result.isOk = true ∧ outcome.position ≤ other.position) :
    other.Visits depth start visits := by
  refine ⟨?_, h.accounted, fun ok => ?_⟩
  · rw [← h.trace_eq, Outcome.trace, he, Outcome.trace]
  · exact Nat.le_trans (h.covered (hp ok).1) (hp ok).2

/-- What is done after a success. -/
theorem Outcome.Visits.andThen {next : Outcome} (h : outcome.Visits depth start visits)
    (hn : next.Visits depth outcome.position others) (ht : other.trace = outcome.trace ++ next.trace)
    (hp : other.result.isOk = true →
      outcome.result.isOk = true ∧ next.result.isOk = true ∧ next.position ≤ other.position) :
    other.Visits depth start (visits ++ others) := by
  refine ⟨?_, ?_, fun ok => ?_⟩
  · rw [ht, h.trace_eq, hn.trace_eq, Visit.eventsOf_append]
  · exact List.forall_mem_append.2 ⟨h.accounted, hn.accounted⟩
  · obtain ⟨first, second, le⟩ := hp ok
    have := h.covered first
    have := hn.covered second
    rw [Visit.total_append]
    omega

/-- A run that fails keeps nothing. -/
theorem Outcome.Rooted.total_eq_zero (h : outcome.Rooted depth start root) (hr : outcome.result.isOk = false) :
    Visit.total root.toList = 0 := by
  cases root with
  | none => rfl
  | some visit =>
    have := Visit.consumed_of_not_succeeded (h.isOk_eq.symm.trans hr)
    simpa [Visit.total] using this

theorem Outcome.Rooted.toVisits (h : outcome.Rooted depth start root) : outcome.Visits depth start root.toList := by
  refine ⟨h.trace_eq, fun visit hv => h.accounted visit (Option.mem_toList.1 hv), fun ok => ?_⟩
  cases root with
  | none => exact absurd (h.isOk_eq.symm.trans ok) Bool.false_ne_true
  | some visit =>
    have := h.position_eq visit rfl (h.isOk_eq.symm.trans ok)
    simp [Visit.total, this]

end

namespace Step
variable {stream : TokenStream} {depth p : Nat}

/-- Wherever the step is run, its trace is that of some visits at a depth. -/
def Visiting (depth : Nat) (step : Step) : Prop := ∀ p, ∃ visits, (step p).Visits depth p visits

theorem visiting_token (kind : TokenKind) : Visiting depth (token stream kind) := by
  intro p
  refine ⟨[], ?_, by simp, fun ok => ?_⟩
  · unfold token
    dsimp only
    split <;> rfl
  · unfold token at ok ⊢
    dsimp only at ok ⊢
    split at ok
    · rw [if_pos ‹_›]
      exact stream.le_next p
    · cases ok

theorem visiting_inOrder {parts : List Step} (h : ∀ part ∈ parts, Visiting depth part) :
    ∀ pending, Visiting depth (inOrder pending parts) := by
  induction parts with
  | nil => exact fun pending p => ⟨[], rfl, by simp, fun _ => Nat.le_refl p⟩
  | cons part parts ih =>
    intro pending p
    obtain ⟨visits, first⟩ := h part List.mem_cons_self p
    rw [inOrder]
    cases hr : (part p).result with
    | error e => exact ⟨visits, first.congr rfl fun ok => by cases ok⟩
    | ok parsed =>
      obtain ⟨others, rest⟩ := ih (fun other ho => h other (List.mem_cons_of_mem _ ho))
        (KindSet.union (if p < (part p).position then [] else pending) parsed.trailing) (part p).position
      refine ⟨visits ++ others, first.andThen rest (List.filter_append _ _) fun ok => ?_⟩
      refine ⟨by rw [hr]; rfl, ?_, Nat.le_refl _⟩
      dsimp only at ok
      cases hi : (inOrder _ parts (part p).position).result with
      | error e => rw [hi] at ok; cases ok
      | ok others => rfl

theorem visiting_finished {traits : Traits} {body : Step} (h : Visiting depth body) :
    Visiting depth (finished stream traits body) := by
  intro p
  obtain ⟨visits, inner⟩ := h p
  unfold finished
  cases hr : (body p).result with
  | error e =>
    simp only [hr]
    exact ⟨visits, inner⟩
  | ok parsed =>
    simp only [hr]
    have done : (body p).result.isOk = true := by rw [hr]; rfl
    cases parsed.reduceBy traits.reduction (stream.spanOf p (body p).position) with
    | error c => exact ⟨visits, inner.congr rfl fun ok => by cases ok⟩
    | ok reduced => exact ⟨visits, inner.congr rfl fun _ => ⟨done, Nat.le_refl _⟩⟩

/-- A parser is entered before what runs in it, one level deeper, and ends after it. -/
theorem rooted_guarded {label : String} {firstSet : KindSet} {acceptsEmpty : Bool} {step : Step}
    (h : Visiting (depth + 1) step) (p : Nat) :
    ∃ root, (guarded stream depth label firstSet acceptsEmpty step p).Rooted depth p root := by
  obtain ⟨visits, inner⟩ := h p
  unfold guarded
  dsimp only
  split
  · have told (ending : Ending) : (Event.enter depth label (stream.get p) :: (step p).events ++
        [ending.event depth label]).filter Event.isStep =
          Visit.eventsOf depth [.entered label (stream.get p) visits ending] := by
      have last : [ending.event depth label].filter Event.isStep = [ending.event depth label] := by
        cases ending <;> rfl
      rw [List.cons_append, List.filter_cons_of_pos rfl, List.filter_append, last, Visit.eventsOf_singleton,
        Visit.events, ← inner.trace_eq]
      rfl
    cases hr : (step p).result with
    | error e =>
      refine ⟨some (.entered label (stream.get p) visits (.failed e)), told (.failed e), ?_, ?_, ?_⟩
      · rintro _ ⟨⟩
        exact .failed inner.accounted
      · rfl
      · rintro _ ⟨⟩ hs
        cases hs
    | ok parsed =>
      have covered := inner.covered (by rw [hr]; rfl)
      refine ⟨some (.entered label (stream.get p) visits (.matched ((step p).position - p))), told (.matched _), ?_, ?_,
        ?_⟩
      · rintro _ ⟨⟩
        exact .matched inner.accounted (by omega)
      · rfl
      · rintro _ ⟨⟩ -
        simp only [Visit.consumed]
        omega
  -- It cannot start: skipped if it may be absent, else it fails without a trace.
  · split
    · refine ⟨some (.skipped label), rfl, ?_, rfl, ?_⟩
      · rintro _ ⟨⟩
        exact .skipped
      · rintro _ ⟨⟩ -
        rfl
    · exact ⟨none, rfl, by simp, rfl, by simp⟩

/-! ## Loops -/

theorem trace_looped_cons (start : Nat) (round : Outcome) (rounds : List Outcome) :
    (looped start (round :: rounds)).trace = round.trace ++ (looped round.position rounds).trace :=
  List.filter_append _ _

theorem isOk_looped_cons (start : Nat) (round : Outcome) (rounds : List Outcome) :
    (looped start (round :: rounds)).result.isOk =
      (round.result.isOk && (looped round.position rounds).result.isOk) := by
  simp only [looped, captured]
  cases round.result <;> cases captured rounds <;> rfl

theorem Loop.visits {wanted : Nat → Bool} {step : Step} {rounds : List Outcome} (h : Visiting depth step)
    (loop : Loop wanted step p rounds) : ∃ visits, (looped p rounds).Visits depth p visits := by
  -- The rounds after one that ends the loop are none, which is a loop of no visits.
  have none (q : Nat) : (looped q []).Visits depth q [] := ⟨rfl, by simp, fun _ => Nat.le_refl q⟩
  have more (q : Nat) {rounds : List Outcome} {later : List Visit}
      (rest : (looped (step q).position rounds).Visits depth (step q).position later) :
      ∃ visits, (looped q (step q :: rounds)).Visits depth q visits := by
    obtain ⟨visits, first⟩ := h q
    refine ⟨visits ++ later, first.andThen rest (trace_looped_cons q _ rounds) fun ok => ?_⟩
    rw [isOk_looped_cons, Bool.and_eq_true] at ok
    exact ⟨ok.1, ok.2, Nat.le_of_eq (stop_cons q _ rounds).symm⟩
  induction loop with
  | idle => exact ⟨[], none _⟩
  | last => exact more _ (none _)
  | again _ _ _ ih =>
    obtain ⟨later, rest⟩ := ih
    exact more _ rest

theorem visiting_loop {step : Step} (hb : Bounded stream step) (h : Visiting depth step) (wanted : Nat → Bool) :
    Visiting depth (loop stream wanted step) :=
  fun p => (loop_rounds hb wanted p).1.visits h

theorem visiting_repeating {firstSet : KindSet} {step : Step} (hb : Bounded stream step) (h : Visiting depth step) :
    Visiting depth (repeating stream firstSet step) := by
  intro p
  obtain ⟨visits, rounds⟩ := visiting_loop hb h (startsAt stream firstSet) p
  refine ⟨visits, rounds.congr rfl fun ok => ⟨?_, Nat.le_refl _⟩⟩
  revert ok
  simp only [repeating, loop, looped]
  cases captured _ <;> exact id

theorem visiting_items {firstSet : KindSet} {closer : TokenKind} {item : Step} (hb : Bounded stream item)
    (h : Visiting depth item) : Visiting depth (items stream firstSet closer item) := by
  intro p
  obtain ⟨visits, inner⟩ := visiting_loop hb h (itemAt stream firstSet closer) p
  refine ⟨visits, ?_⟩
  unfold items
  revert inner
  unfold loop
  generalize rounds stream (itemAt stream firstSet closer) item p = rounds
  intro inner
  dsimp only
  cases hc : captured rounds with
  | error e => exact inner.congr rfl fun ok => by cases ok
  | ok captures =>
    dsimp only
    cases close stream firstSet closer (stop p rounds) with
    | error e => exact inner.congr rfl fun ok => by cases ok
    | ok _ =>
      refine inner.congr rfl fun _ => ⟨?_, stream.le_next _⟩
      simp only [looped, hc]
      rfl

/-! ## Choices -/

/-- Alternatives that failed keep nothing, so only what the last one consumed counts. -/
theorem visits_inTurn {alternatives : List Step}
    (h : ∀ alternative ∈ alternatives, ∃ root, (alternative p).Rooted depth p root) :
    ∀ index best, ∃ visits, (inTurn stream index best alternatives p).Visits depth p visits := by
  induction alternatives with
  | nil => exact fun index best => ⟨[], rfl, by simp, fun ok => by cases ok⟩
  | cons alternative alternatives ih =>
    intro index best
    obtain ⟨root, tried⟩ := h alternative List.mem_cons_self
    rw [inTurn]
    cases hr : (alternative p).result with
    | ok parsed =>
      exact ⟨root.toList, tried.toVisits⟩
    | error e =>
      -- The next alternative starts over, so what this one matched inside must not be added up.
      have nothing := tried.total_eq_zero (by rw [hr]; rfl)
      obtain ⟨visits, rest⟩ := ih (fun other ho => h other (List.mem_cons_of_mem _ ho)) (index + 1)
        (some ((best.map (further · e)).getD e))
      refine ⟨root.toList ++ visits, ?_, ?_, fun ok => ?_⟩
      · rw [Visit.eventsOf_append, ← tried.trace_eq, ← rest.trace_eq]
        simp only [Outcome.trace, List.filter_append]
        rfl
      · exact List.forall_mem_append.2 ⟨tried.toVisits.accounted, rest.accounted⟩
      · rw [Visit.total_append, nothing, Nat.zero_add]
        exact rest.covered ok

end Step

/-! ## Parsers -/

section
variable (stream : TokenStream) (policy : Alternation)

theorem rooted_enclosed {depth : Nat} {parser : Parser} {body : Step} (hb : Step.Bounded stream body)
    (h : Step.Visiting (depth + 1) body) (p : Nat) :
    ∃ root, (enclosed stream depth parser body p).Rooted depth p root := by
  have once : Step.Visiting (depth + 1) (Step.finished stream parser.traits body) := Step.visiting_finished h
  apply Step.rooted_guarded
  split
  · exact Step.visiting_repeating (bounded_finished hb) once
  · exact once

theorem visiting_enclosed {depth : Nat} {parser : Parser} {body : Step} (hb : Step.Bounded stream body)
    (h : Step.Visiting (depth + 1) body) : Step.Visiting depth (enclosed stream depth parser body) := by
  intro p
  obtain ⟨root, rooted⟩ := rooted_enclosed stream hb h p
  exact ⟨root.toList, rooted.toVisits⟩

theorem body_visiting (parser : Parser) : ∀ depth, Step.Visiting (depth + 1) (body stream policy depth parser) := by
  induction parser with
  | token kind traits => exact fun _ => Step.visiting_token kind
  | sequence parts traits ih =>
    intro depth
    rw [body_sequence]
    refine Step.visiting_inOrder (fun step hs => ?_) []
    obtain ⟨part, hp, rfl⟩ := List.mem_map.1 hs
    exact visiting_enclosed stream (body_bounded stream policy part _) (ih part hp _)
  | choice alternatives traits ih =>
    intro depth p
    have rooted : ∀ alternative ∈ contenders policy (stream.get p).kind alternatives,
        ∃ root, (run stream policy (depth + 1) alternative p).Rooted (depth + 1) p root := fun alternative ha =>
      rooted_enclosed stream (body_bounded stream policy alternative _) (ih alternative (mem_of_mem_contenders ha) _) p
    rw [body_choice, choice_eq]
    split
    · rename_i only ho
      obtain ⟨root, alone⟩ := rooted only (by simp [ho])
      exact ⟨root.toList, alone.toVisits⟩
    · exact Step.visits_inTurn (List.forall_mem_map.2 rooted) 0 none
  | items item closer traits ih =>
    intro depth
    have bounded := body_bounded stream policy item (depth + 1)
    exact Step.visiting_items (bounded_enclosed stream bounded) (visiting_enclosed stream bounded (ih _))

/-- The trace of a run tells of one parser and what ran in it, or of nothing. -/
theorem run_rooted (depth : Nat) (parser : Parser) (p : Nat) :
    ∃ root, (run stream policy depth parser p).Rooted depth p root :=
  rooted_enclosed stream (body_bounded stream policy parser depth) (body_visiting stream policy parser depth) p

/-- Only a parser that cannot start and must be present leaves nothing in the trace. -/
theorem trace_eq_nil_iff (depth : Nat) (parser : Parser) (p : Nat) :
    (run stream policy depth parser p).trace = [] ↔
      Step.startsAt stream parser.firstSet p = false ∧ parser.acceptsEmpty = false := by
  unfold run enclosed Step.guarded
  cases Step.startsAt stream parser.firstSet p <;> cases parser.acceptsEmpty <;>
    simp [Outcome.trace, Event.isStep]

end

/-- The trace of a run is empty or that of one tree of visits, with the parser that was started at depth 0. It is empty
exactly if this parser fails at the first token because it cannot start with it. Otherwise the run succeeds exactly if
the parser was skipped or matched, and moves on by what it consumed; and in the whole tree, what matched consumed at
least what matched directly in it. -/
theorem trace_nested (parser : Parser) (tokens : List Token) (policy : Alternation) (start : Nat) :
    let current := (TokenStream.ofList tokens).get start
    let outcome := parser.parseAt (.ofList tokens) policy start
    (outcome.trace = [] ↔ current.kind ∉ parser.firstSet ∧
        outcome.result = .error (.unexpected parser.firstSet current start)) ∧
      (outcome.trace = [] ∨ ∃ root : Visit, outcome.trace = root.events 0 ∧ root.Accounted ∧
        outcome.result.isOk = root.succeeded ∧
          (root.succeeded = true → outcome.position = start + root.consumed)) := by
  intro current outcome
  constructor
  · refine (trace_eq_nil_iff _ policy 0 parser start).trans ⟨?_, ?_⟩
    · rintro ⟨idle, required⟩
      refine ⟨fun hk => ?_, ?_⟩
      · rw [startsAt_iff.2 hk] at idle
        cases idle
      · exact (run_of_not_startsAt idle).2.trans (if_neg (by simp [required]))
    · rintro ⟨hk, failed⟩
      have idle : Step.startsAt (.ofList tokens) parser.firstSet start = false := by
        simpa [Step.startsAt] using hk
      refine ⟨idle, Bool.eq_false_iff.2 fun optional => ?_⟩
      have skipped : outcome.result = .ok { trailing := parser.firstSet } :=
        (run_of_not_startsAt idle).2.trans (if_pos optional)
      cases failed.symm.trans skipped
  · obtain ⟨root, rooted⟩ := run_rooted (.ofList tokens) policy 0 parser start
    cases root with
    | none => exact .inl rooted.trace_eq
    | some root =>
      refine .inr ⟨root, ?_, rooted.accounted root rfl, rooted.isOk_eq, rooted.position_eq root rfl⟩
      exact rooted.trace_eq.trans (Visit.eventsOf_singleton 0 root)

/-- An optional blank behind a name is skipped at the end of the input. -/
example :
    (((inOrder [expect .identifier, (expect .whitespace).optional]).withLabel "pair").parse
      (.ofList [⟨.identifier, "a", ⟨0, 1⟩⟩, .endOfInput 1]) .firstSet).trace =
        (Visit.entered "pair" ⟨.identifier, "a", ⟨0, 1⟩⟩
          [.entered "IDENTIFIER" ⟨.identifier, "a", ⟨0, 1⟩⟩ [] (.matched 1), .skipped "WHITESPACE"]
          (.matched 1)).events 0 := rfl

end FuncIR.Parser
