import FuncIR.Proofs.Parser.Refusals
import FuncIR.Proofs.Parser.Verdict
import FuncIR.Proofs.Token.Stream

/-!
# Where a run ends

A run that starts at a position stops between there and the end of the input, whether it succeeds or fails, and its
error blames a token that it came to, unless a reduction refused (`Outcome.Placed`). Each way to combine steps keeps
this, so it holds of every parser (`run_placed`), and whoever moves about in a stream by tokens, by going back and by
parsers stays inside (`moves_inside`).
-/

namespace FuncIR.Parser

/-- The error blames the token at a position between the two. -/
def Blames (stream : TokenStream) (low high : Nat) (e : ParseError) : Prop :=
  ∃ expected n, low ≤ n ∧ n ≤ high ∧ e = .unexpected expected (stream.get n) n

/-- The run from `start` stopped between there and the end of the input, and blames no token before the one where it
stopped. -/
structure Outcome.Placed (refusals : Refusals) (stream : TokenStream) (start : Nat) (outcome : Outcome) : Prop where
  start_le : start ≤ outcome.position
  le_end : outcome.position ≤ stream.endFrom start
  blames : ∀ e, outcome.result = .error e →
    refusals.Holds e ∨ Blames stream outcome.position (stream.endFrom start) e

section Blames
variable {stream : TokenStream} {low high : Nat} {e : ParseError}

theorem Blames.mono (h : Blames stream low high e) {low' : Nat} (hl : low' ≤ low) : Blames stream low' high e := by
  obtain ⟨expected, n, hn, hh, he⟩ := h
  exact ⟨expected, n, Nat.le_trans hl hn, hh, he⟩

theorem Blames.widen (h : Blames stream low high e) (kinds : KindSet) : Blames stream low high (e.widen kinds) := by
  obtain ⟨expected, n, hn, hh, rfl⟩ := h
  exact ⟨_, n, hn, hh, rfl⟩

end Blames

namespace Step
variable {refusals : Refusals} {stream : TokenStream} {p q : Nat}

/-- A step that is placed wherever it is run. -/
def Placing (refusals : Refusals) (stream : TokenStream) (step : Step) : Prop :=
  ∀ p, (step p).Placed refusals stream p

/-- A step that stops between its start and the end of the input. -/
abbrev Bounded (stream : TokenStream) (step : Step) : Prop := Placing .any stream step

theorem Placing.bounded {step : Step} (h : Placing refusals stream step) : Bounded stream step :=
  fun p => ⟨(h p).start_le, (h p).le_end, fun _ _ => .inl trivial⟩

/-! ## Placed outcomes -/

theorem placed_ok (hp : p ≤ q) (hq : q ≤ stream.endFrom p) (parsed : Parsed) (events : List Event) :
    Outcome.Placed refusals stream p ⟨.ok parsed, q, events⟩ :=
  ⟨hp, hq, fun _ h => by cases h⟩

theorem placed_blame (hp : p ≤ q) (hq : q ≤ stream.endFrom p) (expected : KindSet) (events : List Event) :
    Outcome.Placed refusals stream p ⟨.error (.unexpected expected (stream.get q) q), q, events⟩ := by
  refine ⟨hp, hq, fun e h => .inr ?_⟩
  cases h
  exact ⟨expected, q, Nat.le_refl q, hq, rfl⟩

/-- What is done from a later position on ends where the whole may end. -/
theorem placed_after {outcome : Outcome} (hp : p ≤ q) (hq : q ≤ stream.endFrom p)
    (h : outcome.Placed refusals stream q) : outcome.Placed refusals stream p := by
  have he := TokenStream.endFrom_eq hp hq
  refine ⟨Nat.le_trans hp h.start_le, he ▸ h.le_end, fun e hr => ?_⟩
  rw [← he]
  exact h.blames e hr

/-- The position counts, and the error if there is one; the value and the events do not. -/
theorem placed_congr {outcome other : Outcome} (h : outcome.Placed refusals stream p)
    (hp : other.position = outcome.position)
    (he : ∀ e, other.result = .error e → outcome.result = .error e ∨ refusals.Holds e) :
    other.Placed refusals stream p := by
  refine ⟨hp ▸ h.start_le, hp ▸ h.le_end, fun e hr => ?_⟩
  rcases he e hr with hr | refused
  · rw [hp]
    exact h.blames e hr
  · exact .inl refused

/-! ## One step after the other -/

theorem placing_token (kind : TokenKind) : Placing refusals stream (token stream kind) := by
  intro p
  unfold token
  dsimp only
  split
  · exact placed_ok (stream.le_next p) (stream.next_le_endFrom p) _ _
  · exact placed_blame (Nat.le_refl p) (stream.le_endFrom p) _ _

theorem placing_inOrder {parts : List Step} (h : ∀ part ∈ parts, Placing refusals stream part) :
    ∀ pending, Placing refusals stream (inOrder pending parts) := by
  induction parts with
  | nil => exact fun pending p => placed_ok (Nat.le_refl p) (stream.le_endFrom p) _ _
  | cons part parts ih =>
    intro pending p
    have first := h part List.mem_cons_self p
    rw [inOrder]
    cases hr : (part p).result with
    | error e =>
      refine ⟨first.start_le, first.le_end, fun e' he => ?_⟩
      cases he
      split
      · exact (first.blames e hr).imp (fun refused => refusals.widen refused _) fun blames => blames.widen _
      · exact first.blames e hr
    | ok parsed =>
      have rest := ih (fun other ho => h other (List.mem_cons_of_mem _ ho))
        (KindSet.union (if p < (part p).position then [] else pending) parsed.trailing) (part p).position
      refine placed_congr (placed_after first.start_le first.le_end rest) rfl fun e he => .inl ?_
      revert he
      dsimp only
      cases (inOrder _ parts (part p).position).result <;> simp [Except.map]

theorem placing_finished {traits : Traits} {body : Step} (h : Placing refusals stream body)
    (hr : traits.RefusesWith refusals) : Placing refusals stream (finished stream traits body) := by
  intro p
  unfold finished
  cases hb : (body p).result with
  | error e => simpa only [hb] using h p
  | ok parsed =>
    simp only [hb]
    cases hd : parsed.reduceBy traits.reduction (stream.spanOf p (body p).position) with
    | error refused =>
      refine placed_congr (h p) rfl fun e he => .inr ?_
      cases he
      exact hr.reduceBy hd
    | ok reduced => exact placed_ok (h p).start_le (h p).le_end _ _

theorem placing_guarded {depth : Nat} {label : String} {firstSet : KindSet} {acceptsEmpty : Bool} {step : Step}
    (h : Placing refusals stream step) :
    Placing refusals stream (guarded stream depth label firstSet acceptsEmpty step) := by
  intro p
  unfold guarded
  split
  · exact placed_congr (h p) rfl fun e he => .inl he
  · split
    · exact placed_ok (Nat.le_refl p) (stream.le_endFrom p) _ _
    · exact placed_blame (Nat.le_refl p) (stream.le_endFrom p) _ _

/-! ## Loops -/

/-- What the rounds of a loop come to, as an outcome. -/
def looped (start : Nat) (rounds : List Outcome) : Outcome where
  result := (captured rounds).map fun captures => { captures := captures, trailing := trailing rounds }
  position := stop start rounds
  events := rounds.flatMap (·.events)

theorem placed_looped {wanted : Nat → Bool} {step : Step} (h : Placing refusals stream step) (bound : Nat) :
    ∀ p, (looped p (roundsWithin wanted step bound p)).Placed refusals stream p := by
  induction bound with
  | zero => exact fun p => placed_ok (Nat.le_refl p) (stream.le_endFrom p) _ _
  | succ bound ih =>
    intro p
    rw [roundsWithin]
    split
    · cases hr : (step p).result with
      | error e =>
        -- No round follows the one that failed.
        simp only [hr, Except.isOk, Except.toBool, Bool.false_and, Bool.false_eq_true, if_false]
        refine placed_congr (h p) rfl fun e' he => .inl ?_
        simpa [looped, captured, hr, Except.map, bind, Except.bind] using he
      | ok parsed =>
        have first := h p
        have later : ∀ rounds : List Outcome,
            (looped (step p).position rounds).Placed refusals stream (step p).position →
            (looped p (step p :: rounds)).Placed refusals stream p := by
          intro rounds rest
          refine placed_congr (placed_after first.start_le first.le_end rest) (stop_cons p _ rounds) fun e he => .inl ?_
          revert he
          simp only [looped, captured, hr]
          cases captured rounds <;> simp [Except.map, bind, Except.bind, pure, Except.pure]
        apply later
        split
        · exact ih _
        · exact placed_ok (Nat.le_refl _) (stream.le_endFrom _) _ _
    · exact placed_ok (Nat.le_refl p) (stream.le_endFrom p) _ _

/-- A loop as a step: what its rounds come to. -/
def loop (stream : TokenStream) (wanted : Nat → Bool) (step : Step) : Step := fun position =>
  looped position (rounds stream wanted step position)

theorem placing_loop {wanted : Nat → Bool} {step : Step} (h : Placing refusals stream step) :
    Placing refusals stream (loop stream wanted step) :=
  fun p => placed_looped h _ p

theorem placing_repeating {firstSet : KindSet} {step : Step} (h : Placing refusals stream step) :
    Placing refusals stream (repeating stream firstSet step) := by
  intro p
  refine placed_congr (placing_loop h p) rfl fun e he => .inl ?_
  revert he
  simp only [repeating, loop, looped]
  cases captured _ <;> simp [Except.map]

theorem placing_items {firstSet : KindSet} {closer : TokenKind} {item : Step} (h : Placing refusals stream item) :
    Placing refusals stream (items stream firstSet closer item) := by
  intro p
  have loop : (loop stream (itemAt stream firstSet closer) item p).Placed refusals stream p := placing_loop h p
  unfold items
  revert loop
  unfold Step.loop
  generalize rounds stream (itemAt stream firstSet closer) item p = rounds
  intro loop
  have hp : p ≤ stop p rounds := loop.start_le
  have hq : stop p rounds ≤ stream.endFrom p := loop.le_end
  dsimp only
  cases hc : captured rounds with
  | error e =>
    refine placed_congr loop rfl fun e' he => .inl ?_
    simpa [looped, hc, Except.map] using he
  | ok captures =>
    have hn := stream.next_le_endFrom (stop p rounds)
    rw [TokenStream.endFrom_eq hp hq] at hn
    dsimp only [close]
    split
    · rename_i he
      split at he
      · cases he
      · split at he <;> cases he <;> exact placed_blame hp hq _ _
    · exact placed_ok (Nat.le_trans hp (stream.le_next _)) hn _ _

/-! ## Choices -/

theorem placed_inTurn {alternatives : List Step}
    (h : ∀ alternative ∈ alternatives, Placing refusals stream alternative) :
    ∀ index best, (∀ e, best = some e → refusals.Holds e ∨ Blames stream p (stream.endFrom p) e) →
      (inTurn stream index best alternatives p).Placed refusals stream p := by
  induction alternatives with
  | nil =>
    intro index best hb
    cases best with
    | none => exact placed_blame (Nat.le_refl p) (stream.le_endFrom p) _ _
    | some b =>
      refine ⟨Nat.le_refl p, stream.le_endFrom p, fun e he => ?_⟩
      cases he
      exact hb b rfl
  | cons alternative alternatives ih =>
    intro index best hb
    have tried := h alternative List.mem_cons_self p
    rw [inTurn]
    cases hr : (alternative p).result with
    | ok parsed => simpa only [hr] using tried
    | error e =>
      have he := (tried.blames e hr).imp_right fun blames => blames.mono tried.start_le
      refine placed_congr (ih (fun other ho => h other (List.mem_cons_of_mem _ ho)) (index + 1) _ ?_) rfl
        fun _ he => .inl he
      rintro _ ⟨⟩
      cases best with
      | none => exact he
      | some b =>
        simp only [Option.map_some, Option.getD_some, further]
        split
        · exact he
        · exact hb b rfl

theorem placing_choice {policy : Alternation} {branches : List Branch}
    (h : ∀ branch ∈ branches, Placing refusals stream branch.step) :
    Placing refusals stream (choice stream policy branches) := by
  intro p
  have candidate : ∀ branch ∈ candidates policy (stream.get p).kind branches, Placing refusals stream branch.step := by
    intro branch hb
    cases policy with
    | firstSet => exact h branch (List.mem_filter.1 hb).1
    | exhaustive => exact h branch hb
  unfold choice
  split
  · rename_i only ho
    exact candidate only (by simp [ho]) p
  · refine placed_inTurn (fun step hs => ?_) 0 none (by simp)
    obtain ⟨branch, hb, rfl⟩ := List.mem_map.1 hs
    exact candidate branch hb

end Step

/-! ## Parsers -/

section Parsers
variable {refusals : Refusals} (stream : TokenStream) (policy : Alternation)

theorem placing_enclosed {depth : Nat} {parser : Parser} {body : Step} (h : Step.Placing refusals stream body)
    (hr : parser.traits.RefusesWith refusals) : Step.Placing refusals stream (enclosed stream depth parser body) := by
  have once := Step.placing_finished h hr
  apply Step.placing_guarded
  split
  · exact Step.placing_repeating once
  · exact once

theorem body_placing {parser : Parser} (hr : parser.RefusesWith refusals) :
    ∀ depth, Step.Placing refusals stream (body stream policy depth parser) := by
  induction parser with
  | token kind traits => exact fun _ => Step.placing_token kind
  | sequence parts traits ih =>
    intro depth
    rw [body_sequence]
    refine Step.placing_inOrder (fun step hs => ?_) []
    obtain ⟨part, hp, rfl⟩ := List.mem_map.1 hs
    exact placing_enclosed stream (ih part hp (hr.sequence hp) _) (hr.sequence hp).self
  | choice alternatives traits ih =>
    intro depth
    rw [body_choice]
    refine Step.placing_choice fun branch hb => ?_
    obtain ⟨alternative, ha, rfl⟩ := List.mem_map.1 hb
    exact placing_enclosed stream (ih alternative ha (hr.choice ha) _) (hr.choice ha).self
  | items item closer traits ih =>
    exact fun _ => Step.placing_items (placing_enclosed stream (ih hr.items _) hr.items.self)

/-- Every run stops between its start and the end of the input, and blames only a token there, unless a reduction
refused. -/
theorem run_placed {parser : Parser} (hr : parser.RefusesWith refusals) (depth : Nat) :
    Step.Placing refusals stream (run stream policy depth parser) :=
  placing_enclosed stream (body_placing stream policy hr depth) hr.self

/-! Where a run stops does not depend on what its reductions refuse. -/

theorem bounded_finished {stream : TokenStream} {traits : Traits} {body : Step} (h : Step.Bounded stream body) :
    Step.Bounded stream (Step.finished stream traits body) :=
  Step.placing_finished h fun _ _ _ _ _ _ => trivial

theorem bounded_enclosed {depth : Nat} {parser : Parser} {body : Step} (h : Step.Bounded stream body) :
    Step.Bounded stream (enclosed stream depth parser body) :=
  placing_enclosed stream h (refusesWith_any parser).self

theorem body_bounded (parser : Parser) (depth : Nat) : Step.Bounded stream (body stream policy depth parser) :=
  body_placing stream policy (refusesWith_any parser) depth

theorem run_bounded (depth : Nat) (parser : Parser) : Step.Bounded stream (run stream policy depth parser) :=
  run_placed stream policy (refusesWith_any parser) depth

end Parsers

/-! ## Moving about in a stream -/

/-- What can be done at a position of a stream. -/
inductive Move where
  /-- To the next token. -/
  | advance
  /-- Back or ahead to a position, but not beyond the stream. -/
  | restore (position : Nat)
  /-- To where a parser stops, whether it succeeds or fails. -/
  | parse (parser : Parser) (policy : Alternation)

namespace Move

/-- Where a move leads from a position. -/
def apply (stream : TokenStream) (position : Nat) : Move → Nat
  | advance => stream.next position
  | restore target => stream.clamp target
  | parse parser policy => (parser.parseAt stream policy position).position

/-- Where moves lead from the start of a stream. -/
def reach (stream : TokenStream) (moves : List Move) : Nat :=
  moves.foldl (apply stream) 0

theorem apply_le_size {stream : TokenStream} {p : Nat} (h : p ≤ stream.size) (move : Move) :
    move.apply stream p ≤ stream.size := by
  cases move with
  | advance => exact TokenStream.next_le_size h
  | restore target => exact stream.clamp_le_size target
  | parse parser policy =>
    have placed := run_bounded stream policy 0 parser p
    exact Nat.le_trans placed.le_end (TokenStream.endFrom_le_size h)

theorem reach_le_size (stream : TokenStream) (moves : List Move) : reach stream moves ≤ stream.size := by
  have keeps : ∀ p ≤ stream.size, moves.foldl (apply stream) p ≤ stream.size := by
    induction moves with
    | nil => exact fun p hp => hp
    | cons move moves ih => exact fun p hp => ih _ (apply_le_size hp move)
  exact keeps 0 (Nat.zero_le _)

end Move

/-- The span of the tokens between two positions is read off the first and the last of them, which are in the list. -/
def SpansTokens (tokens : List Token) (start stop : Nat) : Prop :=
  ∃ (hs : start < tokens.length) (hp : stop - 1 < tokens.length),
    (TokenStream.ofList tokens).spanOf start stop =
      ⟨(tokens.get ⟨start, hs⟩).span.start, (tokens.get ⟨stop - 1, hp⟩).span.stop⟩

section
variable {tokens : List Token}

theorem spansTokens {start stop : Nat} (h : start < stop) (hs : stop ≤ tokens.length) :
    SpansTokens tokens start stop := by
  have hf : start < tokens.length := by omega
  have hl : stop - 1 < tokens.length := by omega
  refine ⟨hf, hl, ?_⟩
  simp [TokenStream.spanOf, TokenStream.get, TokenStream.ofList, h, hf, hl]

/-- The body of a parser comes from a position to a later one only over tokens of the list. -/
theorem body_spansTokens (parser : Parser) (policy : Alternation) (depth start : Nat)
    (h : start < (body (.ofList tokens) policy depth parser start).position) :
    SpansTokens tokens start (body (.ofList tokens) policy depth parser start).position := by
  have placed := body_bounded (.ofList tokens) policy parser depth start
  refine spansTokens h ?_
  have ahead := TokenStream.endFrom_sub_le (.ofList tokens) start
  rw [size_ofList] at ahead
  have := placed.le_end
  omega

end

/-- Whatever moves led to a position, it is no further than the end of the token list, so the span of the tokens from
any earlier position up to it is read off two tokens of the list. A parser that is run there stops no earlier and
steps over no end of input. Inside a run, the span of what is built goes from where the body of a parser started to
where it stopped, and it is read off two tokens of the list as well. -/
theorem moves_inside (tokens : List Token) (moves : List Move) :
    let stream := TokenStream.ofList tokens
    let position := Move.reach stream moves
    position ≤ tokens.length ∧
      (∀ start < position, SpansTokens tokens start position) ∧
      (∀ parser policy, let stop := (Parser.parseAt parser stream policy position).position
        position ≤ stop ∧ stop ≤ stream.endFrom position) ∧
      ∀ parser policy depth start, let stop := (body stream policy depth parser start).position
        start < stop → SpansTokens tokens start stop := by
  intro stream position
  have hp : position ≤ tokens.length := by
    have := Move.reach_le_size stream moves
    rwa [size_ofList] at this
  refine ⟨hp, fun start hs => spansTokens hs hp, fun parser policy => ?_, body_spansTokens⟩
  have placed := run_bounded stream policy 0 parser position
  exact ⟨placed.start_le, placed.le_end⟩

end FuncIR.Parser
