import FuncIR.Parser.Run

/-!
# Verdicts

The `verdict` of a run is what its caller can go by: the value with the position after it, or the error. Where a
failed run stopped and what it logged are not part of it. The verdict of each way to combine steps is computed from
the verdicts of these steps alone (`verdict_inOrder`, `verdict_finished`, `verdict_guarded`, `verdict_repeating`,
`verdict_items`, `verdict_choice`), so steps that are `Alike` may replace each other.
-/

namespace FuncIR.Parser

abbrev Verdict := Except ParseError (Parsed × Nat)

def Outcome.verdict (outcome : Outcome) : Verdict :=
  outcome.result.map fun parsed => (parsed, outcome.position)

@[simp] theorem Outcome.verdict_eq_ok {o : Outcome} {parsed : Parsed} {q : Nat} :
    o.verdict = .ok (parsed, q) ↔ o.result = .ok parsed ∧ o.position = q := by
  unfold verdict
  cases o.result <;> simp [Except.map]

@[simp] theorem Outcome.verdict_eq_error {o : Outcome} {e : ParseError} :
    o.verdict = .error e ↔ o.result = .error e := by
  unfold verdict
  cases o.result <;> simp [Except.map]

theorem Outcome.verdict_of_result_ok {o : Outcome} {parsed : Parsed} (h : o.result = .ok parsed) :
    o.verdict = .ok (parsed, o.position) :=
  verdict_eq_ok.2 ⟨h, rfl⟩

namespace Step
variable {stream : TokenStream} {p : Nat}

/-! ## Tokens, sequences, reductions and guards -/

@[simp] theorem verdict_token (kind : TokenKind) :
    (token stream kind p).verdict =
      if (stream.get p).kind = kind then .ok ({ node := some (.token (stream.get p)) }, stream.next p)
      else .error (.unexpected [kind] (stream.get p) p) := by
  unfold token
  dsimp only
  split <;> rfl

@[simp] theorem verdict_inOrder_nil (pending : KindSet) :
    (inOrder pending [] p).verdict = .ok ({ trailing := pending }, p) := rfl

@[simp] theorem verdict_inOrder (pending : KindSet) (part : Step) (parts : List Step) :
    (inOrder pending (part :: parts) p).verdict =
      match (part p).verdict with
      | .error e => .error (if e.consumed = p then e.widen pending else e)
      | .ok (parsed, q) =>
        (inOrder (KindSet.union (if p < q then [] else pending) parsed.trailing) parts q).verdict.map
          fun (others, r) => ({ others with captures := parsed.captures ++ others.captures }, r) := by
  rw [inOrder]
  cases h : (part p).result with
  | error e => rw [Outcome.verdict_eq_error.2 h]; rfl
  | ok parsed =>
    rw [Outcome.verdict_of_result_ok h]
    dsimp only
    generalize inOrder _ parts _ = rest
    unfold Outcome.verdict
    cases rest.result <;> rfl

theorem verdict_inOrder_single (part : Step) (pending : KindSet) (p : Nat) :
    (inOrder pending [part] p).verdict =
      match (part p).verdict with
      | .error e => .error (if e.consumed = p then e.widen pending else e)
      | .ok (parsed, q) =>
        .ok (⟨none, parsed.captures, KindSet.union (if p < q then [] else pending) parsed.trailing⟩, q) := by
  rw [verdict_inOrder]
  rcases (part p).verdict with e | ⟨parsed, q⟩
  · rfl
  · simp [verdict_inOrder_nil, Except.map]

theorem verdict_inOrder_append (parts others : List Step) (pending : KindSet) (p : Nat) :
    (inOrder pending (parts ++ others) p).verdict =
      match (inOrder pending parts p).verdict with
      | .error e => .error e
      | .ok (parsed, q) => (inOrder parsed.trailing others q).verdict.map
          fun (later, r) => ({ later with captures := parsed.captures ++ later.captures }, r) := by
  induction parts generalizing pending p with
  | nil =>
    rw [List.nil_append, verdict_inOrder_nil]
    dsimp only
    rcases (inOrder pending others p).verdict with e | ⟨later, r⟩ <;> rfl
  | cons part parts ih =>
    rw [List.cons_append, verdict_inOrder, verdict_inOrder]
    rcases (part p).verdict with e | ⟨parsed, q⟩
    · rfl
    · dsimp only
      rw [ih]
      rcases (inOrder _ parts q).verdict with e | ⟨later, r⟩
      · rfl
      · simp only [Except.map]
        rcases (inOrder later.trailing others r).verdict with e | ⟨last, r'⟩
        · rfl
        · simp only [List.append_assoc]

@[simp] theorem verdict_finished (traits : Traits) (body : Step) :
    (finished stream traits body p).verdict =
      match (body p).verdict with
      | .error e => .error e
      | .ok (parsed, q) =>
        match parsed.reduceBy traits.reduction (stream.spanOf p q) with
        | .error e => .error e
        | .ok reduced => .ok (reduced.captureAs traits.tag, q) := by
  unfold finished
  cases h : (body p).result with
  | error e => simp only [h, Outcome.verdict_eq_error.2 h]
  | ok parsed =>
    simp only [h, Outcome.verdict_of_result_ok h]
    cases parsed.reduceBy traits.reduction (stream.spanOf p (body p).position) <;> rfl

@[simp] theorem verdict_guarded (depth : Nat) (label : String) (firstSet : KindSet) (acceptsEmpty : Bool)
    (step : Step) : (guarded stream depth label firstSet acceptsEmpty step p).verdict =
      if startsAt stream firstSet p then (step p).verdict
      else if acceptsEmpty then .ok ({ trailing := firstSet }, p)
      else .error (.unexpected firstSet (stream.get p) p) := by
  unfold guarded
  split
  · rfl
  · split <;> rfl

/-! ## Loops -/

/-- What the rounds of a loop that starts at `start` come to: their captures, what could have made the last one
longer, and where it stopped. -/
def tally (start : Nat) (rounds : List Outcome) : Except ParseError (List Capture × KindSet × Nat) :=
  (captured rounds).map fun captures => (captures, trailing rounds, stop start rounds)

@[simp] theorem stop_cons (start : Nat) (round : Outcome) (rounds : List Outcome) :
    stop start (round :: rounds) = stop round.position rounds := by
  simp only [stop, List.getLast?_cons]
  cases rounds.getLast? <;> rfl

@[simp] theorem tally_nil (start : Nat) : tally start [] = .ok ([], [], start) := rfl

@[simp] theorem tally_cons (start : Nat) (round : Outcome) (rounds : List Outcome) :
    tally start (round :: rounds) =
      match round.verdict with
      | .error e => .error e
      | .ok (parsed, q) =>
        (tally q rounds).map fun (captures, rest, r) =>
          (parsed.captures ++ captures, if rounds.isEmpty then parsed.trailing else rest, r) := by
  unfold tally
  cases h : round.result with
  | error e => simp only [captured, h, Outcome.verdict_eq_error.2 h]; rfl
  | ok parsed =>
    have ht : trailing (round :: rounds) = if rounds.isEmpty then parsed.trailing else trailing rounds := by
      obtain ⟨result, position, events⟩ := round
      cases h
      cases rounds with
      | nil => rfl
      | cons other others => simp [trailing, List.getLast?_cons_cons]
    simp only [captured, h, Outcome.verdict_of_result_ok h, stop_cons, ht]
    cases captured rounds <;> rfl

/-- A loop, round by round. -/
theorem tally_roundsWithin (wanted : Nat → Bool) (step : Step) (bound : Nat) :
    tally p (roundsWithin wanted step (bound + 1) p) =
      if wanted p then
        match (step p).verdict with
        | .error e => .error e
        | .ok (parsed, q) =>
          let later := if p < q then roundsWithin wanted step bound q else []
          (tally q later).map fun (captures, rest, r) =>
            (parsed.captures ++ captures, if later.isEmpty then parsed.trailing else rest, r)
      else .ok ([], [], p) := by
  rw [roundsWithin]
  split
  · dsimp only
    rw [tally_cons]
    cases h : (step p).result with
    | error e => rw [Outcome.verdict_eq_error.2 h]
    | ok parsed => rw [Outcome.verdict_of_result_ok h]; simp [Except.isOk, Except.toBool]
  · rfl

@[simp] theorem verdict_repeating (firstSet : KindSet) (step : Step) :
    (repeating stream firstSet step p).verdict =
      (tally p (rounds stream (startsAt stream firstSet) step p)).map fun (captures, trailing, q) =>
        ({ captures := captures, trailing := KindSet.union trailing firstSet }, q) := by
  unfold repeating tally Outcome.verdict
  dsimp only
  cases captured (rounds stream (startsAt stream firstSet) step p) <;> rfl

@[simp] theorem verdict_items (firstSet : KindSet) (closer : TokenKind) (item : Step) :
    (items stream firstSet closer item p).verdict =
      match tally p (rounds stream (itemAt stream firstSet closer) item p) with
      | .error e => .error e
      | .ok (captures, _, q) =>
        (close stream firstSet closer q).map fun _ => ({ captures := captures }, stream.next q) := by
  unfold items tally
  dsimp only
  cases captured (rounds stream (itemAt stream firstSet closer) item p) with
  | error e => rfl
  | ok captures =>
    simp only [Except.map]
    cases close stream firstSet closer (stop p (rounds stream (itemAt stream firstSet closer) item p)) <;> rfl

/-! ## Choices -/

@[simp] theorem verdict_inTurn (index : Nat) (best : Option ParseError) (alternative : Step)
    (alternatives : List Step) : (inTurn stream index best (alternative :: alternatives) p).verdict =
      match (alternative p).verdict with
      | .ok value => .ok value
      | .error e =>
        (inTurn stream (index + 1) (some ((best.map (further · e)).getD e)) alternatives p).verdict := by
  rw [inTurn]
  cases h : (alternative p).result with
  | error e => simp only [Outcome.verdict_eq_error.2 h]; rfl
  | ok parsed => simp only [Outcome.verdict_of_result_ok h]

/-- What holds of all alternatives, and of the best error before them, holds of what several come to. -/
theorem inTurn_holds {P : Verdict → Prop} {alternatives : List Step}
    (h : ∀ alternative ∈ alternatives, P (alternative p).verdict) :
    ∀ index best, (∀ e, best = some e → P (.error e)) →
      (best = none → alternatives = [] → P (.error (.unexpected [] (stream.get p) p))) →
      P (inTurn stream index best alternatives p).verdict := by
  induction alternatives with
  | nil =>
    intro index best hb hn
    cases best with
    | none => exact hn rfl rfl
    | some e => exact hb e rfl
  | cons alternative alternatives ih =>
    intro index best hb _
    have ha := h alternative List.mem_cons_self
    rw [verdict_inTurn]
    rcases hv : (alternative p).verdict with e | value <;> rw [hv] at ha
    · refine ih (fun other ho => h other (List.mem_cons_of_mem _ ho)) _ _ ?_ (by simp)
      rintro _ ⟨⟩
      cases best with
      | none => exact ha
      | some b =>
        simp only [Option.map_some, Option.getD_some, further]
        split
        · exact ha
        · exact hb b rfl
    · exact ha

/-- A candidate that is run as it is comes to the same as one that is tried. -/
@[simp] theorem verdict_choice (policy : Alternation) (branches : List Branch) :
    (choice stream policy branches p).verdict =
      (inTurn stream 0 none ((candidates policy (stream.get p).kind branches).map (·.step)) p).verdict := by
  unfold choice
  split
  · rename_i only h
    rw [h, List.map_singleton, verdict_inTurn]
    cases hr : (only.step p).result with
    | error e => rw [Outcome.verdict_eq_error.2 hr]; rfl
    | ok parsed => rw [Outcome.verdict_of_result_ok hr]
  · rfl

/-! ## Steps of equal verdict -/

/-- The two steps have the same verdict everywhere. -/
def Alike (a b : Step) : Prop := ∀ position, (a position).verdict = (b position).verdict

theorem Alike.inOrder {α : Type} {f g : α → Step} {l : List α} (h : ∀ x ∈ l, Alike (f x) (g x)) :
    ∀ pending : KindSet, Alike (inOrder pending (l.map f)) (inOrder pending (l.map g)) := by
  induction l with
  | nil => exact fun _ _ => rfl
  | cons x l ih =>
    intro pending position
    rw [List.map_cons, List.map_cons, verdict_inOrder, verdict_inOrder, h x List.mem_cons_self]
    split
    · rfl
    · rw [ih fun y hy => h y (List.mem_cons_of_mem _ hy)]

theorem Alike.roundsWithin {wanted : Nat → Bool} {a b : Step}
    (h : ∀ position, wanted position = true → (a position).verdict = (b position).verdict) (bound : Nat) :
    ∀ position, (roundsWithin wanted a bound position).map Outcome.verdict =
      (roundsWithin wanted b bound position).map Outcome.verdict := by
  induction bound with
  | zero => exact fun _ => rfl
  | succ bound ih =>
    intro position
    simp only [Step.roundsWithin]
    split
    · rename_i hw
      have hv := h position hw
      cases ha : (a position).result with
      | error e =>
        have hb := Outcome.verdict_eq_error.1 (hv ▸ Outcome.verdict_eq_error.2 ha)
        simp [hv, hb, Except.isOk, Except.toBool]
      | ok parsed =>
        obtain ⟨hb, hq⟩ := Outcome.verdict_eq_ok.1 (hv ▸ Outcome.verdict_of_result_ok ha)
        simp only [hb, hq, Except.isOk, Except.toBool, Bool.true_and, List.map_cons, hv, List.cons.injEq, true_and]
        split
        · exact ih _
        · rfl
    · rfl

theorem tally_congr {rounds others : List Outcome} (h : rounds.map Outcome.verdict = others.map Outcome.verdict) :
    ∀ start, tally start rounds = tally start others := by
  induction rounds generalizing others with
  | nil =>
    intro start
    rw [List.map_nil, eq_comm, List.map_eq_nil_iff] at h
    rw [h]
  | cons round rounds ih =>
    intro start
    cases others with
    | nil => simp at h
    | cons other others =>
      obtain ⟨hv, ht⟩ := List.cons.inj h
      have he : rounds.isEmpty = others.isEmpty := by
        simpa using congrArg List.isEmpty ht
      rw [tally_cons, tally_cons, hv, he]
      split
      · rfl
      · rw [ih ht]

theorem Alike.items {firstSet : KindSet} {closer : TokenKind} {a b : Step} (h : Alike a b) :
    Alike (items stream firstSet closer a) (items stream firstSet closer b) := by
  intro position
  rw [verdict_items, verdict_items, rounds, tally_congr (roundsWithin (fun q _ => h q) _ position), rounds]

theorem Alike.inTurn {α : Type} {f g : α → Step} {l : List α} (h : ∀ x ∈ l, Alike (f x) (g x)) :
    ∀ index best, Alike (inTurn stream index best (l.map f)) (inTurn stream index best (l.map g)) := by
  induction l with
  | nil => exact fun _ _ _ => rfl
  | cons x l ih =>
    intro index best position
    rw [List.map_cons, List.map_cons, verdict_inTurn, verdict_inTurn, h x List.mem_cons_self]
    split
    · rfl
    · rw [ih fun y hy => h y (List.mem_cons_of_mem _ hy)]

end Step

/-- The body of a parser may be replaced by a step that has the same verdict wherever the parser can start. -/
theorem Step.Alike.enclosed {stream : TokenStream} {depth : Nat} {parser : Parser} {a b : Step}
    (h : ∀ position, startsAt stream parser.firstSet position = true → (a position).verdict = (b position).verdict) :
    Step.Alike (enclosed stream depth parser a) (enclosed stream depth parser b) := by
  have once : ∀ position, startsAt stream parser.firstSet position = true →
      (finished stream parser.traits a position).verdict = (finished stream parser.traits b position).verdict := by
    intro position hs
    rw [verdict_finished, verdict_finished, h position hs]
  intro position
  unfold Parser.enclosed
  rw [verdict_guarded, verdict_guarded]
  split
  · rename_i hs
    split
    · rw [verdict_repeating, verdict_repeating, rounds, tally_congr (roundsWithin once _ position), rounds]
    · exact once position hs
  · rfl

end FuncIR.Parser
