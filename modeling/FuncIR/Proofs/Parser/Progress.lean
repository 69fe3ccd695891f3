import FuncIR.Proofs.Parser.Refusals
import FuncIR.Proofs.Parser.Verdict

/-!
# Progress

A run blames no token before the one where it started and stops no earlier (`run_from`). If its first set has the
current token and each choice in it `Commits` to an alternative that can start there, it gets past that token: it stops
behind it or blames a later one (`run_past_of_commits`). Choices that go by first sets do (`run_past`). So an
alternative that could start always gets further than one that could not. None of this binds a reduction that refuses.
-/

namespace FuncIR.Parser

/-- The run stopped at `start` or later, or blames a token there, unless a reduction refused. -/
def Verdict.From (refusals : Refusals) (start : Nat) : Verdict → Prop
  | .ok (_, q) => start ≤ q
  | .error e => refusals.Holds e ∨ start ≤ e.consumed

section From
variable {refusals : Refusals} {v : Verdict} {s t q : Nat} {e : ParseError}

theorem Verdict.From.mono (h : v.From refusals s) (hst : t ≤ s) : v.From refusals t := by
  rcases v with e | ⟨parsed, q⟩
  · exact h.imp_right fun hs => Nat.le_trans hst hs
  · exact Nat.le_trans hst h

theorem Verdict.From.widen (h : Verdict.From refusals s (.error e)) (c : Prop) [Decidable c] (kinds : KindSet) :
    Verdict.From refusals s (.error (if c then e.widen kinds else e)) := by
  split
  · exact h.imp (fun refused => refusals.widen refused kinds) fun hs => by simpa using hs
  · exact h

/-- What comes after a run that stopped at `s` or later, whatever is done with its value. -/
theorem Verdict.From.andThen {f : Parsed × Nat → Parsed × Nat} (h : v.From refusals q) (hs : s ≤ q)
    (hf : ∀ value, (f value).2 = value.2) : Verdict.From refusals s (v.map f) := by
  cases v with
  | error e => exact h.mono hs
  | ok value =>
    have hq : q ≤ value.2 := h
    exact Nat.le_trans hs (hf value ▸ hq)

end From

namespace Step
variable {refusals : Refusals} {stream : TokenStream}

/-- The step starts from wherever it is run. -/
def Forward (refusals : Refusals) (step : Step) : Prop := ∀ p, (step p).verdict.From refusals p

/-! ## Steps only go forward -/

theorem forward_token (kind : TokenKind) : Forward refusals (token stream kind) := by
  intro p
  rw [verdict_token]
  split
  · exact stream.le_next p
  · exact .inr (Nat.le_refl p)

theorem forward_inOrder {parts : List Step} (h : ∀ part ∈ parts, Forward refusals part) :
    ∀ pending, Forward refusals (inOrder pending parts) := by
  induction parts with
  | nil => exact fun _ p => Nat.le_refl p
  | cons part parts ih =>
    intro pending p
    have hp := h part List.mem_cons_self p
    rw [verdict_inOrder]
    rcases hv : (part p).verdict with e | ⟨parsed, q⟩ <;> rw [hv] at hp
    · exact hp.widen _ _
    · exact (ih (fun other ho => h other (List.mem_cons_of_mem _ ho)) _ q).andThen hp fun _ => rfl

theorem finished_from {traits : Traits} {body : Step} {p s : Nat} (hr : traits.RefusesWith refusals)
    (h : (body p).verdict.From refusals s) : (finished stream traits body p).verdict.From refusals s := by
  rw [verdict_finished]
  rcases hv : (body p).verdict with e | ⟨parsed, q⟩ <;> rw [hv] at h
  · exact h
  · dsimp only
    split
    · rename_i refused hd
      exact .inl (hr.reduceBy hd)
    · exact h

theorem forward_guarded {depth : Nat} {label : String} {firstSet : KindSet} {acceptsEmpty : Bool} {step : Step}
    (h : Forward refusals step) : Forward refusals (guarded stream depth label firstSet acceptsEmpty step) := by
  intro p
  rw [verdict_guarded]
  split
  · exact h p
  · split
    · exact Nat.le_refl p
    · exact .inr (Nat.le_refl p)

/-- The end of a loop as a verdict. -/
def loopEnd (start : Nat) (rounds : List Outcome) : Verdict :=
  (tally start rounds).map fun (_, _, q) => ({}, q)

/-- A loop is as far as its first round is; the later ones only go forward. -/
theorem loopEnd_succ {wanted : Nat → Bool} {step : Step} {bound p s : Nat} (hp : (step p).verdict.From refusals s)
    (later : ∀ q, (loopEnd q (roundsWithin wanted step bound q)).From refusals q) (hw : wanted p = true) :
    (loopEnd p (roundsWithin wanted step (bound + 1) p)).From refusals s := by
  rw [loopEnd, tally_roundsWithin, if_pos hw]
  rcases hv : (step p).verdict with e | ⟨parsed, q⟩ <;> rw [hv] at hp
  · exact hp
  · dsimp only
    split
    · have hq := later q
      rw [loopEnd] at hq
      rcases ht : tally q (roundsWithin wanted step bound q) with e | ⟨captures, rest, r⟩ <;> rw [ht] at hq
      · exact hq.mono hp
      · exact Nat.le_trans hp hq
    · exact hp

theorem loopEnd_from {wanted : Nat → Bool} {step : Step} (h : Forward refusals step) (bound : Nat) :
    ∀ p, (loopEnd p (roundsWithin wanted step bound p)).From refusals p := by
  induction bound with
  | zero => exact fun p => Nat.le_refl p
  | succ bound ih =>
    intro p
    cases hw : wanted p with
    | true => exact loopEnd_succ (h p) ih hw
    | false =>
      rw [loopEnd, tally_roundsWithin, if_neg (by simp [hw])]
      exact Nat.le_refl p

theorem repeating_from {firstSet : KindSet} {step : Step} {p s : Nat}
    (h : (loopEnd p (rounds stream (startsAt stream firstSet) step p)).From refusals s) :
    (repeating stream firstSet step p).verdict.From refusals s := by
  rw [loopEnd] at h
  rw [verdict_repeating]
  rcases ht : tally p (rounds stream (startsAt stream firstSet) step p) with e | ⟨captures, trailing, q⟩ <;>
    rw [ht] at h <;> exact h

/-- The closing token is wanted where the items end. -/
theorem items_from {firstSet : KindSet} {closer : TokenKind} {item : Step} {p s : Nat}
    (h : (loopEnd p (rounds stream (itemAt stream firstSet closer) item p)).From refusals s) :
    (items stream firstSet closer item p).verdict.From refusals s := by
  rw [loopEnd] at h
  rw [verdict_items]
  rcases ht : tally p (rounds stream (itemAt stream firstSet closer) item p) with e | ⟨captures, trailing, q⟩ <;>
    rw [ht] at h
  · exact h
  · simp only [close]
    split
    · exact Nat.le_trans h (stream.le_next q)
    · split <;> exact .inr h

end Step

/-! ## Parsers -/

section
variable {refusals : Refusals} {stream : TokenStream} {depth : Nat} {parser : Parser} {body : Step}
  (hr : parser.traits.RefusesWith refusals)
include hr

theorem forward_enclosed (h : Step.Forward refusals body) :
    Step.Forward refusals (enclosed stream depth parser body) := by
  have once : Step.Forward refusals (Step.finished stream parser.traits body) := fun p => Step.finished_from hr (h p)
  apply Step.forward_guarded
  split
  · exact fun p => Step.repeating_from (Step.loopEnd_from once _ p)
  · exact once

/-- The run of a parser goes as far as its body does where it starts. -/
theorem enclosed_from {p s : Nat} (h : Step.Forward refusals body)
    (hs : Step.startsAt stream parser.firstSet p = true)
    (hb : (body p).verdict.From refusals s) : (enclosed stream depth parser body p).verdict.From refusals s := by
  have once : Step.Forward refusals (Step.finished stream parser.traits body) := fun p => Step.finished_from hr (h p)
  unfold enclosed
  rw [Step.verdict_guarded, if_pos hs]
  split
  · exact Step.repeating_from (Step.loopEnd_succ (Step.finished_from hr hb) (Step.loopEnd_from once _) hs)
  · exact Step.finished_from hr hb

end

section Candidates
variable (stream : TokenStream) (policy : Alternation) (depth : Nat) (kind : TokenKind) (alternatives : List Parser)

/-- By first sets, only the alternatives that can start are tried. -/
theorem candidates_firstSet :
    (Step.candidates .firstSet kind (branchesOf stream policy depth alternatives)).map (·.step) =
      (alternatives.filter (·.startsWith kind)).map (run stream policy depth) := by
  rw [Step.candidates, branchesOf, List.filter_map, List.map_map]
  rfl

theorem candidates_exhaustive :
    (Step.candidates .exhaustive kind (branchesOf stream policy depth alternatives)).map (·.step) =
      alternatives.map (run stream policy depth) := by
  rw [Step.candidates, branchesOf, List.map_map]
  rfl

variable {stream policy depth kind alternatives}

/-- Whatever is tried is one of the alternatives. -/
theorem exists_of_mem_candidates {tried : Alternation} {step : Step}
    (h : step ∈ (Step.candidates tried kind (branchesOf stream policy depth alternatives)).map (·.step)) :
    ∃ alternative ∈ alternatives, run stream policy depth alternative = step := by
  cases tried with
  | firstSet =>
    rw [candidates_firstSet] at h
    obtain ⟨alternative, ha, hr⟩ := List.mem_map.1 h
    exact ⟨alternative, (List.mem_filter.1 ha).1, hr⟩
  | exhaustive =>
    rw [candidates_exhaustive] at h
    exact List.mem_map.1 h

end Candidates

theorem forward_choice {refusals : Refusals} {stream : TokenStream} {policy : Alternation} {depth : Nat}
    {alternatives : List Parser}
    (h : ∀ alternative ∈ alternatives, Step.Forward refusals (run stream policy depth alternative)) :
    Step.Forward refusals (Step.choice stream policy (branchesOf stream policy depth alternatives)) := by
  intro p
  rw [Step.verdict_choice]
  refine Step.inTurn_holds (fun step hs => ?_) _ _ (by simp) fun _ _ => .inr (Nat.le_refl p)
  obtain ⟨alternative, ha, rfl⟩ := exists_of_mem_candidates hs
  exact h alternative ha p

section
variable {refusals : Refusals} (stream : TokenStream) (policy : Alternation) {parser : Parser}

theorem body_from (hr : parser.RefusesWith refusals) :
    ∀ depth, Step.Forward refusals (body stream policy depth parser) := by
  induction parser with
  | token kind traits => exact fun _ => Step.forward_token kind
  | sequence parts traits ih =>
    intro depth
    rw [body_sequence]
    refine Step.forward_inOrder (fun step hs => ?_) []
    obtain ⟨part, hp, rfl⟩ := List.mem_map.1 hs
    exact forward_enclosed (hr.sequence hp).self (ih part hp (hr.sequence hp) _)
  | choice alternatives traits ih =>
    intro depth
    rw [body_choice]
    refine forward_choice fun alternative ha => ?_
    exact forward_enclosed (hr.choice ha).self (ih alternative ha (hr.choice ha) _)
  | items item closer traits ih =>
    exact fun _ p => Step.items_from (Step.loopEnd_from (forward_enclosed hr.items.self (ih hr.items _)) _ p)

theorem run_from (hr : parser.RefusesWith refusals) (depth : Nat) :
    Step.Forward refusals (run stream policy depth parser) :=
  forward_enclosed hr.self (body_from stream policy hr depth)

end

section Past
variable {refusals : Refusals} {stream : TokenStream} {policy : Alternation} {depth p : Nat}

/-- Where a parser cannot start, it is skipped or fails at once. -/
theorem verdict_run_of_not_startsAt {parser : Parser} (h : Step.startsAt stream parser.firstSet p = false) :
    (run stream policy depth parser p).verdict =
      if parser.acceptsEmpty then .ok ({ trailing := parser.firstSet }, p)
      else .error (.unexpected parser.firstSet (stream.get p) p) := by
  unfold run enclosed
  rw [Step.verdict_guarded, h]
  rfl

/-- Where a parser can start, its body runs, as often as its traits say. -/
theorem verdict_enclosed_of_startsAt {parser : Parser} {body : Step}
    (h : Step.startsAt stream parser.firstSet p = true) :
    (enclosed stream depth parser body p).verdict =
      if parser.traits.repeated then
        (Step.repeating stream parser.firstSet (Step.finished stream parser.traits body) p).verdict
      else (Step.finished stream parser.traits body p).verdict := by
  unfold enclosed
  rw [Step.verdict_guarded, if_pos h]
  split <;> rfl

theorem startsAt_iff {firstSet : KindSet} :
    Step.startsAt stream firstSet p = true ↔ (stream.get p).kind ∈ firstSet := by
  simp [Step.startsAt]

/-- A sequence gets past the current token if the part that starts with it does. -/
theorem inOrder_past (parts : List Parser) (hr : ∀ part ∈ parts, part.RefusesWith refusals)
    (past : ∀ part ∈ parts, Step.startsAt stream part.firstSet p = true →
      (run stream policy depth part p).verdict.From refusals (p + 1))
    (h : (stream.get p).kind ∈ firstSetOfSequence parts) :
    ∀ pending, (Step.inOrder pending (parts.map (run stream policy depth)) p).verdict.From refusals (p + 1) := by
  induction parts with
  | nil => cases h
  | cons part parts ih =>
    intro pending
    rw [List.map_cons, Step.verdict_inOrder]
    cases hf : Step.startsAt stream part.firstSet p with
    | true =>
      have hp := past part List.mem_cons_self hf
      rcases hv : (run stream policy depth part p).verdict with e | ⟨parsed, q⟩ <;> rw [hv] at hp
      · exact hp.widen _ _
      · refine (Step.forward_inOrder (fun step hs => ?_) _ q).andThen hp fun _ => rfl
        obtain ⟨other, ho, rfl⟩ := List.mem_map.1 hs
        exact run_from stream policy (hr other (List.mem_cons_of_mem _ ho)) depth
    | false =>
      -- The current token belongs to a later part, so this one may be absent.
      have hl : part.acceptsEmpty = true ∧ (stream.get p).kind ∈ firstSetOfSequence parts := by
        have hk : (stream.get p).kind ∉ part.firstSet := fun hk => by simp [startsAt_iff.2 hk] at hf
        rw [firstSetOfSequence] at h
        split at h
        · rename_i he
          exact ⟨he, (KindSet.mem_union.1 h).resolve_left hk⟩
        · exact absurd h hk
      rw [verdict_run_of_not_startsAt hf, if_pos hl.1]
      have later := ih (fun other ho => hr other (List.mem_cons_of_mem _ ho))
        (fun other ho => past other (List.mem_cons_of_mem _ ho)) hl.2
      exact (later _).andThen (Nat.le_refl _) fun _ => rfl

theorem mem_firstSetOfChoice {alternatives : List Parser} {kind : TokenKind} :
    kind ∈ firstSetOfChoice alternatives ↔ ∃ alternative ∈ alternatives, kind ∈ alternative.firstSet := by
  induction alternatives with
  | nil => simp [firstSetOfChoice]
  | cons alternative alternatives ih => simp [firstSetOfChoice, KindSet.mem_union, ih]

end Past

/-! ## Past the current token -/

section
variable {refusals : Refusals} {stream : TokenStream} {policy : Alternation} {depth p : Nat} {parser : Parser}

/-- Where the choice can start, it gets past the current token, provided that each of its alternatives that can start
there does. -/
def Commits (refusals : Refusals) (stream : TokenStream) (policy : Alternation) (p : Nat) (choice : Parser) : Prop :=
  ∀ depth, (stream.get p).kind ∈ firstSetOfChoice choice.alternatives →
    (∀ alternative ∈ choice.alternatives, Step.startsAt stream alternative.firstSet p = true →
      (run stream policy depth alternative p).verdict.From refusals (p + 1)) →
    (Step.choice stream policy (branchesOf stream policy depth choice.alternatives) p).verdict.From refusals (p + 1)

/-- Some alternative can start, so those that can do not fail for want of one. -/
theorem inTurn_past {alternatives : List Parser} (hk : (stream.get p).kind ∈ firstSetOfChoice alternatives)
    (past : ∀ alternative ∈ alternatives, Step.startsAt stream alternative.firstSet p = true →
      (run stream policy depth alternative p).verdict.From refusals (p + 1)) :
    (Step.inTurn stream 0 none
      ((alternatives.filter (·.startsWith (stream.get p).kind)).map (run stream policy depth)) p).verdict.From
        refusals (p + 1) := by
  refine Step.inTurn_holds (fun step hm => ?_) _ _ (by simp) fun _ none => ?_
  · obtain ⟨alternative, ha, rfl⟩ := List.mem_map.1 hm
    obtain ⟨ha, hc⟩ := List.mem_filter.1 ha
    exact past alternative ha hc
  · obtain ⟨alternative, ha, hk⟩ := mem_firstSetOfChoice.1 hk
    have hm : alternative ∈ alternatives.filter (·.startsWith (stream.get p).kind) :=
      List.mem_filter.2 ⟨ha, startsAt_iff.2 hk⟩
    rw [List.map_eq_nil_iff.1 none] at hm
    cases hm

theorem commits_firstSet (choice : Parser) : Commits refusals stream .firstSet p choice := by
  intro depth hk past
  rw [Step.verdict_choice, candidates_firstSet]
  exact inTurn_past hk past

/-- Where a parser can start, its body gets past the current token if the choices in it commit there. -/
theorem body_past_of_commits (hn : (stream.get p).isEof = false) (hr : parser.RefusesWith refusals)
    (commits : parser.Throughout (Commits refusals stream policy p)) :
    ∀ depth, Step.startsAt stream parser.firstSet p = true →
      (body stream policy depth parser p).verdict.From refusals (p + 1) := by
  have next : stream.next p = p + 1 := by simp [TokenStream.next, hn]
  induction parser with
  | token kind traits =>
    intro depth hs
    rw [body, Step.verdict_token, if_pos (List.mem_singleton.1 (startsAt_iff.1 hs))]
    exact Nat.le_of_eq next.symm
  | sequence parts traits ih =>
    intro depth hs
    have past : ∀ part ∈ parts, Step.startsAt stream part.firstSet p = true →
        (run stream policy (depth + 1) part p).verdict.From refusals (p + 1) := fun part hp hs =>
      enclosed_from (hr.sequence hp).self (body_from stream _ (hr.sequence hp) _) hs
        (ih part hp (hr.sequence hp) (commits.sequence hp) _ hs)
    rw [body_sequence]
    refine inOrder_past parts (fun part hp => hr.sequence hp) past ?_ []
    simpa only [firstSet] using startsAt_iff.1 hs
  | choice alternatives traits ih =>
    intro depth hs
    have hk := startsAt_iff.1 hs
    rw [firstSet] at hk
    rw [body_choice]
    refine commits.self _ hk fun alternative ha hs => ?_
    exact enclosed_from (hr.choice ha).self (body_from stream _ (hr.choice ha) _) hs
      (ih alternative ha (hr.choice ha) (commits.choice ha) _ hs)
  | items item closer traits ih =>
    intro depth hs
    have hk := startsAt_iff.1 hs
    rw [body]
    by_cases hc : (stream.get p).kind = closer
    · -- The loop stops at once at the closing token, which is taken then.
      have hw : Step.itemAt stream item.firstSet closer p = false := by simp [Step.itemAt, hc]
      rw [Step.verdict_items, Step.rounds, Step.tally_roundsWithin, if_neg (by simp [hw])]
      simp only [Step.close, if_pos hc]
      exact Nat.le_of_eq next.symm
    · rw [firstSet, KindSet.mem_union, List.mem_singleton] at hk
      have hi := startsAt_iff.2 (hk.resolve_left hc)
      have hw : Step.itemAt stream item.firstSet closer p = true := by simp [Step.itemAt, hc, hn, hk.resolve_left hc]
      have inner := body_from stream policy hr.items (depth + 1)
      refine Step.items_from (Step.loopEnd_succ ?_ (Step.loopEnd_from (forward_enclosed hr.items.self inner) _) hw)
      exact enclosed_from hr.items.self inner hi (ih hr.items commits.items _ hi)

theorem run_past_of_commits (hn : (stream.get p).isEof = false) (hr : parser.RefusesWith refusals)
    (commits : parser.Throughout (Commits refusals stream policy p)) (depth : Nat)
    (hs : Step.startsAt stream parser.firstSet p = true) :
    (run stream policy depth parser p).verdict.From refusals (p + 1) :=
  enclosed_from hr.self (body_from stream _ hr depth) hs (body_past_of_commits hn hr commits depth hs)

theorem body_past (hn : (stream.get p).isEof = false) (hr : parser.RefusesWith refusals) (depth : Nat)
    (hs : Step.startsAt stream parser.firstSet p = true) :
    (body stream .firstSet depth parser p).verdict.From refusals (p + 1) :=
  body_past_of_commits hn hr (fun choice _ => commits_firstSet choice) depth hs

/-- Where a parser can start, by first sets it gets past the current token. -/
theorem run_past (hn : (stream.get p).isEof = false) (hr : parser.RefusesWith refusals) (depth : Nat)
    (hs : Step.startsAt stream parser.firstSet p = true) :
    (run stream .firstSet depth parser p).verdict.From refusals (p + 1) :=
  run_past_of_commits hn hr (fun choice _ => commits_firstSet choice) depth hs

end

end FuncIR.Parser
