import FuncIR.Proofs.Parser.Loop
import FuncIR.Proofs.Parser.Progress

/-!
# Runs in lockstep

Two runs, on streams that have the same tokens before `n`. They are in `Lockstep` if, as long as the second does not
get past `n`, both stop at the same place, and the first lists no kind of which the second has a token at `n`. Steps
that are so one by one are so in a sequence, in a loop and among items. A run that a reduction refuses is in lockstep
with any other.
-/

namespace FuncIR

/-- The kinds that an error lists. -/
def ParseError.expected : ParseError → KindSet
  | unexpectedToken error => error.expected
  | construction _ => []

@[simp] theorem ParseError.expected_unexpected (expected : KindSet) (found : Token) (n : Nat) :
    (unexpected expected found n).expected = expected := rfl

/-- No kinds are listed but the old ones and those that are added. -/
theorem ParseError.mem_expected_widen {e : ParseError} {kinds : KindSet} {kind : TokenKind}
    (h : kind ∈ (e.widen kinds).expected) : kind ∈ e.expected ∨ kind ∈ kinds := by
  cases e with
  | unexpectedToken error => exact KindSet.mem_union.1 h
  | construction error => cases h

end FuncIR

namespace FuncIR.Parser

/-- The run on the first stream stops no later than `n`, so does that on the second, and nothing that it lists at `n`
is of the kind that the second stream has there, unless a reduction refused. -/
def Abreast (refusals : Refusals) (n : Nat) (kind : TokenKind) : Verdict → Verdict → Prop
  | .ok (parsed, q), w => q ≤ n → (∃ other, w = .ok (other, q)) ∧ (q = n → kind ∉ parsed.trailing)
  | .error e, _ => refusals.Holds e ∨ (e.consumed = n → kind ∉ e.expected)

/-- The second run gets past `n`, or the two are abreast. -/
def Lockstep (refusals : Refusals) (n : Nat) (kind : TokenKind) (v w : Verdict) : Prop :=
  w.From refusals (n + 1) ∨ Abreast refusals n kind v w

section Lockstep
variable {refusals : Refusals} {n : Nat} {kind : TokenKind} {v w : Verdict}

/-- Of a first run that gets past `n` nothing is asked. -/
theorem Lockstep.of_from (h : v.From refusals (n + 1)) : Lockstep refusals n kind v w := by
  refine .inr ?_
  rcases v with e | ⟨parsed, q⟩
  · refine h.imp_right fun hs hn => ?_
    omega
  · intro hq
    have : n + 1 ≤ q := h
    omega

/-- Both stop before `n`. -/
theorem lockstep_before {parsed other : Parsed} {q : Nat} (h : q < n) :
    Lockstep refusals n kind (.ok (parsed, q)) (.ok (other, q)) :=
  .inr fun _ => ⟨⟨other, rfl⟩, fun hq => absurd hq (Nat.ne_of_lt h)⟩

theorem lockstep_error_before {expected : KindSet} {found : Token} {m : Nat} (h : m < n) :
    Lockstep refusals n kind (.error (.unexpected expected found m)) w :=
  .inr (.inr fun hm => absurd hm (Nat.ne_of_lt h))

/-- What follows on runs in lockstep keeps them so if it only goes forward and is in lockstep wherever both stopped. -/
theorem Lockstep.bind (h : Lockstep refusals n kind v w) {f g : Parsed × Nat → Verdict}
    (hf : ∀ value, (f value).From refusals value.2) (hg : ∀ value, (g value).From refusals value.2)
    (hfg : ∀ parsed other q, w = .ok (other, q) → q ≤ n → (q = n → kind ∉ parsed.trailing) →
      Lockstep refusals n kind (f (parsed, q)) (g (other, q))) :
    Lockstep refusals n kind (v.bind f) (w.bind g) := by
  rcases h with past | abreast
  · refine .inl ?_
    rcases w with e | value
    · exact past
    · exact (hg value).mono past
  · rcases v with e | ⟨parsed, q⟩
    · exact .inr abreast
    · by_cases hq : q ≤ n
      · obtain ⟨⟨other, rfl⟩, hk⟩ := abreast hq
        exact hfg parsed other q rfl hq hk
      · exact .of_from ((hf (parsed, q)).mono (Nat.lt_of_not_le hq))

theorem Lockstep.map (h : Lockstep refusals n kind v w) {f g : Parsed × Nat → Parsed × Nat}
    (hf : ∀ value, (f value).2 = value.2) (hg : ∀ value, (g value).2 = value.2)
    (ht : ∀ parsed other, w = .ok (other, n) → kind ∉ parsed.trailing → kind ∉ (f (parsed, n)).1.trailing) :
    Lockstep refusals n kind (v.map f) (w.map g) := by
  rcases h with past | abreast
  · exact .inl (past.andThen (Nat.le_refl _) hg)
  · rcases v with e | ⟨parsed, q⟩
    · exact .inr abreast
    · refine .inr fun hq => ?_
      rw [hf (parsed, q)] at hq ⊢
      obtain ⟨⟨other, rfl⟩, hk⟩ := abreast hq
      refine ⟨⟨(g (other, q)).1, ?_⟩, fun hn => ?_⟩
      · rw [Except.map, ← hg (other, q)]
      · subst hn
        exact ht parsed other rfl (hk rfl)

/-- Kinds that are added where a run failed keep the runs in lockstep, unless they are of the kind at `n`. -/
theorem Lockstep.widen (h : Lockstep refusals n kind v w) {p : Nat} {pending other : KindSet}
    (hp : p = n → kind ∉ pending) :
    Lockstep refusals n kind (v.mapError fun e => if e.consumed = p then e.widen pending else e)
      (w.mapError fun e => if e.consumed = p then e.widen other else e) := by
  rcases h with past | abreast
  · refine .inl ?_
    rcases w with e | value
    · exact past.widen _ _
    · exact past
  · rcases v with e | ⟨parsed, q⟩
    · unfold Except.mapError
      dsimp only
      by_cases hm : e.consumed = p
      · rw [if_pos hm]
        refine .inr (abreast.imp (fun refused => refusals.widen refused pending) fun unlisted hn hk => ?_)
        rw [ParseError.consumed_widen] at hn
        rcases ParseError.mem_expected_widen hk with hk | hk
        · exact unlisted hn hk
        · exact hp (hm.symm.trans hn) hk
      · rw [if_neg hm]
        exact .inr abreast
    · refine .inr fun hq => ?_
      obtain ⟨⟨other, rfl⟩, hk⟩ := abreast hq
      exact ⟨⟨other, rfl⟩, hk⟩

end Lockstep

/-! ## Steps in lockstep -/

namespace Step
variable {refusals : Refusals} {s t : TokenStream} {n p : Nat} {kind : TokenKind}

theorem Placing.forward {step : Step} (h : Placing refusals s step) : Forward refusals step := by
  intro p
  have placed := h p
  cases hr : (step p).result with
  | ok parsed =>
    rw [Outcome.verdict_of_result_ok hr]
    exact placed.start_le
  | error e =>
    rw [Outcome.verdict_eq_error.2 hr]
    refine (placed.blames e hr).imp_right ?_
    rintro ⟨expected, m, hm, -, rfl⟩
    exact Nat.le_trans placed.start_le hm

theorem verdict_inOrder_bind (pending : KindSet) (part : Step) (parts : List Step) :
    (inOrder pending (part :: parts) p).verdict =
      ((part p).verdict.mapError fun e => if e.consumed = p then e.widen pending else e).bind fun value =>
        (inOrder (KindSet.union (if p < value.2 then [] else pending) value.1.trailing) parts value.2).verdict.map
          fun others => ({ others.1 with captures := value.1.captures ++ others.1.captures }, others.2) := by
  rw [verdict_inOrder]
  rcases (part p).verdict with e | value <;> rfl

/-- The parts of a sequence one after the other. At `n` itself, nothing pending may be of the kind there. -/
theorem lockstep_inOrder {α : Type} {a b : α → Step} {parts : List α} (ha : ∀ part ∈ parts, Forward refusals (a part))
    (hb : ∀ part ∈ parts, Forward refusals (b part))
    (h : ∀ part ∈ parts, ∀ p ≤ n, Lockstep refusals n kind (a part p).verdict (b part p).verdict) :
    ∀ pending other : KindSet, ∀ p ≤ n, (p = n → kind ∉ pending) →
      Lockstep refusals n kind (inOrder pending (parts.map a) p).verdict (inOrder other (parts.map b) p).verdict := by
  induction parts with
  | nil => exact fun pending other p _ hk => .inr fun _ => ⟨⟨_, rfl⟩, hk⟩
  | cons part parts ih =>
    intro pending other p hp hk
    have restA : ∀ step ∈ parts.map a, Forward refusals step :=
      List.forall_mem_map.2 fun later hl => ha later (List.mem_cons_of_mem _ hl)
    have restB : ∀ step ∈ parts.map b, Forward refusals step :=
      List.forall_mem_map.2 fun later hl => hb later (List.mem_cons_of_mem _ hl)
    have ih := ih (List.forall_mem_map.1 restA) (List.forall_mem_map.1 restB)
      fun later hl => h later (List.mem_cons_of_mem _ hl)
    rw [List.map_cons, List.map_cons, verdict_inOrder_bind, verdict_inOrder_bind]
    refine ((h part List.mem_cons_self p hp).widen hk).bind ?_ ?_ fun parsed found q _ hq ht => ?_
    · exact fun value => (forward_inOrder restA _ value.2).andThen (Nat.le_refl _) fun _ => rfl
    · exact fun value => (forward_inOrder restB _ value.2).andThen (Nat.le_refl _) fun _ => rfl
    · refine (ih _ _ q hq fun hn hm => ?_).map (fun _ => rfl) (fun _ => rfl) fun _ _ _ hm => hm
      -- What was pending is so only as long as nothing is consumed.
      rcases KindSet.mem_union.1 hm with hm | hm
      · split at hm
        · cases hm
        · exact hk (by omega) hm
      · exact ht hn hm

theorem reduceBy_trailing {parsed reduced : Parsed} {reduction : Option Reduction} {span : Span}
    (h : parsed.reduceBy reduction span = .ok reduced) : reduced.trailing = parsed.trailing := by
  cases reduction with
  | none =>
    cases h
    rfl
  | some reduction =>
    rw [Parsed.reduceBy] at h
    cases hr : reduction span parsed.captures with
    | error c =>
      rw [hr] at h
      cases h
    | ok node =>
      rw [hr] at h
      cases h
      rfl

theorem captureAs_trailing (parsed : Parsed) (tag : Option String) :
    (parsed.captureAs tag).trailing = parsed.trailing := by
  unfold Parsed.captureAs
  split <;> rfl

/-- What a parser that started at `start` makes of the value of its body. -/
def valued (stream : TokenStream) (traits : Traits) (start : Nat) (value : Parsed × Nat) : Verdict :=
  match value.1.reduceBy traits.reduction (stream.spanOf start value.2) with
  | .error e => .error e
  | .ok reduced => .ok (reduced.captureAs traits.tag, value.2)

theorem verdict_finished_bind (traits : Traits) (body : Step) :
    (finished s traits body p).verdict = (body p).verdict.bind (valued s traits p) := by
  rw [verdict_finished]
  rcases (body p).verdict with e | value <;> rfl

theorem valued_from {traits : Traits} (hr : traits.RefusesWith refusals) (start : Nat) (value : Parsed × Nat) :
    (valued s traits start value).From refusals value.2 := by
  unfold valued
  split
  · rename_i refused hd
    exact .inl (hr.reduceBy hd)
  · exact Nat.le_refl _

theorem lockstep_finished {traits : Traits} {a b : Step} (hr : traits.RefusesWith refusals)
    (h : Lockstep refusals n kind (a p).verdict (b p).verdict) :
    Lockstep refusals n kind (finished s traits a p).verdict (finished t traits b p).verdict := by
  rw [verdict_finished_bind, verdict_finished_bind]
  refine h.bind (valued_from hr p) (valued_from hr p) fun parsed other q _ hq ht => ?_
  unfold valued
  split
  · rename_i refused hd
    exact .inr (.inl (hr.reduceBy hd))
  · rename_i reduced hd
    split
    · rename_i refused hd
      exact .inl (.inl (hr.reduceBy hd))
    · refine .inr fun _ => ⟨⟨_, rfl⟩, fun hn => ?_⟩
      rw [captureAs_trailing, reduceBy_trailing hd]
      exact ht hn

/-! ## Loops in lockstep -/

theorem afterRound_from {step : Step} (h : Placing refusals t step) (wanted : Nat → Bool) (round : Parsed × Nat) :
    (afterRound t wanted step p round).From refusals round.2 := by
  unfold afterRound
  split
  · exact ((placing_loop h).forward round.2).andThen (Nat.le_refl _) fun _ => rfl
  · exact Nat.le_refl _

/-- A loop gets as far as its first round does. -/
theorem loop_from {step : Step} (h : Placing refusals t step) {wanted : Nat → Bool} {start : Nat} (hw : wanted p = true)
    (hp : (step p).verdict.From refusals start) : (loop t wanted step p).verdict.From refusals start := by
  rw [verdict_loop h.bounded, if_pos hw]
  rcases hv : (step p).verdict with e | ⟨parsed, q⟩ <;> rw [hv] at hp
  · exact hp
  · exact (afterRound_from h wanted (parsed, q)).mono hp

/-- A loop that stops at `n` wants no round there, if such a round would get past `n`. -/
theorem loop_done {step : Step} (h : Placing refusals t step) {wanted : Nat → Bool}
    (past : wanted n = true → (step n).verdict.From refusals (n + 1)) {other : Parsed} (hp : p ≤ n)
    (hl : (loop t wanted step p).verdict = .ok (other, n)) : wanted n = false := by
  induction hd : n - p using Nat.strongRecOn generalizing p other with
  | ind d ih =>
    rcases Nat.lt_or_eq_of_le hp with hlt | rfl
    · rw [verdict_loop h.bounded] at hl
      split at hl
      · rcases hv : (step p).verdict with e | ⟨first, q⟩ <;> rw [hv] at hl
        · cases hl
        · dsimp only [Except.bind, afterRound] at hl
          split at hl
          · -- The later rounds stop at `n` as well.
            rename_i hw
            rw [Bool.and_eq_true, decide_eq_true_eq] at hw
            have later : (loop t wanted step q).verdict.From refusals q := (placing_loop h).forward q
            rcases hr : (loop t wanted step q).verdict with e | ⟨last, r⟩ <;> rw [hr] at hl later <;> cases hl
            have hqr : q ≤ r := later
            exact ih (r - q) (by omega) hqr hr rfl
          · rename_i hw
            cases hl
            simpa [hlt] using hw
      · cases hl
        exact absurd hlt (Nat.lt_irrefl _)
    · cases hw : wanted p with
      | false => rfl
      | true =>
        have := loop_from h hw (past hw)
        rw [hl] at this
        exact absurd this (Nat.not_succ_le_self p)

/-! Two loops that want their rounds at the same places before `n`, over steps that are in lockstep there. A round at
`n` leads past it in either of them. -/

section Loops
variable {a b : Step} (ha : Placing refusals s a) (hb : Placing refusals t b)
  {v w : Nat → Bool} (hvw : ∀ p < n, v p = w p)
  (hv : v n = true → (a n).verdict.From refusals (n + 1)) (hw : w n = true → (b n).verdict.From refusals (n + 1))
include ha hb hvw hv hw

theorem lockstep_afterRound {parsed other : Parsed} {q : Nat} (hp : p < n) (hq : q ≤ n)
    (hk : q = n → kind ∉ parsed.trailing)
    (later : p < q → Lockstep refusals n kind (loop s v a q).verdict (loop t w b q).verdict) :
    Lockstep refusals n kind (afterRound s v a p (parsed, q)) (afterRound t w b p (other, q)) := by
  unfold afterRound
  by_cases hpq : p < q
  · -- The loops can only disagree on another round at `n` itself.
    have hn (hne : v q ≠ w q) : q = n := (Nat.lt_or_eq_of_le hq).resolve_left fun hlt => hne (hvw q hlt)
    cases hvq : v q <;> cases hwq : w q <;> simp only [hpq, decide_true, Bool.and_true, Bool.and_false, if_true]
    case false.false => exact .inr fun _ => ⟨⟨_, rfl⟩, hk⟩
    case true.true => exact (later hpq).map (fun _ => rfl) (fun _ => rfl) fun _ _ _ hm => hm
    case false.true =>
      obtain rfl := hn (by simp [hvq, hwq])
      exact .inl ((loop_from hb hwq (hw hwq)).andThen (Nat.le_refl _) fun _ => rfl)
    case true.false =>
      obtain rfl := hn (by simp [hvq, hwq])
      exact .of_from ((loop_from ha hvq (hv hvq)).andThen (Nat.le_refl _) fun _ => rfl)
  · simp only [hpq, decide_false, Bool.false_and]
    exact lockstep_before (by omega)

theorem lockstep_loop (hab : ∀ p < n, Lockstep refusals n kind (a p).verdict (b p).verdict) (hp : p ≤ n) :
    Lockstep refusals n kind (loop s v a p).verdict (loop t w b p).verdict := by
  induction hd : n - p using Nat.strongRecOn generalizing p with
  | ind d ih =>
    rcases Nat.lt_or_eq_of_le hp with hlt | rfl
    · rw [verdict_loop ha.bounded, verdict_loop hb.bounded, ← hvw p hlt]
      split
      · refine (hab p hlt).bind (afterRound_from ha v) (afterRound_from hb w) fun parsed other q _ hq hk => ?_
        exact lockstep_afterRound ha hb hvw hv hw hlt hq hk fun hpq => ih (n - q) (by omega) hq rfl
      · exact lockstep_before hlt
    · cases hwp : w p with
      | true => exact .inl (loop_from hb hwp (hw hwp))
      | false =>
        cases hvp : v p with
        | true => exact .of_from (loop_from ha hvp (hv hvp))
        | false =>
          rw [verdict_loop ha.bounded, verdict_loop hb.bounded, hwp, hvp]
          exact .inr fun _ => ⟨⟨_, rfl⟩, fun _ hk => by cases hk⟩

end Loops

theorem verdict_repeating_loop (firstSet : KindSet) (step : Step) :
    (repeating s firstSet step p).verdict = (loop s (startsAt s firstSet) step p).verdict.map fun value =>
      ({ captures := value.1.captures, trailing := KindSet.union value.1.trailing firstSet }, value.2) := by
  rw [verdict_repeating, verdict_loop_tally]
  cases tally p (rounds s (startsAt s firstSet) step p) <;> rfl

/-- What items that end somewhere come to: the closing token is taken there. -/
def closed (stream : TokenStream) (firstSet : KindSet) (closer : TokenKind) (value : Parsed × Nat) : Verdict :=
  (close stream firstSet closer value.2).map fun _ => ({ captures := value.1.captures }, stream.next value.2)

theorem verdict_items_loop (firstSet : KindSet) (closer : TokenKind) (item : Step) :
    (items s firstSet closer item p).verdict =
      (loop s (itemAt s firstSet closer) item p).verdict.bind (closed s firstSet closer) := by
  rw [verdict_items, verdict_loop_tally]
  cases tally p (rounds s (itemAt s firstSet closer) item p) <;> rfl

theorem closed_from (firstSet : KindSet) (closer : TokenKind) (value : Parsed × Nat) :
    (closed s firstSet closer value).From refusals value.2 := by
  unfold closed close
  dsimp only
  split
  · exact s.le_next value.2
  · split <;> exact .inr (Nat.le_refl value.2)

section Streams
variable {firstSet : KindSet} {a b : Step} (same : ∀ p < n, s.get p = t.get p)
  (ha : Placing refusals s a) (hb : Placing refusals t b)
include same

theorem startsAt_congr (firstSet : KindSet) (hp : p < n) : startsAt s firstSet p = startsAt t firstSet p := by
  rw [startsAt, startsAt, same p hp]

theorem next_congr (hp : p < n) : s.next p = t.next p := by
  rw [TokenStream.next, TokenStream.next, same p hp]

include ha hb

/-- What a repetition could have gone on with was not there where it ended. -/
theorem lockstep_repeating
    (hab : ∀ p < n, Lockstep refusals n (t.get n).kind (a p).verdict (b p).verdict)
    (hv : startsAt s firstSet n = true → (a n).verdict.From refusals (n + 1))
    (hw : startsAt t firstSet n = true → (b n).verdict.From refusals (n + 1)) (hp : p ≤ n) :
    Lockstep refusals n (t.get n).kind (repeating s firstSet a p).verdict (repeating t firstSet b p).verdict := by
  have loops := lockstep_loop ha hb (fun p hp => startsAt_congr same firstSet hp) hv hw hab hp
  rw [verdict_repeating_loop, verdict_repeating_loop]
  refine loops.map (fun _ => rfl) (fun _ => rfl) fun parsed other ho ht hm => ?_
  rcases KindSet.mem_union.1 hm with hm | hm
  · exact ht hm
  · have done := loop_done hb hw hp ho
    rw [startsAt_iff.2 hm] at done
    cases done

/-- Where the items end stands neither the start of another one nor, unless it is taken, the closing token. -/
theorem lockstep_items {closer : TokenKind}
    (hab : ∀ p < n, Lockstep refusals n (t.get n).kind (a p).verdict (b p).verdict)
    (hv : itemAt s firstSet closer n = true → (a n).verdict.From refusals (n + 1))
    (hw : itemAt t firstSet closer n = true → (b n).verdict.From refusals (n + 1))
    (hs : (s.get n).kind = closer → (s.get n).isEof = false)
    (ht : (t.get n).kind ∈ closer :: firstSet → (t.get n).isEof = false) (hp : p ≤ n) :
    Lockstep refusals n (t.get n).kind (items s firstSet closer a p).verdict (items t firstSet closer b p).verdict := by
  have loops := lockstep_loop ha hb (v := itemAt s firstSet closer) (w := itemAt t firstSet closer)
    (fun p hp => by rw [itemAt, itemAt, same p hp]) hv hw hab hp
  rw [verdict_items_loop, verdict_items_loop]
  refine loops.bind (closed_from firstSet closer) (closed_from firstSet closer) fun parsed other q ho hq _ => ?_
  unfold closed
  rcases Nat.lt_or_eq_of_le hq with hlt | rfl
  · rw [close, close, same q hlt, next_congr same hlt]
    split
    · exact .inr fun _ => ⟨⟨_, rfl⟩, fun _ hm => by cases hm⟩
    · split <;> exact lockstep_error_before hlt
  · by_cases hct : (t.get q).kind = closer
    · refine .inl ?_
      rw [close, if_pos hct, TokenStream.next, ht (hct ▸ List.mem_cons_self)]
      exact Nat.le_refl _
    by_cases hcs : (s.get q).kind = closer
    · refine .of_from ?_
      rw [close, if_pos hcs, TokenStream.next, hs hcs]
      exact Nat.le_refl _
    rw [close, if_neg hcs]
    split
    · exact .inr (.inr fun _ hm => hct (List.mem_singleton.1 hm))
    · refine .inr (.inr fun _ hm => ?_)
      rcases KindSet.mem_union.1 hm with hm | hm
      · exact hct (List.mem_singleton.1 hm)
      · have done := loop_done hb hw hp ho
        simp [itemAt, hct, ht (List.mem_cons_of_mem _ hm), hm] at done

end Streams

end Step
end FuncIR.Parser
