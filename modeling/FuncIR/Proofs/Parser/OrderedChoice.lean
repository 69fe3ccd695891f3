import FuncIR.Proofs.Parser.Progress

/-!
# Ordered choice

A choice comes to what its alternatives come to if each is run alone at the same place (`choice_ordered`): to the first
success among those that are tried, and if all fail, to the error that got `Furthest`. What the alternatives before it
left behind does not matter, since each starts from the same position, and neither does the depth of a run
(`run_depth`).
-/

namespace FuncIR.Parser

/-- The alternatives that a policy tries on a token of this kind, in order. -/
def contenders (policy : Alternation) (kind : TokenKind) (alternatives : List Parser) : List Parser :=
  match policy with
  | .firstSet => alternatives.filter (·.startsWith kind)
  | .exhaustive => alternatives

section Contenders
variable {stream : TokenStream} {policy : Alternation} {depth : Nat} {kind : TokenKind} {alternatives : List Parser}

theorem candidates_eq (tried : Alternation) :
    (Step.candidates tried kind (branchesOf stream policy depth alternatives)).map (·.step) =
      (contenders tried kind alternatives).map (run stream policy depth) := by
  cases tried with
  | firstSet => exact candidates_firstSet stream policy depth kind alternatives
  | exhaustive => exact candidates_exhaustive stream policy depth kind alternatives

/-- What a choice of parsers does with those that are tried. -/
theorem choice_eq (p : Nat) : Step.choice stream policy (branchesOf stream policy depth alternatives) p =
    match contenders policy (stream.get p).kind alternatives with
    | [only] => run stream policy depth only p
    | several => Step.inTurn stream 0 none (several.map (run stream policy depth)) p := by
  have tried : Step.candidates policy (stream.get p).kind (branchesOf stream policy depth alternatives) =
      (contenders policy (stream.get p).kind alternatives).map
        fun parser => ⟨parser.firstSet, run stream policy depth parser⟩ := by
    cases policy with
    | firstSet => exact List.filter_map
    | exhaustive => rfl
  rw [Step.choice, tried]
  rcases contenders policy (stream.get p).kind alternatives with _ | ⟨first, _ | ⟨second, others⟩⟩
  · rfl
  · rfl
  · simp only [List.map_cons, List.map_map]
    rfl

theorem mem_of_mem_contenders {alternative : Parser} (h : alternative ∈ contenders policy kind alternatives) :
    alternative ∈ alternatives := by
  cases policy with
  | firstSet => exact (List.mem_filter.1 h).1
  | exhaustive => exact h

theorem contenders_ne_nil (h : kind ∈ firstSetOfChoice alternatives) : contenders policy kind alternatives ≠ [] := by
  obtain ⟨alternative, ha, hk⟩ := mem_firstSetOfChoice.1 h
  refine List.ne_nil_of_mem (a := alternative) ?_
  cases policy with
  | firstSet => exact List.mem_filter.2 ⟨ha, by simpa [startsWith] using hk⟩
  | exhaustive => exact ha

end Contenders

/-! ## Depth -/

section Depth
variable {stream : TokenStream} {policy : Alternation}

theorem enclosed_depth (parser : Parser) (body : Step) (depth other : Nat) :
    Step.Alike (enclosed stream depth parser body) (enclosed stream other parser body) := by
  intro p
  unfold enclosed
  rw [Step.verdict_guarded, Step.verdict_guarded]

/-- The depth of a run shows in its trace only. -/
theorem run_depth (parser : Parser) :
    ∀ depth other, Step.Alike (run stream policy depth parser) (run stream policy other parser) := by
  induction parser with
  | token kind traits => exact fun depth other => enclosed_depth _ _ depth other
  | sequence parts traits ih =>
    intro depth other p
    rw [run_sequence, run_sequence, enclosed_depth _ _ depth other]
    refine Step.Alike.enclosed (fun p _ => ?_) p
    exact Step.Alike.inOrder (fun part hp => ih part hp _ _) [] p
  | choice alternatives traits ih =>
    intro depth other p
    rw [run_choice, run_choice, enclosed_depth _ _ depth other]
    refine Step.Alike.enclosed (fun p _ => ?_) p
    rw [Step.verdict_choice, Step.verdict_choice, candidates_eq, candidates_eq]
    exact Step.Alike.inTurn (fun alternative ha => ih alternative (mem_of_mem_contenders ha) _ _) 0 none p
  | items item closer traits ih =>
    intro depth other p
    rw [run_items, run_items, enclosed_depth _ _ depth other]
    exact Step.Alike.enclosed (fun p _ => Step.Alike.items (ih _ _) p) p

end Depth

/-! ## The first success and the furthest error -/

section Results
variable {o : Outcome}

theorem Outcome.isOk_iff : o.result.isOk = true ↔ ∃ parsed, o.result = .ok parsed := by
  cases o.result <;> simp [Except.isOk, Except.toBool]

theorem Outcome.isOk_eq_false_iff : o.result.isOk = false ↔ ∃ e, o.result = .error e := by
  cases o.result <;> simp [Except.isOk, Except.toBool]

theorem Outcome.isOk_verdict : o.verdict.isOk = o.result.isOk := by
  unfold verdict
  cases o.result <;> rfl

end Results

/-- Among what is tried in order, the error is the one that got furthest, and the first of several such. -/
def Furthest {α : Type} (outcome : α → Outcome) (tried : List α) (error : ParseError) : Prop :=
  ∃ before best after, tried = before ++ best :: after ∧ (outcome best).result = .error error ∧
    (∀ other ∈ before, ∀ e, (outcome other).result = .error e → e.consumed < error.consumed) ∧
    ∀ other ∈ after, ∀ e, (outcome other).result = .error e → e.consumed ≤ error.consumed

section Furthest
variable {α : Type} {outcome : α → Outcome} {x : α} {tried : List α} {error : ParseError}

theorem Furthest.cons (h : Furthest outcome tried error)
    (hx : ∀ e, (outcome x).result = .error e → e.consumed < error.consumed) : Furthest outcome (x :: tried) error := by
  obtain ⟨before, best, after, rfl, hr, hb, ha⟩ := h
  exact ⟨x :: before, best, after, rfl, hr, List.forall_mem_cons.2 ⟨hx, hb⟩, ha⟩

theorem Furthest.head (hx : (outcome x).result = .error error)
    (h : ∀ other ∈ tried, ∀ e, (outcome other).result = .error e → e.consumed ≤ error.consumed) :
    Furthest outcome (x :: tried) error :=
  ⟨[], x, tried, rfl, hx, fun _ hm => (List.not_mem_nil hm).elim, h⟩

end Furthest

namespace Step
variable {stream : TokenStream} {p : Nat} {α : Type} {step : α → Step}

/-- Alternatives that fail do not matter to the first that succeeds. -/
theorem inTurn_success {tried : List α} {winner : α}
    (hw : tried.find? (fun x => (step x p).result.isOk) = some winner) :
    ∀ index best, (inTurn stream index best (tried.map step) p).verdict = (step winner p).verdict := by
  induction tried with
  | nil => cases hw
  | cons x tried ih =>
    intro index best
    rw [List.find?_cons] at hw
    rw [List.map_cons, verdict_inTurn]
    cases hx : (step x p).result.isOk with
    | true =>
      obtain ⟨parsed, hr⟩ := Outcome.isOk_iff.1 hx
      rw [hx] at hw
      cases hw
      rw [Outcome.verdict_of_result_ok hr]
    | false =>
      obtain ⟨e, he⟩ := Outcome.isOk_eq_false_iff.1 hx
      rw [hx] at hw
      rw [Outcome.verdict_eq_error.2 he]
      exact ih hw _ _

/-- Where alternatives are tried with success, there is a first that succeeds. -/
theorem inTurn_winner {tried : List α} {value : Parsed × Nat} {index : Nat} {best : Option ParseError}
    (h : (inTurn stream index best (tried.map step) p).verdict = .ok value) :
    ∃ winner, tried.find? (fun x => (step x p).result.isOk) = some winner ∧ (step winner p).verdict = .ok value := by
  cases hw : tried.find? fun x => (step x p).result.isOk with
  | some winner => exact ⟨winner, rfl, by rwa [inTurn_success hw] at h⟩
  | none =>
    refine absurd h (inTurn_holds (P := (· ≠ .ok value)) (List.forall_mem_map.2 fun x hx => ?_) index best (by simp)
      (by simp))
    obtain ⟨e, he⟩ := Outcome.isOk_eq_false_iff.1 (Bool.eq_false_iff.2 (List.find?_eq_none.1 hw x hx))
    simp [Outcome.verdict_eq_error.2 he]

variable (stream) in
/-- If all alternatives fail, the best error before them is reported unless one of them got further. -/
theorem inTurn_failure {tried : List α} (fail : ∀ x ∈ tried, ∃ e, (step x p).result = .error e) :
    ∀ index best, ∃ error, (inTurn stream index (some best) (tried.map step) p).verdict = .error error ∧
      ((error = best ∧ ∀ x ∈ tried, ∀ e, (step x p).result = .error e → e.consumed ≤ best.consumed) ∨
        (best.consumed < error.consumed ∧ Furthest (step · p) tried error)) := by
  induction tried with
  | nil => exact fun index best => ⟨best, rfl, .inl ⟨rfl, fun _ hm => by cases hm⟩⟩
  | cons x tried ih =>
    intro index best
    obtain ⟨first, hx⟩ := fail x List.mem_cons_self
    have only : ∀ e, (step x p).result = .error e → e = first :=
      fun e he => Except.error.inj (he.symm.trans hx)
    have ih := ih fun y hy => fail y (List.mem_cons_of_mem _ hy)
    rw [List.map_cons, verdict_inTurn, Outcome.verdict_eq_error.2 hx]
    simp only [Option.map_some, Option.getD_some, further]
    by_cases hf : best.consumed < first.consumed
    · obtain ⟨error, hv, kept | ⟨beyond, rest⟩⟩ := ih (index + 1) first
      · obtain ⟨rfl, rest⟩ := kept
        exact ⟨error, by rwa [if_pos hf], .inr ⟨hf, .head hx rest⟩⟩
      · refine ⟨error, by rwa [if_pos hf], .inr ⟨Nat.lt_trans hf beyond, rest.cons fun e he => ?_⟩⟩
        rwa [only e he]
    · obtain ⟨error, hv, kept | ⟨beyond, rest⟩⟩ := ih (index + 1) best
      · refine ⟨error, by rwa [if_neg hf], .inl ⟨kept.1, List.forall_mem_cons.2 ⟨fun e he => ?_, kept.2⟩⟩⟩
        rw [only e he]
        exact Nat.le_of_not_lt hf
      · refine ⟨error, by rwa [if_neg hf], .inr ⟨beyond, rest.cons fun e he => ?_⟩⟩
        rw [only e he]
        exact Nat.lt_of_le_of_lt (Nat.le_of_not_lt hf) beyond

variable (stream) in
theorem inTurn_furthest {tried : List α} (fail : ∀ x ∈ tried, ∃ e, (step x p).result = .error e) (hn : tried ≠ []) :
    ∃ error, (inTurn stream 0 none (tried.map step) p).verdict = .error error ∧ Furthest (step · p) tried error := by
  cases tried with
  | nil => exact absurd rfl hn
  | cons x tried =>
    obtain ⟨first, hx⟩ := fail x List.mem_cons_self
    have rest := inTurn_failure stream (fun y hy => fail y (List.mem_cons_of_mem _ hy)) 1 first
    rw [List.map_cons, verdict_inTurn, Outcome.verdict_eq_error.2 hx]
    obtain ⟨error, hv, kept | ⟨beyond, later⟩⟩ := rest
    · obtain ⟨rfl, kept⟩ := kept
      exact ⟨error, hv, .head hx kept⟩
    · refine ⟨error, hv, later.cons fun e he => ?_⟩
      rwa [Except.error.inj (he.symm.trans hx)]

/-- Alternatives that all fail leave the position as it was. -/
theorem inTurn_position {tried : List Step} (fail : ∀ alternative ∈ tried, ∃ e, (alternative p).result = .error e) :
    ∀ index best, (inTurn stream index best tried p).position = p := by
  induction tried with
  | nil => exact fun _ _ => rfl
  | cons alternative tried ih =>
    intro index best
    obtain ⟨e, he⟩ := fail alternative List.mem_cons_self
    rw [inTurn, he]
    exact ih (fun other ho => fail other (List.mem_cons_of_mem _ ho)) _ _

/-- Without a reduction and a tag, nothing is done with the value of the body. -/
theorem finished_plain {traits : Traits} (hd : traits.reduction = none) (ht : traits.tag = none) (body : Step) :
    finished stream traits body p = body p := by
  unfold finished
  rw [hd, ht]
  rcases hb : body p with ⟨e | parsed, q, events⟩ <;> rfl

end Step

/-! ## Choices -/

section Choices
variable {stream : TokenStream} {policy : Alternation} {depth p : Nat} {alternatives : List Parser} {traits : Traits}

variable (policy depth) in
/-- A choice that neither repeats nor does anything with the value is run as it is where it can start. -/
theorem run_choice_plain (hr : traits.repeated = false) (hd : traits.reduction = none) (ht : traits.tag = none)
    (hs : (stream.get p).kind ∈ (Parser.choice alternatives traits).firstSet) :
    let chosen := Step.choice stream policy (branchesOf stream policy (depth + 1) alternatives) p
    (run stream policy depth (.choice alternatives traits) p).result = chosen.result ∧
      (run stream policy depth (.choice alternatives traits) p).position = chosen.position := by
  rw [run_choice]
  unfold enclosed Step.guarded
  rw [startsAt_iff.2 hs]
  simp [Parser.traits, hr, Step.finished_plain hd ht]

theorem choice_position
    (fail : ∀ alternative ∈ contenders policy (stream.get p).kind alternatives,
      ∃ e, (run stream policy depth alternative p).result = .error e)
    (several : 2 ≤ (contenders policy (stream.get p).kind alternatives).length) :
    (Step.choice stream policy (branchesOf stream policy depth alternatives) p).position = p := by
  rw [choice_eq]
  split
  · rename_i only ho
    simp [ho] at several
  · exact Step.inTurn_position (List.forall_mem_map.2 fail) 0 none

end Choices

/-- A choice without a repetition, a reduction or a tag of its own, where it can start. If alternatives that are tried
succeed alone, it does what the first of them does. If all of them fail, it reports the error that got furthest, and of
several such the first, and if there are two or more it stays where it is. -/
theorem choice_ordered (alternatives : List Parser) (traits : Traits) (hr : traits.repeated = false)
    (hd : traits.reduction = none) (ht : traits.tag = none) (tokens : List Token) (policy : Alternation) (start : Nat)
    (hs : ((TokenStream.ofList tokens).get start).kind ∈ (Parser.choice alternatives traits).firstSet) :
    let alone (alternative : Parser) := alternative.parseAt (.ofList tokens) policy start
    let tried := contenders policy ((TokenStream.ofList tokens).get start).kind alternatives
    let outcome := (Parser.choice alternatives traits).parseAt (.ofList tokens) policy start
    match tried.find? fun alternative => (alone alternative).result.isOk with
    | some winner => outcome.result = (alone winner).result ∧ outcome.position = (alone winner).position
    | none => (∃ error, outcome.result = .error error ∧ Furthest alone tried error) ∧
        (2 ≤ tried.length → outcome.position = start) := by
  intro alone tried outcome
  obtain ⟨result, position⟩ := run_choice_plain policy 0 hr hd ht hs
  have nested : ∀ alternative : Parser,
      Step.Alike (run (.ofList tokens) policy 1 alternative) (run (.ofList tokens) policy 0 alternative) :=
    fun alternative => run_depth alternative 1 0
  have inTurn : outcome.verdict =
      (Step.inTurn (.ofList tokens) 0 none (tried.map (run (.ofList tokens) policy 0)) start).verdict := by
    have chosen : outcome.verdict =
        (Step.choice (.ofList tokens) policy (branchesOf (.ofList tokens) policy 1 alternatives) start).verdict := by
      unfold Outcome.verdict
      rw [← result, ← position]
      rfl
    rw [chosen, Step.verdict_choice, candidates_eq]
    exact Step.Alike.inTurn (fun alternative _ => nested alternative) 0 none start
  split
  · rename_i winner hw
    have succeeds : (alone winner).result.isOk = true := by simpa using List.find?_some hw
    obtain ⟨parsed, hp⟩ := Outcome.isOk_iff.1 succeeds
    have won : outcome.verdict = (alone winner).verdict := inTurn.trans (Step.inTurn_success hw 0 none)
    rw [Outcome.verdict_of_result_ok hp] at won
    rw [hp]
    exact Outcome.verdict_eq_ok.1 won
  · rename_i none
    have fail : ∀ alternative ∈ tried, ∃ e, (alone alternative).result = .error e := fun alternative ha =>
      Outcome.isOk_eq_false_iff.1 (Bool.eq_false_iff.2 (List.find?_eq_none.1 none alternative ha))
    refine ⟨?_, fun several => ?_⟩
    · have hk : ((TokenStream.ofList tokens).get start).kind ∈ firstSetOfChoice alternatives := by
        simpa only [firstSet] using hs
      obtain ⟨error, hv, furthest⟩ := Step.inTurn_furthest (.ofList tokens) fail (contenders_ne_nil hk)
      exact ⟨error, Outcome.verdict_eq_error.1 (inTurn.trans hv), furthest⟩
    · refine position.trans (choice_position (fun alternative ha => ?_) several)
      obtain ⟨e, he⟩ := fail alternative ha
      exact ⟨e, Outcome.verdict_eq_error.1 ((nested alternative start).trans (Outcome.verdict_eq_error.2 he))⟩

/-- A number with a comma, or compared to a number or to a word. -/
def comparisons : List Parser :=
  [inOrder [expect .number, expect .comma], inOrder [expect .number, expect .lessThan, expect .number],
    inOrder [expect .number, expect .lessThan, expect .identifier]]

/-- The second and the third get past the sign, so the second is blamed. -/
theorem choice_ordered_comparisons :
    let alone (alternative : Parser) := alternative.parseAt
      (.ofList [⟨.number, "1", ⟨0, 1⟩⟩, ⟨.lessThan, "<", ⟨1, 2⟩⟩, ⟨.equals, "=", ⟨2, 3⟩⟩]) .firstSet 0
    (alone (anyOf comparisons)).result = .error (.unexpected [.number] ⟨.equals, "=", ⟨2, 3⟩⟩ 2) ∧
      Furthest alone comparisons (.unexpected [.number] ⟨.equals, "=", ⟨2, 3⟩⟩ 2) ∧
      (alone (anyOf comparisons)).position = 0 := by
  intro alone
  have failed : (alone (anyOf comparisons)).result = .error (.unexpected [.number] ⟨.equals, "=", ⟨2, 3⟩⟩ 2) := rfl
  obtain ⟨⟨error, he, furthest⟩, stays⟩ := choice_ordered comparisons { label := "one_of" } rfl rfl rfl
    [⟨.number, "1", ⟨0, 1⟩⟩, ⟨.lessThan, "<", ⟨1, 2⟩⟩, ⟨.equals, "=", ⟨2, 3⟩⟩] .firstSet 0 (by decide)
  obtain rfl := Except.error.inj (he.symm.trans failed)
  exact ⟨failed, furthest, stays (by decide)⟩

end FuncIR.Parser
