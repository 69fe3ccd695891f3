import FuncIR.Proofs.Parser.Progress

/-!
# The two ways to choose

`FirstSet` tries the alternatives that can start at the current token, `Exhaustive` tries all. For a `Decided`
parser, whose alternatives neither can be absent nor begin at the end of input, this makes no difference as long as
no reduction refuses what they match (`policies_alike`): the alternatives that cannot start fail at the current token,
those that can get past it, so neither the first success nor the best error changes.
-/

namespace FuncIR.Parser

/-- No alternative of a choice in the parser can be absent, and none can start at the end of input. -/
structure Decided (parser : Parser) : Prop where
  present : ∀ choice ∈ parser.subparsers, ∀ alternative ∈ choice.alternatives, alternative.acceptsEmpty = false
  not_eof : ∀ choice ∈ parser.subparsers, ∀ alternative ∈ choice.alternatives, .eof ∉ alternative.firstSet

/-- Where the parser can start, by first sets it gets past the current token, and no reduction in it refuses. -/
def GetsPast (stream : TokenStream) (parser : Parser) : Prop :=
  ∀ depth p, Step.startsAt stream parser.firstSet p = true →
    (run stream .firstSet depth parser p).verdict.From .none (p + 1)

/-- Each alternative of a choice in the parser gets past the token that it starts with. -/
def AlternativesGetPast (stream : TokenStream) (parser : Parser) : Prop :=
  parser.Throughout fun choice => ∀ alternative ∈ choice.alternatives, alternative.GetsPast stream

/-! ## One choice -/

section Choice
variable {stream : TokenStream} {depth p : Nat}

/-- The best error so far when all alternatives are tried, and when only those that can start are: the alternatives
that cannot start contribute errors at `p` only, and any other error is worth more. -/
def SameBest (p : Nat) (full short : Option ParseError) : Prop :=
  (short = none ∧ ∀ e, full = some e → e.consumed = p) ∨ ∃ e, short = some e ∧ full = some e ∧ p < e.consumed

theorem SameBest.further_idle {full short : Option ParseError} {e : ParseError} (h : SameBest p full short)
    (he : e.consumed = p) : SameBest p (some ((full.map (Step.further · e)).getD e)) short := by
  rcases h with ⟨rfl, ha⟩ | ⟨b, rfl, rfl, hb⟩
  · refine .inl ⟨rfl, ?_⟩
    rintro _ ⟨⟩
    cases full with
    | none => exact he
    | some b => simp [Step.further, he, ha b rfl]
  · refine .inr ⟨b, rfl, ?_, hb⟩
    simp [Step.further, he, Nat.not_lt.2 (Nat.le_of_lt hb)]

theorem SameBest.further_past {full short : Option ParseError} {e : ParseError} (h : SameBest p full short)
    (he : p < e.consumed) :
    SameBest p (some ((full.map (Step.further · e)).getD e)) (some ((short.map (Step.further · e)).getD e)) := by
  rcases h with ⟨rfl, ha⟩ | ⟨b, rfl, rfl, hb⟩
  · refine .inr ⟨e, rfl, ?_, he⟩
    cases full with
    | none => rfl
    | some b => simp [Step.further, ha b rfl, he]
  · refine .inr ⟨Step.further b e, rfl, rfl, ?_⟩
    unfold Step.further
    split
    · exact he
    · exact hb

/-- An error of a run that got past the current token counts more than any error there. -/
theorem Verdict.From.lt_consumed {e : ParseError} (h : Verdict.From .none (p + 1) (.error e)) : p < e.consumed :=
  h.resolve_left id

/-- The alternatives that cannot start at the current token do not count, as long as those that can get past it. -/
theorem inTurn_startsWith {policy : Alternation} {alternatives : List Parser}
    (present : ∀ alternative ∈ alternatives, alternative.acceptsEmpty = false)
    (past : ∀ alternative ∈ alternatives, Step.startsAt stream alternative.firstSet p = true →
      (run stream policy depth alternative p).verdict.From .none (p + 1)) :
    ∀ i j full short, SameBest p full short →
      (short = none → ∃ alternative ∈ alternatives, alternative.startsWith (stream.get p).kind = true) →
      (Step.inTurn stream i full (alternatives.map (run stream policy depth)) p).verdict =
        (Step.inTurn stream j short
          ((alternatives.filter (·.startsWith (stream.get p).kind)).map (run stream policy depth)) p).verdict := by
  induction alternatives with
  | nil =>
    intro i j full short hs ha
    rcases hs with ⟨rfl, -⟩ | ⟨e, rfl, rfl, -⟩
    · obtain ⟨_, h, _⟩ := ha rfl
      cases h
    · rfl
  | cons alternative alternatives ih =>
    have ih := ih (fun other ho => present other (List.mem_cons_of_mem _ ho))
      fun other ho => past other (List.mem_cons_of_mem _ ho)
    intro i j full short hs ha
    rw [List.map_cons, Step.verdict_inTurn]
    cases hk : alternative.startsWith (stream.get p).kind with
    | true =>
      rw [List.filter_cons, if_pos hk, List.map_cons, Step.verdict_inTurn]
      have past := past alternative List.mem_cons_self hk
      rcases hv : (run stream policy depth alternative p).verdict with e | value
      · -- An error behind the current token is the best so far under both.
        rw [hv] at past
        exact ih _ _ _ _ (hs.further_past past.lt_consumed) (by simp)
      · rfl
    | false =>
      rw [List.filter_cons, if_neg (by simp [hk]), verdict_run_of_not_startsAt hk,
        present alternative List.mem_cons_self]
      -- Whichever alternative can start, it is among the others.
      refine ih _ _ _ _ (hs.further_idle rfl) fun hn => ?_
      obtain ⟨other, ho, hk'⟩ := ha hn
      rcases List.mem_cons.1 ho with rfl | ho
      · rw [hk] at hk'
        cases hk'
      · exact ⟨other, ho, hk'⟩

theorem choice_policies {alternatives : List Parser} (hk : (stream.get p).kind ∈ firstSetOfChoice alternatives)
    (present : ∀ alternative ∈ alternatives, alternative.acceptsEmpty = false)
    (past : ∀ alternative ∈ alternatives, GetsPast stream alternative) :
    (Step.choice stream .firstSet (branchesOf stream .firstSet depth alternatives) p).verdict =
      (Step.choice stream .exhaustive (branchesOf stream .firstSet depth alternatives) p).verdict := by
  obtain ⟨starter, hs, hk⟩ := mem_firstSetOfChoice.1 hk
  rw [Step.verdict_choice, Step.verdict_choice, candidates_firstSet, candidates_exhaustive]
  have past := fun alternative ha => past alternative ha depth p
  refine (inTurn_startsWith present past _ _ _ _ (.inl ⟨rfl, by simp⟩) fun _ => ?_).symm
  exact ⟨starter, hs, startsAt_iff.2 hk⟩

end Choice

/-! ## Whole parsers -/

/-- An alternative whose reductions succeed gets past the token that it starts with, since it cannot start at the end
of input. -/
theorem Decided.alternativesGetPast {stream : TokenStream} {parser : Parser} (hd : parser.Decided)
    (hr : parser.ReductionsSucceed) : parser.AlternativesGetPast stream := by
  intro choice hc alternative ha depth p hs
  have hn : (stream.get p).isEof = false := by
    have : (stream.get p).kind ≠ .eof := fun he => hd.not_eof choice hc alternative ha (he ▸ startsAt_iff.1 hs)
    simpa [Token.isEof] using this
  exact run_past hn ((hr.refusesWith .none).alternative hc ha) depth hs

/-- Both policies give a decided parser the same verdict, wherever it is run. -/
theorem policies_alike {stream : TokenStream} (parser : Parser) (hd : parser.Decided)
    (past : parser.AlternativesGetPast stream) :
    ∀ depth, Step.Alike (run stream .firstSet depth parser) (run stream .exhaustive depth parser) := by
  induction parser with
  | token kind traits => exact fun _ _ => rfl
  | sequence parts traits ih =>
    intro depth
    rw [run_sequence, run_sequence]
    refine Step.Alike.enclosed fun p _ => Step.Alike.inOrder (fun part hp => ih part hp ?_ (past.sequence hp) _) [] p
    exact ⟨Throughout.sequence hd.present hp, Throughout.sequence hd.not_eof hp⟩
  | choice alternatives traits ih =>
    intro depth
    have self := self_mem_subparsers (.choice alternatives traits)
    have alike : ∀ alternative ∈ alternatives, Step.Alike (run stream .firstSet (depth + 1) alternative)
        (run stream .exhaustive (depth + 1) alternative) := by
      intro alternative ha
      refine ih alternative ha ?_ (past.choice ha) _
      exact ⟨Throughout.choice hd.present ha, Throughout.choice hd.not_eof ha⟩
    rw [run_choice, run_choice]
    refine Step.Alike.enclosed fun p hs => ?_
    -- The policy of this choice is changed first, then that of the choices in its alternatives.
    rw [choice_policies (startsAt_iff.1 hs) (hd.present _ self) past.self]
    rw [Step.verdict_choice, Step.verdict_choice, candidates_exhaustive, candidates_exhaustive]
    exact Step.Alike.inTurn alike 0 none p
  | items item closer traits ih =>
    intro depth
    rw [run_items, run_items]
    refine Step.Alike.enclosed fun p _ => Step.Alike.items (ih ?_ past.items _) p
    exact ⟨Throughout.items hd.present, Throughout.items hd.not_eof⟩

end FuncIR.Parser
