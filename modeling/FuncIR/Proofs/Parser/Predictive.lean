import FuncIR.Proofs.Parser.Lockstep

/-!
# Predictive parsers

A parser is `Predictive` if the alternatives of each of its choices start with different kinds, so that by first sets
one token decides what is run. What such a parser expects where it fails is honest (`expected_honest`): the token
found is not of these kinds, and a token of any of them in its place takes the parser further. For on two streams with
the same tokens before a position the parser runs in lockstep up to it (`run_lockstep`).
-/

namespace FuncIR.Parser

/-- No two alternatives of a choice in the parser can start with the same kind. -/
def Predictive (parser : Parser) : Prop :=
  parser.Throughout fun choice => choice.alternatives.Pairwise fun a b => ∀ kind ∈ a.firstSet, kind ∉ b.firstSet

instance (parser : Parser) : Decidable parser.Predictive :=
  inferInstanceAs (Decidable (parser.Throughout _))

/-- The kind that a parser takes itself: that of its token, or that which closes its items. -/
def ownKind? : Parser → Option TokenKind
  | .token kind _ => some kind
  | .items _ closer _ => some closer
  | _ => none

/-- No parser in it takes the end of the input. -/
def EofFree (parser : Parser) : Prop := parser.Throughout fun part => part.ownKind? ≠ some .eof

/-- Where a parser in it can start at a position, the input does not end there. -/
def Live (stream : TokenStream) (position : Nat) (parser : Parser) : Prop :=
  parser.Throughout fun part => Step.startsAt stream part.firstSet position = true →
    (stream.get position).isEof = false

/-! ## The end of the input -/

theorem mem_firstSetOfSequence_exists {parts : List Parser} {kind : TokenKind} (h : kind ∈ firstSetOfSequence parts) :
    ∃ part ∈ parts, kind ∈ part.firstSet := by
  induction parts with
  | nil => cases h
  | cons part parts ih =>
    rw [firstSetOfSequence] at h
    split at h
    · rcases KindSet.mem_union.1 h with h | h
      · exact ⟨part, List.mem_cons_self, h⟩
      · obtain ⟨other, ho, hk⟩ := ih h
        exact ⟨other, List.mem_cons_of_mem _ ho, hk⟩
    · exact ⟨part, List.mem_cons_self, h⟩

/-- A parser that never takes the end of the input does not start there. -/
theorem EofFree.not_mem_firstSet {parser : Parser} (h : parser.EofFree) : .eof ∉ parser.firstSet := by
  induction parser with
  | token kind traits =>
    intro hk
    apply h.self
    rw [firstSet, List.mem_singleton] at hk
    simp [ownKind?, hk]
  | sequence parts traits ih =>
    intro hk
    obtain ⟨part, hp, hk⟩ := mem_firstSetOfSequence_exists hk
    exact ih part hp (h.sequence hp) hk
  | choice alternatives traits ih =>
    intro hk
    obtain ⟨alternative, ha, hk⟩ := mem_firstSetOfChoice.1 hk
    exact ih alternative ha (h.choice ha) hk
  | items item closer traits ih =>
    intro hk
    rw [firstSet, KindSet.mem_union, List.mem_singleton] at hk
    rcases hk with hk | hk
    · apply h.self
      simp [ownKind?, hk]
    · exact ih h.items hk

theorem live_of_not_eof {stream : TokenStream} {n : Nat} {parser : Parser} (h : (stream.get n).isEof = false) :
    Live stream n parser :=
  fun _ _ _ => h

theorem EofFree.live {parser : Parser} (h : parser.EofFree) (stream : TokenStream) (n : Nat) :
    Live stream n parser := by
  intro part hp hs
  have hf : part.EofFree := h.inside hp
  cases he : (stream.get n).isEof with
  | false => rfl
  | true =>
    have hk : (stream.get n).kind = .eof := by simpa [Token.isEof] using he
    exact absurd (hk ▸ startsAt_iff.1 hs) hf.not_mem_firstSet

/-! ## Runs in lockstep -/

/-- Of alternatives that start with different kinds, no two are tried on the same token. -/
theorem filter_startsWith {alternatives : List Parser}
    (disjoint : alternatives.Pairwise fun a b => ∀ kind ∈ a.firstSet, kind ∉ b.firstSet) (kind : TokenKind) :
    alternatives.filter (·.startsWith kind) = [] ∨
      ∃ only ∈ alternatives, alternatives.filter (·.startsWith kind) = [only] := by
  have tried : ∀ alternative ∈ alternatives.filter (·.startsWith kind), kind ∈ alternative.firstSet := by
    intro alternative h
    simpa [startsWith] using (List.mem_filter.1 h).2
  have apart := disjoint.filter (·.startsWith kind)
  cases hf : alternatives.filter (·.startsWith kind) with
  | nil => exact .inl rfl
  | cons only others =>
    rw [hf] at tried apart
    cases others with
    | nil => exact .inr ⟨only, (List.mem_filter.1 (hf ▸ List.mem_cons_self)).1, rfl⟩
    | cons other others =>
      have ho := tried other (List.mem_cons_of_mem _ List.mem_cons_self)
      exact absurd ho ((List.pairwise_cons.1 apart).1 other List.mem_cons_self kind (tried only List.mem_cons_self))

section
variable {refusals : Refusals} {s t : TokenStream} {n p depth : Nat}

theorem verdict_inTurn_single (step : Step) : (Step.inTurn s 0 none [step] p).verdict = (step p).verdict := by
  rw [Step.verdict_inTurn]
  rcases (step p).verdict with e | value <;> rfl

theorem startsAt_of_itemAt {firstSet : KindSet} {closer : TokenKind} (h : Step.itemAt s firstSet closer p = true) :
    (s.get p).isEof = false ∧ Step.startsAt s firstSet p = true := by
  rw [Step.itemAt, Bool.and_eq_true, Bool.and_eq_true, Bool.not_eq_true'] at h
  exact ⟨h.1.2, h.2⟩

/-- At `n` itself a parser either gets past the token or does not start, and then lists what it could have started
with. -/
theorem lockstep_here {parser : Parser} (hr : parser.RefusesWith refusals) (hs : Live s n parser)
    (ht : Live t n parser) :
    Lockstep refusals n (t.get n).kind (run s .firstSet depth parser n).verdict
      (run t .firstSet depth parser n).verdict := by
  cases hw : Step.startsAt t parser.firstSet n with
  | true => exact .inl (run_past (ht.self hw) hr depth hw)
  | false =>
    cases hv : Step.startsAt s parser.firstSet n with
    | true => exact .of_from (run_past (hs.self hv) hr depth hv)
    | false =>
      have hk : (t.get n).kind ∉ parser.firstSet := fun hk => by simp [startsAt_iff.2 hk] at hw
      rw [verdict_run_of_not_startsAt hv, verdict_run_of_not_startsAt hw]
      split
      · exact .inr fun _ => ⟨⟨_, rfl⟩, fun _ => hk⟩
      · exact .inr (.inr fun _ => hk)

variable (same : ∀ p < n, s.get p = t.get p)
include same

theorem lockstep_choice {alternatives : List Parser}
    (disjoint : alternatives.Pairwise fun a b => ∀ kind ∈ a.firstSet, kind ∉ b.firstSet) (hp : p < n)
    (h : ∀ alternative ∈ alternatives, Lockstep refusals n (t.get n).kind (run s .firstSet depth alternative p).verdict
      (run t .firstSet depth alternative p).verdict) :
    Lockstep refusals n (t.get n).kind
      (Step.choice s .firstSet (branchesOf s .firstSet depth alternatives) p).verdict
      (Step.choice t .firstSet (branchesOf t .firstSet depth alternatives) p).verdict := by
  rw [Step.verdict_choice, Step.verdict_choice, candidates_firstSet, candidates_firstSet, same p hp]
  rcases filter_startsWith disjoint (t.get p).kind with none | ⟨only, ho, only_eq⟩
  · rw [none]
    exact lockstep_error_before hp
  · rw [only_eq, List.map_singleton, List.map_singleton, verdict_inTurn_single, verdict_inTurn_single]
    exact h only ho

/-- A parser whose body is in lockstep before `n` is in lockstep up to `n`. -/
theorem lockstep_run {parser : Parser} (hr : parser.RefusesWith refusals) (hs : Live s n parser)
    (ht : Live t n parser)
    (h : ∀ p < n, Lockstep refusals n (t.get n).kind (body s .firstSet depth parser p).verdict
      (body t .firstSet depth parser p).verdict) (hp : p ≤ n) :
    Lockstep refusals n (t.get n).kind (run s .firstSet depth parser p).verdict
      (run t .firstSet depth parser p).verdict := by
  rcases Nat.lt_or_eq_of_le hp with hlt | rfl
  · have hst := Step.startsAt_congr same parser.firstSet hlt
    cases hw : Step.startsAt t parser.firstSet p with
    | false =>
      rw [verdict_run_of_not_startsAt (hst.trans hw), verdict_run_of_not_startsAt hw]
      split
      · exact lockstep_before hlt
      · exact lockstep_error_before hlt
    | true =>
      rw [run, run, verdict_enclosed_of_startsAt (hst.trans hw), verdict_enclosed_of_startsAt hw]
      split
      · refine Step.lockstep_repeating same (Step.placing_finished (body_placing s _ hr depth) hr.self)
          (Step.placing_finished (body_placing t _ hr depth) hr.self)
          (fun p hp => Step.lockstep_finished hr.self (h p hp)) (fun hn => ?_) (fun hn => ?_) hp
        · exact Step.finished_from hr.self (body_past (hs.self hn) hr depth hn)
        · exact Step.finished_from hr.self (body_past (ht.self hn) hr depth hn)
      · exact Step.lockstep_finished hr.self (h p hlt)
  · exact lockstep_here hr hs ht

theorem body_lockstep {parser : Parser} (hr : parser.RefusesWith refusals) (hp : parser.Predictive)
    (hs : Live s n parser) (ht : Live t n parser) :
    ∀ depth, ∀ p < n, Lockstep refusals n (t.get n).kind (body s .firstSet depth parser p).verdict
      (body t .firstSet depth parser p).verdict := by
  induction parser with
  | token kind traits =>
    intro depth p hlt
    rw [body, body, Step.verdict_token, Step.verdict_token, same p hlt, Step.next_congr same hlt]
    split
    · exact .inr fun _ => ⟨⟨_, rfl⟩, fun _ hm => by cases hm⟩
    · exact lockstep_error_before hlt
  | sequence parts traits ih =>
    intro depth p hlt
    rw [body_sequence, body_sequence]
    refine Step.lockstep_inOrder (fun part hm => run_from s _ (hr.sequence hm) _)
      (fun part hm => run_from t _ (hr.sequence hm) _) (fun part hm p hle => ?_) [] [] p (Nat.le_of_lt hlt)
      fun _ hm => by cases hm
    have inner := ih part hm (hr.sequence hm) (hp.sequence hm) (hs.sequence hm) (ht.sequence hm) (depth + 1)
    exact lockstep_run same (hr.sequence hm) (hs.sequence hm) (ht.sequence hm) inner hle
  | choice alternatives traits ih =>
    intro depth p hlt
    rw [body_choice, body_choice]
    refine lockstep_choice same hp.self hlt fun alternative hm => ?_
    have inner := ih alternative hm (hr.choice hm) (hp.choice hm) (hs.choice hm) (ht.choice hm) (depth + 1)
    exact lockstep_run same (hr.choice hm) (hs.choice hm) (ht.choice hm) inner (Nat.le_of_lt hlt)
  | items item closer traits ih =>
    intro depth p hlt
    have inner := ih hr.items hp.items hs.items ht.items (depth + 1)
    have wanted : ∀ kind, kind ∈ (Parser.items item closer traits).firstSet ↔ kind ∈ closer :: item.firstSet := by
      simp [firstSet]
    refine Step.lockstep_items same (run_placed s _ hr.items _) (run_placed t _ hr.items _) (fun p hlt => ?_)
      (fun hn => ?_) (fun hn => ?_) (fun hc => ?_) (fun hk => ?_) (Nat.le_of_lt hlt)
    · exact lockstep_run same hr.items hs.items ht.items inner (Nat.le_of_lt hlt)
    · obtain ⟨hn, hk⟩ := startsAt_of_itemAt hn
      exact run_past hn hr.items _ hk
    · obtain ⟨hn, hk⟩ := startsAt_of_itemAt hn
      exact run_past hn hr.items _ hk
    · exact hs.self (startsAt_iff.2 ((wanted _).2 (hc ▸ List.mem_cons_self)))
    · exact ht.self (startsAt_iff.2 ((wanted _).2 hk))

/-- The runs of a predictive parser on two streams with the same tokens before `n`. -/
theorem run_lockstep {parser : Parser} (hr : parser.RefusesWith refusals) (hp : parser.Predictive)
    (hs : Live s n parser) (ht : Live t n parser) (depth : Nat) (hle : p ≤ n) :
    Lockstep refusals n (t.get n).kind (run s .firstSet depth parser p).verdict
      (run t .firstSet depth parser p).verdict :=
  lockstep_run same hr hs ht (body_lockstep same hr hp hs ht depth) hle

end

/-! ## What is expected -/

theorem get_congr {tokens others : List Token} {n p : Nat} (h : others.take n = tokens.take n)
    (hn : n ≤ tokens.length) (hp : p < n) : (TokenStream.ofList tokens).get p = (TokenStream.ofList others).get p := by
  have ht : tokens[p]? = some (tokens.get ⟨p, by omega⟩) := List.getElem?_eq_getElem _
  have ho : others[p]? = tokens[p]? := by
    rw [← List.getElem?_take_of_lt hp, h, List.getElem?_take_of_lt hp]
  simp [TokenStream.get, TokenStream.ofList, ho, ht]

/-- Where a predictive parser fails at an unexpected token, and no reduction in it makes up such errors, that token is
of none of the kinds listed. With a token of one of these kinds in its place, whatever follows, the parser either
succeeds and has taken it, or fails later. -/
theorem expected_honest {parser : Parser} (hp : parser.Predictive) (hr : parser.RefusesWith .constructions)
    {tokens : List Token} {error : UnexpectedToken}
    (h : (parser.parse (.ofList tokens) .firstSet).result = .error (.unexpectedToken error))
    (he : error.found ≠ .eof ∨ parser.EofFree) :
    error.found ∉ error.expected ∧
      ∀ kind ∈ error.expected, kind ≠ .eof → ∀ others : List Token,
        others.take error.consumed = tokens.take error.consumed →
        (∃ other, others[error.consumed]? = some other ∧ other.kind = kind) →
        let outcome := parser.parse (.ofList others) .firstSet
        (∀ later, outcome.result = .error (.unexpectedToken later) → error.consumed < later.consumed) ∧
          ∀ parsed, outcome.result = .ok parsed → error.consumed < outcome.position := by
  obtain refused | ⟨expected, n, -, hn, located⟩ := (run_placed (.ofList tokens) .firstSet hr 0 0).blames _ h
  · exact absurd refused (Refusals.constructions_unexpectedToken error)
  obtain rfl := ParseError.unexpectedToken.inj located
  dsimp -zeta only at h he ⊢
  have hv : (run (.ofList tokens) .firstSet 0 parser 0).verdict = _ := Outcome.verdict_eq_error.2 h
  have live : Live (.ofList tokens) n parser := by
    refine he.elim (fun he => live_of_not_eof ?_) fun he => he.live _ _
    simpa [Token.isEof] using he
  have size : n ≤ tokens.length := Nat.le_trans hn (TokenStream.endFrom_le_size (Nat.zero_le _))
  constructor
  · -- The run goes in lockstep with itself.
    have lock := run_lockstep (fun _ _ => rfl) hr hp live live 0 (Nat.zero_le n)
    rw [hv] at lock
    rcases lock with (refused | past) | (refused | unlisted)
    · exact absurd refused (Refusals.constructions_unexpectedToken _)
    · exact absurd past (Nat.not_succ_le_self n)
    · exact absurd refused (Refusals.constructions_unexpectedToken _)
    · exact unlisted rfl
  · rintro kind hk hne others same ⟨other, ht, hkind⟩ outcome
    have there : (TokenStream.ofList others).get n = other := by simp [TokenStream.get, TokenStream.ofList, ht]
    have liveOther : Live (.ofList others) n parser := live_of_not_eof (by simp [there, Token.isEof, hkind, hne])
    have lock := run_lockstep (fun _ hlt => get_congr same size hlt) hr hp live liveOther 0 (Nat.zero_le n)
    rw [hv, there, hkind] at lock
    have past : outcome.verdict.From .constructions (n + 1) := by
      refine lock.resolve_right fun abreast => ?_
      rcases abreast with refused | unlisted
      · exact Refusals.constructions_unexpectedToken _ refused
      · exact unlisted rfl hk
    constructor
    · intro later hr
      rw [Outcome.verdict_eq_error.2 hr] at past
      exact past.resolve_left (Refusals.constructions_unexpectedToken later)
    · intro parsed hr
      rw [Outcome.verdict_of_result_ok hr] at past
      exact past

/-- Numbers, each with a comma or a less-than sign after it or without, and a closing parenthesis. -/
def listing : Parser :=
  inOrder [(inOrder [expect .number, (anyOf [expect .comma, expect .lessThan]).optional]).many, expect .roundClose]

/-- The number may end or go on in four ways, and with a comma it goes on whatever comes then. -/
theorem expected_honest_listing :
    (listing.parse (.ofList [⟨.number, "1", ⟨0, 1⟩⟩, ⟨.equals, "=", ⟨1, 2⟩⟩]) .firstSet).result =
        .error (.unexpected [.roundClose, .comma, .lessThan, .number] ⟨.equals, "=", ⟨1, 2⟩⟩ 1) ∧
      ∀ rest parsed,
        let outcome := listing.parse (.ofList (⟨.number, "1", ⟨0, 1⟩⟩ :: ⟨.comma, ",", ⟨1, 2⟩⟩ :: rest)) .firstSet
        outcome.result = .ok parsed → 1 < outcome.position := by
  have h : (listing.parse (.ofList [⟨.number, "1", ⟨0, 1⟩⟩, ⟨.equals, "=", ⟨1, 2⟩⟩]) .firstSet).result =
    .error (.unexpected [.roundClose, .comma, .lessThan, .number] ⟨.equals, "=", ⟨1, 2⟩⟩ 1) := rfl
  have hp : listing.Predictive := by decide
  have hr : listing.RefusesWith .constructions :=
    (Unreduced.reductionsSucceed (by decide : listing.Unreduced)).refusesWith _
  have honest := (expected_honest hp hr h (.inl (by decide))).2
  refine ⟨h, fun rest => ?_⟩
  exact (honest .comma (by decide) (by decide) (⟨.number, "1", ⟨0, 1⟩⟩ :: ⟨.comma, ",", ⟨1, 2⟩⟩ :: rest) rfl
    ⟨_, rfl, rfl⟩).2

end FuncIR.Parser
