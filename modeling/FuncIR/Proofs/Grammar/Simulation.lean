import FuncIR.Proofs.Grammar.Reading
import FuncIR.Proofs.Parser.Progress

/-!
# Parsers that follow the automaton

Between two parts of a rule, a `Place` is the state of the automaton with what is known of the current token and
what is pending there. `Passes` says of parts in a row that from place to place they read what the automaton reads,
hand on the captures that their `Yield` allows for the tokens, and fail exactly where the reading gets stuck, with
what its state wants. There is one rule for each way to build a part: `Passes.append`, `Begins.token`, `Begins.rule`
and `Begins.many` under `Passes.required` and `Passes.optional`.
-/

namespace FuncIR

open FuncIR.Parser

/-! ## Captures of a token list -/

/-- Which captures a token list may be handed on as. -/
abbrev Yield := List Token → List Capture → Prop

namespace Yield

inductive Followed (a b : Yield) : Yield
  | mk {u v : List Token} {c d : List Capture} : a u c → b v d → Followed a b (u ++ v) (c ++ d)

inductive Maybe (a : Yield) : Yield
  | none : Maybe a [] []
  | some {u : List Token} {c : List Capture} : a u c → Maybe a u c

inductive Many (a : Yield) : Yield
  | nil : Many a [] []
  | cons {u v : List Token} {c d : List Capture} : a u c → Many a v d → Many a (u ++ v) (c ++ d)

/-- One token, captured if there is a tag. -/
inductive Terminal (kind : TokenKind) (tag : Option String) : Yield
  | mk {token : Token} : token.kind = kind →
      Terminal kind tag [token] (tag.elim [] fun tag => [⟨tag, .token token⟩])

/-- A node that the tokens spell. -/
inductive Node (tag : String) (spells : List Token → SyntaxNode → Prop) : Yield
  | mk {word : List Token} {node : SyntaxNode} : spells word node → Node tag spells word [⟨tag, node⟩]

/-- At least one token. -/
def Proper (a : Yield) : Yield := fun word captures => word ≠ [] ∧ a word captures

end Yield

/-! ## Places -/

structure Place where
  state : State
  /-- Kinds that the current token may have. -/
  ahead : KindSet
  /-- Kinds that parts before it would have taken here. -/
  pending : KindSet
  deriving DecidableEq

namespace Place

/-- Right after a token. -/
def behind (state : State) : Place :=
  ⟨state, TokenKind.all, []⟩

/-- After a part that is absent. -/
def skip (firstSet : KindSet) (x : Place) : Place :=
  ⟨x.state, x.ahead.filter (!firstSet.contains ·), KindSet.union x.pending firstSet⟩

/-- At the start of a rule. -/
def enter (firstSet : KindSet) (x : Place) : Place :=
  ⟨x.state, x.ahead.filter (firstSet.contains ·), []⟩

/-- The part that comes next may start here. -/
def Admits (layout : Layout) (firstSet : KindSet) (x : Place) : Prop :=
  ∀ kind ∈ firstSet, kind ∈ x.state.wanted layout

/-- Where the part cannot start, the state wants its first set and what is pending, and no more. -/
def Wants (layout : Layout) (firstSet : KindSet) (x : Place) : Prop :=
  ∀ kind ∈ x.ahead, kind ∉ firstSet →
    kind ∉ x.state.wanted layout ∧ x.state.wanted layout = KindSet.union firstSet x.pending

/-- If a token of this kind may come, the state reads it, and the place behind it is one of `b`. -/
def Takes (layout : Layout) (kind : TokenKind) (b : List Place) (x : Place) : Prop :=
  kind ∈ x.ahead → ∃ y ∈ b, State.next layout x.state kind = some y.state ∧ y = behind y.state

instance (layout : Layout) (kind : TokenKind) (b : List Place) (x : Place) : Decidable (x.Takes layout kind b) :=
  inferInstanceAs (Decidable (kind ∈ x.ahead →
    ∃ y ∈ b, State.next layout x.state kind = some y.state ∧ y = behind y.state))

instance (layout : Layout) (firstSet : KindSet) (x : Place) : Decidable (x.Admits layout firstSet) :=
  inferInstanceAs (Decidable (∀ kind ∈ firstSet, kind ∈ x.state.wanted layout))

instance (layout : Layout) (firstSet : KindSet) (x : Place) : Decidable (x.Wants layout firstSet) :=
  inferInstanceAs (Decidable (∀ kind ∈ x.ahead, kind ∉ firstSet →
    kind ∉ x.state.wanted layout ∧ x.state.wanted layout = KindSet.union firstSet x.pending))

theorem mem_ahead_skip {firstSet : KindSet} {x : Place} {kind : TokenKind} (h : kind ∈ x.ahead)
    (hf : kind ∉ firstSet) : kind ∈ (x.skip firstSet).ahead :=
  List.mem_filter.2 ⟨h, by simpa using hf⟩

theorem mem_ahead_enter {firstSet : KindSet} {x : Place} {kind : TokenKind} (h : kind ∈ x.ahead)
    (hf : kind ∈ firstSet) : kind ∈ (x.enter firstSet).ahead :=
  List.mem_filter.2 ⟨h, by simpa using hf⟩

end Place

/-! ## Steps that follow the automaton -/

section Follows
variable (layout : Layout) (stream : TokenStream)

/-- A run from `s` at `p` reads to a place of `b` what its captures say, or blames where the reading got stuck. -/
def Follows (s : State) (p : Nat) (yield : Yield) (b : List Place) : Verdict → Prop
  | .ok (parsed, q) => ∃ word, ∃ y ∈ b, Reads layout stream s p word y.state q ∧ yield word parsed.captures ∧
      (stream.get q).kind ∈ y.ahead ∧ parsed.trailing = y.pending
  | .error e => Blames layout stream s p e

variable (policy : Alternation) (depth : Nat)

/-- From all places of `a`, the parts in a row go to those of `b`. -/
def Passes (a : List Place) (parts : List Parser) (yield : Yield) (b : List Place) : Prop :=
  ∀ x ∈ a, ∀ p, (stream.get p).kind ∈ x.ahead →
    Follows layout stream x.state p yield b (Step.inOrder x.pending (parts.map (run stream policy depth)) p).verdict

/-- From the places of `a` where it can start, the parser goes to those of `b`. -/
def Begins (a : List Place) (parser : Parser) (yield : Yield) (b : List Place) : Prop :=
  ∀ x ∈ a, ∀ p, (stream.get p).kind ∈ x.ahead → (stream.get p).kind ∈ parser.firstSet →
    Follows layout stream x.state p yield.Proper b (run stream policy depth parser p).verdict

end Follows

variable {layout : Layout} {stream : TokenStream} {policy : Alternation} {depth : Nat}
  {a b m : List Place} {yield yield' : Yield}

theorem Follows.after {s t : State} {p q : Nat} {word : List Token} {v : Verdict} {captures : List Capture}
    (hr : Reads layout stream s p word t q) (hc : yield word captures) (h : Follows layout stream t q yield' b v) :
    Follows layout stream s p (yield.Followed yield') b
      (v.map fun (others, r) => ({ others with captures := captures ++ others.captures }, r)) := by
  rcases v with e | ⟨parsed, r⟩
  · exact Blames.after hr h
  · obtain ⟨rest, y, hy, hr', hc', ha, ht⟩ := h
    exact ⟨word ++ rest, y, hy, hr.trans hr', .mk hc hc', ha, ht⟩

/-! ## Parts in a row -/

theorem Passes.append {parts others : List Parser} (h : Passes layout stream policy depth a parts yield m)
    (h' : Passes layout stream policy depth m others yield' b) :
    Passes layout stream policy depth a (parts ++ others) (yield.Followed yield') b := by
  intro x hx p hp
  rw [List.map_append, Step.verdict_inOrder_append]
  have hf := h x hx p hp
  rcases hv : (Step.inOrder x.pending (parts.map (run stream policy depth)) p).verdict with e | ⟨parsed, q⟩ <;>
    rw [hv] at hf
  · exact hf
  · obtain ⟨word, y, hy, hr, hc, ha, ht⟩ := hf
    -- The others begin with what the first parts leave pending.
    dsimp only
    rw [ht]
    exact (h' y hy q ha).after hr hc

/-! ## One part -/

/-- A part that can start takes over: what was pending before it no longer counts. -/
theorem Begins.single {parser : Parser} (h : Begins layout stream policy depth a parser yield b) {x : Place}
    (hx : x ∈ a) {p : Nat} (hp : (stream.get p).kind ∈ x.ahead) (hf : (stream.get p).kind ∈ parser.firstSet)
    (admits : x.Admits layout parser.firstSet) :
    Follows layout stream x.state p yield b (Step.inOrder x.pending [run stream policy depth parser] p).verdict := by
  have hb := h x hx p hp hf
  rw [Step.verdict_inOrder_single]
  rcases hv : (run stream policy depth parser p).verdict with e | ⟨parsed, q⟩ <;> rw [hv] at hb
  · -- the parser takes the current token, so it fails behind it, where the pending kinds are not added
    have hl := Blames.lt_consumed hb (admits _ hf)
    dsimp only
    rwa [if_neg (Nat.ne_of_gt hl)]
  · obtain ⟨word, y, hy, hr, ⟨hw, hc⟩, ha, ht⟩ := hb
    refine ⟨word, y, hy, hr, hc, ha, ?_⟩
    simp [if_pos (hr.lt hw), KindSet.union, ht]

theorem Begins.mono {parser : Parser} (h : Begins layout stream policy depth a parser yield m)
    (sub : ∀ y ∈ m, y ∈ b) (hy : ∀ word captures, yield word captures → yield' word captures) :
    Begins layout stream policy depth a parser yield' b := by
  intro x hx p hp hf
  have hm := h x hx p hp hf
  rcases hv : (run stream policy depth parser p).verdict with e | ⟨parsed, q⟩ <;> rw [hv] at hm
  · exact hm
  · obtain ⟨word, y, hym, hr, ⟨hw, hc⟩, ha⟩ := hm
    exact ⟨word, y, sub y hym, hr, ⟨hw, hy _ _ hc⟩, ha⟩

theorem Passes.required {parser : Parser} (h : Begins layout stream policy depth a parser yield b)
    (he : parser.acceptsEmpty = false := by rfl)
    (meets : ∀ x ∈ a, x.Admits layout parser.firstSet ∧ x.Wants layout parser.firstSet := by
      cases layout <;> decide) :
    Passes layout stream policy depth a [parser] yield b := by
  intro x hx p hp
  by_cases hf : (stream.get p).kind ∈ parser.firstSet
  · exact h.single hx hp hf (meets x hx).1
  · obtain ⟨hn, hw⟩ := (meets x hx).2 _ hp hf
    have hs : Step.startsAt stream parser.firstSet p = false := by simpa [Step.startsAt] using hf
    rw [List.map_singleton, Step.verdict_inOrder_single, verdict_run_of_not_startsAt hs, he]
    simp only [Bool.false_eq_true, if_false, ParseError.consumed_unexpected, if_true, ParseError.widen_unexpected, ← hw]
    exact Blames.here hn

theorem Passes.optional {parser : Parser} (h : Begins layout stream policy depth a parser yield m)
    (present : ∀ word captures, yield word captures → yield' word captures) (absent : yield' [] [])
    (he : parser.acceptsEmpty = true := by rfl) (sub : ∀ y ∈ m, y ∈ b := by decide)
    (skips : ∀ x ∈ a, x.Admits layout parser.firstSet ∧ x.skip parser.firstSet ∈ b := by cases layout <;> decide) :
    Passes layout stream policy depth a [parser] yield' b := by
  intro x hx p hp
  by_cases hf : (stream.get p).kind ∈ parser.firstSet
  · exact (h.mono sub present).single hx hp hf (skips x hx).1
  · have hs : Step.startsAt stream parser.firstSet p = false := by simpa [Step.startsAt] using hf
    rw [List.map_singleton, Step.verdict_inOrder_single, verdict_run_of_not_startsAt hs, he]
    refine ⟨[], _, (skips x hx).2, .nil, absent, Place.mem_ahead_skip hp hf, ?_⟩
    simp [Place.skip]

/-! ## Tokens and rules -/

theorem Begins.token {kind : TokenKind} {traits : Traits} (hr : traits.repeated = false)
    (hn : traits.reduction = none)
    (h : ∀ x ∈ a, x.Takes layout kind b) :
    Begins layout stream policy depth a (.token kind traits) (.Terminal kind traits.tag) b := by
  intro x hx p hp hf
  obtain rfl := List.mem_singleton.1 hf
  obtain ⟨y, hy, ht, hb⟩ := h x hx hp
  have he : (stream.get p).isEof = false := Reads.not_eof ht
  rw [run_token, verdict_enclosed_of_startsAt (startsAt_iff.2 hf)]
  simp only [Parser.traits, hr, Bool.false_eq_true, if_false, Step.verdict_finished, Step.verdict_token, if_true, hn,
    Parsed.reduceBy, TokenStream.next, he]
  refine ⟨[stream.get p], y, hy, .single ht, ⟨by simp, ?_⟩, hb ▸ TokenKind.mem_all _, ?_⟩
  · generalize traits.tag = tag
    cases tag <;> exact .mk rfl
  · rw [hb]
    cases traits.tag <;> rfl

theorem Passes.expect (kind : TokenKind)
    (h : ∀ x ∈ a, x.Takes layout kind b ∧ x.Admits layout [kind] ∧ x.Wants layout [kind] := by
      cases layout <;> decide) :
    Passes layout stream policy depth a [Parser.expect kind] (.Terminal kind none) b :=
  .required (.token rfl rfl fun x hx => (h x hx).1) rfl fun x hx => (h x hx).2

theorem Passes.captured (kind : TokenKind) (tag : String)
    (h : ∀ x ∈ a, x.Takes layout kind b ∧ x.Admits layout [kind] ∧ x.Wants layout [kind] := by
      cases layout <;> decide) :
    Passes layout stream policy depth a [(Parser.expect kind).withTag tag] (.Terminal kind (some tag)) b :=
  .required (.token rfl rfl fun x hx => (h x hx).1) rfl fun x hx => (h x hx).2

theorem Passes.blank
    (h : ∀ x ∈ a, x.Takes layout .whitespace b ∧ x.Admits layout [.whitespace] ∧ x.skip [.whitespace] ∈ b := by
      cases layout <;> decide) :
    Passes layout stream policy depth a [(Parser.expect .whitespace).optional]
      (Yield.Terminal .whitespace none).Maybe b :=
  .optional (.token rfl rfl fun x hx => (h x hx).1) (fun _ _ => .some) .none rfl (fun _ => id) fun x hx => (h x hx).2

/-- The node of a rule and what it spells, from the captures of its parts. -/
def Spelled (reduction : Reduction) (yield : Yield) (spells : List Token → SyntaxNode → Prop) : Prop :=
  ∀ word captures, yield word captures →
    word ≠ [] ∧ ∀ span, ∃ node, reduction span captures = .ok node ∧ spells word node

variable {parts : List Parser} {traits : Traits} {tag : String} {reduction : Reduction}
  {spells : List Token → SyntaxNode → Prop}

theorem Follows.finished (ht : traits.tag = some tag) (hr : traits.reduction = some reduction)
    (spelled : Spelled reduction yield spells) {s : State} {p : Nat} {body : Step}
    (h : Follows layout stream s p yield b (body p).verdict) :
    Follows layout stream s p (Yield.Node tag spells).Proper b (Step.finished stream traits body p).verdict := by
  rw [Step.verdict_finished, ht, hr]
  rcases hv : (body p).verdict with e | ⟨parsed, q⟩ <;> rw [hv] at h
  · exact h
  · obtain ⟨word, y, hy, hread, hc, ha, hp⟩ := h
    obtain ⟨hw, hs⟩ := spelled word _ hc
    obtain ⟨node, hn, hs⟩ := hs (stream.spanOf p q)
    simp only [Parsed.reduceBy, hn]
    exact ⟨word, y, hy, hread, ⟨hw, .mk hs⟩, ha, hp⟩

theorem Begins.rule (hr : traits.repeated = false) (ht : traits.tag = some tag)
    (hd : traits.reduction = some reduction)
    (body : Passes layout stream policy (depth + 1) (a.map (·.enter (firstSetOfSequence parts))) parts yield b)
    (spelled : Spelled reduction yield spells) :
    Begins layout stream policy depth a (.sequence parts traits) (.Node tag spells) b := by
  intro x hx p hp hf
  have hs := startsAt_iff.2 hf
  rw [firstSet] at hf
  rw [run_sequence, verdict_enclosed_of_startsAt hs, if_neg (by simp [Parser.traits, hr])]
  apply Follows.finished ht hd spelled
  exact body _ (List.mem_map_of_mem hx) p (Place.mem_ahead_enter hp hf)

/-- A choice where the current token decides between the alternatives. -/
theorem Begins.choice {alternatives : List Parser} (hr : traits.repeated = false) (ht : traits.tag = none)
    (hd : traits.reduction = none)
    (h : ∀ kind ∈ firstSetOfChoice alternatives, ∃ only, alternatives.filter (·.startsWith kind) = [only] ∧
      Begins layout stream .firstSet (depth + 1) a only yield b) :
    Begins layout stream .firstSet depth a (.choice alternatives traits) yield b := by
  intro x hx p hp hf
  have hs := startsAt_iff.2 hf
  obtain ⟨only, ho, hb⟩ := h _ (by simpa [firstSet] using hf)
  have hm : only ∈ alternatives.filter (·.startsWith (stream.get p).kind) := by simp [ho]
  have hb := hb x hx p hp (startsAt_iff.1 (List.mem_filter.1 hm).2)
  rw [run_choice, verdict_enclosed_of_startsAt hs, if_neg (by simp [Parser.traits, hr]), Step.verdict_finished,
    Step.verdict_choice, candidates_firstSet, ho, List.map_singleton, Step.verdict_inTurn]
  simp only [Parser.traits, ht, hd, Parsed.reduceBy, Parsed.captureAs]
  rcases hv : (run stream .firstSet (depth + 1) only p).verdict with e | ⟨parsed, q⟩ <;> rw [hv] at hb
  · exact hb
  · exact hb

/-! ## Loops -/

/-- Where a loop ends: at once, or in a place of `m` after rounds that took at least one token. -/
def Ends (layout : Layout) (stream : TokenStream) (s : State) (p : Nat) (yield : Yield) (m : List Place)
    (captures : List Capture) (q : Nat) : Prop :=
  captures = [] ∧ q = p ∨ ∃ word, ∃ y ∈ m, Reads layout stream s p word y.state q ∧ yield.Many.Proper word captures ∧
    (stream.get q).kind ∈ y.ahead

/-- The rounds of a loop go from places of `a` to places of `m` among them. -/
theorem tally_follows {wanted : Nat → Bool} {step : Step} (sub : ∀ y ∈ m, y ∈ a) (clean : ∀ y ∈ m, y.pending = [])
    (inside : ∀ p, wanted p = true → p < stream.size)
    (once : ∀ x ∈ a, ∀ p, (stream.get p).kind ∈ x.ahead → wanted p = true →
      Follows layout stream x.state p yield.Proper m (step p).verdict) (bound : Nat) :
    ∀ x ∈ a, ∀ p, (stream.get p).kind ∈ x.ahead → stream.size - p < bound →
      match Step.tally p (Step.roundsWithin wanted step bound p) with
      | .error e => Blames layout stream x.state p e
      | .ok (captures, trailing, q) =>
        wanted q = false ∧ trailing = [] ∧ Ends layout stream x.state p yield m captures q := by
  induction bound with
  | zero => intro _ _ _ _ h; cases h
  | succ bound ih =>
    intro x hx p hp hb
    rw [Step.tally_roundsWithin]
    by_cases hw : wanted p = true
    · have hf := once x hx p hp hw
      rw [if_pos hw]
      rcases hv : (step p).verdict with e | ⟨parsed, q⟩ <;> rw [hv] at hf
      · exact hf
      · -- a round takes at least one token, so the bound is not what ends the loop
        obtain ⟨word, y, hy, hr, ⟨hne, hc⟩, ha, ht⟩ := hf
        have hpq := hr.lt hne
        have hin := inside p hw
        have hi := ih y (sub y hy) q ha (by omega)
        dsimp only
        rw [if_pos hpq]
        rcases hl : Step.tally q (Step.roundsWithin wanted step bound q) with e | ⟨captures, rest, r⟩ <;>
          rw [hl] at hi
        · exact Blames.after hr hi
        · obtain ⟨hn, htrail, hend⟩ := hi
          refine ⟨hn, ?_, .inr ?_⟩
          · simp only [ht, clean y hy, htrail, ite_self]
          · rcases hend with ⟨rfl, rfl⟩ | ⟨more, z, hz, hr', ⟨hne', hc'⟩, ha'⟩
            · refine ⟨word, y, hy, hr, ⟨hne, ?_⟩, ha⟩
              rw [← List.append_nil word]
              exact .cons hc .nil
            · exact ⟨word ++ more, z, hz, hr.trans hr', ⟨by simp [hne], .cons hc hc'⟩, ha'⟩
    · rw [if_neg hw]
      exact ⟨by simpa using hw, rfl, .inl ⟨rfl, rfl⟩⟩

theorem lt_size_of_startsAt {firstSet : KindSet} {p : Nat} (he : .eof ∉ firstSet)
    (h : Step.startsAt stream firstSet p = true) : p < stream.size := by
  by_contra hp
  have := TokenStream.isEof_get_of_size_le (Nat.le_of_not_lt hp)
  have hk : (stream.get p).kind = .eof := by simpa [Token.isEof] using this
  exact he (hk ▸ startsAt_iff.1 h)

theorem Begins.many (hr : traits.repeated = true) (ht : traits.tag = some tag)
    (hd : traits.reduction = some reduction)
    (body : Passes layout stream policy (depth + 1) (a.map (·.enter (firstSetOfSequence parts))) parts yield m)
    (spelled : Spelled reduction yield spells) (he : .eof ∉ firstSetOfSequence parts := by decide)
    (sub : ∀ y ∈ m, y ∈ a := by decide) (clean : ∀ y ∈ m, y.pending = [] := by decide) :
    Begins layout stream policy depth a (.sequence parts traits) (Yield.Node tag spells).Many
      (m.map (·.skip (firstSetOfSequence parts))) := by
  intro x hx p hp hf
  have hs := startsAt_iff.2 hf
  rw [firstSet] at hf
  rw [run_sequence, verdict_enclosed_of_startsAt hs, if_pos (by simp [Parser.traits, hr]), Step.verdict_repeating]
  simp only [firstSet, Parser.traits]
  have once : ∀ x ∈ a, ∀ p, (stream.get p).kind ∈ x.ahead →
      Step.startsAt stream (firstSetOfSequence parts) p = true →
        Follows layout stream x.state p (Yield.Node tag spells).Proper m (Step.finished stream traits
          (Step.inOrder [] (parts.map (run stream policy (depth + 1)))) p).verdict := by
    intro x hx p hp hs
    apply Follows.finished ht hd spelled
    exact body _ (List.mem_map_of_mem hx) p (Place.mem_ahead_enter hp (startsAt_iff.1 hs))
  have := tally_follows sub clean (fun p => lt_size_of_startsAt he) once (stream.size - p + 1) x hx p hp (by omega)
  rw [Step.rounds]
  rcases hv : Step.tally p _ with e | ⟨captures, trailing, q⟩ <;> rw [hv] at this
  · exact this
  · obtain ⟨hn, rfl, hend⟩ := this
    -- The loop ends only where no round can start.
    have hq : (stream.get q).kind ∉ firstSetOfSequence parts := by
      intro hk
      rw [startsAt_iff.2 hk] at hn
      cases hn
    rcases hend with ⟨-, rfl⟩ | ⟨word, y, hy, hread, hc, ha⟩
    · exact absurd hf hq
    · refine ⟨word, _, List.mem_map_of_mem hy, hread, hc, Place.mem_ahead_skip ha hq, ?_⟩
      rw [Place.skip, clean y hy]

end FuncIR
