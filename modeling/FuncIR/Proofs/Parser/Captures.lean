import FuncIR.Proofs.Parser.Refusals
import FuncIR.Proofs.Parser.Loop
import FuncIR.Proofs.Parser.Matching

/-!
# Captures

A run without reductions captures tokens only, of those that it matches and in their order, and each of them once at
most (`Catches`). Every combinator keeps this (`Step.Collecting`). So the captures are tokens that the run went over,
and all of them if each token parser has a tag (`captures_matched`).
-/

namespace FuncIR.Parser

/-! ## Captures without reductions -/

/-- What becomes of the tokens that were matched. One with a tag is captured under it, any other is lost or captured
under the tag of a parser around its own. No end of input is captured. -/
inductive Catches : List Match → List Capture → Prop
  | nil : Catches [] []
  | own {token : Token} {tag : String} {matched : List Match} {captures : List Capture} : token.isEof = false →
      Catches matched captures → Catches (⟨token, some tag⟩ :: matched) (⟨tag, .token token⟩ :: captures)
  | outer {token : Token} {tag : String} {matched : List Match} {captures : List Capture} : token.isEof = false →
      Catches matched captures → Catches (⟨token, none⟩ :: matched) (⟨tag, .token token⟩ :: captures)
  | lost {token : Token} {matched : List Match} {captures : List Capture} :
      Catches matched captures → Catches (⟨token, none⟩ :: matched) captures

namespace Catches
variable {matched others : List Match} {captures more : List Capture}

theorem append (h : Catches matched captures) (h' : Catches others more) :
    Catches (matched ++ others) (captures ++ more) := by
  induction h with
  | nil => exact h'
  | own he _ ih => exact .own he ih
  | outer he _ ih => exact .outer he ih
  | lost _ ih => exact .lost ih

theorem sublist (h : Catches matched captures) : ∃ caught : List Token,
    caught.Sublist ((matched.map (·.token)).filter (!·.isEof)) ∧ captures.map (·.node) = caught.map .token := by
  induction h with
  | nil => exact ⟨[], .slnil, rfl⟩
  | @own token _ _ _ he _ ih | @outer token _ _ _ he _ ih =>
    obtain ⟨caught, hs, hn⟩ := ih
    refine ⟨token :: caught, ?_, by simp [hn]⟩
    rw [List.map_cons, List.filter_cons_of_pos (by simpa using he)]
    exact hs.cons_cons token
  | @lost token matched _ _ ih =>
    obtain ⟨caught, hs, hn⟩ := ih
    refine ⟨caught, hs.trans ?_, hn⟩
    rw [List.map_cons]
    exact (List.sublist_cons_self _ _).filter _

/-- If all have a tag, all are captured. -/
theorem all (h : Catches matched captures) (ht : ∀ m ∈ matched, m.tag.isSome = true) :
    (∀ m ∈ matched, m.token.isEof = false) ∧
      captures.map (fun capture => (capture.node, some capture.tag)) =
        matched.map fun m => (.token m.token, m.tag) := by
  induction h with
  | nil => simp
  | own he _ ih =>
    obtain ⟨hm, hc⟩ := ih (List.forall_mem_cons.1 ht).2
    exact ⟨List.forall_mem_cons.2 ⟨he, hm⟩, by simp [hc]⟩
  | outer | lost => cases (List.forall_mem_cons.1 ht).1

end Catches

/-- What was captured of the tokens that were matched, and what is once the value has been given a tag, too. -/
def Collects (matched : List Match) (parsed : Parsed) : Prop :=
  Catches matched parsed.captures ∧
    ∀ node, parsed.node = some node → ∀ tag, Catches matched (parsed.captures ++ [⟨tag, node⟩])

/-- Where there is no value, nothing is left to be captured. -/
theorem Catches.collects {matched : List Match} {parsed : Parsed} (h : Catches matched parsed.captures)
    (hn : parsed.node = none) : Collects matched parsed :=
  ⟨h, fun node hs => by simp [hn] at hs⟩

theorem Collects.captureAs {matched : List Match} {parsed : Parsed} (h : Collects matched parsed)
    (tag : Option String) : Collects matched (parsed.captureAs tag) := by
  obtain ⟨node, captures, trailing⟩ := parsed
  cases tag with
  | none => exact h
  | some tag =>
    cases node with
    | none => exact h
    | some node => exact (h.2 node rfl tag).collects rfl

namespace Step
variable {stream : TokenStream} {policy : Alternation} {reading : Reading}

/-- Where the step succeeds, it collects what it matched. -/
def Collecting (reading : Reading) (step : Step) : Prop :=
  ∀ p parsed q, (step p).verdict = .ok (parsed, q) → ∃ matched, reading p matched q ∧ Collects matched parsed

/-- A token is either captured under the tag of its own parser, or it is the value that a parser around it may capture.
-/
theorem collecting_token {kind : TokenKind} {traits : Traits} (hk : kind ≠ .eof) (hr : traits.reduction = none) :
    Collecting (.single stream kind traits.tag) (finished stream traits (token stream kind)) := by
  intro p parsed q hv
  rw [verdict_finished, verdict_token, hr] at hv
  split at hv
  · cases hv
  · rename_i inner r ht
    split at ht
    · rename_i found
      cases ht
      cases hv
      have he : (stream.get p).isEof = false := by simpa [Token.isEof, found] using hk
      refine ⟨_, ⟨found, rfl, rfl⟩, ?_⟩
      cases traits.tag with
      | none =>
        refine ⟨.lost .nil, ?_⟩
        rintro _ ⟨⟩ tag
        exact .outer he .nil
      | some tag => exact (Catches.own he .nil).collects rfl
    · cases ht

theorem collecting_finished {traits : Traits} {body : Step} (h : Collecting reading body)
    (hr : traits.reduction = none) : Collecting reading (finished stream traits body) := by
  intro p parsed q hv
  rw [verdict_finished, hr] at hv
  rcases hb : (body p).verdict with e | ⟨inner, _⟩ <;> rw [hb] at hv <;> cases hv
  obtain ⟨matched, hm, collected⟩ := h p inner _ hb
  exact ⟨matched, hm, collected.captureAs traits.tag⟩

theorem collecting_inOrder {parts : List Parser} {run : Parser → Step}
    (h : ∀ part ∈ parts, Collecting (part.reading stream policy) (run part)) :
    ∀ pending, Collecting (readingOfSequence stream policy parts) (inOrder pending (parts.map run)) := by
  induction parts with
  | nil =>
    intro pending p parsed q hv
    cases hv
    exact ⟨[], ⟨rfl, rfl⟩, Catches.nil.collects rfl⟩
  | cons part parts ih =>
    intro pending p parsed q hv
    rw [List.map_cons, verdict_inOrder] at hv
    rcases hp : (run part p).verdict with e | ⟨first, r⟩ <;> rw [hp] at hv
    · cases hv
    · dsimp only at hv
      rcases hr : (inOrder _ (parts.map run) r).verdict with e | ⟨others, s⟩ <;> rw [hr] at hv <;> cases hv
      obtain ⟨front, hf, caught, -⟩ := h part List.mem_cons_self p _ r hp
      obtain ⟨back, hb, rest, lone⟩ := ih (fun other ho => h other (List.mem_cons_of_mem _ ho)) _ r _ _ hr
      refine ⟨front ++ back, ⟨front, r, back, hf, hb, rfl⟩, caught.append rest, fun node hn tag => ?_⟩
      rw [List.append_assoc]
      exact caught.append (lone node hn tag)

/-! ### Loops -/

/-- The values of the rounds are lost, and their captures follow each other. -/
theorem Loop.collects {wanted : Nat → Bool} {step : Step} (h : Collecting reading step) {p : Nat}
    {rounds : List Outcome} (loop : Loop wanted step p rounds) :
    ∀ captures trailing q, tally p rounds = .ok (captures, trailing, q) →
      ∃ matched, Reading.Rounds wanted reading p matched q ∧ Catches matched captures := by
  induction loop with
  | idle hw =>
    intro captures trailing q ht
    cases ht
    exact ⟨[], .idle hw, .nil⟩
  | @last p hw ha =>
    intro captures trailing q ht
    rw [tally_cons] at ht
    rcases hv : (step p).verdict with e | ⟨parsed, r⟩ <;> rw [hv] at ht <;> cases ht
    obtain ⟨hr, hq⟩ := Outcome.verdict_eq_ok.1 hv
    obtain ⟨matched, hm, caught, -⟩ := h p parsed _ hv
    refine ⟨matched, .last hw hm fun further => ha ⟨Outcome.isOk_iff.2 ⟨parsed, hr⟩, hq ▸ further⟩, ?_⟩
    rwa [List.append_nil]
  | @again p rounds hw ha _ ih =>
    intro captures trailing q ht
    rw [tally_cons] at ht
    rcases hv : (step p).verdict with e | ⟨parsed, r⟩ <;> rw [hv] at ht
    · cases ht
    · obtain ⟨-, rfl⟩ := Outcome.verdict_eq_ok.1 hv
      dsimp only at ht
      rcases hl : tally (step p).position rounds with e | ⟨others, rest, s⟩ <;> rw [hl] at ht <;> cases ht
      obtain ⟨front, hf, caught, -⟩ := h p parsed _ hv
      obtain ⟨back, hb, later⟩ := ih _ _ _ hl
      exact ⟨front ++ back, .again hw hf ha.2 hb, caught.append later⟩

theorem collecting_repeating {firstSet : KindSet} {step : Step} (h : Collecting reading step)
    (bounded : Bounded stream step) :
    Collecting (.Rounds (startsAt stream firstSet) reading) (repeating stream firstSet step) := by
  intro p parsed q hv
  rw [verdict_repeating] at hv
  rcases ht : tally p _ with e | ⟨captures, trailing, r⟩ <;> rw [ht] at hv <;> cases hv
  obtain ⟨matched, hm, caught⟩ := (loop_rounds bounded _ p).1.collects h captures trailing _ ht
  exact ⟨matched, hm, caught.collects rfl⟩

theorem collecting_items {firstSet : KindSet} {closer : TokenKind} {item : Step} (h : Collecting reading item)
    (bounded : Bounded stream item) :
    Collecting (.andThen (.Rounds (itemAt stream firstSet closer) reading) (.single stream closer none))
      (items stream firstSet closer item) := by
  intro p parsed q hv
  rw [verdict_items] at hv
  rcases ht : tally p _ with e | ⟨captures, trailing, r⟩ <;> rw [ht] at hv
  · cases hv
  · obtain ⟨front, hf, caught⟩ := (loop_rounds bounded _ p).1.collects h captures trailing r ht
    dsimp only [close] at hv
    split at hv
    · rename_i hk
      cases hv
      have caught : Catches (front ++ [⟨stream.get r, none⟩]) captures := by simpa using caught.append (.lost .nil)
      exact ⟨_, ⟨front, r, _, hf, ⟨hk, rfl, rfl⟩, rfl⟩, caught.collects rfl⟩
    · split at hv <;> cases hv

/-! ### Choices -/

theorem collecting_choice {depth : Nat} {alternatives : List Parser}
    (h : ∀ alternative ∈ alternatives,
      Collecting (alternative.reading stream policy) (run stream policy depth alternative)) :
    Collecting (readingOfChoice stream policy alternatives)
      (choice stream policy (branchesOf stream policy depth alternatives)) := by
  intro p parsed q hv
  rw [verdict_choice, candidates_eq] at hv
  have alone : ∀ alternative : Parser, (run stream policy depth alternative p).result.isOk =
      (alternative.parseAt stream policy p).result.isOk := by
    intro alternative
    rw [← Outcome.isOk_verdict, run_depth alternative depth 0, Outcome.isOk_verdict]
    rfl
  obtain ⟨winner, hw, hv⟩ := inTurn_winner hv
  obtain ⟨matched, hm, collected⟩ := h winner (mem_of_mem_contenders (List.mem_of_find?_eq_some hw)) p parsed q hv
  simp only [alone] at hw
  exact ⟨matched, readingOfChoice_iff.2 ⟨winner, hw, hm⟩, collected⟩

end Step

/-! ## Parsers -/

section Parsers
variable {stream : TokenStream} {policy : Alternation} {parser : Parser}

/-- What the body of a parser collects once, a run of the parser collects as often as it occurs. -/
theorem collecting_run {depth : Nat} {once : Reading}
    (h : Step.Collecting once (Step.finished stream parser.traits (body stream policy depth parser))) :
    Step.Collecting (.occurring stream parser once) (run stream policy depth parser) := by
  intro p parsed q hv
  have bounded : Step.Bounded stream (Step.finished stream parser.traits (body stream policy depth parser)) :=
    bounded_finished (body_bounded stream policy parser depth)
  unfold Reading.occurring
  cases hs : Step.startsAt stream parser.firstSet p with
  | true =>
    rw [run, verdict_enclosed_of_startsAt hs] at hv
    simp only [if_true]
    split at hv
    · rename_i hr
      simp only [hr, if_true]
      exact Step.collecting_repeating h bounded p parsed q hv
    · rename_i hr
      simp only [hr]
      exact h p parsed q hv
  | false =>
    rw [verdict_run_of_not_startsAt hs] at hv
    split at hv
    · rename_i he
      cases hv
      exact ⟨[], by simp [he], Catches.nil.collects rfl⟩
    · cases hv

/-- Whether the parser is for the token that ends the input. -/
def isEof : Parser → Bool
  | .token kind _ => kind = .eof
  | _ => false

/-- No token parser in it is for the end of the input. -/
def TokensOnly (parser : Parser) : Prop :=
  parser.Throughout fun part => part.isEof = false

instance (parser : Parser) : Decidable parser.TokensOnly :=
  inferInstanceAs (Decidable (parser.Throughout _))

theorem Unreduced.plain (h : parser.Unreduced) : parser.traits.reduction = none :=
  Option.isNone_iff_eq_none.1 h.self

variable (stream policy) in
/-- A run without reductions collects what it matches. -/
theorem run_collecting (unreduced : parser.Unreduced) (tokens : parser.TokensOnly) :
    ∀ depth, Step.Collecting (parser.reading stream policy) (run stream policy depth parser) := by
  induction parser with
  | token kind traits =>
    intro depth
    have hk : kind ≠ .eof := by simpa [isEof] using tokens.self
    exact collecting_run (Step.collecting_token hk unreduced.plain)
  | sequence parts traits ih =>
    intro depth
    apply collecting_run
    rw [body_sequence]
    exact Step.collecting_finished
      (Step.collecting_inOrder (fun part hp => ih part hp (unreduced.sequence hp) (tokens.sequence hp) _) [])
      unreduced.plain
  | choice alternatives traits ih =>
    intro depth
    apply collecting_run
    rw [body_choice]
    exact Step.collecting_finished
      (Step.collecting_choice fun part hp => ih part hp (unreduced.choice hp) (tokens.choice hp) _) unreduced.plain
  | items item closer traits ih =>
    intro depth
    exact collecting_run (Step.collecting_finished
      (Step.collecting_items (ih unreduced.items tokens.items _) (bounded_enclosed stream (body_bounded _ _ _ _)))
      unreduced.plain)

end Parsers

/-! ## Tagged tokens -/

/-- Whether the parser has a tag for each token that it takes itself; the closing token of items never has one. -/
def tagsOwn : Parser → Bool
  | .token _ traits => traits.tag.isSome
  | .items _ _ _ => false
  | .sequence _ _ | .choice _ _ => true

/-- Each token parser in it has a tag, and there are no items up to a closing token. -/
def Tagged (parser : Parser) : Prop :=
  parser.Throughout fun part => part.tagsOwn = true

instance (parser : Parser) : Decidable parser.Tagged :=
  inferInstanceAs (Decidable (parser.Throughout _))

theorem Tagged.reading {parser : Parser} (h : parser.Tagged) {stream : TokenStream} {policy : Alternation} :
    ∀ p matched q, parser.reading stream policy p matched q → ∀ m ∈ matched, m.tag.isSome = true := by
  have composes : Composes fun _ matched _ => ∀ m ∈ matched, m.tag.isSome = true := {
    nil := fun _ _ hm => nomatch hm
    append := fun first rest => List.forall_mem_append.2 ⟨first, rest⟩ }
  refine composes.reading fun part hp p own => List.forall_mem_singleton.2 ?_
  have tagged := h part hp
  cases part with
  | token kind traits => exact tagged
  | items item closer traits => cases tagged
  | sequence parts traits | choice alternatives traits => cases own

/-- Where a parser without reductions, and without token parsers for the end of input, succeeds, its captures are tokens
that it went over, in their order. If its tokens all have tags and it has no items up to a closing token, then its
captures are all these tokens, once each, under the tag of the token parser that matched it in the one reading of the
run. -/
theorem captures_matched (parser : Parser) (unreduced : parser.Unreduced) (real : parser.TokensOnly)
    (tokens : List Token) (policy : Alternation) (start : Nat) (parsed : Parsed)
    (h : (parser.parseAt (.ofList tokens) policy start).result = .ok parsed) :
    let stop := (parser.parseAt (.ofList tokens) policy start).position
    let passed := (tokens.drop start).take (stop - start)
    (∃ caught : List Token, caught.Sublist passed ∧ parsed.captures.map (·.node) = caught.map .token) ∧
      (parser.Tagged → ∃ matched,
        (∀ others, parser.reading (.ofList tokens) policy start others stop ↔ others = matched) ∧
        matched.map (·.token) = passed ∧
        parsed.captures.map (fun capture => (capture.node, some capture.tag)) =
          matched.map fun m => (.token m.token, m.tag)) := by
  intro stop passed
  obtain ⟨matched, hm, caught, -⟩ := run_collecting (.ofList tokens) policy unreduced real 0 start parsed stop
    (Outcome.verdict_of_result_ok h)
  have covered : (matched.map (·.token)).filter (!·.isEof) = passed := (reading_covers hm).2
  constructor
  · rw [← covered]
    exact caught.sublist
  · intro tagged
    obtain ⟨inside, all⟩ := caught.all (tagged.reading start matched stop hm)
    have only : ∀ others, parser.reading (.ofList tokens) policy start others stop ↔ others = matched :=
      fun others => ⟨fun ho => (reading_unique _ _ _ _ _ _ _ _ ho hm).1, fun he => he ▸ hm⟩
    refine ⟨matched, only, ?_, all⟩
    rw [← covered, List.filter_eq_self.2]
    simpa using inside

/-- Numbers and words, any number of them. -/
def literals : Parser :=
  (anyOf [(expect .number).withTag "value", (expect .identifier).withTag "name"]).many

theorem captures_matched_literals :
    let tokens : List Token := [⟨.number, "1", ⟨0, 1⟩⟩, ⟨.identifier, "a", ⟨1, 2⟩⟩, ⟨.comma, ",", ⟨2, 3⟩⟩]
    let run := literals.parseAt (.ofList tokens) .firstSet 0
    run.position = 2 ∧ run.result = .ok
        { captures := [⟨"value", .token ⟨.number, "1", ⟨0, 1⟩⟩⟩, ⟨"name", .token ⟨.identifier, "a", ⟨1, 2⟩⟩⟩]
          trailing := [.number, .identifier] } ∧
      ∃ matched, literals.reading (.ofList tokens) .firstSet 0 matched run.position ∧
        matched.map (·.token) = tokens.take 2 ∧ matched.map (·.tag) = [some "value", some "name"] := by
  intro tokens run
  have position : run.position = 2 := by cbv
  have succeeds : run.result = .ok
      { captures := [⟨"value", .token ⟨.number, "1", ⟨0, 1⟩⟩⟩, ⟨"name", .token ⟨.identifier, "a", ⟨1, 2⟩⟩⟩]
        trailing := [.number, .identifier] } := by cbv
  have passed : (tokens.drop 0).take (run.position - 0) = tokens.take 2 := by rw [position]; rfl
  obtain ⟨-, all⟩ := captures_matched literals (by decide) (by decide) tokens .firstSet 0 _ succeeds
  obtain ⟨matched, hm, ht, hc⟩ := all (by decide)
  have tags := congrArg (List.map Prod.snd) hc
  rw [List.map_map, List.map_map] at tags
  exact ⟨position, succeeds, matched, (hm matched).2 rfl, ht.trans passed, tags.symm⟩

end FuncIR.Parser
