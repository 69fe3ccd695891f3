import FuncIR.Proofs.Parser.Progress
import FuncIR.Proofs.Token.Stream
import Mathlib.Computability.Language

/-!
# Languages of parsers

`Parser.language` is what a parser declares, as words over token kinds: parts follow each other, alternatives are
joined, and a parser occurs as often as its traits say; it accepts the empty input exactly if it has the empty word
(`acceptsEmpty_iff`). A step is `Sound` for a language if it succeeds only behind a word of it. Each combinator keeps
this, so a run that succeeds has consumed a word of the parser's language (`parseAt_consumes`). The end of input stands
in a word as often as it was matched, though it is never left.
-/

namespace FuncIR.Parser

open scoped Computability

/-! ## What a parser declares -/

/-- The words of a parser, from those of its body. -/
def Traits.occurring (traits : Traits) (l : Language TokenKind) : Language TokenKind :=
  (if traits.optional then 1 else 0) + if traits.repeated then l * l∗ else l

mutual

/-- The words that a parser stands for. The end of input is a kind like any other here. -/
def language : Parser → Language TokenKind
  | .token kind traits => traits.occurring {[kind]}
  | .sequence parts traits => traits.occurring (languageOfSequence parts)
  | .choice alternatives traits => traits.occurring (languageOfChoice alternatives)
  | .items item closer traits => traits.occurring ((language item)∗ * {[closer]})

def languageOfSequence : List Parser → Language TokenKind
  | [] => 1
  | part :: parts => language part * languageOfSequence parts

def languageOfChoice : List Parser → Language TokenKind
  | [] => 0
  | alternative :: alternatives => language alternative + languageOfChoice alternatives

end

theorem mem_languageOfChoice {alternatives : List Parser} {alternative : Parser} {word : List TokenKind}
    (ha : alternative ∈ alternatives) (h : word ∈ alternative.language) : word ∈ languageOfChoice alternatives := by
  induction alternatives with
  | nil => cases ha
  | cons other others ih =>
    rcases List.mem_cons.1 ha with rfl | ha
    · exact .inl h
    · exact .inr (ih ha)

/-- A single occurrence is always allowed. -/
theorem Traits.mem_occurring {traits : Traits} {l : Language TokenKind} {word : List TokenKind} (h : word ∈ l) :
    word ∈ traits.occurring l := by
  refine .inr ?_
  split
  · rw [← List.append_nil word]
    exact Language.append_mem_mul h (Language.nil_mem_kstar l)
  · exact h

/-! ## The empty word -/

theorem nil_mem_mul {l m : Language TokenKind} : [] ∈ l * m ↔ [] ∈ l ∧ [] ∈ m := by
  constructor
  · intro h
    obtain ⟨a, ha, b, hb, hab⟩ := Language.mem_mul.1 h
    obtain ⟨rfl, rfl⟩ := List.append_eq_nil_iff.1 hab
    exact ⟨ha, hb⟩
  · rintro ⟨hl, hm⟩
    exact Language.append_mem_mul hl hm

theorem nil_mem_occurring {traits : Traits} {l : Language TokenKind} :
    [] ∈ traits.occurring l ↔ traits.optional = true ∨ [] ∈ l := by
  have hr : [] ∈ (if traits.repeated then l * l∗ else l) ↔ [] ∈ l := by
    split
    · simp [nil_mem_mul, Language.nil_mem_kstar]
    · rfl
  rw [Traits.occurring, Language.mem_add, hr]
  cases traits.optional <;> simp [Language.notMem_zero]

theorem allAcceptEmpty_iff {parts : List Parser}
    (h : ∀ part ∈ parts, part.acceptsEmpty = true ↔ [] ∈ part.language) :
    allAcceptEmpty parts = true ↔ [] ∈ languageOfSequence parts := by
  induction parts with
  | nil => simp [allAcceptEmpty, languageOfSequence]
  | cons part parts ih =>
    rw [allAcceptEmpty, Bool.and_eq_true, languageOfSequence, nil_mem_mul, h part List.mem_cons_self,
      ih fun other ho => h other (List.mem_cons_of_mem _ ho)]

theorem anyAcceptsEmpty_iff {alternatives : List Parser}
    (h : ∀ alternative ∈ alternatives, alternative.acceptsEmpty = true ↔ [] ∈ alternative.language) :
    anyAcceptsEmpty alternatives = true ↔ [] ∈ languageOfChoice alternatives := by
  induction alternatives with
  | nil => simp [anyAcceptsEmpty, languageOfChoice, Language.notMem_zero]
  | cons alternative alternatives ih =>
    rw [anyAcceptsEmpty, Bool.or_eq_true, languageOfChoice, Language.mem_add, h alternative List.mem_cons_self,
      ih fun other ho => h other (List.mem_cons_of_mem _ ho)]

/-- A parser accepts the empty input exactly if the empty word is in its language. -/
theorem acceptsEmpty_iff (parser : Parser) : parser.acceptsEmpty = true ↔ [] ∈ parser.language := by
  induction parser with
  | token kind traits =>
    rw [acceptsEmpty, language, nil_mem_occurring]
    exact (or_iff_left fun hk => by cases hk).symm
  | sequence parts traits ih =>
    rw [acceptsEmpty, Bool.or_eq_true, language, nil_mem_occurring, allAcceptEmpty_iff ih]
  | choice alternatives traits ih =>
    rw [acceptsEmpty, Bool.or_eq_true, language, nil_mem_occurring, anyAcceptsEmpty_iff ih]
  | items item closer traits _ =>
    rw [acceptsEmpty, language, nil_mem_occurring, nil_mem_mul]
    exact (or_iff_left fun hc => by cases hc.2).symm

/-! ## What a run consumes -/

/-- From `p` on, the kinds of the stream up to `q` are these. The end of input may be read again and again. -/
inductive Consumes (stream : TokenStream) : Nat → List TokenKind → Nat → Prop
  | nil {p : Nat} : Consumes stream p [] p
  | cons {p q : Nat} {word : List TokenKind} : Consumes stream (stream.next p) word q →
      Consumes stream p ((stream.get p).kind :: word) q

namespace Consumes
variable {stream : TokenStream} {p q r : Nat} {a b : List TokenKind}

theorem trans (h : Consumes stream p a q) (h' : Consumes stream q b r) : Consumes stream p (a ++ b) r := by
  induction h with
  | nil => exact h'
  | cons _ ih => exact .cons (ih h')

theorem single {kind : TokenKind} (h : (stream.get p).kind = kind) : Consumes stream p [kind] (stream.next p) :=
  h ▸ .cons .nil

/-- What was consumed of a token list, but for the ends of input. -/
theorem slice {tokens : List Token} (h : Consumes (.ofList tokens) p a q) :
    p ≤ q ∧ q ≤ max p tokens.length ∧
      a.filter (· ≠ .eof) = ((tokens.drop p).take (q - p)).map (·.kind) := by
  induction h with
  | nil => simp
  | @cons p q word _ ih =>
    cases he : ((TokenStream.ofList tokens).get p).isEof with
    | true =>
      have hk : ((TokenStream.ofList tokens).get p).kind = .eof := by simpa [Token.isEof] using he
      rw [TokenStream.next, if_pos he] at ih
      simpa [hk] using ih
    | false =>
      have hk : ((TokenStream.ofList tokens).get p).kind ≠ .eof := by simpa [Token.isEof] using he
      rw [TokenStream.next, he, if_neg (by simp)] at ih
      obtain ⟨hp, hq, hw⟩ := ih
      have hl := lt_length_of_not_eof he
      have hn : q - p = (q - (p + 1)) + 1 := by omega
      refine ⟨by omega, by omega, ?_⟩
      rw [drop_eq_cons he, hn, List.take_succ_cons, List.map_cons, ← hw, List.filter_cons_of_pos (by simpa using hk)]

end Consumes

/-! ## Sound steps -/

namespace Step
variable {stream : TokenStream} {l m : Language TokenKind}

/-- Where the step succeeds, it has consumed a word of `l`. -/
def Sound (stream : TokenStream) (l : Language TokenKind) (step : Step) : Prop :=
  ∀ p parsed q, (step p).verdict = .ok (parsed, q) → ∃ word ∈ l, Consumes stream p word q

theorem sound_token (kind : TokenKind) : Sound stream {[kind]} (token stream kind) := by
  intro p parsed q h
  rw [verdict_token] at h
  split at h
  · rename_i hk
    cases h
    exact ⟨[kind], rfl, .single hk⟩
  · cases h

/-- The parts consume one word after the other, whatever is pending. -/
theorem sound_inOrder {parts : List Parser} {run : Parser → Step}
    (h : ∀ part ∈ parts, Sound stream part.language (run part)) :
    ∀ pending, Sound stream (languageOfSequence parts) (inOrder pending (parts.map run)) := by
  induction parts with
  | nil =>
    intro pending p parsed q hv
    cases hv
    exact ⟨[], rfl, .nil⟩
  | cons part parts ih =>
    intro pending p parsed q hv
    rw [List.map_cons, verdict_inOrder] at hv
    rcases hp : (run part p).verdict with e | ⟨first, r⟩ <;> rw [hp] at hv
    · cases hv
    · dsimp only at hv
      rcases hr : (inOrder _ (parts.map run) r).verdict with e | ⟨others, s⟩ <;> rw [hr] at hv <;> cases hv
      obtain ⟨a, ha, first⟩ := h part List.mem_cons_self p _ r hp
      obtain ⟨b, hb, rest⟩ := ih (fun other ho => h other (List.mem_cons_of_mem _ ho)) _ r _ _ hr
      exact ⟨a ++ b, Language.append_mem_mul ha hb, first.trans rest⟩

theorem sound_finished {traits : Traits} {body : Step} (h : Sound stream l body) :
    Sound stream l (finished stream traits body) := by
  intro p parsed q hv
  rw [verdict_finished] at hv
  rcases hb : (body p).verdict with e | ⟨inner, r⟩ <;> rw [hb] at hv
  · cases hv
  · dsimp only at hv
    split at hv <;> cases hv
    exact h p inner _ hb

/-! ### Loops -/

/-- The rounds of a loop consumed a word of the language. -/
def TalliesIn (stream : TokenStream) (l : Language TokenKind) (p : Nat) (rounds : List Outcome) : Prop :=
  ∀ captures trailing q, tally p rounds = .ok (captures, trailing, q) → ∃ word ∈ l, Consumes stream p word q

/-- A loop whose first round is wanted has at least one; the later ones add to it. -/
theorem talliesIn_succ {wanted : Nat → Bool} {step : Step} {bound p : Nat} (h : Sound stream l step)
    (later : ∀ q, TalliesIn stream l∗ q (roundsWithin wanted step bound q)) (hw : wanted p = true) :
    TalliesIn stream (l * l∗) p (roundsWithin wanted step (bound + 1) p) := by
  intro captures trailing q ht
  rw [tally_roundsWithin, if_pos hw] at ht
  rcases hv : (step p).verdict with e | ⟨parsed, r⟩ <;> rw [hv] at ht
  · cases ht
  · obtain ⟨a, ha, first⟩ := h p parsed r hv
    dsimp only at ht
    by_cases hr : p < r
    · rw [if_pos hr] at ht
      rcases hl : tally r (roundsWithin wanted step bound r) with e | ⟨others, rest, s⟩ <;> rw [hl] at ht <;> cases ht
      obtain ⟨b, hb, more⟩ := later r _ _ _ hl
      exact ⟨a ++ b, Language.append_mem_mul ha hb, first.trans more⟩
    · rw [if_neg hr, tally_nil] at ht
      cases ht
      refine ⟨a ++ [], Language.append_mem_mul ha (Language.nil_mem_kstar l), ?_⟩
      rwa [List.append_nil]

theorem talliesIn_kstar {wanted : Nat → Bool} {step : Step} (h : Sound stream l step) (bound : Nat) :
    ∀ p, TalliesIn stream l∗ p (roundsWithin wanted step bound p) := by
  induction bound with
  | zero =>
    intro p captures trailing q ht
    cases ht
    exact ⟨[], Language.nil_mem_kstar l, .nil⟩
  | succ bound ih =>
    intro p captures trailing q ht
    cases hw : wanted p with
    | true =>
      obtain ⟨word, hm, hc⟩ := talliesIn_succ h ih hw captures trailing q ht
      refine ⟨word, ?_, hc⟩
      rw [← Language.one_add_self_mul_kstar_eq_kstar]
      exact .inr hm
    | false =>
      rw [tally_roundsWithin, if_neg (by simp [hw])] at ht
      cases ht
      exact ⟨[], Language.nil_mem_kstar l, .nil⟩

/-- A repetition has at least one round where it can start. -/
theorem repeating_consumes {firstSet : KindSet} {step : Step} (h : Sound stream l step) {p q : Nat} {parsed : Parsed}
    (hs : startsAt stream firstSet p = true) (hv : (repeating stream firstSet step p).verdict = .ok (parsed, q)) :
    ∃ word ∈ l * l∗, Consumes stream p word q := by
  rw [verdict_repeating, rounds] at hv
  rcases ht : tally p _ with e | ⟨captures, trailing, r⟩ <;> rw [ht] at hv <;> cases hv
  exact talliesIn_succ h (talliesIn_kstar h _) hs captures trailing _ ht

theorem sound_items {firstSet : KindSet} {closer : TokenKind} {item : Step} (h : Sound stream l item) :
    Sound stream (l∗ * {[closer]}) (items stream firstSet closer item) := by
  intro p parsed q hv
  rw [verdict_items, rounds] at hv
  rcases ht : tally p _ with e | ⟨captures, trailing, r⟩ <;> rw [ht] at hv
  · cases hv
  · obtain ⟨word, hm, hc⟩ := talliesIn_kstar h _ p captures trailing r ht
    dsimp only [close] at hv
    split at hv
    · rename_i hk
      cases hv
      exact ⟨word ++ [closer], Language.append_mem_mul hm rfl, hc.trans (.single hk)⟩
    · split at hv <;> cases hv

/-! ### Choices -/

/-- A success among several alternatives is the success of one of them. -/
theorem exists_of_inTurn {alternatives : List Step} {p index : Nat} {best : Option ParseError} {value : Parsed × Nat}
    (h : (inTurn stream index best alternatives p).verdict = .ok value) :
    ∃ alternative ∈ alternatives, (alternative p).verdict = .ok value := by
  revert h
  exact inTurn_holds (P := fun v => v = .ok value → ∃ alternative ∈ alternatives, (alternative p).verdict = .ok value)
    (fun alternative ha hv => ⟨alternative, ha, hv⟩) index best (by simp) (by simp)

theorem sound_choice {policy : Alternation} {depth : Nat} {alternatives : List Parser}
    (h : ∀ alternative ∈ alternatives, Sound stream alternative.language (run stream policy depth alternative)) :
    Sound stream (languageOfChoice alternatives)
      (choice stream policy (branchesOf stream policy depth alternatives)) := by
  intro p parsed q hv
  rw [verdict_choice] at hv
  obtain ⟨step, hm, hv⟩ := exists_of_inTurn hv
  obtain ⟨alternative, ha, rfl⟩ := exists_of_mem_candidates hm
  obtain ⟨word, hw, hc⟩ := h alternative ha p parsed q hv
  exact ⟨word, mem_languageOfChoice ha hw, hc⟩

end Step

/-! ## Parsers -/

theorem sound_enclosed {stream : TokenStream} {depth : Nat} {parser : Parser} {body : Step}
    {l : Language TokenKind} (h : Step.Sound stream l body) (hl : parser.language = parser.traits.occurring l) :
    Step.Sound stream parser.language (enclosed stream depth parser body) := by
  intro p parsed q hv
  have once : Step.Sound stream l (Step.finished stream parser.traits body) := Step.sound_finished h
  cases hs : Step.startsAt stream parser.firstSet p with
  | true =>
    rw [verdict_enclosed_of_startsAt hs] at hv
    rw [hl, Traits.occurring]
    split at hv
    · rename_i hr
      obtain ⟨word, hm, hc⟩ := Step.repeating_consumes once hs hv
      rw [if_pos hr]
      exact ⟨word, .inr hm, hc⟩
    · rename_i hr
      obtain ⟨word, hm, hc⟩ := once p parsed q hv
      rw [if_neg hr]
      exact ⟨word, .inr hm, hc⟩
  | false =>
    rw [enclosed, Step.verdict_guarded, hs, if_neg (by simp)] at hv
    split at hv
    · rename_i he
      cases hv
      exact ⟨[], (acceptsEmpty_iff parser).1 he, .nil⟩
    · cases hv

/-- A run that succeeds has consumed a word of the language of its parser. -/
theorem run_sound (stream : TokenStream) (policy : Alternation) (parser : Parser) :
    ∀ depth, Step.Sound stream parser.language (run stream policy depth parser) := by
  induction parser with
  | token kind traits =>
    intro depth
    rw [run_token]
    exact sound_enclosed (Step.sound_token kind) rfl
  | sequence parts traits ih =>
    intro depth
    rw [run_sequence]
    exact sound_enclosed (Step.sound_inOrder (fun part hp => ih part hp _) []) rfl
  | choice alternatives traits ih =>
    intro depth
    rw [run_choice]
    exact sound_enclosed (Step.sound_choice fun alternative ha => ih alternative ha _) rfl
  | items item closer traits ih =>
    intro depth
    rw [run_items]
    exact sound_enclosed (Step.sound_items (ih _)) rfl

/-- Where a parser succeeds, the tokens that it went over are a word of its language, but for the ends of input in
that word: these are matched in place. -/
theorem parseAt_consumes (parser : Parser) (tokens : List Token) (policy : Alternation) (start : Nat)
    (parsed : Parsed) (h : (parser.parseAt (.ofList tokens) policy start).result = .ok parsed) :
    let stop := (parser.parseAt (.ofList tokens) policy start).position
    start ≤ stop ∧ stop ≤ max start tokens.length ∧ ∃ word ∈ parser.language,
      word.filter (· ≠ .eof) = ((tokens.drop start).take (stop - start)).map (·.kind) := by
  have hv := Outcome.verdict_of_result_ok h
  obtain ⟨word, hm, hc⟩ := run_sound (.ofList tokens) policy parser 0 start parsed _ hv
  obtain ⟨hp, hq, hw⟩ := hc.slice
  exact ⟨hp, hq, word, hm, hw⟩

/-- The end of input twice, after a number. -/
def ending : Parser :=
  inOrder [expect .number, expect .eof, expect .eof]

theorem parseAt_consumes_ending :
    let run := ending.parseAt (.ofList [⟨.comma, ",", ⟨0, 1⟩⟩, ⟨.number, "1", ⟨1, 2⟩⟩]) .firstSet 1
    run.result = .ok {} ∧ run.position = 2 ∧ ∃ word ∈ ending.language, word.filter (· ≠ .eof) = [.number] := by
  obtain ⟨-, -, hw⟩ :=
    parseAt_consumes ending [⟨.comma, ",", ⟨0, 1⟩⟩, ⟨.number, "1", ⟨1, 2⟩⟩] .firstSet 1 _ rfl
  exact ⟨rfl, rfl, hw⟩

end FuncIR.Parser
