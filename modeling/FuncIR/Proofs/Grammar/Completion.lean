import FuncIR.Proofs.Grammar.Recognition
import FuncIR.Proofs.Grammar.Tree

/-!
# Runs on words

Where a stream holds a word that has a tree, the rule of the tree succeeds, stops behind the word and builds the node
at the root (`FunctionTree.reduces` and its like), whatever stands behind. So a token list is read as a file exactly if
its tokens before the end of input have a tree (`parseTokens_eq_ok_iff`). The parts of a rule are put in front of each
other, each over its tokens (`Completes.expect`, `Completes.gap`, `Completes.cons`), and loops go lap by lap (`Laps`).
-/

namespace FuncIR

open FuncIR.Parser

/-! ## Words in a stream -/

/-- The stream holds these tokens from a position on. -/
def Stands (stream : TokenStream) : Nat → List Token → Prop
  | _, [] => True
  | p, first :: rest => stream.get p = first ∧ Stands stream (p + 1) rest

namespace Stands
variable {stream : TokenStream} {p : Nat} {token : Token} {word a b : List Token}

theorem append_iff : Stands stream p (a ++ b) ↔ Stands stream p a ∧ Stands stream (p + a.length) b := by
  induction a generalizing p with
  | nil => simp [Stands]
  | cons token a ih =>
    rw [List.cons_append, Stands, Stands, ih, List.length_cons, and_assoc, Nat.add_right_comm, Nat.add_assoc]

theorem ofList (before word after : List Token) :
    Stands (.ofList (before ++ (word ++ after))) before.length word := by
  induction word generalizing before with
  | nil => trivial
  | cons token word ih =>
    have hs := ih (before ++ [token])
    rw [List.append_assoc, List.singleton_append, List.length_append, List.length_singleton] at hs
    exact ⟨get_append before (word ++ after) token, hs⟩

theorem head_eq (h : Stands stream p word) (ht : token ∈ word.head?) : stream.get p = token := by
  cases word with
  | nil => cases ht
  | cons first word =>
    obtain rfl := Option.some.inj ht
    exact h.1

theorem stop_eq (h : Stands stream p (token :: word)) :
    (stream.get (p + word.length)).span.stop = (((token :: word).getLast?.map (·.span.stop)).getD 0) := by
  induction word generalizing p token with
  | nil => simp [h.1]
  | cons other word ih =>
    have hs := ih h.2
    rwa [Nat.add_assoc, Nat.add_comm 1, ← List.length_cons (a := other), ← List.getLast?_cons_cons (a := token)] at hs

theorem spanOf_eq (h : Stands stream p word) (hw : word ≠ []) :
    stream.spanOf p (p + word.length) = .cover word := by
  cases word with
  | nil => exact absurd rfl hw
  | cons token word =>
    have hl : p < p + (token :: word).length := by simp
    rw [TokenStream.spanOf, if_pos hl, Span.cover, List.length_cons, ← Nat.add_assoc, Nat.add_sub_cancel, h.stop_eq,
      h.1]
    rfl

end Stands

/-! ## Parts that succeed -/

section Runs
variable (stream : TokenStream) (policy : Alternation) (depth : Nat)

/-- Wherever the word stands, the parts in a row go over it and hand on these captures, whatever is pending. -/
def Completes (parts : List Parser) (word : List Token) (captures : List Capture) : Prop :=
  ∀ p, Stands stream p word → ∀ pending, ∃ trailing,
    (Step.inOrder pending (parts.map (run stream policy depth)) p).verdict =
      .ok (⟨none, captures, trailing⟩, p + word.length)

/-- Wherever the word stands, the rule goes over it and builds the node. -/
def Reduces (rule : Parser) (word : List Token) (node : SyntaxNode) : Prop :=
  ∀ p, Stands stream p word → (stream.get p).kind ∈ rule.firstSet ∧ ∃ captures trailing reduction,
    (body stream policy depth rule p).verdict = .ok (⟨none, captures, trailing⟩, p + word.length) ∧
      rule.traits.reduction = some reduction ∧ reduction (stream.spanOf p (p + word.length)) captures = .ok node

end Runs

variable {stream : TokenStream} {policy : Alternation} {depth : Nat} {word a b : List Token}
  {part : Parser} {parts : List Parser} {captures c d : List Capture}

theorem completes_nil : Completes stream policy depth [] [] [] :=
  fun _ _ pending => ⟨pending, rfl⟩

/-- One more part in front, where the stream also holds what stands behind its tokens. -/
theorem Completes.cons (h : ∀ p, Stands stream p (a ++ b) → ∃ found trailing,
      (run stream policy depth part p).verdict = .ok (⟨found, c, trailing⟩, p + a.length))
    (h' : Completes stream policy depth parts b d) :
    Completes stream policy depth (part :: parts) (a ++ b) (c ++ d) := by
  intro p hs pending
  obtain ⟨found, trailing, hv⟩ := h p hs
  rw [List.map_cons, Step.verdict_inOrder, hv]
  obtain ⟨last, hv'⟩ := h' (p + a.length) (Stands.append_iff.1 hs).2 _
  refine ⟨last, ?_⟩
  dsimp only
  rw [hv', List.length_append, ← Nat.add_assoc]
  rfl

theorem verdict_token {kind : TokenKind} {traits : Traits} {p : Nat} (hk : (stream.get p).kind = kind)
    (he : kind ≠ .eof) (hr : traits.repeated = false) (hd : traits.reduction = none) :
    (run stream policy depth (.token kind traits) p).verdict =
      .ok (({ node := some (.token (stream.get p)) } : Parsed).captureAs traits.tag, p + 1) := by
  have hn : (stream.get p).isEof = false := by simpa [Token.isEof, hk] using he
  have hs : Step.startsAt stream (Parser.token kind traits).firstSet p = true := by
    rw [startsAt_iff, hk]
    exact List.mem_singleton_self _
  rw [run_token, verdict_enclosed_of_startsAt hs]
  simp only [Parser.traits, hr, Bool.false_eq_true, if_false, Step.verdict_finished, Step.verdict_token, hk, if_true,
    hd, Parsed.reduceBy, TokenStream.next, hn]

section Tokens
variable {kind : TokenKind} {token : Token}

theorem Completes.expect (hk : token.kind = kind) (h : Completes stream policy depth parts word captures)
    (he : kind ≠ .eof := by decide) :
    Completes stream policy depth (Parser.expect kind :: parts) (token :: word) captures := by
  refine Completes.cons (a := [token]) (c := []) (fun p hs => ?_) h
  exact ⟨_, _, verdict_token (hs.1 ▸ hk) he rfl rfl⟩

theorem Completes.capture (tag : String) (hk : token.kind = kind)
    (h : Completes stream policy depth parts word captures) (he : kind ≠ .eof := by decide) :
    Completes stream policy depth ((Parser.expect kind).withTag tag :: parts) (token :: word)
      (⟨tag, .token token⟩ :: captures) := by
  refine Completes.cons (a := [token]) (c := [⟨tag, .token token⟩]) (fun p hs => ?_) h
  obtain rfl := hs.1
  exact ⟨_, _, verdict_token hk he rfl rfl⟩

end Tokens

/-- A part that may be absent, before a token that it cannot start with. -/
theorem verdict_absent {p : Nat} {token : Token} (hs : Stands stream p word) (ht : token ∈ word.head?)
    (hf : token.kind ∉ part.firstSet) (he : part.acceptsEmpty = true) :
    (run stream policy depth part p).verdict = .ok (⟨none, [], part.firstSet⟩, p) := by
  have hn : Step.startsAt stream part.firstSet p = false := by simpa [Step.startsAt, hs.head_eq ht] using hf
  rw [verdict_run_of_not_startsAt hn, if_pos he]

theorem Completes.absent {token : Token} (ht : token ∈ word.head?) (hf : token.kind ∉ part.firstSet)
    (he : part.acceptsEmpty = true) (h : Completes stream policy depth parts word captures) :
    Completes stream policy depth (part :: parts) word captures :=
  Completes.cons (a := []) (c := []) (fun _ hs => ⟨_, _, verdict_absent hs ht hf he⟩) h

theorem Completes.gap {blank : List Token} (hg : Gap blank) (greedy : Greedy blank word)
    (h : Completes stream policy depth parts word captures) :
    Completes stream policy depth ((Parser.expect .whitespace).optional :: parts) (blank ++ word) captures := by
  cases hg with
  | blank hb =>
    refine Completes.cons (c := []) (fun p hs => ?_) h
    exact ⟨_, _, verdict_token (hs.1 ▸ hb) (by decide) rfl rfl⟩
  | none =>
    obtain ⟨token, ht, hk⟩ := greedy rfl
    exact h.absent ht (List.mem_singleton.not.2 hk) rfl

/-! ## Rules -/

section Rules
variable {parser : Parser} {node : SyntaxNode}

theorem Completes.reduces {traits : Traits} {reduction : Reduction} {token : Token}
    (h : Completes stream policy (depth + 1) parts word c) (ht : token ∈ word.head?)
    (hf : token.kind ∈ firstSetOfSequence parts) (hd : traits.reduction = some reduction)
    (hn : reduction (.cover word) c = .ok node) :
    Reduces stream policy depth (.sequence parts traits) word node := by
  intro p hs
  obtain ⟨trailing, hv⟩ := h p hs []
  have hw : word ≠ [] := List.ne_nil_of_mem (List.mem_of_head? ht)
  refine ⟨by rwa [firstSet, hs.head_eq ht], c, trailing, reduction, ?_, hd, ?_⟩
  · rw [body, branches_eq_map, List.map_map]
    exact hv
  · rwa [hs.spanOf_eq hw]

namespace Reduces
variable (h : Reduces stream policy depth parser word node)
include h

/-- Neither how often the rule occurs nor its tag matters to the node. -/
theorem mapTraits {change : Traits → Traits}
    (hc : ∀ traits, (change traits).reduction = traits.reduction := by exact fun _ => rfl) :
    Reduces stream policy depth (parser.mapTraits change) word node := by
  intro p hs
  obtain ⟨hf, captures, trailing, reduction, hv, hd, hn⟩ := h p hs
  cases parser <;> exact ⟨hf, captures, trailing, reduction, hv, (hc _).trans hd, hn⟩

theorem finished {p : Nat} (hs : Stands stream p word) : ∃ trailing,
    (Step.finished stream parser.traits (body stream policy depth parser) p).verdict =
      .ok ((⟨some node, [], trailing⟩ : Parsed).captureAs parser.traits.tag, p + word.length) := by
  obtain ⟨-, captures, trailing, reduction, hv, hd, hn⟩ := h p hs
  refine ⟨trailing, ?_⟩
  rw [Step.verdict_finished, hv, hd]
  simp only [Parsed.reduceBy, hn]
  rfl

theorem verdict_run {p : Nat} (hs : Stands stream p word) (hr : parser.traits.repeated = false) : ∃ trailing,
    (run stream policy depth parser p).verdict =
      .ok ((⟨some node, [], trailing⟩ : Parsed).captureAs parser.traits.tag, p + word.length) := by
  obtain ⟨trailing, hv⟩ := h.finished hs
  refine ⟨trailing, ?_⟩
  rw [run, verdict_enclosed_of_startsAt (startsAt_iff.2 (h p hs).1), if_neg (by simp [hr]), hv]

theorem verdict_tagged {tag : String} {p : Nat} (hs : Stands stream p word) (hr : parser.traits.repeated = false)
    (ht : parser.traits.tag = some tag) : ∃ trailing,
    (run stream policy depth parser p).verdict = .ok (⟨none, [⟨tag, node⟩], trailing⟩, p + word.length) := by
  obtain ⟨trailing, hv⟩ := h.verdict_run hs hr
  rw [ht] at hv
  exact ⟨trailing, hv⟩

end Reduces

/-- A rule in front, whose node is captured. -/
theorem Completes.rule {tag : String} (h : Reduces stream policy depth parser a node)
    (h' : Completes stream policy depth parts b d) (hr : parser.traits.repeated = false := by rfl)
    (ht : parser.traits.tag = some tag := by rfl) :
    Completes stream policy depth (parser :: parts) (a ++ b) (⟨tag, node⟩ :: d) := by
  refine Completes.cons (c := [⟨tag, node⟩]) (fun p hs => ?_) h'
  exact ⟨none, h.verdict_tagged (Stands.append_iff.1 hs).1 hr ht⟩

end Rules

/-! ## Loops -/

/-- A loop goes from `p` to `q` and ends there, where it is no longer wanted. -/
inductive Laps (wanted : Nat → Bool) (step : Step) : Nat → List Capture → Nat → Prop
  | stop {p : Nat} : wanted p = false → Laps wanted step p [] p
  | lap {p q r : Nat} {parsed : Parsed} {captures : List Capture} : wanted p = true →
      (step p).verdict = .ok (parsed, q) → p < q → Laps wanted step q captures r →
      Laps wanted step p (parsed.captures ++ captures) r

/-- Each lap takes a token, so the bound on the rounds is never met. -/
theorem Laps.tally {wanted : Nat → Bool} {step : Step} {p q : Nat} (h : Laps wanted step p c q)
    (inside : ∀ p, wanted p = true → p < stream.size) : ∀ bound, stream.size - p < bound →
      ∃ trailing, Step.tally p (Step.roundsWithin wanted step bound p) = .ok (c, trailing, q) := by
  induction h with
  | stop hw =>
    intro bound hb
    cases bound with
    | zero => cases hb
    | succ bound => exact ⟨[], by rw [Step.tally_roundsWithin, if_neg (by simp [hw])]⟩
  | lap hw hv hl _ ih =>
    intro bound hb
    cases bound with
    | zero => cases hb
    | succ bound =>
      have hp := inside _ hw
      obtain ⟨trailing, ih⟩ := ih bound (by omega)
      rw [Step.tally_roundsWithin, if_pos hw, hv]
      simp only [if_pos hl, ih]
      exact ⟨_, rfl⟩

theorem Laps.verdict_run {parser : Parser} {p q : Nat} (hr : parser.traits.repeated = true)
    (hf : (stream.get p).kind ∈ parser.firstSet) (he : .eof ∉ parser.firstSet)
    (h : Laps (Step.startsAt stream parser.firstSet)
      (Step.finished stream parser.traits (body stream policy depth parser)) p c q) :
    ∃ trailing, (run stream policy depth parser p).verdict = .ok (⟨none, c, trailing⟩, q) := by
  obtain ⟨trailing, ht⟩ := h.tally (fun _ => lt_size_of_startsAt he) _ (Nat.lt_succ_self _)
  rw [run, verdict_enclosed_of_startsAt (startsAt_iff.2 hf), if_pos hr, Step.verdict_repeating, Step.rounds, ht]
  exact ⟨_, rfl⟩

/-! ## The rules of a function -/

theorem ParameterTree.reduces {parameter : Parameter} (h : ParameterTree word parameter) :
    Reduces stream policy depth Rule.parameterParser word (.parameter parameter) := by
  obtain ⟨hg, hn, hb, ht, hc⟩ := h
  have comma : Completes stream policy (depth + 1) _ _ _ := completes_nil.expect hc
  have type : Completes stream policy (depth + 1) _ _ _ := comma.capture "type" ht
  have blank : Completes stream policy (depth + 1) _ _ _ := type.expect hb
  have name : Completes stream policy (depth + 1) _ _ _ := blank.capture "name" hn
  have gap : Completes stream policy (depth + 1) _ _ _ := name.gap hg (greedy_cons (by simp [hn]))
  cases hg with
  | none => exact gap.reduces rfl (by rw [hn]; decide) rfl (Reduction.parameter_ok _ _)
  | blank hb => exact gap.reduces rfl (by rw [hb]; decide) rfl (Reduction.parameter_ok _ _)

theorem call_reduces {name : String} (h : CallWord word [name]) :
    Reduces stream policy depth Rule.functionCallParser word (.call ⟨name, .cover word⟩) := by
  cases h with
  | call hn ho hc =>
    have closer : Completes stream policy (depth + 1) _ _ _ := completes_nil.expect hc
    have opener : Completes stream policy (depth + 1) _ _ _ := closer.expect ho
    have name : Completes stream policy (depth + 1) _ _ _ := opener.capture "name" hn
    exact name.reduces rfl (by rw [hn]; decide) rfl (Reduction.functionCall_ok _)

theorem Gap.exists_head {gap : List Token} {closer : Token} {kind other : TokenKind} (h : Gap gap)
    (hc : closer.kind = kind) (ho : kind ≠ other) (hb : .whitespace ≠ other) :
    ∃ token ∈ (gap ++ [closer]).head?, token.kind ≠ other := by
  cases h with
  | none => exact ⟨closer, rfl, hc ▸ ho⟩
  | blank hk => exact ⟨_, rfl, hk ▸ hb⟩

/-- A call that is left out is not there. -/
theorem CallTree.completes {calls : List Call} (h : CallTree a calls)
    (next : ∃ token ∈ b.head?, token.kind ≠ .identifier) (h' : Completes stream policy depth parts b d) :
    Completes stream policy depth (Rule.functionCallParser.optional.withTag "call" :: parts) (a ++ b)
      (calls.map Call.captured ++ d) := by
  cases h with
  | none =>
    obtain ⟨token, ht, hk⟩ := next
    exact h'.absent ht (List.mem_singleton.not.2 hk) rfl
  | call hw => exact .rule (call_reduces hw).mapTraits.mapTraits h'

theorem BlockTree.reduces {block : CodeBlock} (h : BlockTree word block) :
    Reduces stream policy depth Rule.codeBlockParser word (.codeBlock block) := by
  obtain ⟨ho, hg, hw, hg', hc, greedy⟩ := h
  have closer : Completes stream policy (depth + 1) _ _ _ := completes_nil.expect hc
  have gap' : Completes stream policy (depth + 1) _ _ _ := closer.gap hg' (greedy_cons (by simp [hc]))
  have call : Completes stream policy (depth + 1) _ _ _ :=
    hw.completes (hg'.exists_head hc (by decide) (by decide)) gap'
  rw [List.append_assoc] at greedy
  have gap : Completes stream policy (depth + 1) _ _ _ := call.gap hg greedy
  have opener : Completes stream policy (depth + 1) _ _ _ := gap.expect ho
  simp only [List.append_assoc, List.singleton_append]
  exact opener.reduces rfl (by rw [ho]; decide) rfl (by simpa using Reduction.codeBlock_ok _)

/-- The loop over the parameters goes from one to the next, up to a token that none begins with. -/
theorem ParameterTrees.laps {parameters : List Parameter} {looped : Parser} (h : ParameterTrees word parameters)
    (each : ∀ word parameter, ParameterTree word parameter →
      Reduces stream policy depth looped word (.parameter parameter)) (ht : looped.traits.tag = some "parameter") :
    ∀ p, Stands stream p word → (stream.get (p + word.length)).kind ∉ looped.firstSet →
      Laps (Step.startsAt stream looped.firstSet)
        (Step.finished stream looped.traits (body stream policy depth looped)) p
        (parameters.map Parameter.captured) (p + word.length) := by
  induction h with
  | nil => exact fun p _ hn => .stop (by simpa [Step.startsAt] using hn)
  | @cons first word parameter parameters hp _ ih =>
    intro p hs hn
    obtain ⟨hfirst, hrest⟩ := Stands.append_iff.1 hs
    obtain ⟨trailing, hv⟩ := (each _ _ hp).finished hfirst
    rw [ht] at hv
    rw [List.length_append, ← Nat.add_assoc] at hn ⊢
    have := List.length_pos_iff.2 hp.ne_nil
    exact .lap (startsAt_iff.2 (each _ _ hp p hfirst).1) hv (by omega) (ih _ hrest hn)

theorem ParameterTrees.completes {parameters : List Parameter} {token : Token} (h : ParameterTrees a parameters)
    (ht : token ∈ b.head?) (hk : token.kind = .roundClose) (h' : Completes stream policy depth parts b d) :
    Completes stream policy depth (Rule.parameterParser.many.withTag "parameter" :: parts) (a ++ b)
      (parameters.map Parameter.captured ++ d) := by
  have hn : token.kind ∉ (Rule.parameterParser.many.withTag "parameter").firstSet := by rw [hk]; decide
  cases h with
  | nil => exact h'.absent ht hn rfl
  | @cons first rest parameter parameters hp hps =>
    refine Completes.cons (fun p hs => ?_) h'
    obtain ⟨hword, hb⟩ := Stands.append_iff.1 hs
    have each : ∀ word parameter, ParameterTree word parameter →
        Reduces stream policy depth (Rule.parameterParser.many.withTag "parameter") word (.parameter parameter) :=
      fun _ _ hp => hp.reduces.mapTraits.mapTraits.mapTraits
    have laps := (ParameterTrees.cons hp hps).laps each rfl p hword (by rwa [hb.head_eq ht])
    exact ⟨_, laps.verdict_run rfl (each _ _ hp p (Stands.append_iff.1 hword).1).1 (by decide)⟩

theorem FunctionTree.reduces {function : FuncDecl} (h : FunctionTree word function) :
    Reduces stream policy depth Rule.functionParser word (.function function) := by
  obtain ⟨hk, hb, hn, ho, hg, hp, hc, hg', hw, greedy⟩ := h
  obtain ⟨brace, hhead, hbrace⟩ := hw.exists_opener
  have body : Completes stream policy (depth + 1) [Rule.codeBlockParser.withTag "body"] _ _ :=
    .rule hw.reduces.mapTraits completes_nil
  rw [List.append_nil] at body
  have gap' : Completes stream policy (depth + 1) _ _ _ := body.gap hg' fun _ => ⟨brace, hhead, by simp [hbrace]⟩
  have closer : Completes stream policy (depth + 1) _ _ _ := gap'.expect hc
  have parameters : Completes stream policy (depth + 1) _ _ _ := hp.completes rfl hc closer
  have gap : Completes stream policy (depth + 1) _ _ _ :=
    parameters.gap hg (by simpa only [List.append_assoc, List.singleton_append] using greedy.append (_ ++ _))
  have opener : Completes stream policy (depth + 1) _ _ _ := gap.expect ho
  have name : Completes stream policy (depth + 1) _ _ _ := opener.capture "name" hn
  have blank : Completes stream policy (depth + 1) _ _ _ := name.expect hb
  have keyword : Completes stream policy (depth + 1) _ _ _ := blank.expect hk
  simp only [List.append_assoc, List.cons_append, List.nil_append]
  exact keyword.reduces rfl (by rw [hk]; decide) rfl (Reduction.function_ok _ _ _)

/-! ## Files -/

/-- A choice comes to its one alternative that can start. -/
theorem verdict_choice_only {alternatives : List Parser} {traits : Traits} {only : Parser} {parsed : Parsed} {p q : Nat}
    (hr : traits.repeated = false) (ht : traits.tag = none) (hd : traits.reduction = none)
    (ho : alternatives.filter (·.startsWith (stream.get p).kind) = [only])
    (hv : (run stream .firstSet (depth + 1) only p).verdict = .ok (parsed, q)) :
    (run stream .firstSet depth (.choice alternatives traits) p).verdict = .ok (parsed, q) := by
  have hm : only ∈ alternatives.filter (·.startsWith (stream.get p).kind) := by simp [ho]
  have hf : (stream.get p).kind ∈ (Parser.choice alternatives traits).firstSet := by
    obtain ⟨ha, hs⟩ := List.mem_filter.1 hm
    rw [firstSet, mem_firstSetOfChoice]
    exact ⟨only, ha, startsAt_iff.1 hs⟩
  rw [run_choice, verdict_enclosed_of_startsAt (startsAt_iff.2 hf), if_neg (by simp [Parser.traits, hr]),
    Step.verdict_finished, Step.verdict_choice, candidates_firstSet, ho, List.map_singleton, Step.verdict_inTurn, hv]
  simp only [Parser.traits, ht, hd, Parsed.reduceBy, Parsed.captureAs]

section Files
variable {layout : Layout} {p : Nat}

theorem FunctionTree.item {function : FuncDecl} (h : FunctionTree word function) (hs : Stands stream p word) :
    ∃ trailing, (run stream .firstSet depth (Rule.itemParser layout) p).verdict =
      .ok (⟨none, [function.captured], trailing⟩, p + word.length) := by
  have tagged : ∀ depth, Reduces stream .firstSet depth (Rule.functionParser.withTag "function") word
      (.function function) := fun _ => h.reduces.mapTraits
  cases layout with
  | strict => exact (tagged depth).verdict_tagged hs rfl rfl
  | spaced =>
    obtain ⟨keyword, ht, hk⟩ := h.exists_keyword
    obtain ⟨trailing, hv⟩ := (tagged (depth + 1)).verdict_tagged hs rfl rfl
    refine ⟨trailing, verdict_choice_only rfl rfl rfl ?_ hv⟩
    rw [hs.head_eq ht, hk]
    rfl

theorem blank_item (hk : (stream.get p).kind = .whitespace) : ∃ found,
    (run stream .firstSet depth (Rule.itemParser .spaced) p).verdict = .ok (⟨found, [], []⟩, p + 1) := by
  have hv : (run stream .firstSet (depth + 1) (expect .whitespace) p).verdict = _ :=
    verdict_token hk (by decide) rfl rfl
  refine ⟨_, verdict_choice_only rfl rfl rfl ?_ hv⟩
  rw [hk]
  rfl

theorem itemAt_iff {firstSet : KindSet} : Step.itemAt stream firstSet .eof p = true ↔
    (stream.get p).kind ≠ .eof ∧ (stream.get p).kind ∈ firstSet := by
  simp [Step.itemAt, Token.isEof]

theorem FileTree.laps {functions : List FuncDecl} (h : FileTree layout word functions) (depth : Nat) :
    ∀ p, Stands stream p word → (stream.get (p + word.length)).kind = .eof →
      Laps (Step.itemAt stream (Rule.itemParser layout).firstSet .eof)
        (run stream .firstSet depth (Rule.itemParser layout)) p (functions.map FuncDecl.captured)
        (p + word.length) := by
  induction h with
  | nil =>
    intro p _ he
    exact .stop (Bool.eq_false_iff.2 fun hi => (itemAt_iff.1 hi).1 he)
  | @function first word function functions hf _ ih =>
    intro p hs he
    obtain ⟨hfirst, hrest⟩ := Stands.append_iff.1 hs
    obtain ⟨keyword, ht, hk⟩ := hf.exists_keyword
    have hl := List.length_pos_iff.2 hf.ne_nil
    have wanted : Step.itemAt stream (Rule.itemParser layout).firstSet .eof p = true := by
      rw [itemAt_iff, hfirst.head_eq ht, hk]
      cases layout <;> decide
    obtain ⟨trailing, hv⟩ := hf.item hfirst
    rw [List.length_append, ← Nat.add_assoc] at he ⊢
    exact .lap wanted hv (by omega) (ih _ hrest he)
  | @blank blank word functions hl hb _ ih =>
    intro p hs he
    obtain ⟨rfl, hrest⟩ := hs
    subst hl
    have wanted : Step.itemAt stream (Rule.itemParser .spaced).firstSet .eof p = true := by
      rw [itemAt_iff, hb]
      decide
    obtain ⟨found, hv⟩ := blank_item hb
    rw [List.length_cons, Nat.add_comm word.length, ← Nat.add_assoc] at he ⊢
    exact .lap wanted hv (Nat.lt_succ_self p) (ih _ hrest he)

/-- A file is read up to the end of input, at which it stops. -/
theorem FileTree.verdict_run {functions : List FuncDecl} (h : FileTree layout word functions)
    (depth : Nat) (hs : Stands stream p word) (he : (stream.get (p + word.length)).kind = .eof) :
    ∃ trailing, (run stream .firstSet depth (Rule.fileParser layout) p).verdict =
      .ok (⟨some (.file ⟨functions, stream.spanOf p (p + word.length)⟩), [], trailing⟩, p + word.length) := by
  have starts : (stream.get p).kind ∈ (Rule.fileParser layout).firstSet := by
    cases h with
    | nil => exact he ▸ KindSet.mem_union.2 (.inl (List.mem_singleton_self _))
    | function hf _ =>
      obtain ⟨keyword, ht, hk⟩ := hf.exists_keyword
      rw [(Stands.append_iff.1 hs).1.head_eq ht, hk]
      cases layout <;> decide
    | blank hl hb _ =>
      rw [hs.1, hb, hl]
      decide
  have hn : (stream.get (p + word.length)).isEof = true := by simpa [Token.isEof] using he
  obtain ⟨rest, ht⟩ := (h.laps (depth + 1) p hs he).tally (fun _ => lt_size_of_itemAt) _ (Nat.lt_succ_self _)
  have items : (body stream .firstSet depth (Rule.fileParser layout) p).verdict =
      .ok ({ captures := functions.map FuncDecl.captured }, p + word.length) := by
    change (Step.items stream (Rule.itemParser layout).firstSet .eof
      (run stream .firstSet (depth + 1) (Rule.itemParser layout)) p).verdict = _
    rw [Step.verdict_items, Step.rounds, ht]
    simp only [Step.close, he, if_true, TokenStream.next, hn, Except.map]
  have once : (Rule.fileParser layout).traits.repeated = false := rfl
  have reduction : (Rule.fileParser layout).traits.reduction = some Reduction.file := rfl
  rw [run, verdict_enclosed_of_startsAt (startsAt_iff.2 starts), once, if_neg Bool.false_ne_true, Step.verdict_finished,
    items, reduction]
  simp only [Parsed.reduceBy, Reduction.file_ok]
  exact ⟨_, rfl⟩

theorem parseTokens_of_tree {tokens : List Token} {functions : List FuncDecl} {options : ParseOptions}
    (h : FileTree options.layout word functions) (hs : Stands (.ofList tokens) 0 word)
    (he : ((TokenStream.ofList tokens).get word.length).kind = .eof) :
    parseTokens tokens options = .ok ⟨functions, (TokenStream.ofList tokens).spanOf 0 word.length⟩ := by
  obtain ⟨trailing, hv⟩ := h.verdict_run 0 hs (by rwa [Nat.zero_add])
  rw [Nat.zero_add] at hv
  rw [parseTokens_alternation, parseTokens, Grammar.run, Parser.parse, Parser.parseAt, Grammar.standard,
    Parser.Outcome.file, (Outcome.verdict_eq_ok.1 hv).1]

/-- A token list is read as a file exactly if its tokens before the end of input have a tree, which gives the functions
of the file. -/
theorem parseTokens_eq_ok_iff {tokens : List Token} {options : ParseOptions} {file : SourceFile} :
    parseTokens tokens options = .ok file ↔ FileTree options.layout (beforeEof tokens) file.functions ∧
      file.span = (TokenStream.ofList tokens).spanOf 0 (beforeEof tokens).length := by
  have of_tree : ∀ functions, FileTree options.layout (beforeEof tokens) functions → parseTokens tokens options =
      .ok ⟨functions, (TokenStream.ofList tokens).spanOf 0 (beforeEof tokens).length⟩ := by
    intro functions tree
    have stands := Stands.ofList [] (beforeEof tokens) (tokens.dropWhile (!·.isEof))
    rw [List.nil_append, show beforeEof tokens ++ _ = tokens from List.takeWhile_append_dropWhile] at stands
    exact parseTokens_of_tree tree stands (kind_get_beforeEof tokens)
  constructor
  · intro h
    have reading := parseTokens_follows tokens options
    rw [h] at reading
    obtain ⟨word, q, hr, he, hw⟩ := reading
    obtain rfl := hr.eq_beforeEof he
    obtain ⟨functions, tree⟩ := hw.exists_tree
    obtain rfl := Except.ok.inj (h.symm.trans (of_tree functions tree))
    exact ⟨tree, rfl⟩
  · rintro ⟨tree, span⟩
    rw [of_tree _ tree, ← span]

end Files

end FuncIR
