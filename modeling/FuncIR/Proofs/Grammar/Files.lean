import FuncIR.Proofs.Grammar.Functions
import FuncIR.Proofs.Parser.Alternation

/-!
# Files

A file is read item by item, each from between two functions to between two functions (`begins_item`), so the parser
of a file reads what the automaton reads up to the end of input, and its value says what the tokens spell
(`file_follows`). No choice in it can be decided differently, so this holds for both policies, and `parseTokens_follows`
states it for token lists.
-/

namespace FuncIR

open FuncIR.Parser Place

/-! ## Items -/

/-- A function, or a blank where the layout allows it. -/
inductive Yield.Item (layout : Layout) : Yield
  | function {word : List Token} {function : FuncDecl} : FunctionWord word function.outline →
      Item layout word [⟨"function", .function function⟩]
  | blank {blank : Token} : layout = .spaced → blank.kind = .whitespace → Item layout [blank] []

def FuncDecl.captured (function : FuncDecl) : Capture := ⟨"function", .function function⟩

theorem Yield.Many.items {layout : Layout} {word : List Token} {captures : List Capture}
    (h : (Yield.Item layout).Many word captures) : ∃ functions : List FuncDecl,
      captures = functions.map FuncDecl.captured ∧ FileWord layout word (functions.map FuncDecl.outline) := by
  induction h with
  | nil => exact ⟨[], rfl, .nil⟩
  | cons hi _ ih =>
    obtain ⟨functions, rfl, hw⟩ := ih
    cases hi with
    | function hf => exact ⟨_ :: functions, rfl, .function hf hw⟩
    | blank hl hb => exact ⟨functions, rfl, .blank hl hb hw⟩

theorem Reduction.file_ok (span : Span) (functions : List FuncDecl) :
    file span (functions.map FuncDecl.captured) = .ok (.file ⟨functions, span⟩) := by
  have kept : (functions.map FuncDecl.captured).filterMap Capture.function? = functions := by
    simp [List.filterMap_map, Function.comp_def, FuncDecl.captured, Capture.function?]
  rw [file, check_ok, kept]
  · rfl
  · simp [FuncDecl.captured, Capture.function?]

section Items
variable {layout : Layout} {stream : TokenStream} {depth : Nat}

theorem spelled_item (word : List Token) (captures : List Capture)
    (h : Yield.Node "function" SpellsFunction word captures) : Yield.Item layout word captures := by
  obtain ⟨⟨h⟩⟩ := h
  exact .function h

theorem begins_function_spaced {policy : Alternation} : Begins .spaced stream policy depth [behind .top]
    (Rule.functionParser.withTag "function") (Yield.Item .spaced) [behind .top] :=
  begins_function.mono (fun _ => id) spelled_item

theorem begins_blank {policy : Alternation} : Begins .spaced stream policy depth [behind .top] (expect .whitespace)
    (Yield.Item .spaced) [behind .top] := by
  refine Begins.mono (.token rfl rfl (by decide)) (fun _ => id) ?_
  rintro _ _ ⟨hb⟩
  exact .blank rfl hb

theorem begins_item : Begins layout stream .firstSet depth [behind .top] (Rule.itemParser layout)
    (Yield.Item layout) [behind .top] := by
  cases layout with
  | strict => exact begins_function.mono (fun _ => id) spelled_item
  | spaced =>
    refine .choice rfl rfl rfl fun kind hk => ?_
    have hk : kind ∈ ([.keywordFunc, .whitespace] : KindSet) := hk
    simp only [List.mem_cons, List.not_mem_nil, or_false] at hk
    rcases hk with rfl | rfl
    · exact ⟨_, rfl, begins_function_spaced⟩
    · exact ⟨_, rfl, begins_blank⟩

end Items

/-! ## The whole file -/

section File
variable {layout : Layout} {stream : TokenStream}

theorem lt_size_of_itemAt {firstSet : KindSet} {closer : TokenKind} {p : Nat}
    (h : Step.itemAt stream firstSet closer p = true) : p < stream.size := by
  by_contra hp
  have := TokenStream.isEof_get_of_size_le (Nat.le_of_not_lt hp)
  simp [Step.itemAt, this] at h

/-- The end of input, or what may stand at the top level. -/
theorem wanted_top (layout : Layout) :
    State.wanted layout .top = KindSet.union [.eof] (Rule.itemParser layout).firstSet := by
  cases layout <;> rfl

/-- The functions of a reading from between two functions to the end of input. -/
def ReadsFile (layout : Layout) (stream : TokenStream) (p : Nat) (functions : List FuncDecl) : Prop :=
  ∃ word q, Reads layout stream .top p word .top q ∧ (stream.get q).kind = .eof ∧
    FileWord layout word (functions.map FuncDecl.outline)

theorem items_follows (layout : Layout) (stream : TokenStream) (depth p : Nat) :
    match (Step.items stream (Rule.itemParser layout).firstSet .eof
      (run stream .firstSet depth (Rule.itemParser layout)) p).verdict with
    | .error e => Blames layout stream .top p e
    | .ok (parsed, _) => ∃ functions : List FuncDecl,
        parsed = { captures := functions.map FuncDecl.captured } ∧ ReadsFile layout stream p functions := by
  have once : ∀ x ∈ [behind .top], ∀ p, (stream.get p).kind ∈ x.ahead →
      Step.itemAt stream (Rule.itemParser layout).firstSet .eof p = true →
      Follows layout stream x.state p (Yield.Item layout).Proper [behind .top]
        (run stream .firstSet depth (Rule.itemParser layout) p).verdict := by
    intro x hx p hp hw
    apply begins_item x hx p hp
    simp only [Step.itemAt, Bool.and_eq_true, List.contains_iff_mem] at hw
    exact hw.2
  have loop := tally_follows (fun _ => id) (by decide) (fun _ => lt_size_of_itemAt) once (stream.size - p + 1)
    (behind .top) (by simp) p (TokenKind.mem_all _) (by omega)
  rw [Step.verdict_items, Step.rounds]
  rcases ht : Step.tally p _ with e | ⟨captures, trailing, q⟩ <;> rw [ht] at loop
  · exact loop
  · obtain ⟨hn, -, hend⟩ := loop
    have hr : ∃ word, Reads layout stream .top p word .top q ∧ (Yield.Item layout).Many word captures := by
      rcases hend with ⟨rfl, rfl⟩ | ⟨word, y, hy, hr, ⟨-, hc⟩, -⟩
      · exact ⟨[], .nil, .nil⟩
      · obtain rfl := List.mem_singleton.1 hy
        exact ⟨word, hr, hc⟩
    obtain ⟨word, hr, hc⟩ := hr
    simp only [Step.close]
    by_cases hk : (stream.get q).kind = .eof
    · obtain ⟨functions, rfl, hw⟩ := hc.items
      rw [if_pos hk]
      exact ⟨functions, rfl, word, q, hr, hk, hw⟩
    · -- the items end here though the input does not, so no item can start
      have he : (stream.get q).isEof = false := by simpa [Token.isEof] using hk
      have hi : (stream.get q).kind ∉ (Rule.itemParser layout).firstSet := by
        simpa [Step.itemAt, hk, he] using hn
      rw [if_neg hk, he, ← wanted_top]
      refine Blames.after hr (Blames.here ?_)
      simp [wanted_top, KindSet.mem_union, hk, hi]

theorem file_follows (stream : TokenStream) (layout : Layout) (depth p : Nat) :
    match (run stream .firstSet depth (Rule.fileParser layout) p).verdict with
    | .error e => Blames layout stream .top p e
    | .ok (parsed, _) => ∃ file : SourceFile,
        parsed = { node := some (.file file) } ∧ ReadsFile layout stream p file.functions := by
  have first : (Rule.fileParser layout).firstSet = State.wanted layout .top := by rw [wanted_top]; rfl
  by_cases hf : (stream.get p).kind ∈ (Rule.fileParser layout).firstSet
  · have hi := items_follows layout stream (depth + 1) p
    have hs := startsAt_iff.2 hf
    rw [Rule.fileParser, upTo, withReduction, mapTraits, withLabel, mapTraits] at *
    rw [run_items, verdict_enclosed_of_startsAt hs, if_neg (by simp [Parser.traits]), Step.verdict_finished]
    rcases hv : (Step.items _ _ _ _ p).verdict with e | ⟨parsed, q⟩ <;> rw [hv] at hi
    · exact hi
    · obtain ⟨functions, rfl, hr⟩ := hi
      simp only [Parser.traits, Parsed.reduceBy, Reduction.file_ok]
      exact ⟨_, rfl, hr⟩
  · have hs : Step.startsAt stream (Rule.fileParser layout).firstSet p = false := by simpa [Step.startsAt] using hf
    rw [verdict_run_of_not_startsAt hs, if_neg (by cases layout <;> decide), first]
    rw [first] at hf
    exact Blames.here hf

end File

/-! ## Both policies -/

/-- What begins behind a state gets past the token that it starts with: what it builds is never refused, so it blames
a later token if any. -/
theorem Begins.getsPast {layout : Layout} {stream : TokenStream} {s : State} {parser : Parser} {yield : Yield}
    {b : List Place} (h : ∀ depth, Begins layout stream .firstSet depth [behind s] parser yield b)
    (wanted : ∀ kind ∈ parser.firstSet, kind ∈ s.wanted layout) (not_eof : .eof ∉ parser.firstSet) :
    parser.GetsPast stream := by
  intro depth p hs
  have hf := startsAt_iff.1 hs
  have hn : (stream.get p).isEof = false := by
    have : (stream.get p).kind ≠ .eof := fun he => not_eof (he ▸ hf)
    simpa [Token.isEof] using this
  have begins := h depth (behind s) (by simp) p (TokenKind.mem_all _) hf
  have past := run_past hn (refusesWith_any parser) depth hs
  rcases hv : (run stream .firstSet depth parser p).verdict with e | ⟨parsed, q⟩ <;> rw [hv] at begins past
  · exact .inr (Blames.lt_consumed begins (wanted _ hf))
  · exact past

namespace Rule

theorem decided (rule : Rule) : rule.parser.Decided := by
  constructor
  · rcases rule with _ | _ | _ | _ | layout
    case file => cases layout <;> decide
    all_goals decide
  · rcases rule with _ | _ | _ | _ | layout
    case file => cases layout <;> decide
    all_goals decide

/-- The items of a spaced file are the only choice of the grammar. -/
theorem alternativesGetPast (rule : Rule) (stream : TokenStream) : rule.parser.AlternativesGetPast stream := by
  have listed : ∀ alternative ∈ rule.parser.subparsers.flatMap (·.alternatives),
      alternative ∈ [functionParser.withTag "function", expect .whitespace] := by
    rcases rule with _ | _ | _ | _ | layout
    case file =>
      cases layout with
      | spaced => exact fun _ => id
      | strict => exact fun _ h => nomatch h
    all_goals exact fun _ h => nomatch h
  intro choice hc alternative ha
  have := listed alternative (List.mem_flatMap.2 ⟨choice, hc, ha⟩)
  simp only [List.mem_cons, List.not_mem_nil, or_false] at this
  rcases this with rfl | rfl
  · exact Begins.getsPast (fun _ => begins_function_spaced) (by decide) (by decide)
  · exact Begins.getsPast (fun _ => begins_blank) (by decide) (by decide)

theorem policies_alike (rule : Rule) (stream : TokenStream) :
    Step.Alike (run stream .firstSet 0 rule.parser) (run stream .exhaustive 0 rule.parser) :=
  Parser.policies_alike rule.parser rule.decided (rule.alternativesGetPast stream) 0

end Rule

/-! ## Token lists -/

theorem Parser.Outcome.file_congr {a b : Outcome} (h : a.verdict = b.verdict) : a.file = b.file := by
  unfold Outcome.file
  rcases hb : b.result with e | parsed
  · rw [Outcome.verdict_eq_error.1 (h.trans (Outcome.verdict_eq_error.2 hb))]
  · rw [(Outcome.verdict_eq_ok.1 (h.trans (Outcome.verdict_of_result_ok hb))).1]

theorem parseTokens_alternation (tokens : List Token) (options : ParseOptions) :
    parseTokens tokens options = parseTokens tokens { options with alternation := .firstSet } := by
  obtain ⟨alternation, layout, trace⟩ := options
  cases alternation with
  | firstSet => rfl
  | exhaustive => exact Parser.Outcome.file_congr ((Rule.policies_alike (.file layout) _ 0).symm)

/-- A token list is a file exactly if the automaton gets through it, and an error tells where it does not. -/
theorem parseTokens_follows (tokens : List Token) (options : ParseOptions) :
    match parseTokens tokens options with
    | .error e => Blames options.layout (.ofList tokens) .top 0 e
    | .ok file => ReadsFile options.layout (.ofList tokens) 0 file.functions := by
  have follows := file_follows (.ofList tokens) options.layout 0 0
  rw [parseTokens_alternation, parseTokens, Grammar.run, Parser.parse, Parser.parseAt, Parser.Outcome.file]
  rcases hv : (run (.ofList tokens) .firstSet 0 (Rule.fileParser options.layout) 0).verdict with e | ⟨parsed, q⟩ <;>
    rw [hv] at follows
  · rw [Grammar.standard, Outcome.verdict_eq_error.1 hv]
    exact follows
  · obtain ⟨file, rfl, hr⟩ := follows
    rw [Grammar.standard, (Outcome.verdict_eq_ok.1 hv).1]
    exact hr

end FuncIR
