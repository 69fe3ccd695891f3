import FuncIR.Compile
import FuncIR.Proofs.Grammar.Completion
import FuncIR.Proofs.Grammar.Recognition

/-!
# Spans of a file

The nodes of a source say where they stand in it. Functions are `Spread` over the source with blanks between them, the
parts of a function are `Nested` in it, and each node is what its rule alone makes of the slice that its span cuts out
(`Span.Rereads`). All of this follows from the trees of the words that the source is read as (`parseSource_spans`).
-/

namespace FuncIR

/-! ## Where nodes stand -/

/-- Nothing but blanks stands in the span. -/
def Span.Blank (span : Span) (source : String) : Prop :=
  ∃ text, span.Cuts source text ∧ ∀ c ∈ text.toList, Lexer.isBlank c = true

/-- From a byte offset on, the functions stand in order, with nothing but blanks before, between and behind them. -/
def Spread (source : String) : Nat → List FuncDecl → Prop
  | start, [] => Span.Blank ⟨start, source.utf8ByteSize⟩ source
  | start, function :: functions =>
    Span.Blank ⟨start, function.span.start⟩ source ∧ Spread source function.span.stop functions

structure Span.Within (inner outer : Span) : Prop where
  start_le : outer.start ≤ inner.start
  ordered : inner.start ≤ inner.stop
  stop_le : inner.stop ≤ outer.stop

/-- Neither the start nor the stop is shared. -/
structure Span.Inside (inner outer : Span) : Prop where
  start_lt : outer.start < inner.start
  ordered : inner.start ≤ inner.stop
  stop_lt : inner.stop < outer.stop

structure FuncDecl.Nested (function : FuncDecl) : Prop where
  ordered : function.span.start ≤ function.span.stop
  parameters_within : ∀ parameter ∈ function.parameters, parameter.span.Within function.span
  /-- A parameter begins where the one before it ends. -/
  parameters_adjacent : function.parameters.IsChain fun first second => second.span.start = first.span.stop
  body_within : function.body.span.Within function.span
  body_last : function.body.span.stop = function.span.stop
  calls_inside : ∀ call ∈ function.body.calls, call.span.Inside function.body.span

/-- The slice of the source can be lexed alone, and the rule goes over all of its tokens and builds the node. -/
def Span.Rereads (span : Span) (source : String) (rule : Rule) (node : SyntaxNode) : Prop :=
  ∃ text tokens, span.Cuts source text ∧ lex text = .ok (tokens ++ [.endOfInput text.utf8ByteSize]) ∧
    ∀ policy, ∃ parsed, parsed.node = some node ∧
      (rule.parser.parse (.ofList (tokens ++ [.endOfInput text.utf8ByteSize])) policy).verdict =
        .ok (parsed, tokens.length)

/-- Each node of the function is read again from its slice, with spans that count from the start of the slice. -/
structure FuncDecl.Rereads (function : FuncDecl) (source : String) : Prop where
  whole : function.span.Rereads source .function (.function (function.relativeTo function.span.start))
  parameters : ∀ parameter ∈ function.parameters,
    parameter.span.Rereads source .parameter (.parameter (parameter.relativeTo parameter.span.start))
  body : function.body.span.Rereads source .codeBlock
    (.codeBlock (function.body.relativeTo function.body.span.start))
  calls : ∀ call ∈ function.body.calls,
    call.span.Rereads source .functionCall (.call (call.relativeTo call.span.start))

/-! ## Slices that are read again -/

section Trees
variable {source : String} {offset : Nat} {word : List Token}

theorem At.rereads {rule : Rule} {node : SyntaxNode} (h : At source offset word) (hw : word ≠ [])
    (reduces : ∀ stream policy, Reduces stream policy 0 rule.parser (word.map (·.relativeTo offset)) node)
    (hr : rule.parser.traits.repeated = false := by rfl) (ht : rule.parser.traits.tag = none := by rfl) :
    (Span.cover word).Rereads source rule node := by
  refine ⟨spelling word, word.map (·.relativeTo offset), h.cover_cuts hw, h.lex, fun policy => ?_⟩
  obtain ⟨trailing, hv⟩ := (reduces _ policy).verdict_run (Stands.ofList [] _ [.endOfInput _]) hr
  rw [ht, List.nil_append, List.length_nil, Nat.zero_add] at hv
  exact ⟨_, rfl, hv⟩

theorem ParameterTree.rereads {parameter : Parameter} (h : ParameterTree word parameter)
    (hat : At source offset word) : parameter.span.Rereads source .parameter
      (.parameter (parameter.relativeTo parameter.span.start)) := by
  rw [h.span_eq, hat.cover_start h.ne_nil]
  exact hat.rereads h.ne_nil fun _ _ => (h.relativeTo offset).reduces

/-- The parameters stand one behind the other from the start of their tokens on. -/
theorem ParameterTrees.spans {parameters : List Parameter} (h : ParameterTrees word parameters) :
    ∀ offset, At source offset word →
      (∀ parameter ∈ parameters, parameter.span.Within ⟨offset, offset + (spelling word).utf8ByteSize⟩) ∧
      parameters.IsChain (fun first second => second.span.start = first.span.stop) ∧
      (∀ parameter ∈ parameters.head?, parameter.span.start = offset) ∧
      ∀ parameter ∈ parameters,
        parameter.span.Rereads source .parameter (.parameter (parameter.relativeTo parameter.span.start)) := by
  induction h with
  | nil => exact fun _ _ => ⟨by simp, .nil, by simp, by simp⟩
  | @cons first word parameter parameters hp _ ih =>
    intro offset hat
    have span : parameter.span = ⟨offset, offset + (spelling first).utf8ByteSize⟩ :=
      hp.span_eq.trans (hat.left.cover_eq hp.ne_nil)
    obtain ⟨within, adjacent, head, rereads⟩ := ih _ hat.right
    rw [spelling_append, String.utf8ByteSize_append]
    refine ⟨List.forall_mem_cons.2 ⟨?_, fun other ho => ?_⟩, List.isChain_cons.2 ⟨fun second hm => ?_, adjacent⟩, ?_,
      List.forall_mem_cons.2 ⟨hp.rereads hat.left, rereads⟩⟩
    · constructor <;> simp only [span] <;> omega
    · obtain ⟨hs, ho, ht⟩ := within other ho
      constructor <;> dsimp only at * <;> omega
    · rw [head second hm, span]
    · rintro _ ⟨⟩
      rw [span]

theorem CallTree.spans {calls : List Call} (h : CallTree word calls) (hat : At source offset word) :
    ∀ call ∈ calls, call.span = ⟨offset, offset + (spelling word).utf8ByteSize⟩ ∧
      call.span.Rereads source .functionCall (.call (call.relativeTo call.span.start)) := by
  cases h with
  | none => simp
  | @call word name hw =>
    have hn : word ≠ [] := by cases hw; simp
    rintro call hc
    obtain rfl := List.mem_singleton.1 hc
    refine ⟨hat.cover_eq hn, ?_⟩
    dsimp only
    rw [hat.cover_start hn]
    refine hat.rereads hn fun _ _ => ?_
    rw [Call.relativeTo, ← Span.cover_relativeTo]
    exact call_reduces (hw.relativeTo offset)

theorem BlockTree.rereads {block : CodeBlock} (h : BlockTree word block) (hat : At source offset word) :
    block.span.Rereads source .codeBlock (.codeBlock (block.relativeTo block.span.start)) := by
  rw [h.span_eq, hat.cover_start h.ne_nil]
  exact hat.rereads h.ne_nil fun _ _ => (h.relativeTo offset).reduces

/-- The braces of a block stand around its calls. -/
theorem BlockTree.calls {block : CodeBlock} (h : BlockTree word block) (hat : At source offset word) :
    ∀ call ∈ block.calls, call.span.Inside block.span ∧
      call.span.Rereads source .functionCall (.call (call.relativeTo call.span.start)) := by
  have span := h.span_eq.trans (hat.cover_eq h.ne_nil)
  obtain ⟨-, -, hw, -, -, -⟩ := h
  intro call hc
  obtain ⟨hs, rereads⟩ := hw.spans hat.left.left.right call hc
  have opener := hat.left.left.left.left.spelling_pos (List.cons_ne_nil _ _)
  have closer := hat.right.spelling_pos (List.cons_ne_nil _ _)
  refine ⟨?_, rereads⟩
  rw [span, hs]
  simp only [spelling_append, String.utf8ByteSize_append]
  constructor <;> dsimp only <;> omega

theorem FunctionTree.nested {function : FuncDecl} (h : FunctionTree word function) (hat : At source offset word) :
    function.Nested := by
  have span := h.span_eq.trans (hat.cover_eq h.ne_nil)
  obtain ⟨-, -, -, -, -, hp, -, -, hw, -⟩ := h
  have body := hw.span_eq.trans (hat.right.cover_eq hw.ne_nil)
  obtain ⟨within, adjacent, -⟩ := hp.spans _ hat.left.left.left.right
  simp only [spelling_append, String.utf8ByteSize_append] at span body within
  refine ⟨?_, fun parameter hm => ?_, adjacent, ?_, ?_, fun call hc => (hw.calls hat.right call hc).1⟩
  · rw [span]
    exact Nat.le_add_right _ _
  · obtain ⟨hs, ho, ht⟩ := within parameter hm
    rw [span]
    refine ⟨?_, ho, ?_⟩ <;> dsimp only at * <;> omega
  · rw [span, body]
    constructor <;> dsimp only <;> omega
  · rw [span, body]
    dsimp only
    omega

theorem FunctionTree.rereads {function : FuncDecl} (h : FunctionTree word function) (hat : At source offset word) :
    function.Rereads source := by
  have rereads : function.span.Rereads source .function (.function (function.relativeTo function.span.start)) := by
    rw [h.span_eq, hat.cover_start h.ne_nil]
    exact hat.rereads h.ne_nil fun _ _ => (h.relativeTo offset).reduces
  obtain ⟨-, -, -, -, -, hp, -, -, hw, -⟩ := h
  obtain ⟨-, -, -, parameters⟩ := hp.spans _ hat.left.left.left.right
  exact ⟨rereads, parameters, hw.rereads hat.right, fun call hc => (hw.calls hat.right call hc).2⟩

theorem FileTree.exists_at {layout : Layout} {functions : List FuncDecl} (h : FileTree layout word functions) :
    ∀ offset, At source offset word → ∀ function ∈ functions,
      ∃ offset word, FunctionTree word function ∧ At source offset word := by
  induction h with
  | nil => simp
  | function hf _ ih =>
    exact fun offset hat => List.forall_mem_cons.2 ⟨⟨offset, _, hf, hat.left⟩, ih _ hat.right⟩
  | @blank blank word functions _ _ _ ih =>
    intro offset hat
    rw [← List.singleton_append] at hat
    exact ih _ hat.right

/-- The functions of a file are spread over its tokens; blanks may stand in front of these. -/
theorem FileTree.spread {layout : Layout} {functions : List FuncDecl} (h : FileTree layout word functions) :
    ∀ before blanks : String, source = before ++ blanks ++ spelling word →
      (∀ c ∈ blanks.toList, Lexer.isBlank c = true) →
      At source (before.utf8ByteSize + blanks.utf8ByteSize) word → Spread source before.utf8ByteSize functions := by
  induction h with
  | nil =>
    intro before blanks hs hb _
    refine ⟨blanks, ⟨before, "", ?_⟩, hb⟩
    simp [hs, spelling]
  | @function first word function functions hf _ ih =>
    intro before blanks hs hb hat
    have span := hf.span_eq.trans (hat.left.cover_eq hf.ne_nil)
    rw [spelling_append] at hs
    have rest := ih (before ++ blanks ++ spelling first) "" (by simp [hs, String.append_assoc]) (by simp)
    simp only [String.utf8ByteSize_append, String.utf8ByteSize_empty, Nat.add_zero] at rest
    rw [Spread, span]
    refine ⟨⟨blanks, ⟨before, spelling first ++ spelling word, ?_, rfl, rfl⟩, hb⟩, rest hat.right⟩
    exact hs
  | @blank blank word functions _ hk _ ih =>
    intro before blanks hs hb hat
    have all : ∀ c ∈ (blanks ++ blank.text).toList, Lexer.isBlank c = true := by
      intro c hc
      rw [String.toList_append, List.mem_append] at hc
      exact hc.elim (hb c) (hat.scans.blank List.mem_cons_self hk c)
    have rest := At.right (a := [blank]) hat
    rw [spelling_cons] at hs
    rw [spelling_cons, spelling_nil, String.append_empty, Nat.add_assoc, ← String.utf8ByteSize_append] at rest
    exact ih before (blanks ++ blank.text) (by simp only [hs, String.append_assoc]) all rest

theorem FileTree.spread_source {layout : Layout} {functions : List FuncDecl} (h : FileTree layout word functions)
    (hs : spelling word = source) (hat : At source 0 word) : Spread source 0 functions :=
  h.spread "" "" (by simp [hs]) (by simp) hat

theorem FileTree.parts {layout : Layout} {functions : List FuncDecl} (h : FileTree layout word functions)
    (hat : At source offset word) : ∀ function ∈ functions, function.Nested ∧ function.Rereads source := by
  intro function hf
  obtain ⟨offset, part, hp, hat⟩ := h.exists_at offset hat function hf
  exact ⟨hp.nested hat, hp.rereads hat⟩

end Trees

/-! ## Sources -/

/-- The end of input does not count for the span of a file, and an empty file stands there. -/
theorem spanOf_word {source : String} {word : List Token} (hs : spelling word = source) (hat : At source 0 word) :
    (TokenStream.ofList (word ++ [.endOfInput source.utf8ByteSize])).spanOf 0 word.length =
      ⟨0, source.utf8ByteSize⟩ := by
  by_cases hw : word = []
  · subst hw
    obtain rfl : "" = source := hs
    rfl
  · have stands := Stands.ofList [] word [.endOfInput source.utf8ByteSize]
    have span := stands.spanOf_eq hw
    rw [List.length_nil, Nat.zero_add, hat.cover_eq hw, hs, Nat.zero_add] at span
    exact span

/-- A source that has a file is read as a word with a tree, which gives the functions of the file. -/
theorem exists_tree_of_parseSource {source : String} {options : ParseOptions} {file : SourceFile}
    (h : parseSource source options = .ok file) : ∃ word, spelling word = source ∧ At source 0 word ∧
      FileTree options.layout word file.functions ∧ file.span = ⟨0, source.utf8ByteSize⟩ := by
  cases hl : lex source with
  | error e => rw [parseSource, hl] at h; cases h
  | ok tokens =>
    rw [parseSource_of_lex hl] at h
    obtain ⟨word, scans, rfl⟩ := lex_eq_ok_iff.1 hl
    obtain ⟨hs, hat⟩ := at_of_scans scans
    cases hp : parseTokens (word ++ [.endOfInput source.utf8ByteSize]) options with
    | error e => rw [hp] at h; cases h
    | ok found =>
      rw [hp] at h
      obtain rfl : found = file := Except.ok.inj h
      obtain ⟨tree, span⟩ := parseTokens_eq_ok_iff.1 hp
      rw [beforeEof_append (fun token ht => (scans.proper token ht).1) rfl] at tree span
      exact ⟨word, hs, hat, tree, span.trans (spanOf_word hs hat)⟩

/-- The spans of a file are faithful: the file is the whole source, its functions are spread over it, their parts are
nested in them, and each node is read again from its slice. -/
theorem parseSource_spans (source : String) (options : ParseOptions) (file : SourceFile)
    (h : parseSource source options = .ok file) :
    file.span = ⟨0, source.utf8ByteSize⟩ ∧ Spread source 0 file.functions ∧
      ∀ function ∈ file.functions, function.Nested ∧ function.Rereads source := by
  obtain ⟨word, hs, hat, tree, span⟩ := exists_tree_of_parseSource h
  exact ⟨span, tree.spread_source hs hat, tree.parts hat⟩

/-- A source where the blank behind the parenthesis belongs to the function, and that behind the comma to `b`. -/
def blankBoth : String := " func f( a Int, b Bool,)\n\x7b g() \x7d"

theorem parseSource_spans_blankBoth : ∃ function : FuncDecl,
    parseSource blankBoth {} = .ok ⟨[function], ⟨0, 32⟩⟩ ∧ function.span = ⟨1, 32⟩ ∧
      function.parameters.map (·.span) = [⟨9, 15⟩, ⟨15, 23⟩] ∧ function.Nested ∧ function.Rereads blankBoth := by
  have h : parseSource blankBoth {} = .ok ⟨[⟨"f", [⟨"a", "Int", ⟨9, 15⟩⟩, ⟨"b", "Bool", ⟨15, 23⟩⟩],
      ⟨[⟨"g", ⟨27, 30⟩⟩], ⟨25, 32⟩⟩, ⟨1, 32⟩⟩], ⟨0, 32⟩⟩ := by decide +kernel
  have spans := (parseSource_spans blankBoth {} _ h).2.2 _ (List.mem_singleton_self _)
  exact ⟨_, h, rfl, rfl, spans⟩

end FuncIR
