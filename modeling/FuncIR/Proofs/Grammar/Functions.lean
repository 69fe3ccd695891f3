import FuncIR.Proofs.Grammar.Simulation

/-!
# The rules of a function

Each rule of the grammar, from its parameters up to a whole function, follows the automaton and builds a node that
says what the tokens spell (`begins_parameters`, `begins_call`, `begins_body`, `begins_function`).
-/

namespace FuncIR

open FuncIR.Parser Place

/-! ## What a node says -/

inductive SpellsParameter : List Token → SyntaxNode → Prop
  | mk {word : List Token} {parameter : Parameter} : ParameterWord word (parameter.name, parameter.typeName) →
      SpellsParameter word (.parameter parameter)

inductive SpellsCall : List Token → SyntaxNode → Prop
  | mk {word : List Token} {call : Call} : CallWord word [call.name] → SpellsCall word (.call call)

inductive SpellsBlock : List Token → SyntaxNode → Prop
  | mk {word : List Token} {block : CodeBlock} : BlockWord word (block.calls.map (·.name)) →
      SpellsBlock word (.codeBlock block)

inductive SpellsFunction : List Token → SyntaxNode → Prop
  | mk {word : List Token} {function : FuncDecl} : FunctionWord word function.outline →
      SpellsFunction word (.function function)

def Parameter.captured (parameter : Parameter) : Capture := ⟨"parameter", .parameter parameter⟩

def Call.captured (call : Call) : Capture := ⟨"call", .call call⟩

namespace Yield

/-- An optional blank, which is not captured. -/
def blank : Yield := (Terminal .whitespace none).Maybe

def parameter : Yield :=
  (((blank.Followed (Terminal .identifier (some "name"))).Followed (Terminal .whitespace none)).Followed
    (Terminal .identifier (some "type"))).Followed (Terminal .comma none)

def call : Yield :=
  ((Terminal .identifier (some "name")).Followed (Terminal .roundOpen none)).Followed (Terminal .roundClose none)

def block : Yield :=
  ((((Terminal .curlyOpen none).Followed blank).Followed (Node "call" SpellsCall).Maybe).Followed blank).Followed
    (Terminal .curlyClose none)

def function : Yield :=
  ((((((((Terminal .keywordFunc none).Followed (Terminal .whitespace none)).Followed
    (Terminal .identifier (some "name"))).Followed (Terminal .roundOpen none)).Followed blank).Followed
    (Node "parameter" SpellsParameter).Many).Followed (Terminal .roundClose none)).Followed blank).Followed
    (Node "body" SpellsBlock)

theorem blank.gap {word : List Token} {captures : List Capture} (h : blank word captures) :
    Gap word ∧ captures = [] := by
  cases h with
  | none => exact ⟨.none, rfl⟩
  | some h =>
    cases h with
    | mk hk => exact ⟨.blank hk, rfl⟩

/-- A list of nodes and what they spell, one after the other. -/
theorem Many.parameters {word : List Token} {captures : List Capture}
    (h : (Node "parameter" SpellsParameter).Many word captures) : ∃ parameters : List Parameter,
      captures = parameters.map Parameter.captured ∧
        ParameterWords word (parameters.map fun parameter => (parameter.name, parameter.typeName)) := by
  induction h with
  | nil => exact ⟨[], rfl, .nil⟩
  | cons hp _ ih =>
    obtain ⟨⟨hp⟩⟩ := hp
    obtain ⟨parameters, rfl, hw⟩ := ih
    exact ⟨_ :: parameters, rfl, .cons hp hw⟩

end Yield

/-! ## Reductions -/

namespace Reduction
variable {rule : String} {known : Capture → Bool} {captures : List Capture} {span : Span}

theorem check_ok (h : ∀ capture ∈ captures, known capture = true) : check rule known captures = .ok () := by
  have : captures.find? (fun capture => !known capture) = none :=
    List.find?_eq_none.2 fun capture hc => by simp [h capture hc]
  rw [check, this]

theorem parameter_ok (name type : Token) :
    parameter span [⟨"name", .token name⟩, ⟨"type", .token type⟩] =
      .ok (.parameter ⟨name.text, type.text, span⟩) := rfl

theorem functionCall_ok (name : Token) :
    functionCall span [⟨"name", .token name⟩] = .ok (.call ⟨name.text, span⟩) := rfl

theorem codeBlock_ok (calls : List Call) :
    codeBlock span (calls.map Call.captured) = .ok (.codeBlock ⟨calls, span⟩) := by
  have kept : (calls.map Call.captured).filterMap Capture.call? = calls := by
    simp [List.filterMap_map, Function.comp_def, Call.captured, Capture.call?]
  rw [codeBlock, check_ok, kept]
  · rfl
  · simp [Call.captured, Capture.call?]

theorem function_ok (name : Token) (parameters : List Parameter) (body : CodeBlock) :
    function span (⟨"name", .token name⟩ :: parameters.map Parameter.captured ++ [⟨"body", .codeBlock body⟩]) =
      .ok (.function ⟨name.text, parameters, body, span⟩) := by
  have names : (parameters.map Parameter.captured).filterMap (·.text? "name") = [] := by
    simp [List.filterMap_map, Parameter.captured, Capture.text?]
  have kept : (parameters.map Parameter.captured).filterMap Capture.parameter? = parameters := by
    simp [List.filterMap_map, Function.comp_def, Parameter.captured, Capture.parameter?]
  have bodies : (parameters.map Parameter.captured).filterMap Capture.body? = [] := by
    simp [List.filterMap_map, Parameter.captured, Capture.body?]
  rw [function, check_ok]
  · simp only [List.filterMap_append, List.filterMap_cons, names, kept, bodies]
    simp [required, Capture.text?, Capture.parameter?, Capture.body?]
    rfl
  · intro capture hc
    simp only [List.mem_append, List.mem_cons, List.mem_map] at hc
    rcases hc with (rfl | ⟨parameter, -, rfl⟩) | rfl | hc
    · rfl
    · rfl
    · rfl
    · cases hc

end Reduction

theorem spelled_parameter : Spelled Reduction.parameter Yield.parameter SpellsParameter := by
  intro word captures h
  obtain ⟨⟨⟨⟨hg, ⟨hn⟩⟩, ⟨hb⟩⟩, ⟨ht⟩⟩, ⟨hc⟩⟩ := h
  obtain ⟨gap, rfl⟩ := hg.gap
  refine ⟨by simp, fun span => ⟨_, Reduction.parameter_ok _ _, .mk ?_⟩⟩
  simpa using ParameterWord.mk gap hn hb ht hc

theorem spelled_call : Spelled Reduction.functionCall Yield.call SpellsCall := by
  intro word captures h
  obtain ⟨⟨⟨hn⟩, ⟨ho⟩⟩, ⟨hc⟩⟩ := h
  exact ⟨by simp, fun span => ⟨_, Reduction.functionCall_ok _, .mk (.call hn ho hc)⟩⟩

theorem spelled_block : Spelled Reduction.codeBlock Yield.block SpellsBlock := by
  intro word captures h
  obtain ⟨⟨⟨⟨⟨ho⟩, hg⟩, hw⟩, hg'⟩, ⟨hc⟩⟩ := h
  obtain ⟨gap, rfl⟩ := hg.gap
  obtain ⟨gap', rfl⟩ := hg'.gap
  refine ⟨by simp, fun span => ?_⟩
  rcases hw with _ | ⟨⟨⟨hw⟩⟩⟩
  · exact ⟨_, Reduction.codeBlock_ok [], .mk (.mk ho gap .none gap' hc)⟩
  · exact ⟨_, Reduction.codeBlock_ok [_], .mk (.mk ho gap hw gap' hc)⟩

theorem spelled_function : Spelled Reduction.function Yield.function SpellsFunction := by
  intro word captures h
  obtain ⟨⟨⟨⟨⟨⟨⟨⟨⟨hk⟩, ⟨hb⟩⟩, ⟨hn⟩⟩, ⟨ho⟩⟩, hg⟩, hp⟩, ⟨hc⟩⟩, hg'⟩, ⟨⟨hw⟩⟩⟩ := h
  obtain ⟨gap, rfl⟩ := hg.gap
  obtain ⟨gap', rfl⟩ := hg'.gap
  obtain ⟨parameters, rfl, words⟩ := hp.parameters
  refine ⟨by simp, fun span =>
    ⟨.function ⟨_, parameters, _, span⟩, ?_, .mk (.mk hk hb hn ho gap words hc gap' hw)⟩⟩
  simpa using Reduction.function_ok _ parameters _

/-! ## Rules

The parts of each rule pass from where the rule may start to behind it; the rule itself is then tagged as its place in
the grammar asks. -/

section Rules
variable {layout : Layout} {stream : TokenStream} {policy : Alternation} {depth : Nat}

theorem passes_parameter : Passes layout stream policy depth
    ([behind .listing, (behind .opened).skip [.whitespace]].map (·.enter Rule.parameterParser.firstSet))
    Rule.parameterParser.parts Yield.parameter [behind .listing] := by
  have gap : Passes layout stream policy depth
      ([behind .listing, (behind .opened).skip [.whitespace]].map (·.enter [.whitespace, .identifier]))
      [(expect .whitespace).optional] Yield.blank
      [behind .parameterGap, ((behind .listing).enter [.whitespace, .identifier]).skip [.whitespace],
        (((behind .opened).skip [.whitespace]).enter [.whitespace, .identifier]).skip [.whitespace]] :=
    .blank
  have name : Passes layout stream policy depth _ _ _ [behind .parameterName] :=
    gap.append (.captured .identifier "name")
  have blank : Passes layout stream policy depth _ _ _ [behind .typeGap] :=
    name.append (.expect .whitespace)
  have type : Passes layout stream policy depth _ _ _ [behind .parameterType] :=
    blank.append (.captured .identifier "type")
  exact type.append (.expect .comma)

/-- Both before the first parameter, where the blank may have been taken, and after one. -/
theorem begins_parameters : Begins layout stream policy depth [behind .listing, (behind .opened).skip [.whitespace]]
    (Rule.parameterParser.many.withTag "parameter") (Yield.Node "parameter" SpellsParameter).Many
    [(behind .listing).skip [.whitespace, .identifier]] :=
  Begins.many (m := [behind .listing]) rfl rfl rfl passes_parameter spelled_parameter

theorem passes_call : Passes layout stream policy depth
    ([behind .blockGap, (behind .block).skip [.whitespace]].map (·.enter Rule.functionCallParser.firstSet))
    Rule.functionCallParser.parts Yield.call [behind .called] := by
  have name : Passes layout stream policy depth
      ([behind .blockGap, (behind .block).skip [.whitespace]].map (·.enter [.identifier]))
      [(expect .identifier).withTag "name"] (.Terminal .identifier (some "name")) [behind .callName] :=
    .captured .identifier "name"
  have opener : Passes layout stream policy depth _ _ _ [behind .callOpened] :=
    name.append (.expect .roundOpen)
  exact opener.append (.expect .roundClose)

theorem begins_call : Begins layout stream policy depth [behind .blockGap, (behind .block).skip [.whitespace]]
    (Rule.functionCallParser.optional.withTag "call") (Yield.Node "call" SpellsCall) [behind .called] :=
  .rule rfl rfl rfl passes_call spelled_call

theorem passes_body : Passes layout stream policy depth
    ([behind .closedGap, (behind .closed).skip [.whitespace]].map (·.enter Rule.codeBlockParser.firstSet))
    Rule.codeBlockParser.parts Yield.block [behind .top] := by
  have opener : Passes layout stream policy depth
      ([behind .closedGap, (behind .closed).skip [.whitespace]].map (·.enter [.curlyOpen]))
      [expect .curlyOpen] (.Terminal .curlyOpen none) [behind .block] :=
    .expect .curlyOpen
  have gap : Passes layout stream policy depth _ _ _ [behind .blockGap, (behind .block).skip [.whitespace]] :=
    opener.append .blank
  have call : Passes layout stream policy depth _ _ _
      [behind .called, (behind .blockGap).skip [.identifier],
        ((behind .block).skip [.whitespace]).skip [.identifier]] :=
    gap.append (.optional begins_call (fun _ _ => Yield.Maybe.some) Yield.Maybe.none)
  have gap' : Passes layout stream policy depth _ _ _
      [behind .ending, (behind .called).skip [.whitespace],
        ((behind .blockGap).skip [.identifier]).skip [.whitespace],
        (((behind .block).skip [.whitespace]).skip [.identifier]).skip [.whitespace]] :=
    call.append .blank
  exact gap'.append (.expect .curlyClose)

theorem begins_body : Begins layout stream policy depth [behind .closedGap, (behind .closed).skip [.whitespace]]
    (Rule.codeBlockParser.withTag "body") (Yield.Node "body" SpellsBlock) [behind .top] :=
  .rule rfl rfl rfl passes_body spelled_block

theorem passes_function : Passes layout stream policy depth
    ([behind .top].map (·.enter Rule.functionParser.firstSet)) Rule.functionParser.parts Yield.function
    [behind .top] := by
  have keyword : Passes layout stream policy depth ([behind .top].map (·.enter [.keywordFunc]))
      [expect .keywordFunc] (.Terminal .keywordFunc none) [behind .keyword] :=
    .expect .keywordFunc
  have blank : Passes layout stream policy depth _ _ _ [behind .keywordGap] :=
    keyword.append (.expect .whitespace)
  have name : Passes layout stream policy depth _ _ _ [behind .named] :=
    blank.append (.captured .identifier "name")
  have opener : Passes layout stream policy depth _ _ _ [behind .opened] :=
    name.append (.expect .roundOpen)
  have gap : Passes layout stream policy depth _ _ _ [behind .listing, (behind .opened).skip [.whitespace]] :=
    opener.append .blank
  have parameters : Passes layout stream policy depth _ _ _
      [(behind .listing).skip [.whitespace, .identifier],
        ((behind .opened).skip [.whitespace]).skip [.whitespace, .identifier]] :=
    gap.append (.optional begins_parameters (fun _ _ h => h) Yield.Many.nil)
  have closer : Passes layout stream policy depth _ _ _ [behind .closed] :=
    parameters.append (.expect .roundClose)
  have gap' : Passes layout stream policy depth _ _ _
      [behind .closedGap, (behind .closed).skip [.whitespace]] :=
    closer.append .blank
  exact gap'.append (.required begins_body)

/-- A function may stand wherever the automaton is between functions. -/
theorem begins_function : Begins layout stream policy depth [behind .top] (Rule.functionParser.withTag "function")
    (Yield.Node "function" SpellsFunction) [behind .top] :=
  .rule rfl rfl rfl passes_function spelled_function

end Rules

end FuncIR
