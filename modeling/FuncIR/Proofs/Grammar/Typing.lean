import FuncIR.Proofs.Grammar.Files

/-!
# Rules are well typed

What a parser captures has no type: a reduction finds out by tag and sort of node, and fails on any other capture. In
the grammar none of them does. Each rule, run alone from anywhere, builds a node of its own sort and hands on nothing
else, or fails on a token (`Rule.constructs`), so `parseTokens` fails only as the rule of the file does
(`rules_typed`).
-/

namespace FuncIR

open FuncIR.Parser Place

/-- The run built a node and handed on nothing else, or failed on a token. -/
def Constructs (spells : List Token → SyntaxNode → Prop) : Verdict → Prop
  | .ok (parsed, _) => ∃ word node, parsed = { node := some node, captures := [], trailing := [] } ∧ spells word node
  | .error e => ∃ expected found consumed, e = .unexpected expected found consumed

section Constructs
variable {layout : Layout} {stream : TokenStream} {policy : Alternation} {depth : Nat} {s : State}
  {a b : List Place} {yield : Yield} {parts : List Parser} {traits : Traits} {reduction : Reduction}
  {spells : List Token → SyntaxNode → Prop}

theorem Blames.constructs {p : Nat} {e : ParseError} (h : Blames layout stream s p e) :
    Constructs spells (.error e) := by
  obtain ⟨word, t, n, -, -, rfl⟩ := h
  exact ⟨_, _, _, rfl⟩

variable (layout) in
/-- A rule whose parts capture what its reduction takes. Behind a token anything may come, so it may be run anywhere. -/
theorem Passes.constructs (body : Passes layout stream policy (depth + 1)
      (a.map (·.enter (firstSetOfSequence parts))) parts yield b)
    (spelled : Spelled reduction yield spells) (hs : behind s ∈ a) (p : Nat)
    (hd : traits.reduction = some reduction := by rfl) (hr : traits.repeated = false := by rfl)
    (ht : traits.tag = none := by rfl) (he : (Parser.sequence parts traits).acceptsEmpty = false := by rfl)
    (clean : ∀ y ∈ b, y.pending = [] := by decide) :
    Constructs spells (run stream policy depth (.sequence parts traits) p).verdict := by
  by_cases hf : (stream.get p).kind ∈ (Parser.sequence parts traits).firstSet
  · have starts := startsAt_iff.2 hf
    rw [firstSet] at hf
    have passed : Follows layout stream s p yield b
        (Step.inOrder [] (parts.map (run stream policy (depth + 1))) p).verdict :=
      body _ (List.mem_map_of_mem hs) p (mem_ahead_enter (TokenKind.mem_all _) hf)
    rw [run_sequence, verdict_enclosed_of_startsAt starts, if_neg (by simp [Parser.traits, hr]), Step.verdict_finished]
    simp only [Parser.traits, hd, ht]
    rcases hv : (Step.inOrder [] (parts.map (run stream policy (depth + 1))) p).verdict with e | ⟨parsed, q⟩ <;>
      rw [hv] at passed
    · exact Blames.constructs passed
    · obtain ⟨word, y, hy, -, hc, -, trailing⟩ := passed
      obtain ⟨node, hn, hw⟩ := (spelled word _ hc).2 (stream.spanOf p q)
      simp only [Parsed.reduceBy, hn]
      refine ⟨word, node, ?_, hw⟩
      -- What would have been pending was cleared by the last token of the rule.
      rw [clean y hy] at trailing
      simp [Parsed.captureAs, trailing]
  · have idle : Step.startsAt stream (Parser.sequence parts traits).firstSet p = false := by
      simpa [Step.startsAt] using hf
    rw [verdict_run_of_not_startsAt idle, he]
    exact ⟨_, _, _, rfl⟩

end Constructs

/-! ## The rules -/

inductive SpellsFile (layout : Layout) : List Token → SyntaxNode → Prop
  | mk {word : List Token} {file : SourceFile} : FileWord layout word (file.functions.map FuncDecl.outline) →
      SpellsFile layout word (.file file)

namespace Rule

/-- The node says what the tokens are under the rule. -/
def Spells : Rule → List Token → SyntaxNode → Prop
  | parameter => SpellsParameter
  | functionCall => SpellsCall
  | codeBlock => SpellsBlock
  | function => SpellsFunction
  | file layout => SpellsFile layout

theorem constructs (rule : Rule) (stream : TokenStream) (policy : Alternation) (p : Nat) :
    Constructs rule.Spells (run stream policy 0 rule.parser p).verdict := by
  cases rule with
  | parameter => exact Passes.constructs .spaced passes_parameter spelled_parameter List.mem_cons_self p
  | functionCall => exact Passes.constructs .spaced passes_call spelled_call List.mem_cons_self p
  | codeBlock => exact Passes.constructs .spaced passes_body spelled_block List.mem_cons_self p
  | function => exact Passes.constructs .spaced passes_function spelled_function List.mem_cons_self p
  | file layout =>
    have alike : (run stream policy 0 (Rule.file layout).parser p).verdict =
        (run stream .firstSet 0 (fileParser layout) p).verdict := by
      cases policy with
      | firstSet => rfl
      | exhaustive => exact (Rule.policies_alike (.file layout) stream p).symm
    have follows := file_follows stream layout 0 p
    rw [alike]
    rcases hv : (run stream .firstSet 0 (fileParser layout) p).verdict with e | ⟨parsed, q⟩ <;> rw [hv] at follows
    · exact Blames.constructs follows
    · obtain ⟨file, rfl, word, -, -, -, spelled⟩ := follows
      exact ⟨word, .file file, rfl, .mk spelled⟩

/-- The node is of the sort that the rule is for. -/
def Makes : Rule → SyntaxNode → Prop
  | parameter, .parameter _ => True
  | functionCall, .call _ => True
  | codeBlock, .codeBlock _ => True
  | function, .function _ => True
  | file _, .file _ => True
  | _, _ => False

end Rule

/-- The code blocks of a node. -/
def SyntaxNode.blocks : SyntaxNode → List CodeBlock
  | .codeBlock block => [block]
  | .function decl => [decl.body]
  | .file source => source.functions.map (·.body)
  | .token _ | .parameter _ | .call _ => []

section Calls
variable {word : List Token}

theorem BlockWord.length_calls_le {calls : List String} (h : BlockWord word calls) : calls.length ≤ 1 := by
  obtain ⟨-, -, hw, -, -⟩ := h
  cases hw with
  | none => exact Nat.zero_le 1
  | call => exact Nat.le_refl 1

theorem FunctionWord.length_calls_le {outline : Outline} (h : FunctionWord word outline) :
    outline.calls.length ≤ 1 := by
  obtain ⟨-, -, -, -, -, -, -, -, hw⟩ := h
  exact hw.length_calls_le

theorem FileWord.length_calls_le {layout : Layout} {outlines : List Outline} (h : FileWord layout word outlines) :
    ∀ outline ∈ outlines, outline.calls.length ≤ 1 := by
  induction h with
  | nil => exact fun _ ho => nomatch ho
  | function hf _ ih => exact List.forall_mem_cons.2 ⟨hf.length_calls_le, ih⟩
  | blank _ _ _ ih => exact ih

end Calls

theorem Rule.Spells.makes {rule : Rule} {word : List Token} {node : SyntaxNode} (h : rule.Spells word node) :
    rule.Makes node ∧ ∀ block ∈ node.blocks, block.calls.length ≤ 1 := by
  cases rule with
  | parameter =>
    obtain ⟨-⟩ := h
    exact ⟨trivial, fun _ hb => nomatch hb⟩
  | functionCall =>
    obtain ⟨-⟩ := h
    exact ⟨trivial, fun _ hb => nomatch hb⟩
  | codeBlock =>
    obtain ⟨hw⟩ := h
    exact ⟨trivial, List.forall_mem_singleton.2 (by simpa using hw.length_calls_le)⟩
  | function =>
    obtain ⟨hw⟩ := h
    exact ⟨trivial, List.forall_mem_singleton.2 (by simpa [FuncDecl.outline] using hw.length_calls_le)⟩
  | file layout =>
    obtain ⟨hw⟩ := h
    refine ⟨trivial, List.forall_mem_map.2 fun function hf => ?_⟩
    simpa [FuncDecl.outline] using hw.length_calls_le _ (List.mem_map_of_mem hf)

/-- Wherever a rule is run, it builds a node of its own sort, with at most one call in each block, and leaves no
capture and nothing that could have made it longer; or it fails on a token, and never for what it captured. So what
`parseTokens` takes for a file is one, and it fails exactly as the rule of the file does. -/
theorem rules_typed :
    (∀ (rule : Rule) (tokens : List Token) (policy : Alternation) (start : Nat),
      match (rule.parser.parseAt (.ofList tokens) policy start).result with
      | .ok parsed => ∃ node, parsed = { node := some node, captures := [], trailing := [] } ∧ rule.Makes node ∧
          ∀ block ∈ node.blocks, block.calls.length ≤ 1
      | .error e => ∃ expected found consumed, e = .unexpected expected found consumed) ∧
    ∀ (tokens : List Token) (options : ParseOptions),
      match (Grammar.standard.run tokens options).result with
      | .ok parsed => ∃ file, parsed.node = some (.file file) ∧ parseTokens tokens options = .ok file
      | .error e => parseTokens tokens options = .error e ∧
          ∃ expected found consumed, e = .unexpected expected found consumed := by
  constructor
  · intro rule tokens policy start
    have constructs : Constructs rule.Spells (rule.parser.parseAt (.ofList tokens) policy start).verdict :=
      rule.constructs (.ofList tokens) policy start
    split
    · rename_i parsed hr
      rw [Outcome.verdict_of_result_ok hr] at constructs
      obtain ⟨word, node, rfl, spelled⟩ := constructs
      exact ⟨node, rfl, spelled.makes⟩
    · rename_i e hr
      rw [Outcome.verdict_eq_error.2 hr] at constructs
      exact constructs
  · intro tokens options
    have constructs : Constructs (Rule.file options.layout).Spells (Grammar.standard.run tokens options).verdict :=
      (Rule.file options.layout).constructs (.ofList tokens) options.alternation 0
    unfold parseTokens Outcome.file
    split
    · rename_i parsed hr
      rw [Outcome.verdict_of_result_ok hr] at constructs
      obtain ⟨word, _, rfl, ⟨spelled⟩⟩ := constructs
      exact ⟨_, rfl, by rw [hr]⟩
    · rename_i e hr
      rw [Outcome.verdict_eq_error.2 hr] at constructs
      exact ⟨by rw [hr], constructs⟩

end FuncIR
