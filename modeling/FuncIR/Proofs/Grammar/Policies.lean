import FuncIR.Proofs.Grammar.Files

/-!
# The policy makes no difference

Both ways to choose give a decided parser whose reductions succeed the same verdict, and so the rules of the grammar,
whose reductions succeed on what their rules capture, and `parseTokens` (`alternation_irrelevant`).
-/

namespace FuncIR

open FuncIR.Parser

theorem alternation_irrelevant :
    (∀ parser : Parser, parser.Decided → parser.ReductionsSucceed → ∀ (tokens : List Token) (position : Nat),
      (parser.parseAt (.ofList tokens) .firstSet position).verdict =
        (parser.parseAt (.ofList tokens) .exhaustive position).verdict) ∧
    (∀ (rule : Rule) (tokens : List Token) (position : Nat),
      (rule.parser.parseAt (.ofList tokens) .firstSet position).verdict =
        (rule.parser.parseAt (.ofList tokens) .exhaustive position).verdict) ∧
    ∀ (tokens : List Token) (options : ParseOptions),
      parseTokens tokens { options with alternation := .firstSet } =
        parseTokens tokens { options with alternation := .exhaustive } := by
  refine ⟨fun parser hd hr tokens position => ?_, fun rule tokens position => ?_, fun tokens options => ?_⟩
  · exact policies_alike parser hd (hd.alternativesGetPast hr) 0 position
  · exact rule.policies_alike _ position
  · rw [parseTokens_alternation tokens { options with alternation := .exhaustive }]

/-- A number with a comma. -/
def pair : Parser :=
  (inOrder [expect .number, expect .comma]).withReduction fun span _ => .ok (.codeBlock ⟨[], span⟩)

/-- Any number of words and pairs. -/
def entries : Parser :=
  (anyOf [expect .identifier, pair]).many

theorem decided_entries : entries.Decided := by
  constructor <;> decide

theorem reductionsSucceed_entries : entries.ReductionsSucceed := by
  intro rule hr reduction hd span captures
  have hr : rule ∈ [entries, expect .identifier, pair, expect .number, expect .comma] := hr
  simp only [List.mem_cons, List.not_mem_nil, or_false] at hr
  rcases hr with rfl | rfl | rfl | rfl | rfl <;> cases hd
  exact ⟨_, rfl⟩

/-- The comma is missing, whichever way the alternatives are chosen. -/
theorem alternation_irrelevant_entries : entries.Decided ∧ entries.ReductionsSucceed ∧
    (entries.parseAt (.ofList [⟨.number, "1", ⟨0, 1⟩⟩]) .firstSet 0).verdict =
      .error (.unexpected [.comma] (.endOfInput 1) 1) ∧
    (entries.parseAt (.ofList [⟨.number, "1", ⟨0, 1⟩⟩]) .exhaustive 0).verdict =
      .error (.unexpected [.comma] (.endOfInput 1) 1) := by
  have alike := alternation_irrelevant.1 entries decided_entries reductionsSucceed_entries [⟨.number, "1", ⟨0, 1⟩⟩] 0
  exact ⟨decided_entries, reductionsSucceed_entries, rfl, alike ▸ rfl⟩

end FuncIR
