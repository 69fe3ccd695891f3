import FuncIR.Parser.Run

/-!
# Induction on parsers

Parsers nest lists of parsers. `inductionOn` is induction on a parser with a hypothesis for each member of such
a list, `body_sequence` and `body_choice` are the matching equations of `body`, `run_sequence`, `run_choice` and
`run_items` those of `run`. `subparsers` lists all that a parser is built from, and what holds `Throughout` a parser
holds of each of these.
-/

namespace FuncIR.Parser

@[elab_as_elim, induction_eliminator]
theorem inductionOn {motive : Parser → Prop}
    (token : ∀ kind traits, motive (.token kind traits))
    (sequence : ∀ parts traits, (∀ part ∈ parts, motive part) → motive (.sequence parts traits))
    (choice : ∀ alternatives traits, (∀ alternative ∈ alternatives, motive alternative) →
      motive (.choice alternatives traits))
    (items : ∀ item closer traits, motive item → motive (.items item closer traits))
    (parser : Parser) : motive parser := by
  refine Parser.rec (motive_2 := fun parsers => ∀ parser ∈ parsers, motive parser) token sequence choice items
    ?_ ?_ parser
  · intro parser h
    cases h
  · intro parser parsers ih ihs other h
    rcases List.mem_cons.1 h with rfl | h
    · exact ih
    · exact ihs other h

/-! ## What a parser is built from -/

mutual

/-- The parser and all parsers in it. -/
def subparsers : Parser → List Parser
  | .token kind traits => [.token kind traits]
  | .sequence parts traits => .sequence parts traits :: subparsersOf parts
  | .choice alternatives traits => .choice alternatives traits :: subparsersOf alternatives
  | .items item closer traits => .items item closer traits :: subparsers item

def subparsersOf : List Parser → List Parser
  | [] => []
  | parser :: parsers => subparsers parser ++ subparsersOf parsers

end

/-- What a sequence puts in order. -/
def parts : Parser → List Parser
  | .sequence parts _ => parts
  | _ => []

/-- What a choice chooses from. -/
def alternatives : Parser → List Parser
  | .choice alternatives _ => alternatives
  | _ => []

theorem subparsersOf_eq_flatMap (parsers : List Parser) : subparsersOf parsers = parsers.flatMap subparsers := by
  induction parsers with
  | nil => rfl
  | cons parser parsers ih => rw [subparsersOf, ih, List.flatMap_cons]

theorem mem_subparsers_sequence {parts : List Parser} {traits : Traits} {part parser : Parser} (hp : part ∈ parts)
    (h : parser ∈ part.subparsers) : parser ∈ (Parser.sequence parts traits).subparsers := by
  rw [subparsers, subparsersOf_eq_flatMap]
  exact List.mem_cons_of_mem _ (List.mem_flatMap.2 ⟨part, hp, h⟩)

theorem mem_subparsers_choice {branches : List Parser} {traits : Traits} {branch parser : Parser}
    (hb : branch ∈ branches) (h : parser ∈ branch.subparsers) :
    parser ∈ (Parser.choice branches traits).subparsers := by
  rw [subparsers, subparsersOf_eq_flatMap]
  exact List.mem_cons_of_mem _ (List.mem_flatMap.2 ⟨branch, hb, h⟩)

theorem mem_subparsers_items {item parser : Parser} {closer : TokenKind} {traits : Traits}
    (h : parser ∈ item.subparsers) : parser ∈ (Parser.items item closer traits).subparsers := by
  rw [subparsers]
  exact List.mem_cons_of_mem _ h

theorem self_mem_subparsers (parser : Parser) : parser ∈ parser.subparsers := by
  cases parser <;> simp [subparsers]

theorem mem_subparsers_trans {a b c : Parser} (hb : b ∈ a.subparsers) (hc : c ∈ b.subparsers) : c ∈ a.subparsers := by
  induction a with
  | token kind traits =>
    rw [subparsers, List.mem_singleton] at hb
    exact hb ▸ hc
  | sequence parts traits ih =>
    rw [subparsers, subparsersOf_eq_flatMap, List.mem_cons, List.mem_flatMap] at hb
    rcases hb with rfl | ⟨part, hp, hb⟩
    · exact hc
    · exact mem_subparsers_sequence hp (ih part hp hb)
  | choice alternatives traits ih =>
    rw [subparsers, subparsersOf_eq_flatMap, List.mem_cons, List.mem_flatMap] at hb
    rcases hb with rfl | ⟨alternative, ha, hb⟩
    · exact hc
    · exact mem_subparsers_choice ha (ih alternative ha hb)
  | items item closer traits ih =>
    rw [subparsers, List.mem_cons] at hb
    rcases hb with rfl | hb
    · exact hc
    · exact mem_subparsers_items (ih hb)

/-- The property holds of the parser and of all parsers in it. -/
def Throughout (parser : Parser) (p : Parser → Prop) : Prop := ∀ part ∈ parser.subparsers, p part

instance (parser : Parser) (p : Parser → Prop) [DecidablePred p] : Decidable (parser.Throughout p) :=
  inferInstanceAs (Decidable (∀ part ∈ parser.subparsers, p part))

namespace Throughout
variable {p : Parser → Prop} {parser part : Parser} {traits : Traits}

theorem self (h : parser.Throughout p) : p parser :=
  h parser (self_mem_subparsers parser)

theorem inside (h : parser.Throughout p) (hp : part ∈ parser.subparsers) : part.Throughout p :=
  fun other ho => h other (mem_subparsers_trans hp ho)

theorem sequence {parts : List Parser} (h : (Parser.sequence parts traits).Throughout p) (hp : part ∈ parts) :
    part.Throughout p :=
  fun other ho => h other (mem_subparsers_sequence hp ho)

theorem choice {alternatives : List Parser} (h : (Parser.choice alternatives traits).Throughout p)
    (hp : part ∈ alternatives) : part.Throughout p :=
  fun other ho => h other (mem_subparsers_choice hp ho)

theorem items {closer : TokenKind} (h : (Parser.items part closer traits).Throughout p) : part.Throughout p :=
  fun other ho => h other (mem_subparsers_items ho)

end Throughout

/-! ## Runs -/

section Runs
variable (stream : TokenStream) (policy : Alternation) (depth : Nat)

/-- The step of a choice's alternatives at a depth, each with its first set. -/
def branchesOf (parsers : List Parser) : List Step.Branch :=
  parsers.map fun parser => ⟨parser.firstSet, run stream policy depth parser⟩

@[simp] theorem body_sequence (parts : List Parser) (traits : Traits) :
    body stream policy depth (.sequence parts traits) =
      Step.inOrder [] (parts.map (run stream policy (depth + 1))) := by
  rw [body, branches_eq_map, List.map_map]
  rfl

@[simp] theorem body_choice (alternatives : List Parser) (traits : Traits) :
    body stream policy depth (.choice alternatives traits) =
      Step.choice stream policy (branchesOf stream policy (depth + 1) alternatives) := by
  rw [body, branches_eq_map]
  rfl

@[simp] theorem run_token (kind : TokenKind) (traits : Traits) :
    run stream policy depth (.token kind traits) =
      enclosed stream depth (.token kind traits) (Step.token stream kind) := rfl

@[simp] theorem run_sequence (parts : List Parser) (traits : Traits) :
    run stream policy depth (.sequence parts traits) =
      enclosed stream depth (.sequence parts traits)
        (Step.inOrder [] (parts.map (run stream policy (depth + 1)))) := by
  rw [run, body_sequence]

@[simp] theorem run_choice (alternatives : List Parser) (traits : Traits) :
    run stream policy depth (.choice alternatives traits) =
      enclosed stream depth (.choice alternatives traits)
        (Step.choice stream policy (branchesOf stream policy (depth + 1) alternatives)) := by
  rw [run, body_choice]

@[simp] theorem run_items (item : Parser) (closer : TokenKind) (traits : Traits) :
    run stream policy depth (.items item closer traits) =
      enclosed stream depth (.items item closer traits)
        (Step.items stream item.firstSet closer (run stream policy (depth + 1) item)) := rfl

end Runs

end FuncIR.Parser
