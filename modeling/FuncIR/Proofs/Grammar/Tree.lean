import FuncIR.Proofs.Grammar.Words
import FuncIR.Proofs.Token.Slice

/-!
# Trees of words

`FunctionTree` and `FileTree` relate a word of the grammar to the nodes that it is read as, each with the span that its
tokens cover. Of the readings of a word, a tree is the greedy one: an optional blank is left out only where there is
none (`Greedy`). So each word has a tree (`FileWord.exists_tree`), and moving the tokens moves the tree
(`FunctionTree.relativeTo`).
-/

namespace FuncIR

/-! ## Nodes seen from elsewhere -/

def Call.relativeTo (origin : Nat) (call : Call) : Call :=
  { call with span := call.span.relativeTo origin }

def Parameter.relativeTo (origin : Nat) (parameter : Parameter) : Parameter :=
  { parameter with span := parameter.span.relativeTo origin }

def CodeBlock.relativeTo (origin : Nat) (block : CodeBlock) : CodeBlock where
  calls := block.calls.map (·.relativeTo origin)
  span := block.span.relativeTo origin

def FuncDecl.relativeTo (origin : Nat) (function : FuncDecl) : FuncDecl where
  name := function.name
  parameters := function.parameters.map (·.relativeTo origin)
  body := function.body.relativeTo origin
  span := function.span.relativeTo origin

/-! ## Trees -/

/-- The optional blank is left out only if what follows does not begin with one. -/
def Greedy (gap rest : List Token) : Prop :=
  gap = [] → ∃ token ∈ rest.head?, token.kind ≠ .whitespace

inductive ParameterTree : List Token → Parameter → Prop
  | mk {word : List Token} {name type : String} : ParameterWord word (name, type) →
      ParameterTree word ⟨name, type, .cover word⟩

inductive ParameterTrees : List Token → List Parameter → Prop
  | nil : ParameterTrees [] []
  | cons {first word : List Token} {parameter : Parameter} {parameters : List Parameter} :
      ParameterTree first parameter → ParameterTrees word parameters →
      ParameterTrees (first ++ word) (parameter :: parameters)

inductive CallTree : List Token → List Call → Prop
  | none : CallTree [] []
  | call {word : List Token} {name : String} : CallWord word [name] → CallTree word [⟨name, .cover word⟩]

inductive BlockTree : List Token → CodeBlock → Prop
  | mk {opener closer : Token} {gap word gap' : List Token} {calls : List Call} : opener.kind = .curlyOpen →
      Gap gap → CallTree word calls → Gap gap' → closer.kind = .curlyClose → Greedy gap (word ++ gap' ++ [closer]) →
      BlockTree ([opener] ++ gap ++ word ++ gap' ++ [closer])
        ⟨calls, .cover ([opener] ++ gap ++ word ++ gap' ++ [closer])⟩

inductive FunctionTree : List Token → FuncDecl → Prop
  | mk {keyword blank name opener closer : Token} {gap word gap' block : List Token} {parameters : List Parameter}
      {body : CodeBlock} : keyword.kind = .keywordFunc → blank.kind = .whitespace → name.kind = .identifier →
      opener.kind = .roundOpen → Gap gap → ParameterTrees word parameters → closer.kind = .roundClose → Gap gap' →
      BlockTree block body → Greedy gap (word ++ [closer]) →
      FunctionTree ([keyword, blank, name, opener] ++ gap ++ word ++ [closer] ++ gap' ++ block)
        ⟨name.text, parameters, body,
          .cover ([keyword, blank, name, opener] ++ gap ++ word ++ [closer] ++ gap' ++ block)⟩

inductive FileTree (layout : Layout) : List Token → List FuncDecl → Prop
  | nil : FileTree layout [] []
  | function {first word : List Token} {function : FuncDecl} {functions : List FuncDecl} :
      FunctionTree first function → FileTree layout word functions →
      FileTree layout (first ++ word) (function :: functions)
  | blank {blank : Token} {word : List Token} {functions : List FuncDecl} : layout = .spaced →
      blank.kind = .whitespace → FileTree layout word functions → FileTree layout (blank :: word) functions

section Trees
variable {word : List Token} {parameter : Parameter} {block : CodeBlock} {function : FuncDecl}

theorem ParameterTree.ne_nil (h : ParameterTree word parameter) : word ≠ [] := by
  obtain ⟨-, -, -, -, -⟩ := h
  simp

theorem ParameterTree.span_eq (h : ParameterTree word parameter) : parameter.span = .cover word := by
  cases h
  rfl

theorem BlockTree.exists_opener (h : BlockTree word block) : ∃ opener ∈ word.head?, opener.kind = .curlyOpen := by
  obtain ⟨ho, -⟩ := h
  exact ⟨_, rfl, ho⟩

theorem BlockTree.ne_nil (h : BlockTree word block) : word ≠ [] := by
  obtain ⟨_, ht, -⟩ := h.exists_opener
  exact List.ne_nil_of_mem (List.mem_of_head? ht)

theorem BlockTree.span_eq (h : BlockTree word block) : block.span = .cover word := by
  cases h
  rfl

theorem FunctionTree.exists_keyword (h : FunctionTree word function) :
    ∃ keyword ∈ word.head?, keyword.kind = .keywordFunc := by
  obtain ⟨hk, -⟩ := h
  exact ⟨_, rfl, hk⟩

theorem FunctionTree.ne_nil (h : FunctionTree word function) : word ≠ [] := by
  obtain ⟨_, ht, -⟩ := h.exists_keyword
  exact List.ne_nil_of_mem (List.mem_of_head? ht)

theorem FunctionTree.span_eq (h : FunctionTree word function) : function.span = .cover word := by
  cases h
  rfl

end Trees

/-! ## What a tree says -/

theorem ParameterTrees.words {word : List Token} {parameters : List Parameter} (h : ParameterTrees word parameters) :
    ParameterWords word (parameters.map fun parameter => (parameter.name, parameter.typeName)) := by
  induction h with
  | nil => exact .nil
  | cons hp _ ih =>
    obtain ⟨hp⟩ := hp
    exact .cons hp ih

theorem BlockTree.word {word : List Token} {block : CodeBlock} (h : BlockTree word block) :
    BlockWord word (block.calls.map (·.name)) := by
  obtain ⟨ho, hg, hw, hg', hc, -⟩ := h
  cases hw with
  | none => exact .mk ho hg .none hg' hc
  | call hw => exact .mk ho hg hw hg' hc

theorem FunctionTree.word {word : List Token} {function : FuncDecl} (h : FunctionTree word function) :
    FunctionWord word function.outline := by
  obtain ⟨hk, hb, hn, ho, hg, hp, hc, hg', hw, -⟩ := h
  exact .mk hk hb hn ho hg hp.words hc hg' hw.word

theorem FileTree.word {layout : Layout} {word : List Token} {functions : List FuncDecl}
    (h : FileTree layout word functions) : FileWord layout word (functions.map FuncDecl.outline) := by
  induction h with
  | nil => exact .nil
  | function hf _ ih => exact .function hf.word ih
  | blank hl hb _ ih => exact .blank hl hb ih

/-! ## Every word has a tree -/

theorem greedy_cons {gap rest : List Token} {token : Token} (h : token.kind ≠ .whitespace) :
    Greedy gap (token :: rest) :=
  fun _ => ⟨token, rfl, h⟩

theorem Greedy.append {gap rest : List Token} (h : Greedy gap rest) (more : List Token) :
    Greedy gap (rest ++ more) := by
  intro hn
  obtain ⟨token, ht, hk⟩ := h hn
  exact ⟨token, List.mem_head?_append_of_mem_head? ht, hk⟩

theorem greedy_of_blank {blank : Token} {rest : List Token} : Greedy [blank] rest := nofun

theorem ParameterWords.exists_trees {word : List Token} {parameters : List (String × String)}
    (h : ParameterWords word parameters) : ∃ trees, ParameterTrees word trees := by
  induction h with
  | nil => exact ⟨[], .nil⟩
  | cons hp _ ih =>
    obtain ⟨trees, ih⟩ := ih
    exact ⟨_ :: trees, .cons (.mk hp) ih⟩

/-- A blank in front of the parameters goes to the list if the list has none. -/
theorem ParameterWords.greedy {gap word : List Token} {parameters : List (String × String)} {closer : Token}
    (hg : Gap gap) (h : ParameterWords word parameters) (hc : closer.kind = .roundClose) :
    ∃ gap' word', gap ++ word = gap' ++ word' ∧ Gap gap' ∧ ParameterWords word' parameters ∧
      Greedy gap' (word' ++ [closer]) := by
  cases hg with
  | blank hb => exact ⟨_, word, rfl, .blank hb, h, greedy_of_blank⟩
  | none =>
    cases h with
    | nil => exact ⟨[], [], rfl, .none, .nil, greedy_cons (by simp [hc])⟩
    | @cons first word parameter parameters hp hs =>
      obtain ⟨hg, hn, hb, ht, hc⟩ := hp
      have bare := ParameterWord.mk .none hn hb ht hc
      refine ⟨_, _, ?_, hg, .cons bare hs, greedy_cons (by simp [hn])⟩
      simp only [List.nil_append, List.append_assoc]

theorem CallWord.exists_tree {word : List Token} {calls : List String} (h : CallWord word calls) :
    ∃ trees, CallTree word trees := by
  cases h with
  | none => exact ⟨[], .none⟩
  | call hn ho hc => exact ⟨_, .call (.call hn ho hc)⟩

/-- The only blank of a block without a call is the first one. -/
theorem BlockWord.exists_tree {word : List Token} {calls : List String} (h : BlockWord word calls) :
    ∃ block, BlockTree word block := by
  obtain ⟨ho, hg, hw, hg', hc⟩ := h
  obtain ⟨trees, ht⟩ := hw.exists_tree
  cases hg with
  | blank hb => exact ⟨_, .mk ho (.blank hb) ht hg' hc greedy_of_blank⟩
  | none =>
    cases hw with
    | call hn ho' hc' => exact ⟨_, .mk ho .none ht hg' hc (greedy_cons (by simp [hn]))⟩
    | none =>
      cases hg' with
      | none => exact ⟨_, .mk ho .none .none .none hc (greedy_cons (by simp [hc]))⟩
      | blank hb =>
        have tree := BlockTree.mk ho (.blank hb) .none .none hc greedy_of_blank
        exact ⟨_, tree⟩

theorem FunctionWord.exists_tree {word : List Token} {outline : Outline} (h : FunctionWord word outline) :
    ∃ function, FunctionTree word function := by
  obtain ⟨hk, hb, hn, ho, hg, hp, hc, hg', hw⟩ := h
  obtain ⟨gap, list, he, hg, hp, greedy⟩ := hp.greedy hg hc
  obtain ⟨trees, hp⟩ := hp.exists_trees
  obtain ⟨body, hw⟩ := hw.exists_tree
  rw [List.append_assoc [_, _, _, _], he, ← List.append_assoc [_, _, _, _]]
  exact ⟨_, .mk hk hb hn ho hg hp hc hg' hw greedy⟩

theorem FileWord.exists_tree {layout : Layout} {word : List Token} {outlines : List Outline}
    (h : FileWord layout word outlines) : ∃ functions, FileTree layout word functions := by
  induction h with
  | nil => exact ⟨[], .nil⟩
  | function hf _ ih =>
    obtain ⟨function, hf⟩ := hf.exists_tree
    obtain ⟨functions, ih⟩ := ih
    exact ⟨_, .function hf ih⟩
  | blank hl hb _ ih =>
    obtain ⟨functions, ih⟩ := ih
    exact ⟨_, .blank hl hb ih⟩

/-! ## Trees seen from elsewhere -/

section RelativeTo
variable {word gap rest : List Token} (origin : Nat)

theorem Greedy.relativeTo (h : Greedy gap rest) :
    Greedy (gap.map (·.relativeTo origin)) (rest.map (·.relativeTo origin)) := by
  intro hn
  obtain ⟨token, ht, hk⟩ := h (List.map_eq_nil_iff.1 hn)
  refine ⟨token.relativeTo origin, ?_, hk⟩
  rw [List.head?_map]
  exact Option.mem_map_of_mem _ ht

theorem Gap.relativeTo (h : Gap gap) : Gap (gap.map (·.relativeTo origin)) := by
  cases h with
  | none => exact .none
  | blank hb => exact .blank hb

theorem ParameterTree.relativeTo {parameter : Parameter} (h : ParameterTree word parameter) :
    ParameterTree (word.map (·.relativeTo origin)) (parameter.relativeTo origin) := by
  obtain ⟨hg, hn, hb, ht, hc⟩ := h
  rw [Parameter.relativeTo, ← Span.cover_relativeTo, List.map_append]
  exact .mk (.mk (hg.relativeTo origin) hn hb ht hc)

theorem ParameterTrees.relativeTo {parameters : List Parameter} (h : ParameterTrees word parameters) :
    ParameterTrees (word.map (·.relativeTo origin)) (parameters.map (·.relativeTo origin)) := by
  induction h with
  | nil => exact .nil
  | cons hp _ ih =>
    rw [List.map_append]
    exact .cons (hp.relativeTo origin) ih

theorem CallWord.relativeTo {calls : List String} (h : CallWord word calls) :
    CallWord (word.map (·.relativeTo origin)) calls := by
  cases h with
  | none => exact .none
  | call hn ho hc => exact .call hn ho hc

theorem CallTree.relativeTo {calls : List Call} (h : CallTree word calls) :
    CallTree (word.map (·.relativeTo origin)) (calls.map (·.relativeTo origin)) := by
  cases h with
  | none => exact .none
  | call hw =>
    rw [List.map_singleton, Call.relativeTo, ← Span.cover_relativeTo]
    exact .call (hw.relativeTo origin)

theorem BlockTree.relativeTo {block : CodeBlock} (h : BlockTree word block) :
    BlockTree (word.map (·.relativeTo origin)) (block.relativeTo origin) := by
  obtain ⟨ho, hg, hw, hg', hc, greedy⟩ := h
  have greedy := greedy.relativeTo origin
  rw [CodeBlock.relativeTo, ← Span.cover_relativeTo]
  simp only [List.map_append, List.map_cons, List.map_nil] at greedy ⊢
  exact .mk ho (hg.relativeTo origin) (hw.relativeTo origin) (hg'.relativeTo origin) hc greedy

theorem FunctionTree.relativeTo {function : FuncDecl} (h : FunctionTree word function) :
    FunctionTree (word.map (·.relativeTo origin)) (function.relativeTo origin) := by
  obtain ⟨hk, hb, hn, ho, hg, hp, hc, hg', hw, greedy⟩ := h
  have greedy := greedy.relativeTo origin
  rw [FuncDecl.relativeTo, ← Span.cover_relativeTo]
  simp only [List.map_append, List.map_cons, List.map_nil] at greedy ⊢
  exact .mk hk hb hn ho (hg.relativeTo origin) (hp.relativeTo origin) hc (hg'.relativeTo origin)
    (hw.relativeTo origin) greedy

end RelativeTo

end FuncIR
