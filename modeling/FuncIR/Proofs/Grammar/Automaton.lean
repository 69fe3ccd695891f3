import FuncIR.Proofs.Grammar.Words

/-!
# An automaton for the grammar

A `State` is a place in a file between two tokens, and `wanted` the kinds that may follow there, in the order in
which an error lists them. `next` is the place after one more token. The automaton reads every word of the grammar
(`after_of_mem_file`), and from each state some word leads to the end of a function (`after_finish`).
-/

namespace FuncIR

open scoped Computability

inductive State where
  /-- Between functions. -/
  | top
  /-- After `func`. -/
  | keyword
  | keywordGap
  /-- After the name of a function. -/
  | named
  /-- After the parenthesis that opens the parameters. -/
  | opened
  /-- After a blank there, or after a parameter. -/
  | listing
  /-- After a blank that only a parameter may follow. -/
  | parameterGap
  | parameterName
  | typeGap
  | parameterType
  /-- After the parameters. -/
  | closed
  | closedGap
  /-- After the brace that opens a block. -/
  | block
  | blockGap
  | callName
  | callOpened
  /-- After a call. -/
  | called
  /-- Where only the closing brace may follow. -/
  | ending
  deriving DecidableEq, Repr

namespace State

/-- What may follow. -/
def wanted : Layout → State → KindSet
  | .spaced, top => [.eof, .keywordFunc, .whitespace]
  | .strict, top => [.eof, .keywordFunc]
  | _, keyword => [.whitespace]
  | _, keywordGap => [.identifier]
  | _, named => [.roundOpen]
  | _, opened => [.roundClose, .whitespace, .identifier]
  | _, listing => [.roundClose, .whitespace, .identifier]
  | _, parameterGap => [.identifier]
  | _, parameterName => [.whitespace]
  | _, typeGap => [.identifier]
  | _, parameterType => [.comma]
  | _, closed => [.curlyOpen, .whitespace]
  | _, closedGap => [.curlyOpen]
  | _, block => [.curlyClose, .whitespace, .identifier]
  | _, blockGap => [.curlyClose, .identifier, .whitespace]
  | _, callName => [.roundOpen]
  | _, callOpened => [.roundClose]
  | _, called => [.curlyClose, .whitespace]
  | _, ending => [.curlyClose]

/-- The state after one more token. -/
def next : Layout → State → TokenKind → Option State
  | .spaced, top, .whitespace => some top
  | _, top, .keywordFunc => some keyword
  | _, keyword, .whitespace => some keywordGap
  | _, keywordGap, .identifier => some named
  | _, named, .roundOpen => some opened
  | _, opened, .whitespace => some listing
  | _, opened, .identifier => some parameterName
  | _, opened, .roundClose => some closed
  | _, listing, .whitespace => some parameterGap
  | _, listing, .identifier => some parameterName
  | _, listing, .roundClose => some closed
  | _, parameterGap, .identifier => some parameterName
  | _, parameterName, .whitespace => some typeGap
  | _, typeGap, .identifier => some parameterType
  | _, parameterType, .comma => some listing
  | _, closed, .whitespace => some closedGap
  | _, closed, .curlyOpen => some block
  | _, closedGap, .curlyOpen => some block
  | _, block, .whitespace => some blockGap
  | _, block, .identifier => some callName
  | _, block, .curlyClose => some top
  | _, blockGap, .whitespace => some ending
  | _, blockGap, .identifier => some callName
  | _, blockGap, .curlyClose => some top
  | _, callName, .roundOpen => some callOpened
  | _, callOpened, .roundClose => some called
  | _, called, .whitespace => some ending
  | _, called, .curlyClose => some top
  | _, ending, .curlyClose => some top
  | _, _, _ => none

/-- The state after the tokens of these kinds. -/
def after (layout : Layout) : State → List TokenKind → Option State
  | state, [] => some state
  | state, kind :: kinds => (next layout state kind).bind fun state => after layout state kinds

/-- Kinds that complete the function which the state is in. -/
def finish : State → List TokenKind
  | top => []
  | keyword => [.whitespace, .identifier, .roundOpen, .roundClose, .curlyOpen, .curlyClose]
  | keywordGap => [.identifier, .roundOpen, .roundClose, .curlyOpen, .curlyClose]
  | named => [.roundOpen, .roundClose, .curlyOpen, .curlyClose]
  | opened | listing => [.roundClose, .curlyOpen, .curlyClose]
  | parameterGap => [.identifier, .whitespace, .identifier, .comma, .roundClose, .curlyOpen, .curlyClose]
  | parameterName => [.whitespace, .identifier, .comma, .roundClose, .curlyOpen, .curlyClose]
  | typeGap => [.identifier, .comma, .roundClose, .curlyOpen, .curlyClose]
  | parameterType => [.comma, .roundClose, .curlyOpen, .curlyClose]
  | closed | closedGap => [.curlyOpen, .curlyClose]
  | block | blockGap | called | ending => [.curlyClose]
  | callName => [.roundOpen, .roundClose, .curlyClose]
  | callOpened => [.roundClose, .curlyClose]

variable {layout : Layout} {state : State} {kind : TokenKind}

theorem after_finish (layout : Layout) (state : State) : after layout state state.finish = some top := by
  cases layout <;> cases state <;> rfl

theorem after_append (a b : List TokenKind) :
    after layout state (a ++ b) = (after layout state a).bind fun state => after layout state b := by
  induction a generalizing state with
  | nil => rfl
  | cons kind a ih =>
    simp only [List.cons_append, after]
    cases next layout state kind with
    | none => rfl
    | some state => exact ih

/-- What is wanted can be read, except for the end of input, which is wanted between functions only. -/
theorem mem_wanted_iff : kind ∈ wanted layout state ↔
    (∃ t, next layout state kind = some t) ∨ state = top ∧ kind = .eof := by
  cases layout <;> cases state <;> cases kind <;> simp [wanted, next]

theorem next_eq_none (h : kind ∉ wanted layout state) : next layout state kind = none := by
  by_contra hn
  exact h (mem_wanted_iff.2 (.inl (Option.ne_none_iff_exists'.1 hn)))

theorem next_eof (layout : Layout) (state : State) : next layout state .eof = none := by
  cases layout <;> cases state <;> rfl

theorem wanted_ne_nil (layout : Layout) (state : State) : wanted layout state ≠ [] := by
  cases layout <;> cases state <;> simp [wanted]

theorem nodup_wanted (layout : Layout) (state : State) : (wanted layout state).Nodup := by
  cases layout <;> cases state <;> decide

/-! ## The words of the grammar are read -/

/-- From each state of `starts`, each word of `l` is read and leads to a state of `ends`. -/
def Leads (layout : Layout) (starts : List State) (l : Language TokenKind) (ends : List State) : Prop :=
  ∀ s ∈ starts, ∀ kinds ∈ l, ∃ t ∈ ends, after layout s kinds = some t

namespace Leads
variable {a b c : List State} {l m : Language TokenKind}

theorem one (h : ∀ s ∈ a, ∃ t ∈ b, next layout s kind = some t := by cases layout <;> decide) :
    Leads layout a (Ebnf.one kind) b := by
  rintro s hs kinds rfl
  obtain ⟨t, ht, h⟩ := h s hs
  exact ⟨t, ht, by simp [after, h]⟩

theorem mul (h : Leads layout a l b) (h' : Leads layout b m c) : Leads layout a (l * m) c := by
  intro s hs kinds hk
  obtain ⟨u, hu, v, hv, rfl⟩ := Language.mem_mul.1 hk
  obtain ⟨t, ht, h⟩ := h s hs u hu
  obtain ⟨r, hr, h'⟩ := h' t ht v hv
  exact ⟨r, hr, by rw [after_append, h]; exact h'⟩

theorem add (h : Leads layout a l b) (h' : Leads layout a m b) : Leads layout a (l + m) b := by
  intro s hs kinds hk
  exact hk.elim (h s hs kinds) (h' s hs kinds)

theorem empty (h : ∀ s ∈ a, s ∈ b := by decide) : Leads layout a 1 b := by
  rintro s hs kinds rfl
  exact ⟨s, h s hs, rfl⟩

theorem gap (h : ∀ s ∈ a, s ∈ b := by decide)
    (h' : ∀ s ∈ a, ∃ t ∈ b, next layout s .whitespace = some t := by cases layout <;> decide) :
    Leads layout a Ebnf.gap b :=
  (Leads.empty h).add (Leads.one h')

theorem kstar (h : Leads layout a l a) : Leads layout a l∗ a := by
  intro s hs kinds hk
  obtain ⟨parts, rfl, hp⟩ := Language.mem_kstar.1 hk
  -- Each part leads back among the same states, so the next one starts there.
  induction parts generalizing s with
  | nil => exact ⟨s, hs, rfl⟩
  | cons part parts ih =>
    obtain ⟨t, ht, h⟩ := h s hs part (hp part List.mem_cons_self)
    have hp' : ∀ y ∈ parts, y ∈ l := fun y hy => hp y (List.mem_cons_of_mem _ hy)
    obtain ⟨r, hr, h'⟩ := ih t ht hp' (Language.join_mem_kstar hp')
    exact ⟨r, hr, by rw [List.flatten_cons, after_append, h]; exact h'⟩

end Leads

section Words
variable (layout : Layout)

/-- A blank before a parameter may be read as the function's own, so there are two states to start from. -/
theorem leads_parameter : Leads layout [opened, listing] Ebnf.parameter [opened, listing] := by
  have gap : Leads layout [opened, listing] Ebnf.gap [opened, listing, parameterGap] := .gap
  have name : Leads layout [opened, listing, parameterGap] (Ebnf.one .identifier) [parameterName] := .one
  have blank : Leads layout [parameterName] (Ebnf.one .whitespace) [typeGap] := .one
  have type : Leads layout [typeGap] (Ebnf.one .identifier) [parameterType] := .one
  have comma : Leads layout [parameterType] (Ebnf.one .comma) [opened, listing] := .one
  exact (((gap.mul name).mul blank).mul type).mul comma

theorem leads_functionCall : Leads layout [block, blockGap] Ebnf.functionCall [block, blockGap, called] := by
  have name : Leads layout [block, blockGap] (Ebnf.one .identifier) [callName] := .one
  have opener : Leads layout [callName] (Ebnf.one .roundOpen) [callOpened] := .one
  have closer : Leads layout [callOpened] (Ebnf.one .roundClose) [block, blockGap, called] := .one
  exact (name.mul opener).mul closer

theorem leads_codeBlock : Leads layout [closed, closedGap] Ebnf.codeBlock [top] := by
  have opener : Leads layout [closed, closedGap] (Ebnf.one .curlyOpen) [block] := .one
  have gap : Leads layout [block] Ebnf.gap [block, blockGap] := .gap
  have call : Leads layout [block, blockGap] (1 + Ebnf.functionCall) [block, blockGap, called] :=
    .add .empty (leads_functionCall layout)
  have gap' : Leads layout [block, blockGap, called] Ebnf.gap [block, blockGap, called, ending] := .gap
  have closer : Leads layout [block, blockGap, called, ending] (Ebnf.one .curlyClose) [top] := .one
  exact (((opener.mul gap).mul call).mul gap').mul closer

theorem leads_function : Leads layout [top] Ebnf.function [top] := by
  have keyword : Leads layout [top] (Ebnf.one .keywordFunc) [keyword] := .one
  have blank : Leads layout [State.keyword] (Ebnf.one .whitespace) [keywordGap] := .one
  have name : Leads layout [keywordGap] (Ebnf.one .identifier) [named] := .one
  have opener : Leads layout [named] (Ebnf.one .roundOpen) [opened] := .one
  have gap : Leads layout [opened] Ebnf.gap [opened, listing] := .gap
  have closer : Leads layout [opened, listing] (Ebnf.one .roundClose) [closed] := .one
  have gap' : Leads layout [closed] Ebnf.gap [closed, closedGap] := .gap
  exact (((((((keyword.mul blank).mul name).mul opener).mul gap).mul (leads_parameter layout).kstar).mul closer).mul
    gap').mul (leads_codeBlock layout)

theorem leads_file : Leads layout [top] (Ebnf.file layout) [top] := by
  cases layout with
  | spaced => exact ((leads_function .spaced).add (.one (by decide))).kstar
  | strict => exact (leads_function .strict).kstar

end Words

/-- Every word of the grammar is read, and ends between functions. -/
theorem after_of_mem_file {kinds : List TokenKind} (h : kinds ∈ Ebnf.file layout) :
    after layout top kinds = some top := by
  obtain ⟨t, ht, h⟩ := leads_file layout top (List.mem_singleton_self _) kinds h
  rwa [List.mem_singleton.1 ht] at h

end State

end FuncIR
