import FuncIR.Proofs.Parser.Induction
import FuncIR.Parser.Run

/-!
# What reductions refuse with

A reduction may refuse its captures with any error at all, also with one that blames a token which the run never came
to. What a run says about its failures therefore holds up to `Refusals`: errors that reductions may return, with any
kinds added on the way out. A parser `RefusesWith` such errors if its reductions return no others; for every parser
these are the errors `Refused` by it, and for one whose `ReductionsSucceed` there are none.
-/

namespace FuncIR.Parser

/-- Errors that reductions may return. A sequence adds kinds to the errors of its parts, so with an error they hold it
with any kinds added. -/
structure Refusals where
  Holds : ParseError → Prop
  widen : ∀ {e}, Holds e → ∀ kinds, Holds (e.widen kinds)

namespace Refusals

/-- Any error. -/
def any : Refusals := ⟨fun _ => True, fun _ _ => trivial⟩

/-- No error. -/
def none : Refusals := ⟨fun _ => False, fun h _ => h⟩

/-- The errors that blame no token. -/
def constructions : Refusals := ⟨fun e => ∃ c, e = .construction c, by
  rintro _ ⟨c, rfl⟩ kinds
  exact ⟨c, rfl⟩⟩

@[simp] theorem constructions_unexpectedToken (error : UnexpectedToken) :
    ¬ constructions.Holds (.unexpectedToken error) := nofun

end Refusals

/-- The reduction, if there is one, returns no other errors. -/
def Traits.RefusesWith (refusals : Refusals) (traits : Traits) : Prop :=
  ∀ reduction, traits.reduction = some reduction → ∀ span captures e,
    reduction span captures = .error e → refusals.Holds e

/-- The reductions in the parser return no other errors. -/
def RefusesWith (refusals : Refusals) (parser : Parser) : Prop :=
  parser.Throughout fun rule => rule.traits.RefusesWith refusals

/-- A reduction in the parser returns the error, with kinds added or without. -/
inductive Refused (parser : Parser) : ParseError → Prop where
  | returned {rule : Parser} {reduction : Reduction} {span : Span} {captures : List Capture} {e : ParseError} :
      rule ∈ parser.subparsers → rule.traits.reduction = some reduction → reduction span captures = .error e →
        Refused parser e
  | widened {e : ParseError} (kinds : KindSet) : Refused parser e → Refused parser (e.widen kinds)

/-- What the reductions in a parser return as errors. -/
def refusals (parser : Parser) : Refusals := ⟨parser.Refused, fun h kinds => h.widened kinds⟩

/-- One token of a kind, which is refused with the same error wherever it stands. -/
def refusing (kind : TokenKind) (error : ParseError) : Parser :=
  (expect kind).withReduction fun _ _ => .error error

/-- No reduction in the parser ever fails. -/
def ReductionsSucceed (parser : Parser) : Prop :=
  ∀ rule ∈ parser.subparsers, ∀ reduction, rule.traits.reduction = some reduction →
    ∀ span captures, ∃ node, reduction span captures = .ok node

/-- There is no reduction in the parser. -/
def Unreduced (parser : Parser) : Prop :=
  parser.Throughout fun rule => rule.traits.reduction.isNone = true

instance (parser : Parser) : Decidable parser.Unreduced :=
  inferInstanceAs (Decidable (parser.Throughout _))

theorem Traits.RefusesWith.reduceBy {refusals : Refusals} {traits : Traits} (h : traits.RefusesWith refusals)
    {parsed : Parsed} {span : Span} {e : ParseError} (he : parsed.reduceBy traits.reduction span = .error e) :
    refusals.Holds e := by
  cases hd : traits.reduction with
  | none =>
    rw [hd] at he
    cases he
  | some reduction =>
    rw [hd, Parsed.reduceBy] at he
    cases hr : reduction span parsed.captures with
    | error refused =>
      rw [hr] at he
      cases he
      exact h reduction hd span _ _ hr
    | ok node =>
      rw [hr] at he
      cases he

section
variable {parser : Parser}

theorem refusesWith_any (parser : Parser) : parser.RefusesWith .any :=
  fun _ _ _ _ _ _ _ _ => trivial

theorem refusesWith_refusals (parser : Parser) : parser.RefusesWith parser.refusals :=
  fun _ hr _ hd _ _ _ he => .returned hr hd he

/-- Kinds that are added to such errors lead to no others. -/
theorem RefusesWith.holds {refusals : Refusals} (h : parser.RefusesWith refusals) {e : ParseError}
    (he : parser.Refused e) : refusals.Holds e := by
  induction he with
  | returned hr hd he => exact h _ hr _ hd _ _ _ he
  | widened kinds _ ih => exact refusals.widen ih kinds

theorem ReductionsSucceed.refusesWith (h : parser.ReductionsSucceed) (refusals : Refusals) :
    parser.RefusesWith refusals := by
  intro rule hr reduction hd span captures e he
  obtain ⟨node, hn⟩ := h rule hr reduction hd span captures
  rw [hn] at he
  cases he

/-- So do the parsers that a choice in the parser chooses from. -/
theorem RefusesWith.alternative {refusals : Refusals} (h : parser.RefusesWith refusals) {choice alternative : Parser}
    (hc : choice ∈ parser.subparsers) (ha : alternative ∈ choice.alternatives) : alternative.RefusesWith refusals := by
  have inside := h.inside hc
  cases choice with
  | choice alternatives traits => exact inside.choice ha
  | token kind traits => cases ha
  | sequence parts traits => cases ha
  | items item closer traits => cases ha

theorem Unreduced.reductionsSucceed (h : parser.Unreduced) : parser.ReductionsSucceed := by
  intro rule hr reduction hd
  have none : rule.traits.reduction.isNone = true := h rule hr
  rw [hd] at none
  cases none

end

end FuncIR.Parser
