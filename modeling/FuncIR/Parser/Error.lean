import FuncIR.Text.Quoted
import FuncIR.Token.Basic

/-!
# Parse errors

A parser fails on a token that it did not expect, or because a rule could not build its node from what it
captured. `consumed` is how many tokens of the stream came before the failure, by which the errors of
alternatives are compared; a rule that builds nothing counts as having consumed none.
-/

namespace FuncIR

/-- A token stands where another kind is wanted. The fields are independent of each other: only
`ParseError.unexpected` fills them all from one token. -/
structure UnexpectedToken where
  /-- The kinds that would have been accepted. -/
  expected : KindSet
  found : TokenKind
  foundText : String
  /-- Where the token starts. -/
  offset : Nat
  /-- How many tokens came before it. -/
  consumed : Nat
  /-- What the diagnostic points at. -/
  extent : Extent
  deriving DecidableEq, Repr

/-- The node of `rule` cannot be built. -/
structure ConstructionError where
  rule : String
  detail : String
  deriving DecidableEq, Repr

inductive ParseError where
  | unexpectedToken (error : UnexpectedToken)
  | construction (error : ConstructionError)
  deriving DecidableEq, Repr

/-- Kinds as a phrase: `a`, `a or b`, `a, b or c`. -/
def KindSet.phrase (kinds : KindSet) : String :=
  match kinds.reverse with
  | [] => "nothing"
  | [only] => only.phrase
  | last :: others => String.intercalate ", " (others.reverse.map (·.phrase)) ++ " or " ++ last.phrase

/-- A token of this kind as a phrase; the text is shown where the kind does not tell it. -/
def TokenKind.phraseWith (kind : TokenKind) (text : String) : String :=
  match kind with
  | .identifier | .number => kind.phrase ++ " `" ++ text ++ "`"
  | .whitespace => kind.phrase ++ " " ++ Text.Quoted.ofString text
  | kind => kind.phrase

namespace ParseError

/-- The token `found` stands where one of the kinds `expected` is wanted, behind `consumed` others. -/
def unexpected (expected : KindSet) (found : Token) (consumed : Nat) : ParseError :=
  unexpectedToken ⟨expected, found.kind, found.text, found.span.start, consumed, found.span.extent⟩

def consumed : ParseError → Nat
  | unexpectedToken error => error.consumed
  | construction _ => 0

/-- Adds kinds that the parser would also have accepted. -/
def widen (kinds : KindSet) : ParseError → ParseError
  | unexpectedToken error => unexpectedToken { error with expected := KindSet.union error.expected kinds }
  | construction error => construction error

def message : ParseError → String
  | unexpectedToken error =>
    "expected " ++ error.expected.phrase ++ ", found " ++ error.found.phraseWith error.foundText
  | construction error => "cannot build " ++ error.rule ++ ": " ++ error.detail

def diagnostic (error : ParseError) : Diagnostic :=
  match error with
  | unexpectedToken token =>
    { code := "pineapl::parse::unexpected_token"
      message := error.message
      labels := [⟨"unexpected token", token.extent.offset, token.extent.length⟩] }
  | construction _ => { code := "pineapl::parse::construction", message := error.message }

section
variable (expected kinds : KindSet) (found : Token) (n : Nat)

@[simp] theorem consumed_unexpected : (unexpected expected found n).consumed = n := rfl

@[simp] theorem consumed_construction (error : ConstructionError) : (construction error).consumed = 0 := rfl

@[simp] theorem consumed_widen (error : ParseError) : (error.widen kinds).consumed = error.consumed := by
  cases error <;> rfl

@[simp] theorem widen_unexpected :
    (unexpected expected found n).widen kinds = unexpected (KindSet.union expected kinds) found n := rfl

@[simp] theorem widen_construction (error : ConstructionError) :
    (construction error).widen kinds = construction error :=
  rfl

end

/-- What is listed and how much was consumed can be told from the error. -/
theorem unexpected_inj {expected expected' : KindSet} {found found' : Token} {n n' : Nat}
    (h : unexpected expected found n = unexpected expected' found' n') : expected = expected' ∧ n = n' := by
  have same := unexpectedToken.inj h
  exact ⟨congrArg UnexpectedToken.expected same, congrArg UnexpectedToken.consumed same⟩

end ParseError

end FuncIR
