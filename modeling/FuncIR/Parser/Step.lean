import FuncIR.Parser.Basic
import FuncIR.Parser.Options
import FuncIR.Token.Stream

/-!
# Steps

A `Step` is what a parser does at a position of a token stream: its `Outcome` is a result, the position
where it stopped, also after a failure, and the events of the run. `inOrder` puts steps one after the other,
`finished` adds the reduction and the tag of a parser, and `guarded` the test of its first set.
-/

namespace FuncIR.Parser

/-- What a trace tells; depth 0 is the parser that was started. -/
inductive Event where
  | enter (depth : Nat) (label : String) (token : Token)
  | matched (depth : Nat) (label : String) (consumed : Nat)
  | skipped (depth : Nat) (label : String)
  | failed (depth : Nat) (label : String) (error : ParseError)
  /-- The alternative with this index, of those that are tried, failed. -/
  | rejected (index : Nat) (consumed : Nat)
  deriving DecidableEq, Repr

/-- Whether the event belongs to one parser and not to a choice among several. -/
def Event.isStep : Event → Bool
  | rejected _ _ => false
  | _ => true

structure Outcome where
  result : Except ParseError Parsed
  position : Nat
  events : List Event

/-- The steps of the parsers that ran, in the order in which they began and ended. -/
def Outcome.trace (outcome : Outcome) : List Event :=
  outcome.events.filter Event.isStep

abbrev Step := Nat → Outcome

namespace Step

/-- One token of a kind; its value is the token. -/
def token (stream : TokenStream) (kind : TokenKind) : Step := fun position =>
  let current := stream.get position
  if current.kind = kind then ⟨.ok { node := some (.token current) }, stream.next position, []⟩
  else ⟨.error (.unexpected [kind] current position), position, []⟩

/-! ## Sequences -/

/-- The parts one after the other. The kinds in `pending` are those that parts skipped or ended by at the
current position would have accepted: an error at this position lists them too. -/
def inOrder (pending : KindSet) : List Step → Step
  | [], position => ⟨.ok { trailing := pending }, position, []⟩
  | part :: parts, position =>
    let first := part position
    match first.result with
    | .error error =>
      { first with result := .error (if error.consumed = position then error.widen pending else error) }
    | .ok parsed =>
      let kept := if position < first.position then [] else pending
      let rest := inOrder (KindSet.union kept parsed.trailing) parts first.position
      { result := rest.result.map fun others => { others with captures := parsed.captures ++ others.captures }
        position := rest.position
        events := first.events ++ rest.events }

/-! ## Before and after the body of a parser -/

/-- The body of a parser, then its reduction, whose error is passed on as it is, and its tag. -/
def finished (stream : TokenStream) (traits : Traits) (body : Step) : Step := fun position =>
  let inner := body position
  match inner.result with
  | .error _ => inner
  | .ok parsed =>
    match parsed.reduceBy traits.reduction (stream.spanOf position inner.position) with
    | .error error => { inner with result := .error error }
    | .ok reduced => { inner with result := .ok (reduced.captureAs traits.tag) }

/-- Whether a parser with this first set can start at a position. -/
def startsAt (stream : TokenStream) (firstSet : KindSet) (position : Nat) : Bool :=
  firstSet.contains (stream.get position).kind

/-- Runs a step if the current token is in its first set. Otherwise a step that accepts the empty input is
skipped, and any other one fails. -/
def guarded (stream : TokenStream) (depth : Nat) (label : String) (firstSet : KindSet) (acceptsEmpty : Bool)
    (step : Step) : Step := fun position =>
  if startsAt stream firstSet position then
    let inner := step position
    let last := match inner.result with
      | .ok _ => Event.matched depth label (inner.position - position)
      | .error error => Event.failed depth label error
    { inner with events := .enter depth label (stream.get position) :: inner.events ++ [last] }
  else if acceptsEmpty then ⟨.ok { trailing := firstSet }, position, [.skipped depth label]⟩
  else ⟨.error (.unexpected firstSet (stream.get position) position), position, []⟩

end Step

end FuncIR.Parser
