import FuncIR.Parser.Step

/-!
# Repetition

The loops of a parser, as the list of their `rounds`: a step again and again while it can start, and items up
to a closing token. A round that consumed nothing is the last one, so a loop has at most one round more than
there are tokens.
-/

namespace FuncIR.Parser.Step

/-- The rounds of a loop. A round begins where `wanted` holds; no round follows one that failed or consumed
nothing. -/
def roundsWithin (wanted : Nat → Bool) (step : Step) : Nat → Nat → List Outcome
  | 0, _ => []
  | bound + 1, position =>
    if wanted position then
      let round := step position
      round ::
        if round.result.isOk && decide (position < round.position) then
          roundsWithin wanted step bound round.position
        else []
    else []

/-- All rounds of a loop: since each but the last consumes a token, there is at most one more than there are
tokens left. -/
def rounds (stream : TokenStream) (wanted : Nat → Bool) (step : Step) (position : Nat) : List Outcome :=
  roundsWithin wanted step (stream.size - position + 1) position

/-- The captures of all rounds in order, or the error of the round that failed. -/
def captured : List Outcome → Except ParseError (List Capture)
  | [] => .ok []
  | round :: rounds => do
    let parsed ← round.result
    let captures ← captured rounds
    return parsed.captures ++ captures

/-- Where the last round stopped. -/
def stop (start : Nat) (rounds : List Outcome) : Nat :=
  (rounds.getLast?.map (·.position)).getD start

/-- What could have made the last round longer. -/
def trailing (rounds : List Outcome) : KindSet :=
  match rounds.getLast? with
  | some ⟨.ok parsed, _, _⟩ => parsed.trailing
  | _ => []

/-- A step again and again while its first set has the current token. The values of the rounds are lost
unless they are tagged. -/
def repeating (stream : TokenStream) (firstSet : KindSet) (step : Step) : Step := fun position =>
  let rounds := rounds stream (startsAt stream firstSet) step position
  { result := (captured rounds).map fun captures =>
      { captures := captures, trailing := KindSet.union (trailing rounds) firstSet }
    position := stop position rounds
    events := rounds.flatMap (·.events) }

/-- Whether an item starts at a position: its first set has the token, which does not end the items. -/
def itemAt (stream : TokenStream) (firstSet : KindSet) (closer : TokenKind) (position : Nat) : Bool :=
  let current := stream.get position
  decide (current.kind ≠ closer) && !current.isEof && firstSet.contains current.kind

/-- What follows the items: the closing token, or an error that lists it first. -/
def close (stream : TokenStream) (firstSet : KindSet) (closer : TokenKind) (position : Nat) :
    Except ParseError Unit :=
  let current := stream.get position
  if current.kind = closer then .ok ()
  else if current.isEof then .error (.unexpected [closer] current position)
  else .error (.unexpected (KindSet.union [closer] firstSet) current position)

/-- Items up to a token of kind `closer`, and that token; `firstSet` belongs to the item. -/
def items (stream : TokenStream) (firstSet : KindSet) (closer : TokenKind) (item : Step) : Step := fun position =>
  let rounds := rounds stream (itemAt stream firstSet closer) item position
  let stop := stop position rounds
  let events := rounds.flatMap (·.events)
  match captured rounds with
  | .error error => ⟨.error error, stop, events⟩
  | .ok captures =>
    match close stream firstSet closer stop with
    | .error error => ⟨.error error, stop, events⟩
    | .ok () => ⟨.ok { captures := captures }, stream.next stop, events⟩

end FuncIR.Parser.Step
