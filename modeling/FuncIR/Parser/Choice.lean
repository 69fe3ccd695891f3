import FuncIR.Parser.Step

/-!
# Choices

The alternatives of a choice are tried in order at the same position, and the first success counts. If all of
them fail, the error that got furthest is reported, and of several such errors the earliest.
-/

namespace FuncIR.Parser.Step

/-- An alternative of a choice. -/
structure Branch where
  firstSet : KindSet
  step : Step

/-- The alternatives that a policy tries on a token of this kind. -/
def candidates (policy : Alternation) (kind : TokenKind) (branches : List Branch) : List Branch :=
  match policy with
  | .firstSet => branches.filter (·.firstSet.contains kind)
  | .exhaustive => branches

/-- The error that got further, the earlier one if neither did. -/
def further (earlier later : ParseError) : ParseError :=
  if earlier.consumed < later.consumed then later else earlier

/-- The first success among the alternatives, each tried at the same position. If all fail, the position is
kept and the error that got furthest is reported; `best` is that of the alternatives before `index`. -/
def inTurn (stream : TokenStream) (index : Nat) (best : Option ParseError) : List Step → Step
  | [], position => ⟨.error (best.getD (.unexpected [] (stream.get position) position)), position, []⟩
  | alternative :: alternatives, position =>
    let tried := alternative position
    match tried.result with
    | .ok _ => tried
    | .error error =>
      let rest := inTurn stream (index + 1) (some ((best.map (further · error)).getD error)) alternatives position
      { rest with events := tried.events ++ .rejected index error.consumed :: rest.events }

/-- A single candidate is run as it is, several are tried in turn. -/
def choice (stream : TokenStream) (policy : Alternation) (branches : List Branch) : Step := fun position =>
  match candidates policy (stream.get position).kind branches with
  | [only] => only.step position
  | several => inTurn stream 0 none (several.map (·.step)) position

end FuncIR.Parser.Step
