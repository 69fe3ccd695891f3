import FuncIR.Parser.Choice
import FuncIR.Parser.FirstSet
import FuncIR.Parser.Repetition

/-!
# Running a parser

`Parser.run` is the step that a parser stands for: its `body`, by recursion on the parser, then the reduction
and the tag, as often as its traits say, behind the test of its first set. `parseAt` starts it at a position,
`parse` at the start of a stream.
-/

namespace FuncIR.Parser

/-- The step of a parser from that of its body. -/
def enclosed (stream : TokenStream) (depth : Nat) (parser : Parser) (body : Step) : Step :=
  let once := Step.finished stream parser.traits body
  Step.guarded stream depth parser.traits.label parser.firstSet parser.acceptsEmpty
    (if parser.traits.repeated then Step.repeating stream parser.firstSet once else once)

mutual

/-- What a parser at a depth does before its value is built; the parsers in it run one level deeper. -/
def body (stream : TokenStream) (policy : Alternation) (depth : Nat) : Parser → Step
  | .token kind _ => Step.token stream kind
  | .sequence parts _ => Step.inOrder [] ((branches stream policy (depth + 1) parts).map (·.step))
  | .choice alternatives _ => Step.choice stream policy (branches stream policy (depth + 1) alternatives)
  | .items item closer _ =>
    Step.items stream item.firstSet closer
      (enclosed stream (depth + 1) item (body stream policy (depth + 1) item))

/-- The steps of several parsers at a depth, with their first sets. -/
def branches (stream : TokenStream) (policy : Alternation) (depth : Nat) : List Parser → List Step.Branch
  | [] => []
  | parser :: parsers =>
    ⟨parser.firstSet, enclosed stream depth parser (body stream policy depth parser)⟩ ::
      branches stream policy depth parsers

end

/-- The step of a parser at a depth. -/
def run (stream : TokenStream) (policy : Alternation) (depth : Nat) (parser : Parser) : Step :=
  enclosed stream depth parser (body stream policy depth parser)

theorem branches_eq_map (stream : TokenStream) (policy : Alternation) (depth : Nat) (parsers : List Parser) :
    branches stream policy depth parsers =
      parsers.map fun parser => ⟨parser.firstSet, run stream policy depth parser⟩ := by
  induction parsers with
  | nil => rfl
  | cons parser parsers ih => rw [branches, ih]; rfl

def parseAt (parser : Parser) (stream : TokenStream) (policy : Alternation) (position : Nat) : Outcome :=
  run stream policy 0 parser position

def parse (parser : Parser) (stream : TokenStream) (policy : Alternation) : Outcome :=
  parser.parseAt stream policy 0

end FuncIR.Parser
