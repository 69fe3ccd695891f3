import FuncIR.Parser.Basic

/-!
# First sets

The kinds of token that a parser can start with, and whether it can succeed without any token. A parser
looks at its first set before it does anything else.
-/

namespace FuncIR.Parser

mutual

/-- Whether the parser succeeds where it cannot start. -/
def acceptsEmpty : Parser → Bool
  | .token _ traits => traits.optional
  | .sequence parts traits => traits.optional || allAcceptEmpty parts
  | .choice alternatives traits => traits.optional || anyAcceptsEmpty alternatives
  | .items _ _ traits => traits.optional

def allAcceptEmpty : List Parser → Bool
  | [] => true
  | parser :: parsers => acceptsEmpty parser && allAcceptEmpty parsers

def anyAcceptsEmpty : List Parser → Bool
  | [] => false
  | parser :: parsers => acceptsEmpty parser || anyAcceptsEmpty parsers

end

mutual

/-- The kinds that the parser can start with, in the order in which an error lists them. -/
def firstSet : Parser → KindSet
  | .token kind _ => [kind]
  | .sequence parts _ => firstSetOfSequence parts
  | .choice alternatives _ => firstSetOfChoice alternatives
  | .items item closer _ => KindSet.union [closer] (firstSet item)

/-- Each part adds its own as long as all before it can be empty. -/
def firstSetOfSequence : List Parser → KindSet
  | [] => []
  | part :: parts =>
    if acceptsEmpty part then KindSet.union (firstSet part) (firstSetOfSequence parts) else firstSet part

def firstSetOfChoice : List Parser → KindSet
  | [] => []
  | alternative :: alternatives => KindSet.union (firstSet alternative) (firstSetOfChoice alternatives)

end

/-- Whether the parser can start with a token of this kind. -/
def startsWith (parser : Parser) (kind : TokenKind) : Bool :=
  parser.firstSet.contains kind

end FuncIR.Parser
