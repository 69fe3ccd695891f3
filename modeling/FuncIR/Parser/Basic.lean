import FuncIR.Parser.Error
import FuncIR.Tree.Basic

/-!
# Parsers

A `Parser` is data: a token, a sequence, a choice, or items up to a closing token, each with `Traits` that
say how often it may occur and what becomes of its value. A tagged parser hands its value to its ancestors as
a `Capture`; the captures go up, in source order, to the nearest parser with a reduction, which builds its
node from them.
-/

namespace FuncIR

/-- A value on its way to the reduction that uses it; the tag says as what. -/
structure Capture where
  tag : String
  node : SyntaxNode
  deriving DecidableEq, Repr

/-- Builds the node of a rule from the span that it covers and its captures, or refuses with an error of its own, which
need not be true of the run. -/
abbrev Reduction := Span → List Capture → Except ParseError SyntaxNode

/-- What a parser that succeeded hands on. -/
structure Parsed where
  node : Option SyntaxNode := none
  /-- Tagged values that no reduction has used yet, in source order. -/
  captures : List Capture := []
  /-- Kinds that could have made the match longer where it ended. -/
  trailing : KindSet := []
  deriving DecidableEq, Repr

namespace Parsed

/-- The value of a rule, built from its captures. -/
def reduceBy (parsed : Parsed) (reduction : Option Reduction) (span : Span) : Except ParseError Parsed :=
  match reduction with
  | none => .ok parsed
  | some reduction => do return { parsed with node := some (← reduction span parsed.captures), captures := [] }

/-- The value of a tagged parser becomes its last capture. -/
def captureAs (parsed : Parsed) (tag : Option String) : Parsed :=
  match tag, parsed.node with
  | some tag, some node => { parsed with node := none, captures := parsed.captures ++ [⟨tag, node⟩] }
  | _, _ => parsed

end Parsed

namespace Parser

structure Traits where
  /-- The name of the parser in a trace. -/
  label : String
  /-- An absent parser succeeds. -/
  optional : Bool := false
  /-- Goes on while it can. -/
  repeated : Bool := false
  tag : Option String := none
  reduction : Option Reduction := none

end Parser

inductive Parser where
  | token (kind : TokenKind) (traits : Parser.Traits)
  | sequence (parts : List Parser) (traits : Parser.Traits)
  | choice (alternatives : List Parser) (traits : Parser.Traits)
  /-- Any number of items, then the closing token. -/
  | items (item : Parser) (closer : TokenKind) (traits : Parser.Traits)

namespace Parser

def traits : Parser → Traits
  | token _ traits => traits
  | sequence _ traits => traits
  | choice _ traits => traits
  | items _ _ traits => traits

def mapTraits (change : Traits → Traits) : Parser → Parser
  | token kind traits => token kind (change traits)
  | sequence parts traits => sequence parts (change traits)
  | choice alternatives traits => choice alternatives (change traits)
  | items item closer traits => items item closer (change traits)

/-! ## Building parsers -/

/-- One token of a kind. -/
def expect (kind : TokenKind) : Parser :=
  token kind { label := kind.name }

/-- The parts one after the other. -/
def inOrder (parts : List Parser) : Parser :=
  sequence parts { label := "all_of" }

/-- One of the alternatives. -/
def anyOf (alternatives : List Parser) : Parser :=
  choice alternatives { label := "one_of" }

/-- Items up to a token of kind `closer`, and that token. -/
def upTo (closer : TokenKind) (item : Parser) : Parser :=
  items item closer { label := "until" }

/-- Succeeds without consuming a token where the parser cannot start. -/
def optional (parser : Parser) : Parser :=
  parser.mapTraits fun traits => { traits with optional := true }

/-- Once or more often. -/
def repeating (parser : Parser) : Parser :=
  parser.mapTraits fun traits => { traits with repeated := true }

/-- Any number of times. -/
def many (parser : Parser) : Parser :=
  parser.optional.repeating

def withTag (tag : String) (parser : Parser) : Parser :=
  parser.mapTraits fun traits => { traits with tag := some tag }

def withReduction (reduction : Reduction) (parser : Parser) : Parser :=
  parser.mapTraits fun traits => { traits with reduction := some reduction }

def withLabel (label : String) (parser : Parser) : Parser :=
  parser.mapTraits fun traits => { traits with label := label }

end Parser

end FuncIR
