import FuncIR.Token.Kind

/-!
# Tokens, spans and diagnostics

A `Token` keeps the text it was read from, so that the texts of a token list spell the source again. All
offsets count bytes of the UTF-8 encoding, and the `stop` of a `Span` is exclusive. A `Diagnostic` is what
every error of the compiler says of itself: a `code` that names the kind of error, a `message`, an optional
`help` and labelled stretches of the source.
-/

namespace FuncIR

structure Span where
  start : Nat
  stop : Nat
  deriving DecidableEq, Repr, Inhabited

/-- A stretch of the source by its first byte and its length. -/
structure Extent where
  offset : Nat
  length : Nat
  deriving DecidableEq, Repr, Inhabited

namespace Span

/-- The difference of the ends. It is taken in machine words of 64 bits, so that it wraps where a span stops
before it starts. -/
def length (span : Span) : Nat :=
  if span.start ≤ span.stop then span.stop - span.start else UInt64.size - (span.start - span.stop)

def isEmpty (span : Span) : Bool :=
  span.start == span.stop

def extent (span : Span) : Extent :=
  ⟨span.start, span.length⟩

theorem length_of_le {span : Span} (h : span.start ≤ span.stop) : span.length = span.stop - span.start :=
  if_pos h

end Span

/-- A remark on `length` bytes of the source from `offset`. -/
structure Label where
  text : String
  offset : Nat
  length : Nat
  deriving DecidableEq, Repr

structure Diagnostic where
  code : String
  message : String
  help : Option String := none
  labels : List Label := []
  deriving DecidableEq, Repr

structure Token where
  kind : TokenKind
  text : String
  span : Span
  deriving DecidableEq, Repr, Inhabited

namespace Token

/-- The marker of the end of input: no text, at `offset`. -/
def endOfInput (offset : Nat) : Token :=
  ⟨.eof, "", ⟨offset, offset⟩⟩

def isEof (token : Token) : Bool :=
  token.kind == .eof

end Token

end FuncIR
