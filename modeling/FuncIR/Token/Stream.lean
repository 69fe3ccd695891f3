import FuncIR.Token.Basic

/-!
# Token streams

A `TokenStream` is read by position. It never runs out: past the last token stands a marker of the end of
input, whether or not the tokens hold one, and `next` never steps over such a marker.
-/

namespace FuncIR

structure TokenStream where
  tokens : Array Token
  deriving Repr

namespace TokenStream

def ofList (tokens : List Token) : TokenStream :=
  ⟨tokens.toArray⟩

def size (stream : TokenStream) : Nat :=
  stream.tokens.size

/-- Where the last token stops, 0 if there is none. -/
def stopOffset (stream : TokenStream) : Nat :=
  (stream.tokens.back?.map (·.span.stop)).getD 0

/-- The token at a position; past the last token, the end of input at `stopOffset`. -/
def get (stream : TokenStream) (position : Nat) : Token :=
  stream.tokens[position]?.getD (.endOfInput stream.stopOffset)

/-- The position after a token; the end of input is not left. -/
def next (stream : TokenStream) (position : Nat) : Nat :=
  if (stream.get position).isEof then position else position + 1

/-- The position itself, or the end of the stream if it lies beyond. -/
def clamp (stream : TokenStream) (position : Nat) : Nat :=
  min position stream.size

/-- The span of the tokens from `start` up to `stop`, empty and at the token of `stop` if there are none. -/
def spanOf (stream : TokenStream) (start stop : Nat) : Span :=
  if start < stop then ⟨(stream.get start).span.start, (stream.get (stop - 1)).span.stop⟩
  else ⟨(stream.get stop).span.start, (stream.get stop).span.start⟩

theorem isEof_get_of_size_le {stream : TokenStream} {position : Nat} (h : stream.size ≤ position) :
    (stream.get position).isEof = true := by
  have : stream.tokens[position]? = none := Array.getElem?_eq_none h
  simp [get, this, Token.endOfInput, Token.isEof]

theorem le_next (stream : TokenStream) (position : Nat) : position ≤ stream.next position := by
  unfold next
  split <;> omega

theorem next_le_size {stream : TokenStream} {position : Nat} (h : position ≤ stream.size) :
    stream.next position ≤ stream.size := by
  unfold next
  split
  · exact h
  · rename_i notEof
    have : ¬ stream.size ≤ position := fun beyond => notEof (isEof_get_of_size_le beyond)
    omega

theorem clamp_le_size (stream : TokenStream) (position : Nat) : stream.clamp position ≤ stream.size :=
  Nat.min_le_right position stream.size

end TokenStream

end FuncIR
