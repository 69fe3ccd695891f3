import FuncIR.Token.Stream

/-!
# Streams of token lists

What stands at a position of a token list that is read as a stream, and where its input ends (`endFrom`): stepping
from token to token leads up to there and no further.
-/

namespace FuncIR

section Lists
variable {tokens : List Token} {p : Nat}

/-- The token at a position of a list; behind the last token, the end of input where that token stops. -/
theorem get_ofList (tokens : List Token) (n : Nat) : (TokenStream.ofList tokens).get n =
    tokens[n]?.getD (.endOfInput ((tokens.getLast?.map (·.span.stop)).getD 0)) := by
  simp [TokenStream.get, TokenStream.ofList, TokenStream.stopOffset]

@[simp] theorem size_ofList (tokens : List Token) : (TokenStream.ofList tokens).size = tokens.length := by
  simp [TokenStream.size, TokenStream.ofList]

theorem get_append (a b : List Token) (token : Token) :
    (TokenStream.ofList (a ++ token :: b)).get a.length = token := by
  simp [TokenStream.get, TokenStream.ofList]

theorem isEof_get_length (tokens : List Token) : ((TokenStream.ofList tokens).get tokens.length).isEof = true :=
  TokenStream.isEof_get_of_size_le (Nat.le_of_eq (size_ofList tokens))

/-- A token that does not end the input stands in the list. -/
theorem lt_length_of_not_eof (h : ((TokenStream.ofList tokens).get p).isEof = false) : p < tokens.length := by
  refine Nat.lt_of_not_le fun hp => ?_
  have : (TokenStream.ofList tokens).size ≤ p := by rwa [size_ofList]
  simp [TokenStream.isEof_get_of_size_le this] at h

theorem drop_eq_cons (h : ((TokenStream.ofList tokens).get p).isEof = false) :
    tokens.drop p = (TokenStream.ofList tokens).get p :: tokens.drop (p + 1) := by
  have hp := lt_length_of_not_eof h
  rw [List.drop_eq_getElem_cons hp]
  simp [TokenStream.get, TokenStream.ofList, hp]

end Lists

/-! ## The end of the input -/

namespace TokenStream
variable {stream : TokenStream} {p q : Nat}

/-- Where the input ends for a reader at a position: at the first end of input there or later, and behind the last
token if there is none. -/
def endFrom (stream : TokenStream) (position : Nat) : Nat :=
  position + (stream.tokens.toList.drop position).findIdx Token.isEof

theorem ofList_toList (stream : TokenStream) : ofList stream.tokens.toList = stream := by
  simp [ofList]

theorem le_endFrom (stream : TokenStream) (p : Nat) : p ≤ stream.endFrom p :=
  Nat.le_add_right p _

theorem endFrom_of_eof (h : (stream.get p).isEof = true) : stream.endFrom p = p := by
  unfold endFrom
  by_cases hp : p < stream.tokens.toList.length
  · have hg : stream.tokens.toList[p] = stream.get p := by
      rw [Array.length_toList] at hp
      simp [get, hp]
    rw [List.drop_eq_getElem_cons hp, hg, List.findIdx_cons, h]
    simp
  · simp [List.drop_eq_nil_of_le (Nat.le_of_not_lt hp)]

theorem endFrom_of_not_eof (h : (stream.get p).isEof = false) : stream.endFrom p = stream.endFrom (p + 1) := by
  have hd : stream.tokens.toList.drop p = stream.get p :: stream.tokens.toList.drop (p + 1) := by
    rw [← ofList_toList stream] at h
    rw [drop_eq_cons h, ofList_toList]
  unfold endFrom
  rw [hd, List.findIdx_cons, h]
  simp
  omega

/-- What lies ahead is at most the rest of the tokens. -/
theorem endFrom_sub_le (stream : TokenStream) (p : Nat) : stream.endFrom p - p ≤ stream.size - p := by
  have : (stream.tokens.toList.drop p).findIdx Token.isEof ≤ (stream.tokens.toList.drop p).length :=
    List.findIdx_le_length
  rw [List.length_drop, Array.length_toList] at this
  simpa [endFrom, size] using this

theorem endFrom_le_size (h : p ≤ stream.size) : stream.endFrom p ≤ stream.size := by
  have := endFrom_sub_le stream p
  omega

theorem next_le_endFrom (stream : TokenStream) (p : Nat) : stream.next p ≤ stream.endFrom p := by
  unfold next
  split
  · exact le_endFrom stream p
  · rename_i h
    rw [endFrom_of_not_eof (by simpa using h)]
    exact le_endFrom stream (p + 1)

/-- All readers up to the end of the input see the same end. -/
theorem endFrom_eq (hp : p ≤ q) (hq : q ≤ stream.endFrom p) : stream.endFrom q = stream.endFrom p := by
  induction hp with
  | refl => rfl
  | @step q _ ih =>
    have hs := ih (Nat.le_of_succ_le hq)
    cases he : (stream.get q).isEof with
    | true =>
      rw [endFrom_of_eof he] at hs
      omega
    | false => rw [← endFrom_of_not_eof he, hs]

end TokenStream

end FuncIR
