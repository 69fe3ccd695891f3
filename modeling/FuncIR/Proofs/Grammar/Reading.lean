import FuncIR.Proofs.Grammar.Automaton
import FuncIR.Proofs.Token.Stream
import FuncIR.Parser.Error

/-!
# Readings

A reading follows the automaton along a token stream (`Reads`). On a token list it goes over the first tokens of the
list (`reads_ofList_iff`), and where two readings are stuck, they are the same (`Reads.unique`). `Blames` says of an
error that it tells where the reading gets stuck, and what would have been read there.
-/

namespace FuncIR

/-- From the state `s` at `p`, the stream goes on with the tokens of a word, which lead to `t` at `q`. -/
inductive Reads (layout : Layout) (stream : TokenStream) : State → Nat → List Token → State → Nat → Prop
  | nil {s : State} {p : Nat} : Reads layout stream s p [] s p
  | cons {s u t : State} {p q : Nat} {word : List Token} : State.next layout s (stream.get p).kind = some u →
      Reads layout stream u (p + 1) word t q → Reads layout stream s p (stream.get p :: word) t q

namespace Reads
variable {layout : Layout} {stream : TokenStream} {s t u : State} {p q r : Nat} {a b : List Token}

theorem trans (h : Reads layout stream s p a t q) (h' : Reads layout stream t q b u r) :
    Reads layout stream s p (a ++ b) u r := by
  induction h with
  | nil => exact h'
  | cons hn _ ih => exact .cons hn (ih h')

theorem single (h : State.next layout s (stream.get p).kind = some t) :
    Reads layout stream s p [stream.get p] t (p + 1) :=
  .cons h .nil

theorem stop_eq (h : Reads layout stream s p a t q) : q = p + a.length := by
  induction h with
  | nil => rfl
  | cons _ _ ih => rw [ih, List.length_cons]; omega

theorem lt (h : Reads layout stream s p a t q) (ha : a ≠ []) : p < q := by
  have := List.length_pos_iff.2 ha
  have := h.stop_eq
  omega

theorem after (h : Reads layout stream s p a t q) : State.after layout s (a.map (·.kind)) = some t := by
  induction h with
  | nil => rfl
  | cons hn _ ih => rw [List.map_cons, State.after, hn]; exact ih

/-- What is read does not end the input. -/
theorem not_eof {token : Token} (h : State.next layout s token.kind = some t) : token.isEof = false := by
  have : token.kind ≠ .eof := fun he => by simp [he, State.next_eof] at h
  simpa [Token.isEof] using this

theorem all_not_eof (h : Reads layout stream s p a t q) : ∀ token ∈ a, token.isEof = false := by
  induction h with
  | nil => simp
  | cons hn _ ih => exact List.forall_mem_cons.2 ⟨not_eof hn, ih⟩

/-- There is one reading up to where it is stuck. -/
theorem unique (h : Reads layout stream s p a t q) (hs : State.next layout t (stream.get q).kind = none)
    (h' : Reads layout stream s p b u r) (hs' : State.next layout u (stream.get r).kind = none) :
    a = b ∧ t = u ∧ q = r := by
  -- Neither ends before the other, since the other goes on from where it is stuck.
  induction h generalizing b with
  | nil =>
    cases h' with
    | nil => exact ⟨rfl, rfl, rfl⟩
    | cons hn _ => rw [hs] at hn; cases hn
  | cons hn _ ih =>
    cases h' with
    | nil => rw [hs'] at hn; cases hn
    | cons hn' h' =>
      obtain rfl := Option.some.inj (hn.symm.trans hn')
      obtain ⟨rfl, rfl, rfl⟩ := ih hs h'
      exact ⟨rfl, rfl, rfl⟩

end Reads

/-! ## Token lists -/

section Lists
variable {layout : Layout} {tokens : List Token} {s t : State} {p q : Nat} {word : List Token}

theorem Reads.drop_eq (h : Reads layout (.ofList tokens) s p word t q) : tokens.drop p = word ++ tokens.drop q := by
  induction h with
  | nil => rfl
  | cons hn _ ih => rw [drop_eq_cons (not_eof hn), ih, List.cons_append]

theorem reads_of_after (h : State.after layout s (word.map (·.kind)) = some t) (before rest : List Token) :
    Reads layout (.ofList (before ++ (word ++ rest))) s before.length word t (before.length + word.length) := by
  -- Each token moves to the list of those before, so the position is its length again.
  induction word generalizing s before with
  | nil =>
    obtain rfl := Option.some.inj h
    exact .nil
  | cons token word ih =>
    rw [List.map_cons, State.after, Option.bind_eq_some_iff] at h
    obtain ⟨u, hn, h⟩ := h
    have hg := get_append before (word ++ rest) token
    have hr := ih h (before ++ [token])
    rw [List.append_assoc, List.singleton_append, List.length_append, List.length_singleton] at hr
    have hc := Reads.cons (hg.symm ▸ hn) hr
    rw [hg, Nat.add_right_comm] at hc
    exact hc

/-- From the start of a list, a reading goes over the first tokens of the list. -/
theorem reads_ofList_iff : Reads layout (.ofList tokens) s 0 word t q ↔
    State.after layout s (word.map (·.kind)) = some t ∧ word = tokens.take q ∧ q ≤ tokens.length := by
  constructor
  · intro h
    have hq : q = word.length := by rw [h.stop_eq, Nat.zero_add]
    have hd : tokens = word ++ tokens.drop q := by simpa using h.drop_eq
    refine ⟨h.after, ?_, ?_⟩
    · rw [hd, hq, List.take_left]
    · rw [hd, hq, List.length_append]
      omega
  · rintro ⟨h, rfl, hq⟩
    have hr := reads_of_after h [] (tokens.drop q)
    rwa [List.nil_append, List.take_append_drop, List.length_nil, List.length_take_of_le hq, Nat.zero_add] at hr

end Lists

/-! ## Where a reading gets stuck -/

/-- The reading from `s` at `p` gets stuck on a token, and the error is that this token was found where the kinds
wanted there were expected. -/
def Blames (layout : Layout) (stream : TokenStream) (s : State) (p : Nat) (e : ParseError) : Prop :=
  ∃ word t n, Reads layout stream s p word t n ∧ (stream.get n).kind ∉ t.wanted layout ∧
    e = .unexpected (t.wanted layout) (stream.get n) n

namespace Blames
variable {layout : Layout} {stream : TokenStream} {s t : State} {p q : Nat} {e : ParseError} {word : List Token}

theorem here (h : (stream.get p).kind ∉ s.wanted layout) :
    Blames layout stream s p (.unexpected (s.wanted layout) (stream.get p) p) :=
  ⟨[], s, p, .nil, h, rfl⟩

theorem after (hr : Reads layout stream s p word t q) (h : Blames layout stream t q e) :
    Blames layout stream s p e := by
  obtain ⟨rest, u, n, hu, hn, rfl⟩ := h
  exact ⟨word ++ rest, u, n, hr.trans hu, hn, rfl⟩

/-- A reading that can go on blames a later token. -/
theorem lt_consumed (h : Blames layout stream s p e) (hw : (stream.get p).kind ∈ s.wanted layout) :
    p < e.consumed := by
  obtain ⟨word, t, n, hr, hn, rfl⟩ := h
  cases hr with
  | nil => exact absurd hw hn
  | cons _ hr => exact Nat.lt_of_lt_of_le (Nat.lt_succ_self p) (by rw [hr.stop_eq]; exact Nat.le_add_right _ _)

/-- The reading that gets stuck is the only one. -/
theorem unique (hr : Reads layout stream s p word t q) (hq : (stream.get q).kind ∉ t.wanted layout)
    (h : Blames layout stream s p e) : e = .unexpected (t.wanted layout) (stream.get q) q := by
  obtain ⟨other, u, n, hu, hn, rfl⟩ := h
  obtain ⟨-, rfl, rfl⟩ := hr.unique (State.next_eq_none hq) hu (State.next_eq_none hn)
  rfl

/-- A reading that gets stuck does not reach the end of input. -/
theorem not_ends (h : Blames layout stream s p e) (hr : Reads layout stream s p word .top q)
    (he : (stream.get q).kind = .eof) : False := by
  obtain ⟨other, u, n, hu, hn, rfl⟩ := h
  obtain ⟨-, rfl, rfl⟩ := hr.unique (by rw [he, State.next_eof]) hu (State.next_eq_none hn)
  exact hn (State.mem_wanted_iff.2 (.inr ⟨rfl, he⟩))

end Blames

end FuncIR
