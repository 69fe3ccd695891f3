import FuncIR.Proofs.Parser.Loop
import FuncIR.Proofs.Parser.OrderedChoice

/-!
# Nothing is read behind the end of the input

Two streams that have the same tokens up to the end of their input, in `SameUntil`, are the same to every parser: its
runs have the same outcome on both (`run_agree`), for what a run looks at lies between where it starts and where it
stops. So it does not matter what stands behind the first end of input of a token list, nor whether a list that has
none is closed by one (`parse_until_end`).
-/

namespace FuncIR

/-- The streams have the same tokens up to a position where the input ends. -/
structure TokenStream.SameUntil (n : Nat) (s t : TokenStream) : Prop where
  get_eq : ∀ p ≤ n, s.get p = t.get p
  ends : (s.get n).isEof = true

namespace TokenStream
variable {s t : TokenStream} {n p q : Nat}

/-- No reader gets past an end of input. -/
theorem endFrom_le (h : (s.get n).isEof = true) (hp : p ≤ n) : s.endFrom p ≤ n := by
  refine Nat.le_of_not_lt fun hn => ?_
  have same := endFrom_eq hp (Nat.le_of_lt hn)
  rw [endFrom_of_eof h] at same
  omega

namespace SameUntil

theorem next_eq (h : SameUntil n s t) (hp : p ≤ n) : s.next p = t.next p := by
  rw [next, next, h.get_eq p hp]

theorem spanOf_eq (h : SameUntil n s t) (hp : p ≤ n) (hq : q ≤ n) : s.spanOf p q = t.spanOf p q := by
  rw [spanOf, spanOf, h.get_eq p hp, h.get_eq q hq, h.get_eq (q - 1) (by omega)]

end SameUntil

end TokenStream

/-! ## Lists that end alike -/

/-- Whatever follows a token that ends the input. -/
theorem sameUntil_marker (before after others : List Token) {marker : Token} (hm : marker.isEof = true) :
    TokenStream.SameUntil before.length (.ofList (before ++ marker :: after))
      (.ofList (before ++ marker :: others)) := by
  refine ⟨fun p hp => ?_, by rwa [get_append]⟩
  rcases Nat.lt_or_eq_of_le hp with hp | rfl
  · have inside (rest : List Token) : (before ++ rest)[p]? = some before[p] := by
      rw [List.getElem?_append_left hp, List.getElem?_eq_getElem hp]
    rw [get_ofList, get_ofList, inside, inside]
    rfl
  · rw [get_append, get_append]

/-- The end of input that stands behind every list may as well be its last token. -/
theorem sameUntil_closed (tokens : List Token) :
    TokenStream.SameUntil tokens.length
      (.ofList (tokens ++ [.endOfInput ((tokens.getLast?.map (·.span.stop)).getD 0)])) (.ofList tokens) := by
  refine ⟨fun p hp => ?_, by rw [get_append]; rfl⟩
  rcases Nat.lt_or_eq_of_le hp with hp | rfl
  · rw [get_ofList, get_ofList, List.getElem?_append_left hp, List.getElem?_eq_getElem hp]
    rfl
  · rw [get_append, get_ofList, List.getElem?_eq_none (Nat.le_refl _)]
    rfl

open TokenStream (SameUntil)

namespace Parser.Step
variable {s t : TokenStream} {n p : Nat}

/-- The two steps have the same outcome at every position up to `n`. -/
def AgreeUntil (n : Nat) (a b : Step) : Prop := ∀ p ≤ n, a p = b p

theorem Bounded.position_le {step : Step} (hb : Bounded s step) (hs : SameUntil n s t) (hp : p ≤ n) :
    (step p).position ≤ n :=
  Nat.le_trans (hb p).le_end (TokenStream.endFrom_le hs.ends hp)

/-! ## Steps -/

theorem agree_token (hs : SameUntil n s t) (kind : TokenKind) : AgreeUntil n (token s kind) (token t kind) := by
  intro p hp
  rw [token, token, hs.get_eq p hp, hs.next_eq hp]

theorem agree_inOrder {α : Type} {f g : α → Step} {parts : List α} (hs : SameUntil n s t)
    (hb : ∀ part ∈ parts, Bounded s (f part)) (h : ∀ part ∈ parts, AgreeUntil n (f part) (g part)) :
    ∀ pending : KindSet, AgreeUntil n (inOrder pending (parts.map f)) (inOrder pending (parts.map g)) := by
  induction parts with
  | nil => exact fun _ _ _ => rfl
  | cons part parts ih =>
    intro pending p hp
    -- The parts behind this one start where it stops, which is up to `n` as well.
    have stays := (hb part List.mem_cons_self).position_le hs hp
    have ih := ih (fun other ho => hb other (List.mem_cons_of_mem _ ho)) fun other ho =>
      h other (List.mem_cons_of_mem _ ho)
    rw [List.map_cons, List.map_cons, inOrder, inOrder, ← h part List.mem_cons_self p hp]
    cases (f part p).result with
    | error e => rfl
    | ok parsed =>
      dsimp only
      rw [ih _ _ stays]

theorem agree_finished {traits : Traits} {a b : Step} (hs : SameUntil n s t) (hb : Bounded s a) (h : AgreeUntil n a b) :
    AgreeUntil n (finished s traits a) (finished t traits b) := by
  intro p hp
  have spans : s.spanOf p (b p).position = t.spanOf p (b p).position :=
    hs.spanOf_eq hp (h p hp ▸ hb.position_le hs hp)
  rw [finished, finished, h p hp, spans]

theorem agree_guarded {depth : Nat} {label : String} {firstSet : KindSet} {acceptsEmpty : Bool} {a b : Step}
    (hs : SameUntil n s t) (h : AgreeUntil n a b) :
    AgreeUntil n (guarded s depth label firstSet acceptsEmpty a) (guarded t depth label firstSet acceptsEmpty b) := by
  intro p hp
  rw [guarded, guarded, startsAt, startsAt, hs.get_eq p hp, h p hp]

/-! ## Loops -/

/-- A loop that starts before `n` and stays there does not depend on what is wanted or done behind it. -/
theorem Loop.congr {v w : Nat → Bool} {a b : Step} {rounds : List Outcome} (stays : ∀ p ≤ n, (a p).position ≤ n)
    (wanted : ∀ p ≤ n, v p = w p) (h : AgreeUntil n a b) (loop : Loop v a p rounds) (hp : p ≤ n) :
    Loop w b p rounds := by
  induction loop with
  | idle hv => exact .idle (wanted _ hp ▸ hv)
  | last hv ha =>
    rw [h _ hp] at ha ⊢
    exact .last (wanted _ hp ▸ hv) ha
  | again hv ha _ ih =>
    have rest := ih (stays _ hp)
    rw [h _ hp] at ha rest ⊢
    exact .again (wanted _ hp ▸ hv) ha rest

theorem rounds_agree {v w : Nat → Bool} {a b : Step} (hs : SameUntil n s t) (ha : Bounded s a) (hb : Bounded t b)
    (wanted : ∀ p ≤ n, v p = w p) (h : AgreeUntil n a b) (hp : p ≤ n) : rounds s v a p = rounds t w b p := by
  have loop : Loop v a p (rounds s v a p) := (loop_iff_rounds ha).2 rfl
  exact (loop_iff_rounds hb).1 (loop.congr (fun p hp => ha.position_le hs hp) wanted h hp)

section Loops
variable {firstSet : KindSet} {a b : Step} (hs : SameUntil n s t) (ha : Bounded s a) (hb : Bounded t b)
include hs ha hb

theorem agree_repeating (h : AgreeUntil n a b) :
    AgreeUntil n (repeating s firstSet a) (repeating t firstSet b) := by
  intro p hp
  have starts : ∀ p ≤ n, startsAt s firstSet p = startsAt t firstSet p := fun p hp => by
    rw [startsAt, startsAt, hs.get_eq p hp]
  rw [repeating, repeating, rounds_agree hs ha hb starts h hp]

theorem agree_items {closer : TokenKind} (h : AgreeUntil n a b) :
    AgreeUntil n (items s firstSet closer a) (items t firstSet closer b) := by
  intro p hp
  have starts : ∀ p ≤ n, itemAt s firstSet closer p = itemAt t firstSet closer p := fun p hp => by
    rw [itemAt, itemAt, hs.get_eq p hp]
  have stays : (loop s (itemAt s firstSet closer) a p).position ≤ n := Bounded.position_le (placing_loop ha) hs hp
  have stop_le : stop p (rounds t (itemAt t firstSet closer) b p) ≤ n := by
    rw [← rounds_agree hs ha hb starts h hp]
    exact stays
  rw [items, items, rounds_agree hs ha hb starts h hp, close, close, hs.get_eq _ stop_le, hs.next_eq stop_le]

end Loops

/-! ## Choices -/

theorem agree_inTurn {α : Type} {f g : α → Step} {alternatives : List α} (hs : SameUntil n s t) (hp : p ≤ n)
    (h : ∀ alternative ∈ alternatives, f alternative p = g alternative p) :
    ∀ index best, inTurn s index best (alternatives.map f) p = inTurn t index best (alternatives.map g) p := by
  induction alternatives with
  | nil =>
    intro index best
    rw [List.map_nil, List.map_nil, inTurn, inTurn, hs.get_eq p hp]
  | cons alternative alternatives ih =>
    intro index best
    have ih := ih fun other ho => h other (List.mem_cons_of_mem _ ho)
    rw [List.map_cons, List.map_cons, inTurn, inTurn, h alternative List.mem_cons_self]
    cases (g alternative p).result with
    | ok parsed => rfl
    | error e =>
      dsimp only
      rw [ih]

end Parser.Step

namespace Parser
open Step (AgreeUntil)

/-! ## Parsers -/

section
variable {s t : TokenStream} {n : Nat} {policy : Alternation}

theorem agree_choice {depth : Nat} {alternatives : List Parser} (hs : SameUntil n s t)
    (h : ∀ alternative ∈ alternatives, AgreeUntil n (run s policy depth alternative) (run t policy depth alternative)) :
    AgreeUntil n (Step.choice s policy (branchesOf s policy depth alternatives))
      (Step.choice t policy (branchesOf t policy depth alternatives)) := by
  intro p hp
  rw [choice_eq, choice_eq, ← hs.get_eq p hp]
  have tried : ∀ alternative ∈ contenders policy (s.get p).kind alternatives,
      run s policy depth alternative p = run t policy depth alternative p :=
    fun alternative ha => h alternative (mem_of_mem_contenders ha) p hp
  split
  · rename_i only ho
    exact tried only (by simp [ho])
  · exact Step.agree_inTurn hs hp tried 0 none

theorem agree_enclosed {depth : Nat} {parser : Parser} {a b : Step} (hs : SameUntil n s t) (ha : Step.Bounded s a)
    (hb : Step.Bounded t b) (h : AgreeUntil n a b) :
    AgreeUntil n (enclosed s depth parser a) (enclosed t depth parser b) := by
  have once : AgreeUntil n (Step.finished s parser.traits a) (Step.finished t parser.traits b) :=
    Step.agree_finished hs ha h
  apply Step.agree_guarded hs
  split
  · exact Step.agree_repeating hs (bounded_finished ha) (bounded_finished hb) once
  · exact once

theorem body_agree (hs : SameUntil n s t) (parser : Parser) :
    ∀ depth, AgreeUntil n (body s policy depth parser) (body t policy depth parser) := by
  induction parser with
  | token kind traits => exact fun _ => Step.agree_token hs kind
  | sequence parts traits ih =>
    intro depth
    rw [body_sequence, body_sequence]
    refine Step.agree_inOrder hs (fun part _ => run_bounded s policy _ part) (fun part hp => ?_) []
    exact agree_enclosed hs (body_bounded s policy part _) (body_bounded t policy part _) (ih part hp _)
  | choice alternatives traits ih =>
    intro depth
    rw [body_choice, body_choice]
    refine agree_choice hs fun alternative ha => ?_
    exact agree_enclosed hs (body_bounded s policy _ _) (body_bounded t policy _ _) (ih alternative ha _)
  | items item closer traits ih =>
    intro depth
    refine Step.agree_items hs (run_bounded s policy _ item) (run_bounded t policy _ item) ?_
    exact agree_enclosed hs (body_bounded s policy item _) (body_bounded t policy item _) (ih _)

/-- A parser does the same on both streams, wherever it starts before the end of their input. -/
theorem run_agree (hs : SameUntil n s t) (parser : Parser) (depth : Nat) :
    AgreeUntil n (run s policy depth parser) (run t policy depth parser) :=
  agree_enclosed hs (body_bounded s policy parser depth) (body_bounded t policy parser depth)
    (body_agree hs parser depth)

end

/-- A parser that starts at the first token never sees what stands behind an end of input, the first one or a later
one: its value, its error, where it stops and what it logs are the same with anything else there. They are the same,
too, if the end of input is put behind the tokens where the last of them stops, as a reader has it there anyway. -/
theorem parse_until_end (parser : Parser) (policy : Alternation) :
    (∀ (before after others : List Token) (marker : Token), marker.isEof = true →
      parser.parse (.ofList (before ++ marker :: after)) policy =
        parser.parse (.ofList (before ++ marker :: others)) policy) ∧
      ∀ tokens : List Token,
        parser.parse (.ofList (tokens ++ [.endOfInput ((tokens.getLast?.map (·.span.stop)).getD 0)])) policy =
          parser.parse (.ofList tokens) policy :=
  ⟨fun before after others _ hm => run_agree (sameUntil_marker before after others hm) parser 0 0 (Nat.zero_le _),
    fun tokens => run_agree (sameUntil_closed tokens) parser 0 0 (Nat.zero_le _)⟩

/-- Names up to the end of the input. -/
def names : Parser :=
  upTo .eof ((expect .identifier).withTag "name")

/-- A comma would stop the names if it did not stand behind the end of the input. -/
theorem parse_until_end_names :
    let main : Token := ⟨.identifier, "main", ⟨0, 4⟩⟩
    let comma : Token := ⟨.comma, ",", ⟨4, 5⟩⟩
    (Token.endOfInput 4).isEof = true ∧
      names.parse (.ofList [main, .endOfInput 4, comma]) .firstSet =
        names.parse (.ofList [main, .endOfInput 4]) .firstSet ∧
      names.parse (.ofList [main, .endOfInput 4]) .firstSet = names.parse (.ofList [main]) .firstSet ∧
      (names.parse (.ofList [main, comma]) .firstSet).result = .error (.unexpected [.eof, .identifier] comma 1) := by
  intro main comma
  obtain ⟨unread, closed⟩ := parse_until_end names .firstSet
  exact ⟨rfl, unread [main] [comma] [] (.endOfInput 4) rfl, closed [main], rfl⟩

end Parser

end FuncIR
