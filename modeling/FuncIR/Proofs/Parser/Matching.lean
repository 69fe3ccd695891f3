import FuncIR.Proofs.Parser.OrderedChoice
import FuncIR.Proofs.Parser.Predictive

/-!
# What a run matches

`Parser.reading` follows a run that succeeds from token parser to token parser: it relates the two ends of the run to
the tokens that were matched in between, each with the tag of the token parser that matched it. There is one reading
from each position at most (`reading_unique`), and it has the tokens that the run went over, in order
(`reading_covers`).
-/

namespace FuncIR.Parser

/-! ## What a run matches -/

/-- A token that was matched, with the tag of the token parser that did. -/
structure Match where
  token : Token
  tag : Option String

/-- From where, which tokens, and up to where. -/
abbrev Reading := Nat → List Match → Nat → Prop

namespace Reading

/-- The token at a position, if it is of the kind. -/
def single (stream : TokenStream) (kind : TokenKind) (tag : Option String) : Reading := fun p matched q =>
  (stream.get p).kind = kind ∧ matched = [⟨stream.get p, tag⟩] ∧ q = stream.next p

def andThen (first second : Reading) : Reading := fun p matched r =>
  ∃ front q back, first p front q ∧ second q back r ∧ matched = front ++ back

/-- Round after round, as in a loop: there is one wherever `wanted` holds, and others only follow one that consumed a
token. -/
inductive Rounds (wanted : Nat → Bool) (round : Reading) : Nat → List Match → Nat → Prop
  | idle {p : Nat} : wanted p = false → Rounds wanted round p [] p
  | last {p q : Nat} {matched : List Match} : wanted p = true → round p matched q → ¬ p < q →
      Rounds wanted round p matched q
  | again {p q r : Nat} {front back : List Match} : wanted p = true → round p front q → p < q →
      Rounds wanted round q back r → Rounds wanted round p (front ++ back) r

/-- As often as the parser occurs where it can start, and nothing elsewhere. -/
def occurring (stream : TokenStream) (parser : Parser) (once : Reading) : Reading := fun p matched q =>
  if Step.startsAt stream parser.firstSet p then
    if parser.traits.repeated then Rounds (Step.startsAt stream parser.firstSet) once p matched q
    else once p matched q
  else parser.acceptsEmpty = true ∧ matched = [] ∧ q = p

end Reading

/-- Whether a policy tries the parser on a token of this kind. -/
def triedOn (policy : Alternation) (kind : TokenKind) (parser : Parser) : Bool :=
  match policy with
  | .firstSet => parser.startsWith kind
  | .exhaustive => true

section Reading
variable (stream : TokenStream) (policy : Alternation)

mutual

/-- What a run of the parser matches where it succeeds. Of a choice, only the alternative that was taken counts. -/
def reading : Parser → Reading
  | .token kind traits => .occurring stream (.token kind traits) (.single stream kind traits.tag)
  | .sequence parts traits => .occurring stream (.sequence parts traits) (readingOfSequence parts)
  | .choice alternatives traits => .occurring stream (.choice alternatives traits) (readingOfChoice alternatives)
  | .items item closer traits => .occurring stream (.items item closer traits)
      (.andThen (.Rounds (Step.itemAt stream item.firstSet closer) (reading item)) (.single stream closer none))

def readingOfSequence : List Parser → Reading
  | [] => fun p matched q => matched = [] ∧ q = p
  | part :: parts => .andThen (reading part) (readingOfSequence parts)

/-- The first alternative that is tried and succeeds alone. -/
def readingOfChoice : List Parser → Reading
  | [] => fun _ _ _ => False
  | alternative :: alternatives => fun p matched q =>
      if triedOn policy (stream.get p).kind alternative ∧ (alternative.parseAt stream policy p).result.isOk then
        reading alternative p matched q
      else readingOfChoice alternatives p matched q

end

end Reading

section ReadingOf
variable {stream : TokenStream} {policy : Alternation} {p q : Nat} {matched : List Match}

theorem contenders_eq_filter (kind : TokenKind) (alternatives : List Parser) :
    contenders policy kind alternatives = alternatives.filter (triedOn policy kind) := by
  cases policy with
  | firstSet => rfl
  | exhaustive => exact (List.filter_eq_self.2 fun _ _ => rfl).symm

theorem readingOfChoice_iff {alternatives : List Parser} :
    readingOfChoice stream policy alternatives p matched q ↔
      ∃ winner, (contenders policy (stream.get p).kind alternatives).find?
          (fun alternative => (alternative.parseAt stream policy p).result.isOk) = some winner ∧
        winner.reading stream policy p matched q := by
  rw [contenders_eq_filter, List.find?_filter]
  induction alternatives with
  | nil => simp [readingOfChoice]
  | cons alternative alternatives ih =>
    rw [readingOfChoice]
    dsimp only
    split
    · rename_i taken
      rw [List.find?_cons_of_pos (by simpa using taken)]
      simp
    · rename_i taken
      rw [List.find?_cons_of_neg (by simpa using taken), ih]

end ReadingOf

/-! ## One reading -/

/-- From each position on there is one at most. -/
def Reading.Unique (r : Reading) : Prop :=
  ∀ p matched q others q', r p matched q → r p others q' → matched = others ∧ q = q'

namespace Reading.Unique
variable {stream : TokenStream} {first second round once : Reading}

theorem single (kind : TokenKind) (tag : Option String) : Unique (.single stream kind tag) := by
  rintro p _ _ _ _ ⟨-, rfl, rfl⟩ ⟨-, rfl, rfl⟩
  exact ⟨rfl, rfl⟩

theorem andThen (h : Unique first) (h' : Unique second) : Unique (.andThen first second) := by
  rintro p _ _ _ _ ⟨front, q, back, hf, hb, rfl⟩ ⟨front', q', back', hf', hb', rfl⟩
  obtain ⟨rfl, rfl⟩ := h p _ _ _ _ hf hf'
  obtain ⟨rfl, rfl⟩ := h' q _ _ _ _ hb hb'
  exact ⟨rfl, rfl⟩

theorem rounds (h : Unique round) (wanted : Nat → Bool) : Unique (.Rounds wanted round) := by
  intro p matched q others q' m m'
  induction m generalizing others q' with
  | idle hw =>
    cases m' with
    | idle => exact ⟨rfl, rfl⟩
    | last hw' | again hw' => simp [hw] at hw'
  | last hw hm ended =>
    cases m' with
    | idle hw' => simp [hw] at hw'
    | last _ hm' _ => exact h _ _ _ _ _ hm hm'
    | again _ hf' goesOn _ => exact absurd ((h _ _ _ _ _ hm hf').2 ▸ goesOn) ended
  | again hw hf goesOn _ ih =>
    cases m' with
    | idle hw' => simp [hw] at hw'
    | last _ hm' ended => exact absurd ((h _ _ _ _ _ hf hm').2 ▸ goesOn) ended
    | again _ hf' _ hb' =>
      obtain ⟨rfl, rfl⟩ := h _ _ _ _ _ hf hf'
      obtain ⟨rfl, rfl⟩ := ih _ _ hb'
      exact ⟨rfl, rfl⟩

theorem occurring (h : Unique once) (parser : Parser) : Unique (.occurring stream parser once) := by
  intro p matched q others q' m m'
  unfold Reading.occurring at m m'
  split at m
  · split at m
    · rename_i hs hr
      simp only [hs, hr, if_true] at m'
      exact h.rounds _ p _ _ _ _ m m'
    · rename_i hs hr
      simp only [hs, hr, if_true] at m'
      exact h p _ _ _ _ m m'
  · rename_i hs
    rw [if_neg hs] at m'
    obtain ⟨-, rfl, rfl⟩ := m
    obtain ⟨-, rfl, rfl⟩ := m'
    exact ⟨rfl, rfl⟩

end Reading.Unique

/-- The tokens that a run matches, and by which token parsers, are settled by where it starts. -/
theorem reading_unique (stream : TokenStream) (policy : Alternation) (parser : Parser) :
    Reading.Unique (parser.reading stream policy) := by
  induction parser with
  | token kind traits => exact .occurring (.single kind traits.tag) _
  | sequence parts traits ih =>
    refine .occurring ?_ _
    induction parts with
    | nil =>
      rintro p _ _ _ _ ⟨rfl, rfl⟩ ⟨rfl, rfl⟩
      exact ⟨rfl, rfl⟩
    | cons part parts ihs =>
      exact .andThen (ih part List.mem_cons_self) (ihs fun other ho => ih other (List.mem_cons_of_mem _ ho))
  | choice alternatives traits ih =>
    refine .occurring (fun p matched q others q' m m' => ?_) _
    obtain ⟨winner, hw, m⟩ := readingOfChoice_iff.1 m
    obtain ⟨winner', hw', m'⟩ := readingOfChoice_iff.1 m'
    obtain rfl := Option.some.inj (hw.symm.trans hw')
    exact ih winner (mem_of_mem_contenders (List.mem_of_find?_eq_some hw)) p _ _ _ _ m m'
  | items item closer traits ih => exact .occurring (.andThen (ih.rounds _) (.single closer none)) _

/-! ## What holds of all that is matched -/

/-- The tag under which a parser hands on the token that it takes itself. -/
def ownTag : Parser → Option String
  | .token _ traits => traits.tag
  | _ => none

/-- What holds where nothing is matched, and of two stretches in a row if it holds of each. -/
structure Composes (P : Nat → List Match → Nat → Prop) : Prop where
  nil : ∀ p, P p [] p
  append : ∀ {p q r front back}, P p front q → P q back r → P p (front ++ back) r

namespace Composes
variable {P : Nat → List Match → Nat → Prop} {stream : TokenStream} {policy : Alternation}

theorem rounds (h : Composes P) {wanted : Nat → Bool} {round : Reading}
    (hr : ∀ p matched q, round p matched q → P p matched q) {p q : Nat} {matched : List Match}
    (m : Reading.Rounds wanted round p matched q) : P p matched q := by
  induction m with
  | idle => exact h.nil _
  | last _ m => exact hr _ _ _ m
  | again _ m _ _ ih => exact h.append (hr _ _ _ m) ih

theorem occurring (h : Composes P) {parser : Parser} {once : Reading}
    (ho : ∀ p matched q, once p matched q → P p matched q) :
    ∀ p matched q, Reading.occurring stream parser once p matched q → P p matched q := by
  intro p matched q m
  unfold Reading.occurring at m
  split at m
  · split at m
    · exact h.rounds ho m
    · exact ho p matched q m
  · obtain ⟨-, rfl, rfl⟩ := m
    exact h.nil _

theorem readingOfSequence (h : Composes P) {parts : List Parser}
    (hp : ∀ part ∈ parts, ∀ p matched q, part.reading stream policy p matched q → P p matched q) :
    ∀ p matched q, Parser.readingOfSequence stream policy parts p matched q → P p matched q := by
  induction parts with
  | nil =>
    rintro p _ _ ⟨rfl, rfl⟩
    exact h.nil _
  | cons part parts ih =>
    rintro p _ r ⟨front, q, back, first, rest, rfl⟩
    exact h.append (hp part List.mem_cons_self _ _ _ first)
      (ih (fun other ho => hp other (List.mem_cons_of_mem _ ho)) _ _ _ rest)

/-- It holds of all that a run matches if it holds of each single token that parsers in it take. -/
theorem reading (h : Composes P) {parser : Parser}
    (single : parser.Throughout fun part => ∀ p, part.ownKind? = some (stream.get p).kind →
      P p [⟨stream.get p, part.ownTag⟩] (stream.next p)) :
    ∀ p matched q, parser.reading stream policy p matched q → P p matched q := by
  induction parser with
  | token kind traits =>
    refine h.occurring ?_
    rintro p _ _ ⟨rfl, rfl, rfl⟩
    exact single.self p rfl
  | sequence parts traits ih => exact h.occurring (h.readingOfSequence fun part hp => ih part hp (single.sequence hp))
  | choice alternatives traits ih =>
    refine h.occurring fun p matched q m => ?_
    obtain ⟨winner, hw, m⟩ := readingOfChoice_iff.1 m
    have ha := mem_of_mem_contenders (List.mem_of_find?_eq_some hw)
    exact ih winner ha (single.choice ha) p matched q m
  | items item closer traits ih =>
    refine h.occurring ?_
    rintro p _ _ ⟨front, q, _, rounds, ⟨rfl, rfl, rfl⟩, rfl⟩
    exact h.append (h.rounds (ih single.items) rounds) (single.self q rfl)

end Composes

/-- The tokens that were matched are those from `p` up to `q`, but for the ends of input. -/
def Covers (tokens : List Token) (p : Nat) (matched : List Match) (q : Nat) : Prop :=
  p ≤ q ∧ (matched.map (·.token)).filter (!·.isEof) = (tokens.drop p).take (q - p)

theorem covers_composes (tokens : List Token) : Composes (Covers tokens) where
  nil p := by simp [Covers]
  append := by
    rintro p q r front back ⟨hp, front⟩ ⟨hq, back⟩
    refine ⟨Nat.le_trans hp hq, ?_⟩
    have ht : r - p = (q - p) + (r - q) := by omega
    have hd : p + (q - p) = q := by omega
    rw [List.map_append, List.filter_append, front, back, ht, List.take_add, List.drop_drop, hd]

theorem covers_single (tokens : List Token) (p : Nat) (tag : Option String) :
    Covers tokens p [⟨(TokenStream.ofList tokens).get p, tag⟩] ((TokenStream.ofList tokens).next p) := by
  unfold Covers TokenStream.next
  cases he : ((TokenStream.ofList tokens).get p).isEof with
  | true => simp [he]
  | false => simp [he, drop_eq_cons he]

theorem reading_covers {tokens : List Token} {policy : Alternation} {parser : Parser} {p q : Nat} {matched : List Match}
    (h : parser.reading (.ofList tokens) policy p matched q) : Covers tokens p matched q :=
  (covers_composes tokens).reading (fun _ _ p _ => covers_single tokens p _) p matched q h

end FuncIR.Parser
