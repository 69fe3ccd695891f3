import FuncIR.Proofs.Grammar.Spans
import FuncIR.Proofs.IR.Definitions

/-!
# What the IR says

The IR of a source says all that the source says, except for its layout (`compile_inj`). Each piece of the text tells
from its characters what it was printed for and where it ends, if what follows it is not taken for a part of it
(`Recoverable`): names are words, and no word goes on behind a name; the items of a list begin unlike what follows the
list.
-/

namespace FuncIR

/-- From the text that was printed for a good value, and something behind it of which `follow` holds, the value is
known. -/
def Recoverable {α : Type} (good : α → Prop) (follow : String → Prop) (print : α → String) : Prop :=
  ∀ ⦃a b⦄, good a → good b → ∀ ⦃r s⦄, follow r → follow s → print a ++ r = print b ++ s → a = b ∧ r = s

/-! ## Lists -/

/-- The text of a list begins with its first item, and `more` is what follows that item. -/
structure Unfolds {α : Type} (print : α → String) (text more : List α → String) : Prop where
  nil : text [] = ""
  cons : ∀ a l, text (a :: l) = print a ++ more l

section Unfolds
variable {α : Type} (print : α → String) (separator : String)

theorem unfolds_join : Unfolds print (fun l => String.join (l.map print)) fun l => String.join (l.map print) where
  nil := rfl
  cons a l := by simp

theorem intercalate_cons (first : String) (l : List String) :
    String.intercalate separator (first :: l) = first ++ String.join (l.map (separator ++ ·)) := by
  induction l generalizing first with
  | nil => simp
  | cons second l ih =>
    rw [String.intercalate_cons_cons, ih, List.map_cons, String.join_cons]
    simp only [String.append_assoc]

/-- Behind the first item, each item has the separator in front of it. -/
theorem unfolds_intercalate : Unfolds print (fun l => String.intercalate separator (l.map print))
    fun l => String.join (l.map fun a => separator ++ print a) where
  nil := by simp
  cons a l := by
    rw [List.map_cons, intercalate_cons, List.map_map]
    rfl

end Unfolds

namespace Recoverable
variable {α : Type} {good : α → Prop} {follow last : String → Prop} {print : α → String}

theorem after (h : Recoverable good follow print) (lead : String) :
    Recoverable good follow fun a => lead ++ print a := by
  intro a b ha hb r s hr hs he
  rw [String.append_assoc, String.append_assoc, String.append_right_inj] at he
  exact h ha hb hr hs he

/-- If no item begins like what follows the list, its text tells whether there are any items, and which is the first. -/
theorem first (h : Recoverable good follow print) {text more : List α → String} (unfolds : Unfolds print text more)
    (follows : ∀ l r, last r → follow (more l ++ r)) (apart : ∀ a r s, good a → last s → print a ++ r ≠ s)
    {l m : List α} (hl : ∀ a ∈ l, good a) (hm : ∀ a ∈ m, good a) {r s : String} (hr : last r) (hs : last s)
    (he : text l ++ r = text m ++ s) :
    l = [] ∧ m = [] ∧ r = s ∨ ∃ a l' m', l = a :: l' ∧ m = a :: m' ∧ more l' ++ r = more m' ++ s := by
  rcases l with _ | ⟨a, l⟩ <;> rcases m with _ | ⟨b, m⟩ <;>
    simp only [unfolds.nil, unfolds.cons, String.empty_append, String.append_assoc] at he
  · exact .inl ⟨rfl, rfl, he⟩
  · exact absurd he.symm (apart b _ r (hm b List.mem_cons_self) hr)
  · exact absurd he (apart a _ s (hl a List.mem_cons_self) hs)
  · obtain ⟨hab, rest⟩ := h (hl a List.mem_cons_self) (hm b List.mem_cons_self) (follows l r hr) (follows m s hs) he
    exact .inr ⟨a, l, m, rfl, by rw [hab], rest⟩

theorem follow_join (goes_on : ∀ a r, follow (print a ++ r)) (ends : ∀ r, last r → follow r) (l : List α) (r : String)
    (hr : last r) : follow (String.join (l.map print) ++ r) := by
  cases l with
  | nil => simpa using ends r hr
  | cons a l => simpa [String.append_assoc] using goes_on a _

/-- Items up to a text that no item begins like. -/
theorem join (h : Recoverable good follow print) (goes_on : ∀ a r, follow (print a ++ r))
    (ends : ∀ r, last r → follow r) (apart : ∀ a r s, good a → last s → print a ++ r ≠ s) :
    Recoverable (fun l : List α => ∀ a ∈ l, good a) last fun l => String.join (l.map print) := by
  intro l
  induction l with
  | nil =>
    intro m hl hm r s hr hs he
    rcases h.first (unfolds_join print) (follow_join goes_on ends) apart hl hm hr hs he with
      ⟨-, hm, rest⟩ | ⟨_, _, _, hn, -⟩
    · exact ⟨hm.symm, rest⟩
    · cases hn
  | cons a l ih =>
    intro m hl hm r s hr hs he
    rcases h.first (unfolds_join print) (follow_join goes_on ends) apart hl hm hr hs he with
      ⟨hn, -⟩ | ⟨_, _, m', ⟨⟩, rfl, rest⟩
    · cases hn
    · obtain ⟨hlm, rest⟩ := ih (List.forall_mem_cons.1 hl).2 (List.forall_mem_cons.1 hm).2 hr hs rest
      exact ⟨by rw [hlm], rest⟩

/-- Items with a separator between two of them, up to a text that neither an item nor the separator begins like. -/
theorem intercalate (h : Recoverable good follow print) (separator : String) (goes_on : ∀ r, follow (separator ++ r))
    (ends : ∀ r, last r → follow r) (apart : ∀ r s, last s → separator ++ r ≠ s)
    (item_apart : ∀ a r s, good a → last s → print a ++ r ≠ s) :
    Recoverable (fun l : List α => ∀ a ∈ l, good a) last fun l => String.intercalate separator (l.map print) := by
  have separated : ∀ a r, follow (separator ++ print a ++ r) := fun a r => by
    rw [String.append_assoc]
    exact goes_on _
  have others := (h.after separator).join separated ends fun a r s _ hs => by
    rw [String.append_assoc]
    exact apart _ s hs
  intro l m hl hm r s hr hs he
  rcases h.first (unfolds_intercalate print separator) (follow_join separated ends) item_apart hl hm hr hs he with
    ⟨hl, hm, rest⟩ | ⟨a, l', m', rfl, rfl, rest⟩
  · exact ⟨hl.trans hm.symm, rest⟩
  · obtain ⟨hlm, rest⟩ := others (List.forall_mem_cons.1 hl).2 (List.forall_mem_cons.1 hm).2 hr hs rest
    exact ⟨by rw [hlm], rest⟩

end Recoverable

/-! ## Names and types -/

/-- Letters and digits only. -/
def IsWord (name : String) : Prop := ∀ c ∈ name.toList, c.isAlphanum = true

/-- No word goes on here. -/
def EndsWord (rest : String) : Prop := ∀ c ∈ rest.toList.head?, c.isAlphanum = false

theorem recoverable_word : Recoverable IsWord EndsWord fun name => name := by
  intro a b ha hb r s hr hs he
  have chars : a.toList ++ r.toList = b.toList ++ s.toList := by
    rw [← String.toList_append, he, String.toList_append]
  obtain rfl : a = b := by
    rw [← String.toList_inj, ← Lexer.takeWhile_append_of_head? ha hr, chars, Lexer.takeWhile_append_of_head? hb hs]
  exact ⟨rfl, (String.append_right_inj a).1 he⟩

/-- A type with a counterpart. -/
def IsTyped (type : String) : Prop := (irTypes.lookup type).isSome = true

theorem IsTyped.cases {type : String} (h : IsTyped type) :
    (type = "Bool" ∧ (irTypes.lookup type).getD "" = "i1") ∨ (type = "Int" ∧ (irTypes.lookup type).getD "" = "i32") ∨
      type = "Float" ∧ (irTypes.lookup type).getD "" = "float" := by
  rw [IsTyped, lookup_irTypes] at h
  rw [lookup_irTypes]
  unfold IRType.ofSourceName? at *
  grind [IRType.name]

/-- No name of an IR type begins like another one. -/
theorem recoverable_type : Recoverable IsTyped (fun _ => True) fun type => (irTypes.lookup type).getD "" := by
  intro a b ha hb r s _ _ he
  rcases ha.cases with ⟨rfl, hx⟩ | ⟨rfl, hx⟩ | ⟨rfl, hx⟩ <;> rcases hb.cases with ⟨rfl, hy⟩ | ⟨rfl, hy⟩ | ⟨rfl, hy⟩ <;>
    simp only [hx, hy, String.append_right_inj] at he <;>
    first
    | exact ⟨rfl, he⟩
    | exact absurd (congrArg String.toList he) (by simp)

/-! ## Definitions -/

namespace Outline

/-- Names are words, and types have a counterpart. -/
structure Lowerable (outline : Outline) : Prop where
  name : IsWord outline.name
  parameters : ∀ parameter ∈ outline.parameters, IsWord parameter.1 ∧ IsTyped parameter.2
  calls : ∀ call ∈ outline.calls, IsWord call

theorem recoverable_irParameter :
    Recoverable (fun parameter => IsWord parameter.1 ∧ IsTyped parameter.2) EndsWord irParameter := by
  rintro ⟨name, type⟩ ⟨name', type'⟩ ⟨hn, ht⟩ ⟨hn', ht'⟩ r s hr hs he
  simp only [irParameter, String.append_assoc] at he
  obtain ⟨htype, he⟩ := recoverable_type ht ht' trivial trivial he
  obtain ⟨hname, he⟩ := recoverable_word hn hn' hr hs ((String.append_right_inj " %").1 he)
  exact ⟨Prod.ext hname htype, he⟩

/-- Parameters are followed by the parenthesis that closes their list. -/
theorem recoverable_irParameters :
    Recoverable (fun parameters : List (String × String) =>
        ∀ parameter ∈ parameters, IsWord parameter.1 ∧ IsTyped parameter.2) (fun r => ∃ rest, r = ")" ++ rest)
      fun parameters => String.intercalate ", " (parameters.map irParameter) := by
  refine recoverable_irParameter.intercalate ", " (fun r => ?_) ?_ ?_ ?_
  · simp [EndsWord]
  · rintro _ ⟨rest, rfl⟩
    simp [EndsWord]
  · rintro r _ ⟨rest, rfl⟩ he
    exact absurd (congrArg String.toList he) (by simp)
  · rintro ⟨name, type⟩ r _ ⟨-, ht⟩ ⟨rest, rfl⟩ he
    refine absurd (congrArg String.toList he) ?_
    rcases ht.cases with ⟨-, hx⟩ | ⟨-, hx⟩ | ⟨-, hx⟩ <;> simp only at hx <;> simp [irParameter, hx]

/-- Calls are followed by the return. -/
theorem recoverable_irCalls :
    Recoverable (fun calls : List String => ∀ call ∈ calls, IsWord call) (fun r => ∃ rest, r = "  ret void\n" ++ rest)
      fun calls => String.join (calls.map fun name => "  call void @" ++ name ++ "()\n") := by
  have call : Recoverable IsWord (fun _ => True) fun name => "  call void @" ++ name ++ "()\n" := by
    intro a b ha hb r s _ _ he
    simp only [String.append_assoc, String.append_right_inj] at he
    obtain ⟨hname, he⟩ := recoverable_word ha hb (by simp [EndsWord]) (by simp [EndsWord]) he
    exact ⟨hname, (String.append_right_inj "()\n").1 he⟩
  refine call.join (fun _ _ => trivial) (fun _ _ => trivial) ?_
  rintro name r _ - ⟨rest, rfl⟩ he
  exact absurd (congrArg String.toList he) (by simp)

theorem definition_append (outline : Outline) (rest : String) : outline.definition ++ rest =
    "define void @" ++ (outline.name ++ ("(" ++ (String.intercalate ", " (outline.parameters.map irParameter) ++
      (")" ++ (" \x7b\n" ++ ("entry:\n" ++
        (String.join (outline.calls.map fun name => "  call void @" ++ name ++ "()\n") ++
          ("  ret void\n" ++ ("\x7d\n" ++ rest))))))))) := by
  unfold definition
  generalize String.join _ = calls
  simp only [String.append_assoc]

theorem recoverable_definition : Recoverable Lowerable (fun _ => True) definition := by
  have opens : ∀ rest, EndsWord ("(" ++ rest) := fun rest => by simp [EndsWord]
  intro a b ha hb r s _ _ he
  rw [definition_append, definition_append, String.append_right_inj] at he
  obtain ⟨name, he⟩ := recoverable_word ha.name hb.name (opens _) (opens _) he
  rw [String.append_right_inj] at he
  obtain ⟨parameters, he⟩ := recoverable_irParameters ha.parameters hb.parameters ⟨_, rfl⟩ ⟨_, rfl⟩ he
  rw [String.append_right_inj, String.append_right_inj, String.append_right_inj] at he
  obtain ⟨calls, he⟩ := recoverable_irCalls ha.calls hb.calls ⟨_, rfl⟩ ⟨_, rfl⟩ he
  rw [String.append_right_inj, String.append_right_inj] at he
  refine ⟨?_, he⟩
  cases a
  cases b
  rw [Outline.mk.injEq]
  exact ⟨name, parameters, calls⟩

theorem irText_inj {a b : List Outline} (ha : ∀ outline ∈ a, outline.Lowerable) (hb : ∀ outline ∈ b, outline.Lowerable)
    (h : irText a = irText b) : a = b := by
  have text : Recoverable (fun outlines : List Outline => ∀ outline ∈ outlines, outline.Lowerable) (· = "") irText := by
    refine recoverable_definition.intercalate "\n" (fun _ => trivial) (fun _ _ => trivial) (fun r s hs he => ?_)
      fun outline r s _ hs he => ?_
    · simp [hs] at he
    · unfold definition at he
      simp [hs] at he
  exact (text ha hb rfl rfl (by rw [h])).1

end Outline

/-! ## Sources -/

theorem Lexer.Scans.isWord {offset : Nat} {text rest : List Char} {word : List Token} (h : Scans offset text word rest)
    {token : Token} (ht : token ∈ word) (hk : token.kind = .identifier) : IsWord token.text := by
  have spelled := h.legible.spelled token.form (List.mem_map_of_mem ht)
  simp only [Token.form, hk] at spelled
  obtain ⟨c, tail, hs, hc, htail, -⟩ := mem_identifier.1 spelled
  rw [IsWord, hs]
  exact List.forall_mem_cons.2 ⟨isAlphanum_of_isAlpha hc, htail⟩

theorem exists_identifier {word : List Token} {name : String} (h : (TokenKind.identifier, name) ∈ gists word) :
    ∃ token ∈ word, token.kind = .identifier ∧ token.text = name := by
  obtain ⟨token, ht, hg⟩ := List.mem_map.1 h
  obtain ⟨hk, hn⟩ := Prod.mk.inj hg
  exact ⟨token, (List.mem_filter.1 ht).1, hk, by rwa [if_pos hk] at hn⟩

/-- All names in a file are texts of identifiers. -/
theorem FileWord.names {layout : Layout} {word : List Token} {outlines : List Outline}
    (h : FileWord layout word outlines) {p : String → Prop}
    (hp : ∀ token ∈ word, token.kind = .identifier → p token.text) :
    ∀ outline ∈ outlines, p outline.name ∧ (∀ parameter ∈ outline.parameters, p parameter.1) ∧
      ∀ call ∈ outline.calls, p call := by
  intro outline ho
  have holds : ∀ name, (TokenKind.identifier, name) ∈ outline.spell → p name := by
    intro name hn
    obtain ⟨token, ht, hk, rfl⟩ := exists_identifier (h.gists ▸ List.mem_flatMap.2 ⟨outline, ho, hn⟩)
    exact hp token ht hk
  refine ⟨holds _ ?_, fun parameter hm => holds _ ?_, fun call hm => holds _ ?_⟩ <;>
    simp only [Outline.spell, Outline.spellParameter, Outline.spellCall, List.mem_append, List.mem_flatMap]
  · simp
  · exact .inl (.inl (.inl (.inr ⟨parameter, hm, List.mem_cons_self⟩)))
  · exact .inl (.inr ⟨call, hm, List.mem_cons_self⟩)

/-- A source that is compiled is lowered from outlines that the IR can be read back to. -/
theorem exists_file_of_compile {source : String} {options : ParseOptions} {ir : String}
    (h : compile source options = .ok ir) : ∃ file, parseSource source options = .ok file ∧
      ir = Outline.irText (file.functions.map FuncDecl.outline) ∧
      ∀ outline ∈ file.functions.map FuncDecl.outline, outline.Lowerable := by
  cases hp : parseSource source options with
  | error e => rw [compile, hp] at h; cases h
  | ok file =>
    obtain ⟨word, -, hat, tree, -⟩ := exists_tree_of_parseSource hp
    have names := tree.word.names fun token ht hk => hat.scans.isWord ht hk
    rw [compile_of_parseSource hp, toIR_eq] at h
    cases hu : file.functions.findSome? FuncDecl.unsupported? with
    | some e => rw [hu] at h; cases h
    | none =>
      rw [hu] at h
      refine ⟨file, rfl, (Except.ok.inj h).symm, fun outline ho => ?_⟩
      obtain ⟨name, parameters, calls⟩ := names outline ho
      refine ⟨name, fun parameter hm => ⟨parameters parameter hm, ?_⟩, calls⟩
      have supported := findSome?_outline file.functions
      rw [hu, Option.map_none, List.findSome?_eq_none_iff] at supported
      have typed := List.findSome?_eq_none_iff.1 (supported outline ho) parameter hm
      simpa [IsTyped, Option.isSome_iff_ne_none] using typed

/-- Two sources with the same IR say the same: their files have the same functions in the same order, with the same
names, parameters, types and calls. -/
theorem compile_inj {source source' : String} {options options' : ParseOptions} {ir : String}
    (h : compile source options = .ok ir) (h' : compile source' options' = .ok ir) :
    ∃ file file', parseSource source options = .ok file ∧ parseSource source' options' = .ok file' ∧
      file.functions.map FuncDecl.outline = file'.functions.map FuncDecl.outline := by
  obtain ⟨file, hp, text, lowerable⟩ := exists_file_of_compile h
  obtain ⟨file', hp', text', lowerable'⟩ := exists_file_of_compile h'
  exact ⟨file, file', hp, hp', Outline.irText_inj lowerable lowerable' (text.symm.trans text')⟩

/-- The same function with and without the blanks that it can do without. -/
theorem compile_inj_blanks :
    let spaced := "\nfunc  f( a Int,)\n\x7b g() \x7d"
    let dense := "func f(a Int,)\x7bg()\x7d"
    ∃ file file', parseSource spaced {} = .ok file ∧ parseSource dense { layout := .strict } = .ok file' ∧
      file.functions.map FuncDecl.outline = file'.functions.map FuncDecl.outline := by
  intro spaced dense
  have h : compile spaced {} =
      .ok "define void @f(i32 %a) \x7b\nentry:\n  call void @g()\n  ret void\n\x7d\n" := by decide +kernel
  have h' : compile dense { layout := .strict } =
      .ok "define void @f(i32 %a) \x7b\nentry:\n  call void @g()\n  ret void\n\x7d\n" := by decide +kernel
  exact compile_inj h h'

end FuncIR
