import FuncIR.Compile
import FuncIR.Proofs.Grammar.Completion
import FuncIR.Proofs.IR.Definitions

/-!
# Written sources

A `Written.File` is a source together with the choices that were made in writing it: what its functions say, and the
blanks at each place where the grammar allows them. Its `forms` are the kinds and texts of its tokens, where blanks that
stand side by side are one token. They spell the text of the file and are a word of the grammar, so the file is read as
its outlines (`Written.File.parse_text`), and compiling it gives the IR of these (`compile_text`).
-/

namespace FuncIR

/-- A word that is not reserved. -/
structure Identifier where
  text : String
  spelled : text.toList ∈ TokenKind.identifier.spellings

/-- At least one blank. -/
structure Separator where
  text : String
  spelled : text.toList ∈ TokenKind.whitespace.spellings

/-- Blanks, or nothing. -/
structure Spacing where
  text : String
  blank : ∀ c ∈ text.toList, Lexer.isBlank c = true

instance : Append Spacing where
  append a b := ⟨a.text ++ b.text, by
    simp only [String.toList_append, List.mem_append]
    exact fun c hc => hc.elim (a.blank c) (b.blank c)⟩

theorem Spacing.spelled (spacing : Spacing) (filled : spacing.text ≠ "") :
    spacing.text.toList ∈ TokenKind.whitespace.spellings :=
  mem_someOf.2 ⟨by simpa using filled, fun c hc => decide_eq_true (Lexer.isBlank_iff.1 (spacing.blank c hc))⟩

/-! Each of them from characters that can be looked at. -/

/-- A word from its first letter and the rest. -/
def Identifier.ofChars (first : Char) (rest : List Char) (letter : first.isAlpha = true)
    (others : rest.all Char.isAlphanum = true) (free : first :: rest ≠ "func".toList) : Identifier where
  text := String.ofList (first :: rest)
  spelled := by
    rw [String.toList_ofList]
    exact mem_identifier.2 ⟨first, rest, rfl, letter, List.all_eq_true.1 others, free⟩

def Spacing.ofChars (blanks : List Char) (blank : blanks.all Lexer.isBlank = true) : Spacing where
  text := String.ofList blanks
  blank := by simpa using blank

def Separator.ofSpacing (spacing : Spacing) (filled : spacing.text ≠ "") : Separator where
  text := spacing.text
  spelled := spacing.spelled filled

namespace Written

structure Parameter where
  before : Spacing
  name : Identifier
  between : Separator
  type : Identifier

structure Function where
  before : Spacing
  afterKeyword : Separator
  name : Identifier
  afterOpening : Spacing
  parameters : List Parameter
  afterClosing : Spacing
  beforeCall : Spacing
  callee : Option Identifier
  afterCall : Spacing

structure File where
  functions : List Function
  after : Spacing

/-! ## What is written -/

def Parameter.text (parameter : Parameter) : String :=
  parameter.before.text ++ parameter.name.text ++ parameter.between.text ++ parameter.type.text ++ ","

def callText : Option Identifier → String
  | none => ""
  | some callee => callee.text ++ "()"

def Function.text (function : Function) : String :=
  function.before.text ++ "func" ++ function.afterKeyword.text ++ function.name.text ++ "(" ++
    function.afterOpening.text ++ String.join (function.parameters.map (·.text)) ++ ")" ++ function.afterClosing.text ++
    "\x7b" ++ function.beforeCall.text ++ callText function.callee ++ function.afterCall.text ++ "\x7d"

def File.text (file : File) : String :=
  String.join (file.functions.map (·.text)) ++ file.after.text

def Function.outline (function : Function) : Outline where
  name := function.name.text
  parameters := function.parameters.map fun parameter => (parameter.name.text, parameter.type.text)
  calls := function.callee.toList.map (·.text)

def File.outlines (file : File) : List Outline :=
  file.functions.map (·.outline)

/-! ## Its tokens -/

/-- One token of blanks, or none. -/
def gapForms (spacing : Spacing) (rest : List (TokenKind × String)) : List (TokenKind × String) :=
  if spacing.text = "" then rest else (.whitespace, spacing.text) :: rest

def parameterForms (rest : List (TokenKind × String)) : List Parameter → List (TokenKind × String)
  | [] => rest
  | parameter :: parameters =>
    gapForms parameter.before ((.identifier, parameter.name.text) :: (.whitespace, parameter.between.text) ::
      (.identifier, parameter.type.text) :: (.comma, ",") :: parameterForms rest parameters)

/-- The blanks behind the parenthesis and those before the first parameter stand side by side. -/
def listForms (spacing : Spacing) (rest : List (TokenKind × String)) : List Parameter → List (TokenKind × String)
  | [] => gapForms spacing rest
  | parameter :: parameters =>
    parameterForms rest ({ parameter with before := spacing ++ parameter.before } :: parameters)

/-- Without a call, the blanks before and after it stand side by side. -/
def callForms (before after : Spacing) (rest : List (TokenKind × String)) :
    Option Identifier → List (TokenKind × String)
  | none => gapForms (before ++ after) rest
  | some callee =>
    gapForms before ((.identifier, callee.text) :: (.roundOpen, "(") :: (.roundClose, ")") :: gapForms after rest)

def Function.forms (function : Function) (rest : List (TokenKind × String)) : List (TokenKind × String) :=
  gapForms function.before ((.keywordFunc, "func") :: (.whitespace, function.afterKeyword.text) ::
    (.identifier, function.name.text) :: (.roundOpen, "(") ::
      listForms function.afterOpening ((.roundClose, ")") :: gapForms function.afterClosing ((.curlyOpen, "\x7b") ::
        callForms function.beforeCall function.afterCall ((.curlyClose, "\x7d") :: rest) function.callee))
        function.parameters)

def File.forms (file : File) : List (TokenKind × String) :=
  file.functions.foldr Function.forms (gapForms file.after [])

/-! ## The tokens spell the text -/

/-- What kinds and texts spell. -/
def formsText (forms : List (TokenKind × String)) : String :=
  String.join (forms.map (·.2))

theorem formsText_nil : formsText [] = "" := rfl

theorem text_append (a b : Spacing) : (a ++ b).text = a.text ++ b.text := rfl

section Text
variable (rest : List (TokenKind × String))

theorem formsText_cons (kind : TokenKind) (text : String) :
    formsText ((kind, text) :: rest) = text ++ formsText rest := by
  simp [formsText]

theorem formsText_gap (spacing : Spacing) : formsText (gapForms spacing rest) = spacing.text ++ formsText rest := by
  unfold gapForms
  split
  · rename_i h
    rw [h, String.empty_append]
  · exact formsText_cons rest _ _

theorem formsText_parameters (parameters : List Parameter) :
    formsText (parameterForms rest parameters) = String.join (parameters.map (·.text)) ++ formsText rest := by
  induction parameters with
  | nil => simp [parameterForms]
  | cons parameter parameters ih =>
    simp only [parameterForms, formsText_gap, formsText_cons, ih, List.map_cons, String.join_cons, Parameter.text,
      String.append_assoc]

theorem formsText_list (spacing : Spacing) (parameters : List Parameter) :
    formsText (listForms spacing rest parameters) =
      spacing.text ++ String.join (parameters.map (·.text)) ++ formsText rest := by
  cases parameters with
  | nil => simp [listForms, formsText_gap]
  | cons parameter parameters =>
    rw [listForms, formsText_parameters]
    simp only [List.map_cons, String.join_cons, Parameter.text, text_append, String.append_assoc]

theorem formsText_call (before after : Spacing) (callee : Option Identifier) :
    formsText (callForms before after rest callee) =
      before.text ++ callText callee ++ after.text ++ formsText rest := by
  cases callee with
  | none => simp only [callForms, formsText_gap, text_append, callText, String.append_empty]
  | some callee =>
    have call : "()" = "(" ++ ")" := by decide
    rw [callText, call]
    simp only [callForms, formsText_gap, formsText_cons, String.append_assoc]

theorem formsText_function (function : Function) :
    formsText (function.forms rest) = function.text ++ formsText rest := by
  simp only [Function.forms, formsText_gap, formsText_cons, formsText_list, formsText_call, Function.text,
    String.append_assoc]

end Text

theorem formsText_file (file : File) : formsText file.forms = file.text := by
  unfold File.forms File.text
  induction file.functions with
  | nil => simp [formsText_gap, formsText_nil]
  | cons function functions ih =>
    rw [List.foldr_cons, formsText_function, ih, List.map_cons, String.join_cons, String.append_assoc]

/-! ## The tokens are legible -/

section Legible
variable {rest : List (TokenKind × String)}

/-- One more token in front, which does not fuse with the next one. -/
theorem legible_cons {kind : TokenKind} {text : String} (spelled : text.toList ∈ kind.spellings) (h : Legible rest)
    (apart : ∀ next ∈ rest.head?, ¬ Fuse (kind, text) next := by simp [Fuse]) : Legible ((kind, text) :: rest) :=
  ⟨List.forall_mem_cons.2 ⟨spelled, h.spelled⟩, List.isChain_cons.2 ⟨apart, h.apart⟩⟩

theorem legible_gap (spacing : Spacing) (h : Legible rest)
    (next : ∀ next ∈ rest.head?, next.1 ≠ .whitespace := by simp) : Legible (gapForms spacing rest) := by
  unfold gapForms
  split
  · exact h
  · rename_i filled
    exact legible_cons (spacing.spelled filled) h fun form hf => by simp [Fuse, next form hf]

theorem legible_parameters (parameters : List Parameter) (h : Legible rest) :
    Legible (parameterForms rest parameters) := by
  induction parameters with
  | nil => exact h
  | cons parameter parameters ih =>
    have comma : Legible ((.comma, ",") :: _) := legible_cons rfl ih
    have type := legible_cons parameter.type.spelled comma
    have blank := legible_cons parameter.between.spelled type
    have name := legible_cons parameter.name.spelled blank
    exact legible_gap parameter.before name

theorem legible_list (spacing : Spacing) (parameters : List Parameter) (h : Legible rest)
    (next : ∀ next ∈ rest.head?, next.1 ≠ .whitespace) : Legible (listForms spacing rest parameters) := by
  cases parameters with
  | nil => exact legible_gap spacing h next
  | cons parameter parameters => exact legible_parameters _ h

theorem legible_call (before after : Spacing) (callee : Option Identifier) (h : Legible rest)
    (next : ∀ next ∈ rest.head?, next.1 ≠ .whitespace) : Legible (callForms before after rest callee) := by
  cases callee with
  | none => exact legible_gap (before ++ after) h next
  | some callee =>
    have gap := legible_gap after h next
    have closer : Legible ((.roundClose, ")") :: _) := legible_cons rfl gap
    have opener : Legible ((.roundOpen, "(") :: _) := legible_cons rfl closer
    exact legible_gap before (legible_cons callee.spelled opener)

theorem legible_function (function : Function) (h : Legible rest) : Legible (function.forms rest) := by
  have brace : Legible ((.curlyClose, "\x7d") :: _) := legible_cons rfl h
  have call := legible_call function.beforeCall function.afterCall function.callee brace (by simp)
  have opener : Legible ((.curlyOpen, "\x7b") :: _) := legible_cons rfl call
  have gap := legible_gap function.afterClosing opener
  have closer : Legible ((.roundClose, ")") :: _) := legible_cons rfl gap
  have list := legible_list function.afterOpening function.parameters closer (by simp)
  have opener : Legible ((.roundOpen, "(") :: _) := legible_cons rfl list
  have name := legible_cons function.name.spelled opener
  have blank := legible_cons function.afterKeyword.spelled name
  have keyword : Legible ((.keywordFunc, "func") :: _) := legible_cons rfl blank
  exact legible_gap function.before keyword

end Legible

theorem legible_file (file : File) : Legible file.forms := by
  unfold File.forms
  induction file.functions with
  | nil => exact legible_gap file.after ⟨by simp, .nil⟩
  | cons function functions ih => exact legible_function function ih

/-! ## The tokens are a word -/

section Words
variable {rest : List (TokenKind × String)} {word : List Token}

theorem exists_of_cons {kind : TokenKind} {text : String} (h : word.map Token.form = (kind, text) :: rest) :
    ∃ token more, word = token :: more ∧ token.kind = kind ∧ token.text = text ∧ more.map Token.form = rest := by
  obtain ⟨token, more, rfl, hf, hm⟩ := List.map_eq_cons_iff.1 h
  exact ⟨token, more, rfl, congrArg Prod.fst hf, congrArg Prod.snd hf, hm⟩

theorem exists_gap {spacing : Spacing} (h : word.map Token.form = gapForms spacing rest) :
    ∃ gap more, word = gap ++ more ∧ Gap gap ∧ more.map Token.form = rest := by
  unfold gapForms at h
  split at h
  · exact ⟨[], word, rfl, .none, h⟩
  · obtain ⟨blank, more, rfl, hk, -, hm⟩ := exists_of_cons h
    exact ⟨[blank], more, rfl, .blank hk, hm⟩

theorem exists_parameters {parameters : List Parameter} (h : word.map Token.form = parameterForms rest parameters) :
    ∃ list more, word = list ++ more ∧
      ParameterWords list (parameters.map fun parameter => (parameter.name.text, parameter.type.text)) ∧
      more.map Token.form = rest := by
  induction parameters generalizing word with
  | nil => exact ⟨[], word, rfl, .nil, h⟩
  | cons parameter parameters ih =>
    obtain ⟨gap, _, rfl, hg, h⟩ := exists_gap h
    obtain ⟨name, _, rfl, hn, ht, h⟩ := exists_of_cons h
    obtain ⟨blank, _, rfl, hb, -, h⟩ := exists_of_cons h
    obtain ⟨type, _, rfl, hk, hy, h⟩ := exists_of_cons h
    obtain ⟨comma, _, rfl, hc, -, h⟩ := exists_of_cons h
    obtain ⟨list, more, rfl, hl, h⟩ := ih h
    have first := ParameterWord.mk hg hn hb hk hc
    rw [ht, hy] at first
    exact ⟨_, more, by simp, .cons first hl, h⟩

theorem exists_list {spacing : Spacing} {parameters : List Parameter}
    (h : word.map Token.form = listForms spacing rest parameters) : ∃ gap list more, word = gap ++ (list ++ more) ∧
      Gap gap ∧ ParameterWords list (parameters.map fun parameter => (parameter.name.text, parameter.type.text)) ∧
      more.map Token.form = rest := by
  cases parameters with
  | nil =>
    obtain ⟨gap, more, rfl, hg, h⟩ := exists_gap h
    exact ⟨gap, [], more, rfl, hg, .nil, h⟩
  | cons parameter parameters =>
    obtain ⟨list, more, rfl, hl, h⟩ := exists_parameters h
    exact ⟨[], list, more, rfl, .none, hl, h⟩

theorem exists_call {before after : Spacing} {callee : Option Identifier}
    (h : word.map Token.form = callForms before after rest callee) : ∃ gap call gap' more,
      word = gap ++ (call ++ (gap' ++ more)) ∧ Gap gap ∧ CallWord call (callee.toList.map (·.text)) ∧ Gap gap' ∧
      more.map Token.form = rest := by
  cases callee with
  | none =>
    obtain ⟨gap, more, rfl, hg, h⟩ := exists_gap h
    exact ⟨gap, [], [], more, rfl, hg, .none, .none, h⟩
  | some callee =>
    obtain ⟨gap, _, rfl, hg, h⟩ := exists_gap h
    obtain ⟨name, _, rfl, hn, ht, h⟩ := exists_of_cons h
    obtain ⟨opener, _, rfl, ho, -, h⟩ := exists_of_cons h
    obtain ⟨closer, _, rfl, hc, -, h⟩ := exists_of_cons h
    obtain ⟨gap', more, rfl, hg', h⟩ := exists_gap h
    have call := CallWord.call hn ho hc
    rw [ht] at call
    exact ⟨gap, _, gap', more, by simp, hg, call, hg', h⟩

theorem exists_function {function : Function} (h : word.map Token.form = function.forms rest) :
    ∃ gap first more, word = gap ++ (first ++ more) ∧ Gap gap ∧ FunctionWord first function.outline ∧
      more.map Token.form = rest := by
  obtain ⟨before, _, rfl, hbefore, h⟩ := exists_gap h
  obtain ⟨keyword, _, rfl, hk, -, h⟩ := exists_of_cons h
  obtain ⟨blank, _, rfl, hb, -, h⟩ := exists_of_cons h
  obtain ⟨name, _, rfl, hn, ht, h⟩ := exists_of_cons h
  obtain ⟨opener, _, rfl, ho, -, h⟩ := exists_of_cons h
  obtain ⟨gap, list, _, rfl, hg, hp, h⟩ := exists_list h
  obtain ⟨closer, _, rfl, hc, -, h⟩ := exists_of_cons h
  obtain ⟨gap', _, rfl, hg', h⟩ := exists_gap h
  obtain ⟨brace, _, rfl, hbrace, -, h⟩ := exists_of_cons h
  obtain ⟨inner, call, inner', _, rfl, hi, hcall, hi', h⟩ := exists_call h
  obtain ⟨last, more, rfl, hl, -, h⟩ := exists_of_cons h
  have first := FunctionWord.mk hk hb hn ho hg hp hc hg' (.mk hbrace hi hcall hi' hl)
  rw [ht] at first
  exact ⟨before, _, more, by simp, hbefore, first, h⟩

/-- A blank in front of a file is part of it. -/
theorem fileWord_gap {gap : List Token} {outlines : List Outline} (hg : Gap gap)
    (h : FileWord .spaced word outlines) : FileWord .spaced (gap ++ word) outlines := by
  cases hg with
  | none => exact h
  | blank hb => exact .blank rfl hb h

end Words

theorem fileWord {file : File} {word : List Token} (h : word.map Token.form = file.forms) :
    FileWord .spaced word file.outlines := by
  unfold File.forms at h
  unfold File.outlines
  generalize file.functions = functions at h ⊢
  induction functions generalizing word with
  | nil =>
    obtain ⟨gap, more, rfl, hg, h⟩ := exists_gap h
    rw [List.map_eq_nil_iff] at h
    exact fileWord_gap hg (h ▸ .nil)
  | cons function functions ih =>
    obtain ⟨gap, first, more, rfl, hg, hf, h⟩ := exists_function h
    exact fileWord_gap hg (.function hf (ih h))

/-! ## Reading and compiling it -/

theorem File.lex_text (file : File) :
    lex file.text = .ok (placed 0 file.forms ++ [.endOfInput file.text.utf8ByteSize]) := by
  have scans := Lexer.scans_placed (legible_file file) 0
  rw [← formsText, formsText_file] at scans
  exact lex_eq_ok_iff.2 ⟨_, scans, rfl⟩

/-- Whatever blanks it was written with, a file is read as what was written. -/
theorem File.parse_text (file : File) {options : ParseOptions} (hl : options.layout = .spaced) : ∃ tree,
    parseSource file.text options = .ok tree ∧ tree.functions.map FuncDecl.outline = file.outlines := by
  have word := fileWord (map_form_placed 0 file.forms)
  obtain ⟨functions, tree⟩ := word.exists_tree
  rw [← hl] at tree word
  have parsed := parseSource_of_lex file.lex_text options
  have stands := Stands.ofList [] (placed 0 file.forms) [.endOfInput file.text.utf8ByteSize]
  rw [List.nil_append] at stands
  rw [parseTokens_of_tree tree stands (by rw [get_append]; rfl)] at parsed
  exact ⟨_, parsed, tree.word.unique word⟩

/-- Compiling a file gives the IR of what was written, whatever blanks it was written with and however alternatives are
chosen. If a parameter has no counterpart, the first such one is reported. -/
theorem compile_text (file : File) (options : ParseOptions) :
    match file.outlines.findSome? Outline.unsupported? with
    | none => compile file.text { options with layout := .spaced } = .ok (Outline.irText file.outlines)
    | some (function, name, type) => ∃ span,
      compile file.text { options with layout := .spaced } = .error (.lowering ⟨⟨name, type, span⟩, function⟩) := by
  obtain ⟨tree, hp, ho⟩ := file.parse_text (show { options with layout := .spaced }.layout = .spaced from rfl)
  rw [compile_of_parseSource hp, toIR_eq, ← ho, findSome?_outline]
  cases tree.functions.findSome? FuncDecl.unsupported? with
  | none => rfl
  | some e => exact ⟨e.parameter.span, rfl⟩

/-- Two functions with blanks at many places: one has parameters and a call, the other neither. -/
def twoFunctions : File :=
  let space := Spacing.ofChars [' '] rfl
  let line := Spacing.ofChars ['\n', '\t'] rfl
  let nothing := Spacing.ofChars [] rfl
  let gap := Separator.ofSpacing space (by decide)
  let breaks := Separator.ofSpacing line (by decide)
  let x := Identifier.ofChars 'x' [] rfl rfl (by decide)
  let y := Identifier.ofChars 'y' ['2'] rfl rfl (by decide)
  let int := Identifier.ofChars 'I' ['n', 't'] rfl rfl (by decide)
  let float := Identifier.ofChars 'F' ['l', 'o', 'a', 't'] rfl rfl (by decide)
  { functions := [
      { before := line, afterKeyword := breaks, name := x, afterOpening := space,
        parameters := [⟨line, x, gap, int⟩, ⟨nothing, y, breaks, float⟩],
        afterClosing := line, beforeCall := space, callee := some y, afterCall := nothing },
      { before := nothing, afterKeyword := gap, name := y, afterOpening := nothing, parameters := [],
        afterClosing := nothing, beforeCall := space, callee := none, afterCall := line }]
    after := line }

theorem compile_text_twoFunctions :
    twoFunctions.text =
        "\n\tfunc\n\tx( \n\tx Int,y2\n\tFloat,)\n\t\x7b y2()\x7dfunc y2()\x7b \n\t\x7d\n\t" ∧
      compile twoFunctions.text { alternation := .exhaustive } = .ok
        ("define void @x(i32 %x, float %y2) \x7b\nentry:\n  call void @y2()\n  ret void\n\x7d\n" ++ "\n" ++
          "define void @y2() \x7b\nentry:\n  ret void\n\x7d\n") := by
  have supported : twoFunctions.outlines.findSome? Outline.unsupported? = none := by decide +kernel
  have compiled := compile_text twoFunctions { alternation := .exhaustive }
  rw [supported] at compiled
  refine ⟨by decide +kernel, compiled.trans (congrArg Except.ok ?_)⟩
  decide +kernel

end Written

end FuncIR
