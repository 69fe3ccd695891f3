/-!
# Kinds of token

The thirteen kinds of token, their three spellings (`name` in a token dump, `phrase` in a diagnostic and
`constructorName` in a tree dump), the reserved words (`ofKeyword?`), and `KindSet`: kinds in order of
first mention, which is the order in which a diagnostic lists what it expected.
-/

namespace FuncIR

inductive TokenKind where
  | identifier
  | number
  | whitespace
  | roundOpen
  | roundClose
  | curlyOpen
  | curlyClose
  | equals
  | lessThan
  | comma
  | keywordFunc
  | eof
  /-- No source text has this kind: what starts no token is an error of the lexer. -/
  | unknown
  deriving DecidableEq, Repr, Inhabited

namespace TokenKind

/-- Every kind, in the order of the constructors. -/
def all : List TokenKind :=
  [.identifier, .number, .whitespace, .roundOpen, .roundClose, .curlyOpen, .curlyClose, .equals, .lessThan,
    .comma, .keywordFunc, .eof, .unknown]

/-- The upper-case name shown in a token dump. -/
def name : TokenKind → String
  | identifier => "IDENTIFIER"
  | number => "NUMBER"
  | whitespace => "WHITESPACE"
  | roundOpen => "ROUND_OPEN"
  | roundClose => "ROUND_CLOSE"
  | curlyOpen => "CURLY_OPEN"
  | curlyClose => "CURLY_CLOSE"
  | equals => "EQUALS"
  | lessThan => "LESS_THAN"
  | comma => "COMMA"
  | keywordFunc => "KEYWORD_FUNC"
  | eof => "EOF"
  | unknown => "UNKNOWN"

/-- The words that name a kind in a diagnostic. -/
def phrase : TokenKind → String
  | identifier => "identifier"
  | number => "number"
  | whitespace => "whitespace"
  | roundOpen => "'('"
  | roundClose => "')'"
  | curlyOpen => "'\x7b'"
  | curlyClose => "'\x7d'"
  | equals => "'='"
  | lessThan => "'<'"
  | comma => "','"
  | keywordFunc => "'func'"
  | eof => "end of input"
  | unknown => "unknown token"

/-- The name under which a dump of the tree shows a kind. -/
def constructorName : TokenKind → String
  | identifier => "Identifier"
  | number => "Number"
  | whitespace => "Whitespace"
  | roundOpen => "RoundOpen"
  | roundClose => "RoundClose"
  | curlyOpen => "CurlyOpen"
  | curlyClose => "CurlyClose"
  | equals => "Equals"
  | lessThan => "LessThan"
  | comma => "Comma"
  | keywordFunc => "KeywordFunc"
  | eof => "Eof"
  | unknown => "Unknown"

/-- The kind with a given `name`. -/
def ofName? (name : String) : Option TokenKind :=
  all.find? (·.name == name)

/-- The kind of a reserved word; `func` is the only one. -/
def ofKeyword? (word : String) : Option TokenKind :=
  if word = "func" then some keywordFunc else none

theorem mem_all (kind : TokenKind) : kind ∈ all := by
  cases kind <;> decide

theorem name_injective {a b : TokenKind} (h : a.name = b.name) : a = b := by
  have distinct : ∀ a ∈ all, ∀ b ∈ all, a.name = b.name → a = b := by decide +kernel
  exact distinct a (mem_all a) b (mem_all b) h

end TokenKind

/-- Kinds in order of first mention. -/
abbrev KindSet := List TokenKind

/-- The kinds of `a`, then those of `b` that `a` lacks. -/
def KindSet.union (a b : KindSet) : KindSet :=
  a ++ b.filter (fun kind => !a.contains kind)

@[simp] theorem KindSet.mem_union {a b : KindSet} {kind : TokenKind} :
    kind ∈ KindSet.union a b ↔ kind ∈ a ∨ kind ∈ b := by
  by_cases h : kind ∈ a <;> simp [KindSet.union, h]

theorem KindSet.nodup_union {a b : KindSet} (ha : a.Nodup) (hb : b.Nodup) : (KindSet.union a b).Nodup := by
  refine List.nodup_append.2 ⟨ha, hb.filter _, ?_⟩
  rintro x hx y hy rfl
  simp [hx] at hy

end FuncIR
