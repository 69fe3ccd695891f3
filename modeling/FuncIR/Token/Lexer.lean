import FuncIR.Text.Quoted
import FuncIR.Token.Basic

/-!
# The lexer

`lexeme?` is the longest token at the head of a text, by its first character: a run of blanks, a word, a
number with an optional sign and fraction, or one mark of punctuation. `tokenize` reads lexeme after lexeme
and keeps what it read when a character starts no token; `lex` wants the whole text. Words and numbers are
made of ASCII letters and digits only.
-/

namespace FuncIR

/-- A character at which no token starts. -/
structure LexError where
  offset : Nat
  character : Char
  deriving DecidableEq, Repr

def LexError.diagnostic (error : LexError) : Diagnostic where
  code := "pineapl::lex::unknown_character"
  message := "unknown character " ++ Text.Quoted.ofChar error.character ++ " at offset " ++ toString error.offset
  help := some "tokens are whitespace, identifiers, numbers and the punctuation characters ( ) \x7b \x7d = < ,"
  labels := [⟨"no token starts here", error.offset, error.character.utf8Size⟩]

namespace Lexer

def isBlank (c : Char) : Bool :=
  c == '\t' || c == '\n' || c == '\x0c' || c == '\r' || c == ' '

/-- The sign in front of a number, if any. -/
def sign : List Char → List Char
  | '+' :: _ => ['+']
  | '-' :: _ => ['-']
  | _ => []

/-- A point and the digits after it; a point without digits is no fraction. -/
def fraction : List Char → List Char
  | '.' :: rest => if (rest.takeWhile Char.isDigit).isEmpty then [] else '.' :: rest.takeWhile Char.isDigit
  | _ => []

/-- The number at the head of a text, empty if there is none. -/
def number (text : List Char) : List Char :=
  let unsigned := text.drop (sign text).length
  let digits := unsigned.takeWhile Char.isDigit
  if digits.isEmpty then [] else sign text ++ digits ++ fraction (unsigned.drop digits.length)

def punctuation? : Char → Option TokenKind
  | '(' => some .roundOpen
  | ')' => some .roundClose
  | '\x7b' => some .curlyOpen
  | '\x7d' => some .curlyClose
  | '=' => some .equals
  | '<' => some .lessThan
  | ',' => some .comma
  | _ => none

/-- A word is an identifier unless it is reserved. -/
def wordKind (word : List Char) : TokenKind :=
  (TokenKind.ofKeyword? (String.ofList word)).getD .identifier

/-- The kind and the characters of the token at the head of a text. -/
def lexeme? (text : List Char) : Option (TokenKind × List Char) :=
  match text with
  | [] => none
  | c :: rest =>
    if isBlank c then some (.whitespace, c :: rest.takeWhile isBlank)
    else if c.isAlpha then
      let word := c :: rest.takeWhile Char.isAlphanum
      some (wordKind word, word)
    else if (number text).isEmpty then (punctuation? c).map fun kind => (kind, [c])
    else some (.number, number text)

theorem lexeme?_ne_nil {text : List Char} {kind : TokenKind} {lexeme : List Char}
    (h : lexeme? text = some (kind, lexeme)) : text ≠ [] ∧ lexeme ≠ [] := by
  cases text with
  | nil => simp [lexeme?] at h
  | cons c rest =>
    simp only [lexeme?] at h
    grind [Option.map_eq_some_iff, List.isEmpty_iff]

/-- The tokens of `text`, which starts at byte `offset`, after those in `read`. A complete scan ends with the
marker of the end of input; otherwise the error says where it stopped. -/
def scan (offset : Nat) (text : List Char) (read : Array Token) : Array Token × Option LexError :=
  match _h : lexeme? text with
  | some (kind, lexeme) =>
    let spelling := String.ofList lexeme
    let stop := offset + spelling.utf8ByteSize
    scan stop (text.drop lexeme.length) (read.push ⟨kind, spelling, ⟨offset, stop⟩⟩)
  | none =>
    match text with
    | [] => (read.push (.endOfInput offset), none)
    | c :: _ => (read, some ⟨offset, c⟩)
termination_by text.length
decreasing_by
  obtain ⟨ht, hl⟩ := lexeme?_ne_nil _h
  have := List.length_pos_iff.2 ht
  have := List.length_pos_iff.2 hl
  simp only [List.length_drop]
  omega

end Lexer

/-- The tokens of a source text up to the first character that starts none, with the error for it. -/
def tokenize (source : String) : List Token × Option LexError :=
  let (tokens, error) := Lexer.scan 0 source.toList #[]
  (tokens.toList, error)

/-- The tokens of a source text; the last one marks the end of input. -/
def lex (source : String) : Except LexError (List Token) :=
  match tokenize source with
  | (tokens, none) => .ok tokens
  | (_, some error) => .error error

end FuncIR
