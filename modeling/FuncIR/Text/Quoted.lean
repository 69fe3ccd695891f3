import FuncIR.Text.CodePoints

/-!
# Quoted text

A text between delimiters in which every character can be seen (`Quoted`): NUL, tab, line feed, carriage return, the
backslash and the delimiter are written after a backslash; a character that is unprintable or joins the one before
it is written as its code point in braces; any other character stands for itself. A JSON string (`JsonString`)
escapes the quote, the backslash and the controls below U+0020, five of them by a letter and the others by four
hexadecimal digits; all else stands for itself.
-/

namespace FuncIR.Text.Quoted

/-- The code point of `c` in lower-case hexadecimal digits, without leading zeros. -/
def hexDigits (c : Char) : List Char :=
  Nat.toDigits 16 c.toNat

/-- How `c` is written between two characters `delimiter`. -/
def escape (delimiter c : Char) : List Char :=
  if c = '\x00' then ['\\', '0']
  else if c = '\t' then ['\\', 't']
  else if c = '\n' then ['\\', 'n']
  else if c = '\r' then ['\\', 'r']
  else if c = '\\' then ['\\', '\\']
  else if c = delimiter then ['\\', delimiter]
  else if isGraphemeExtender c || isUnprintable c then '\\' :: 'u' :: '\x7b' :: hexDigits c ++ ['\x7d']
  else [c]

def quote (delimiter : Char) (text : List Char) : List Char :=
  delimiter :: text.flatMap (escape delimiter) ++ [delimiter]

/-- A text between double quotes. -/
def ofString (text : String) : String :=
  String.ofList (quote '\x22' text.toList)

/-- A character between single quotes. -/
def ofChar (c : Char) : String :=
  String.ofList (quote '\x27' [c])

end FuncIR.Text.Quoted

namespace FuncIR.Text.JsonString

/-- The last two of the four hexadecimal digits of a control below U+0020. -/
def controlDigits (c : Char) : List Char :=
  [Nat.digitChar (c.toNat / 16), Nat.digitChar (c.toNat % 16)]

def escape (c : Char) : List Char :=
  if c = '\x22' then ['\\', '\x22']
  else if c = '\\' then ['\\', '\\']
  else if c = '\x08' then ['\\', 'b']
  else if c = '\t' then ['\\', 't']
  else if c = '\n' then ['\\', 'n']
  else if c = '\x0c' then ['\\', 'f']
  else if c = '\r' then ['\\', 'r']
  else if c.toNat < 0x20 then '\\' :: 'u' :: '0' :: '0' :: controlDigits c
  else [c]

/-- The JSON form of a text. -/
def ofString (text : String) : String :=
  String.ofList ('\x22' :: text.toList.flatMap escape ++ ['\x22'])

end FuncIR.Text.JsonString
