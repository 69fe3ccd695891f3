/-!
# UTF-8

The bytes of a text (`encode`), and a text for any bytes (`decode`): where they are not UTF-8, U+FFFD stands for each
byte that starts no character and for each character that is broken off, as far as it goes.
-/

namespace FuncIR.Text

abbrev Bytes := List UInt8

namespace Utf8

/-- The bytes of a text. -/
def encode (text : String) : Bytes :=
  text.toList.flatMap String.utf8EncodeChar

structure ByteRange where
  least : Nat
  greatest : Nat
  deriving DecidableEq, Repr

def ByteRange.holds (range : ByteRange) (byte : UInt8) : Bool :=
  decide (range.least ≤ byte.toNat) && decide (byte.toNat ≤ range.greatest)

/-- The bytes that go on with a character. -/
def continuation : ByteRange := ⟨0x80, 0xbf⟩

/-- A character of which some bytes were read: its bits so far, and where the bytes to come must lie. -/
structure Partial where
  bits : Nat := 0
  awaited : List ByteRange := []
  deriving DecidableEq, Repr

/-- A character by its first byte. After four of them the second byte is restricted: the shorter spelling of a
character is the only one, surrogates are no characters, and U+10FFFF is the last. -/
def Partial.ofLead? (byte : UInt8) : Option Partial :=
  let lead := byte.toNat
  if lead < 0x80 then some ⟨lead, []⟩
  else if lead < 0xc2 then none
  else if lead < 0xe0 then some ⟨lead - 0xc0, [continuation]⟩
  else if lead = 0xe0 then some ⟨0, [⟨0xa0, 0xbf⟩, continuation]⟩
  else if lead = 0xed then some ⟨0xd, [⟨0x80, 0x9f⟩, continuation]⟩
  else if lead < 0xf0 then some ⟨lead - 0xe0, [continuation, continuation]⟩
  else if lead = 0xf0 then some ⟨0, [⟨0x90, 0xbf⟩, continuation, continuation]⟩
  else if lead < 0xf4 then some ⟨lead - 0xf0, [continuation, continuation, continuation]⟩
  else if lead = 0xf4 then some ⟨4, [⟨0x80, 0x8f⟩, continuation, continuation]⟩
  else none

/-- Stands for what is no character. -/
def replacement : Char := '\ufffd'

/-- A character that is complete is read, any other stays open. -/
def Partial.settle (char : Partial) : List Char × Partial :=
  match char.awaited with
  | [] => ([Char.ofNat char.bits], {})
  | _ :: _ => ([], char)

/-- Reads the first byte of a character. -/
def begin (byte : UInt8) : List Char × Partial :=
  match Partial.ofLead? byte with
  | some char => char.settle
  | none => ([replacement], {})

/-- Reads a byte. One that does not go on with the open character breaks it off and starts another. -/
def Partial.step (char : Partial) (byte : UInt8) : List Char × Partial :=
  match char.awaited with
  | [] => begin byte
  | range :: ranges =>
    if range.holds byte then settle ⟨char.bits * 64 + byte.toNat % 64, ranges⟩
    else (replacement :: (begin byte).1, (begin byte).2)

/-- The characters of bytes behind an open character. -/
def charsFrom (char : Partial) : Bytes → List Char
  | [] => if char.awaited.isEmpty then [] else [replacement]
  | byte :: bytes => (char.step byte).1 ++ charsFrom (char.step byte).2 bytes

/-- A text for any bytes. -/
def decode (bytes : Bytes) : String :=
  String.ofList (charsFrom {} bytes)

end Utf8

end FuncIR.Text
