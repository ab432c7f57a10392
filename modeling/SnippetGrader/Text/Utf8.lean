/-
  Reading bytes as UTF-8.

  Bytes that do not form a character are replaced: each longest
  run of bytes that begins a character, and each single byte
  that begins none, becomes one replacement character.

  Key definitions include:
    * `Text.decodeUtf8`
-/

namespace SnippetGrader.Text

/- The character that stands for bytes that form none. -/
def replacement : Char := Char.ofNat 0xFFFD

/-
  A character of which the first bytes have been read: its code
  so far, the number of bytes after the next one, and the range
  that the next byte must lie in.
-/
structure OpenChar where
  code : Nat
  later : Nat
  low : UInt8 := 0x80
  high : UInt8 := 0xBF
  deriving DecidableEq, Repr

/- What a byte is when no character is open. -/
inductive LeadByte where
  | whole (c : Char)
  | opens (rest : OpenChar)
  | stray
  deriving DecidableEq, Repr

/- Reads a byte as the first of a character. -/
def LeadByte.of (b : UInt8) : LeadByte :=
  let n := b.toNat
  if n < 0x80 then .whole (Char.ofNat n)
  else if 0xC2 ≤ n && n ≤ 0xDF then .opens { code := n % 32, later := 0 }
  else if n == 0xE0 then .opens { code := 0, later := 1, low := 0xA0 }
  else if n == 0xED then .opens { code := 13, later := 1, high := 0x9F }
  else if 0xE1 ≤ n && n ≤ 0xEF then .opens { code := n % 16, later := 1 }
  else if n == 0xF0 then .opens { code := 0, later := 2, low := 0x90 }
  else if n == 0xF4 then .opens { code := 4, later := 2, high := 0x8F }
  else if 0xF1 ≤ n && n ≤ 0xF3 then .opens { code := n % 8, later := 2 }
  else .stray

/- Decodes bytes after those of a character that may be open. -/
def decodeFrom : Option OpenChar → List UInt8 → List Char
  | none, [] => []
  | some _, [] => [replacement]
  | none, b :: rest =>
      match LeadByte.of b with
      | .whole c => c :: decodeFrom none rest
      | .opens char => decodeFrom (some char) rest
      | .stray => replacement :: decodeFrom none rest
  | some char, b :: rest =>
      if char.low ≤ b && b ≤ char.high then
        let code := char.code * 64 + b.toNat % 64
        match char.later with
        | 0 => Char.ofNat code :: decodeFrom none rest
        | later + 1 =>
            decodeFrom (some { code := code, later := later }) rest
      else
        match LeadByte.of b with
        | .whole c => replacement :: c :: decodeFrom none rest
        | .opens next => replacement :: decodeFrom (some next) rest
        | .stray => replacement :: replacement :: decodeFrom none rest

/- Decodes bytes, replacing those that form no character. -/
def decodeUtf8 (bytes : List UInt8) : List Char :=
  decodeFrom none bytes

/- The bytes of a text. -/
def encodeUtf8 (text : String) : List UInt8 :=
  text.toUTF8.toList

/- The text that bytes encode. -/
def ofUtf8 (bytes : List UInt8) : String :=
  String.ofList (decodeUtf8 bytes)

end SnippetGrader.Text
