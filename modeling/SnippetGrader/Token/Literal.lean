import SnippetGrader.Number.Reader
import SnippetGrader.Text.Utf8
import SnippetGrader.Token.Basic
import SnippetGrader.Token.Scanner

/-
  Literals and words in the bytes of a text.

  Key definitions include:
    * `StringBody.read`
    * `NumberLiteral.read`
    * `Word.read`
-/

namespace SnippetGrader

------------------------------------------------------------
-- Classes of Bytes
------------------------------------------------------------

namespace Byte

/- The byte of a character of ASCII. -/
def of (c : Char) : UInt8 :=
  c.toNat.toUInt8

def isDigit (b : UInt8) : Bool :=
  of '0' ≤ b && b ≤ of '9'

def isLetter (b : UInt8) : Bool :=
  (of 'a' ≤ b && b ≤ of 'z') || (of 'A' ≤ b && b ≤ of 'Z')

def isHexDigit (b : UInt8) : Bool :=
  isDigit b || (of 'a' ≤ b && b ≤ of 'f') || (of 'A' ≤ b && b ≤ of 'F')

/- Bytes that a word may start with. All bytes beyond ASCII are such. -/
def startsWord (b : UInt8) : Bool :=
  isLetter b || b == of '_' || b ≥ 0x80

/- Bytes that a word may continue with. -/
def continuesWord (b : UInt8) : Bool :=
  startsWord b || isDigit b

/- Digits and the separators between them. -/
def isDigitOrSeparator (b : UInt8) : Bool :=
  isDigit b || b == of '_'

/- Digits of base sixteen and the separators between them. -/
def isHexDigitOrSeparator (b : UInt8) : Bool :=
  isHexDigit b || b == of '_'

/- Bytes that separate tokens on a line. -/
def isLineSpace (b : UInt8) : Bool :=
  b == of ' ' || b == of '\t' || b == of '\r' || b == 12

end Byte

------------------------------------------------------------
-- Strings
------------------------------------------------------------

/-
  A string read up to its end: the bytes it denotes, whether its
  closing quote was found, and the bytes after it.
-/
structure StringBody where
  content : List UInt8
  closed : Bool
  rest : List UInt8
  deriving DecidableEq, Repr

/- The byte that an escape of one letter denotes. -/
def simpleEscape? (b : UInt8) : Option UInt8 :=
  if b == Byte.of 'n' then some 10
  else if b == Byte.of 't' then some 9
  else if b == Byte.of 'r' then some 13
  else if b == Byte.of '0' then some 0
  else if b == Byte.of '\\' || b == Byte.of '\'' || b == Byte.of '"' then some b
  else none

/-
  The bytes that a two-digit escape denotes: the encoding of the
  character with that code. A plus before a single digit is
  accepted, and digits that denote no code denote nothing.
-/
def codeEscape (digits : List UInt8) : List UInt8 :=
  let chars := digits.map fun b => Char.ofNat b.toNat
  let unsigned :=
    match chars with
    | '+' :: rest => rest
    | _ => chars
  match Number.readNat? 16 unsigned with
  | some code =>
      if code < 0x80 then [code.toUInt8]
      else [(0xC0 + code / 64).toUInt8, (0x80 + code % 64).toUInt8]
  | none => []

/-
  Reads a string whose opening quotes have been read. A string
  with single quotes ends before a line feed, and in a raw
  string a backslash denotes itself. The content is reversed.
-/
def StringBody.readFrom
    (quote : UInt8)
    (triple raw : Bool) :
    (content : List UInt8) →
    List UInt8 →
    StringBody
  | content, [] => ⟨content.reverse, false, []⟩
  | content, b :: rest =>
      if b == 10 && !triple then ⟨content.reverse, false, b :: rest⟩
      else if b == quote then
        if !triple then ⟨content.reverse, true, rest⟩
        else if [quote, quote].isPrefixOf rest then
          ⟨content.reverse, true, rest.drop 2⟩
        else readFrom quote triple raw (b :: content) rest
      else if b == Byte.of '\\' then
        match rest with
        | [] => ⟨(if raw then b :: content else content).reverse, false, []⟩
        | letter :: afterLetter =>
            if raw then
              readFrom quote triple raw (letter :: b :: content) afterLetter
            else if letter == 10 then
              readFrom quote triple raw content afterLetter
            else if letter == Byte.of 'x' then
              match afterLetter with
              | d :: d' :: afterDigits =>
                  readFrom quote triple raw
                    ((codeEscape [d, d']).reverse ++ content) afterDigits
              | digits =>
                  ⟨((codeEscape digits).reverse ++ content).reverse, false, []⟩
            else
              match simpleEscape? letter with
              | some c => readFrom quote triple raw (c :: content) afterLetter
              | none =>
                  readFrom quote triple raw (letter :: b :: content) afterLetter
      else readFrom quote triple raw (b :: content) rest

/- Reads a string after its first quote. -/
def StringBody.read (quote : UInt8) (raw : Bool) (bytes : List UInt8) : StringBody :=
  if [quote, quote].isPrefixOf bytes then
    readFrom quote true raw [] (bytes.drop 2)
  else
    readFrom quote false raw [] bytes

------------------------------------------------------------
-- Words
------------------------------------------------------------

/- The letters that may stand before the quote of a string. -/
def stringLetters : List String :=
  ["r", "b", "f", "u", "rb", "br", "fr", "rf"]

/- Whether a word may stand before the quote of a string. -/
def opensString (word : String) : Bool :=
  stringLetters.contains
    (String.ofList (word.toList.map Number.foldAscii))

/- Whether the letters before a quote make a string raw. -/
def isRawMark (word : String) : Bool :=
  word.toList.any fun c => c == 'r' || c == 'R'

------------------------------------------------------------
-- Numbers
------------------------------------------------------------

/- What is wrong with a number. -/
inductive NumberFault where
  | invalid (written : String)
  | tooLarge (digits : String)
  | complex
  deriving DecidableEq, Repr

/- The wording of a fault. -/
def NumberFault.message : NumberFault → String
  | .invalid written => "invalid number literal '" ++ written ++ "'"
  | .tooLarge digits => "integer literal '" ++ digits ++ "' is too large"
  | .complex => "complex number literals are not supported"

/- A number: its token, what is wrong with it, and the bytes after it. -/
structure NumberLiteral where
  kind : TokenKind
  fault : Option NumberFault
  rest : List UInt8

/- The base that a number is written in, by its first two bytes. -/
def literalBase : List UInt8 → Nat
  | zero :: letter :: _ =>
      if zero != Byte.of '0' then 10
      else if letter == Byte.of 'x' || letter == Byte.of 'X' then 16
      else if letter == Byte.of 'o' || letter == Byte.of 'O' then 8
      else if letter == Byte.of 'b' || letter == Byte.of 'B' then 2
      else 10
  | _ => 10

/- Bytes of ASCII as characters, without separators. -/
def digitsOf (bytes : List UInt8) : List Char :=
  (Text.decodeUtf8 bytes).filter (· != '_')

/- Reads a number in base two, eight or sixteen. -/
def NumberLiteral.readBased (base : Nat) (bytes : List UInt8) : NumberLiteral :=
  let body := bytes.drop 2
  let digits := body.takeWhile Byte.isHexDigitOrSeparator
  let rest := body.dropWhile Byte.isHexDigitOrSeparator
  match Number.readWord? base (digitsOf digits) with
  | some value => ⟨.int value, none, rest⟩
  | none =>
      ⟨.int 0, some (.invalid (Text.ofUtf8 (bytes.take 2 ++ digits))), rest⟩

/-
  The bytes of a decimal number: whether it has a point or an
  exponent, its bytes, and the bytes after it.
-/
def decimalParts (bytes : List UInt8) : Bool × List UInt8 × List UInt8 :=
  let whole := bytes.takeWhile Byte.isDigitOrSeparator
  let afterWhole := bytes.dropWhile Byte.isDigitOrSeparator
  let (point, afterPoint) :=
    match afterWhole with
    | b :: tail =>
        if b == Byte.of '.' then
          (b :: tail.takeWhile Byte.isDigitOrSeparator,
           tail.dropWhile Byte.isDigitOrSeparator)
        else ([], afterWhole)
    | [] => ([], [])
  let (scale, rest) :=
    match afterPoint with
    | e :: tail =>
        if e == Byte.of 'e' || e == Byte.of 'E' then
          let sign :=
            tail.take 1 |>.filter fun b => b == Byte.of '+' || b == Byte.of '-'
          let digits := tail.drop sign.length
          if (digits.head?.map Byte.isDigit).getD false then
            (e :: sign ++ digits.takeWhile Byte.isDigitOrSeparator,
             digits.dropWhile Byte.isDigitOrSeparator)
          else ([], afterPoint)
        else ([], afterPoint)
    | [] => ([], [])
  (!point.isEmpty || !scale.isEmpty, whole ++ point ++ scale, rest)

/- Reads a decimal number. -/
def NumberLiteral.readDecimal (bytes : List UInt8) : NumberLiteral :=
  let (isFloat, written, rest) := decimalParts bytes
  let digits := digitsOf written
  let text := String.ofList digits
  match rest with
  | b :: afterSuffix =>
      if b == Byte.of 'j' || b == Byte.of 'J' then
        ⟨.int 0, some .complex, afterSuffix⟩
      else finish isFloat digits text rest
  | [] => finish isFloat digits text rest
where
  finish
      (isFloat : Bool)
      (digits : List Char)
      (text : String)
      (rest : List UInt8) :
      NumberLiteral :=
    if isFloat then
      match Number.readFloat? digits with
      | some value => ⟨.float value, none, rest⟩
      | none => ⟨.float 0.0, some (.invalid text), rest⟩
    else
      match Number.readWord? 10 digits with
      | some value => ⟨.int value, none, rest⟩
      | none => ⟨.int 0, some (.tooLarge text), rest⟩

/- Reads a number that starts at the first byte. -/
def NumberLiteral.read (bytes : List UInt8) : NumberLiteral :=
  match literalBase bytes with
  | 10 => readDecimal bytes
  | base => readBased base bytes

end SnippetGrader
