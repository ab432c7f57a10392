import SnippetGrader.Json.Basic
import SnippetGrader.Number.Reader

/-
  Reading JSON.

  The reader is strict: it refuses a trailing comma, a missing
  quote, a leading zero, a raw control character in a string, an
  unpaired surrogate and any text after the value.

  Key definitions include:
    * `Json.parse?`
-/

namespace SnippetGrader.Json

------------------------------------------------------------
-- White Space and Literals
------------------------------------------------------------

/- The characters that may stand between tokens. -/
def isSpace (c : Char) : Bool :=
  c = ' ' || c = '\t' || c = '\n' || c = '\r'

/- Drops white space. -/
def skipSpace (chars : List Char) : List Char :=
  chars.dropWhile isSpace

/- Drops a word that a text must start with. -/
def expectWord? (word : String) (chars : List Char) : Option (List Char) :=
  word.toList.isPrefixOf? chars

------------------------------------------------------------
-- Strings
------------------------------------------------------------

/- Four digits in base sixteen. -/
def readUnit? : List Char → Option (Nat × List Char)
  | a :: b :: c :: d :: rest =>
      (Number.readNat? 16 [a, b, c, d]).map fun unit => (unit, rest)
  | _ => none

/- The character that an escape of one letter denotes. -/
def escapeChar? (c : Char) : Option Char :=
  if c = '"' then some '"'
  else if c = '\\' then some '\\'
  else if c = '/' then some '/'
  else if c = 'b' then some (Char.ofNat 8)
  else if c = 'f' then some (Char.ofNat 12)
  else if c = 'n' then some '\n'
  else if c = 'r' then some '\r'
  else if c = 't' then some '\t'
  else none

/-
  A character written by its code unit. A unit from the range
  of leading surrogates must be followed by a trailing one.
-/
def readCodeUnit? (chars : List Char) : Option (Char × List Char) :=
  match readUnit? chars with
  | none => none
  | some (unit, rest) =>
      if 0xD800 ≤ unit && unit < 0xDC00 then
        match rest with
        | '\\' :: 'u' :: tail =>
            match readUnit? tail with
            | some (trail, rest) =>
                if 0xDC00 ≤ trail && trail < 0xE000 then
                  some
                    (Char.ofNat
                      (0x10000 + (unit - 0xD800) * 1024 + (trail - 0xDC00)),
                     rest)
                else none
            | none => none
        | _ => none
      else if 0xDC00 ≤ unit && unit < 0xE000 then none
      else some (Char.ofNat unit, rest)

/-
  The characters of a string up to its closing quote, and the
  text after it. The characters read so far are reversed.
-/
def readString? : Nat → List Char → List Char → Option (String × List Char)
  | 0, _, _ => none
  | fuel + 1, read, chars =>
      match chars with
      | [] => none
      | '"' :: rest => some (String.ofList read.reverse, rest)
      | '\\' :: 'u' :: rest =>
          match readCodeUnit? rest with
          | some (c, rest) => readString? fuel (c :: read) rest
          | none => none
      | '\\' :: letter :: rest =>
          match escapeChar? letter with
          | some c => readString? fuel (c :: read) rest
          | none => none
      | c :: rest =>
          if c.toNat < 32 || c = '\\' then none
          else readString? fuel (c :: read) rest

------------------------------------------------------------
-- Numbers
------------------------------------------------------------

/- A fraction or exponent: at least one digit after a mark. -/
def readDigitRun? (chars : List Char) : Option (List Char × List Char) :=
  match chars.takeWhile Number.isDigit with
  | [] => none
  | digits => some (digits, chars.dropWhile Number.isDigit)

/- An optional fraction. -/
def readFraction? : List Char → Option (List Char × List Char)
  | '.' :: rest =>
      (readDigitRun? rest).map fun (digits, rest) => ('.' :: digits, rest)
  | chars => some ([], chars)

/- An optional exponent. -/
def readScale? : List Char → Option (List Char × List Char)
  | c :: rest =>
      if c = 'e' || c = 'E' then
        match rest with
        | '+' :: tail =>
            (readDigitRun? tail).map fun (digits, rest) =>
              (c :: '+' :: digits, rest)
        | '-' :: tail =>
            (readDigitRun? tail).map fun (digits, rest) =>
              (c :: '-' :: digits, rest)
        | _ =>
            (readDigitRun? rest).map fun (digits, rest) =>
              (c :: digits, rest)
      else some ([], c :: rest)
  | [] => some ([], [])

/- A number after its optional minus. -/
def readNumber? (negative : Bool) (chars : List Char) : Option (Json × List Char) :=
  match readDigitRun? chars with
  | none => none
  | some (whole, rest) =>
      if whole.length > 1 && whole.head? == some '0' then none
      else
        match readFraction? rest with
        | none => none
        | some (fraction, rest) =>
            match readScale? rest with
            | none => none
            | some (scale, rest) =>
                let magnitude := (Number.readNat? 10 whole).getD 0
                let written :=
                  String.ofList
                    ((if negative then ['-'] else [])
                      ++ whole ++ fraction ++ scale)
                if !fraction.isEmpty || !scale.isEmpty
                    || (negative && magnitude == 0) then
                  some (.real written, rest)
                else
                  some
                    (.int (if negative then -(magnitude : Int) else magnitude),
                     rest)

------------------------------------------------------------
-- Values
------------------------------------------------------------

mutual

/- A value that starts at the first character. -/
def readValue? : Nat → List Char → Option (Json × List Char)
  | 0, _ => none
  | fuel + 1, chars =>
      match chars with
      | '\x7b' :: rest =>
          match skipSpace rest with
          | '\x7d' :: rest => some (.obj [], rest)
          | rest => readMembers? fuel [] rest
      | '[' :: rest =>
          match skipSpace rest with
          | ']' :: rest => some (.arr [], rest)
          | rest => readItems? fuel [] rest
      | '"' :: rest =>
          (readString? (rest.length + 1) [] rest).map fun (value, rest) =>
            (.str value, rest)
      | '-' :: rest => readNumber? true rest
      | 't' :: _ => (expectWord? "true" chars).map fun rest => (.bool true, rest)
      | 'f' :: _ =>
          (expectWord? "false" chars).map fun rest => (.bool false, rest)
      | 'n' :: _ => (expectWord? "null" chars).map fun rest => (.null, rest)
      | _ => readNumber? false chars

/- The items of an array after the first bracket, those read reversed. -/
def readItems? : Nat → List Json → List Char → Option (Json × List Char)
  | 0, _, _ => none
  | fuel + 1, read, chars =>
      match readValue? fuel (skipSpace chars) with
      | none => none
      | some (item, rest) =>
          match skipSpace rest with
          | ',' :: rest => readItems? fuel (item :: read) rest
          | ']' :: rest => some (.arr (item :: read).reverse, rest)
          | _ => none

/- The members of an object after the first brace, those read reversed. -/
def readMembers? :
    Nat → List (String × Json) → List Char → Option (Json × List Char)
  | 0, _, _ => none
  | fuel + 1, read, chars =>
      match skipSpace chars with
      | '"' :: rest =>
          match readString? (rest.length + 1) [] rest with
          | none => none
          | some (name, rest) =>
              match skipSpace rest with
              | ':' :: rest =>
                  match readValue? fuel (skipSpace rest) with
                  | none => none
                  | some (value, rest) =>
                      match skipSpace rest with
                      | ',' :: rest =>
                          readMembers? fuel ((name, value) :: read) rest
                      | '\x7d' :: rest =>
                          some (.obj ((name, value) :: read).reverse, rest)
                      | _ => none
              | _ => none
      | _ => none

end

/- The value that a text denotes. -/
def parse? (text : String) : Option Json :=
  let chars := text.toList
  match readValue? (chars.length + 1) (skipSpace chars) with
  | some (value, rest) => if (skipSpace rest).isEmpty then some value else none
  | none => none

end SnippetGrader.Json
