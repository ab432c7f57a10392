import SnippetGrader.Number.Word

/-
  Reading numbers.

  Key definitions include:
    * `Number.readWord?`: integers in a base from 2 to 36
    * `Number.readFloat?`: decimal floats
-/

namespace SnippetGrader.Number

------------------------------------------------------------
-- Digits
------------------------------------------------------------

/- The value of a digit or letter, where `a` and `A` are ten. -/
def digitValue? (c : Char) : Option Nat :=
  if '0' ≤ c && c ≤ '9' then some (c.toNat - '0'.toNat)
  else if 'a' ≤ c && c ≤ 'z' then some (c.toNat - 'a'.toNat + 10)
  else if 'A' ≤ c && c ≤ 'Z' then some (c.toNat - 'A'.toNat + 10)
  else none

/- The value of a run of digits that follows digits of a given value. -/
def readDigits? (base : Nat) : Nat → List Char → Option Nat
  | value, [] => some value
  | value, c :: rest =>
      match digitValue? c with
      | some digit =>
          if digit < base then readDigits? base (value * base + digit) rest
          else none
      | none => none

/- The natural number that a non-empty run of digits denotes. -/
def readNat? (base : Nat) (chars : List Char) : Option Nat :=
  if chars.isEmpty then none else readDigits? base 0 chars

/- Takes a sign from the front of a text: whether it is a minus, and the rest. -/
def takeSign : List Char → Bool × List Char
  | '-' :: rest => (true, rest)
  | '+' :: rest => (false, rest)
  | chars => (false, chars)

/- An optional sign and digits, if a word holds the integer. -/
def readWord? (base : Nat) (chars : List Char) : Option Int :=
  let (negative, digits) := takeSign chars
  match readNat? base digits with
  | some n => fitWord? (if negative then -(n : Int) else n)
  | none => none

------------------------------------------------------------
-- Decimal Floats
------------------------------------------------------------

/-
  The float nearest to `digits · 10 ^ exponent`. Magnitudes far
  outside the range of floats are settled by the position of
  their first digit alone.
-/
def nearestFloat (digits : Nat) (exponent : Int) : Float :=
  let position := ((toString digits).length : Int) + exponent
  if digits == 0 then 0.0
  else if position > 310 then 1.0 / 0.0
  else if position < -330 then 0.0
  else Float.ofScientific digits (exponent < 0) exponent.natAbs

/- A letter without its case, for letters of ASCII. -/
def foldAscii (c : Char) : Char :=
  if 'A' ≤ c && c ≤ 'Z' then Char.ofNat (c.toNat + 32) else c

/- The named magnitudes, in any case. -/
def namedFloat? (chars : List Char) : Option Float :=
  match String.ofList (chars.map foldAscii) with
  | "inf" => some (1.0 / 0.0)
  | "infinity" => some (1.0 / 0.0)
  | "nan" => some (0.0 / 0.0)
  | _ => none

/- The exponent part of a decimal: nothing, or a mark and an integer. -/
def readExponent? : List Char → Option Int
  | [] => some 0
  | c :: rest =>
      if c = 'e' || c = 'E' then
        let (negative, digits) := takeSign rest
        (readNat? 10 digits).map fun n =>
          if negative then -(n : Int) else n
      else none

/- Whether a character is a decimal digit. -/
def isDigit (c : Char) : Bool :=
  '0' ≤ c && c ≤ '9'

/- Digits with an optional point among them, and an optional exponent. -/
def readMagnitude? (chars : List Char) : Option Float :=
  let whole := chars.takeWhile isDigit
  let afterWhole := chars.dropWhile isDigit
  let (part, rest) :=
    match afterWhole with
    | '.' :: tail => (tail.takeWhile isDigit, tail.dropWhile isDigit)
    | _ => ([], afterWhole)
  match readNat? 10 (whole ++ part), readExponent? rest with
  | some digits, some exponent =>
      some (nearestFloat digits (exponent - part.length))
  | _, _ => none

/- Reads a float: a sign, then a named or a decimal magnitude. -/
def readFloat? (chars : List Char) : Option Float :=
  let (negative, magnitude) := takeSign chars
  ((namedFloat? magnitude).or (readMagnitude? magnitude)).map fun x =>
    if negative then -x else x

end SnippetGrader.Number
