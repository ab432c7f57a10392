import SnippetGrader.Number.Binary64

/-
  The shortest decimal that reads back as a given float.

  Every real number in an interval around a float rounds to that
  float. For one digit, two digits and so on, the two decimals
  next to the float on the grid with that many digits are tested
  against the interval, in exact arithmetic. The first grid with
  a decimal in the interval wins, and of two such decimals the
  nearer one.

  Key definitions include:
    * `Decimal`
    * `Number.shortest`
-/

namespace SnippetGrader.Number

/- The decimal number `digits · 10 ^ exponent`. -/
structure Decimal where
  digits : Nat
  exponent : Int
  deriving DecidableEq, Repr

/-
  A positive real number with its rounding interval, all in
  units of `1 / unit`. Both ends belong to the interval iff
  `closed`.
-/
structure Rounding where
  low : Nat
  value : Nat
  high : Nat
  unit : Nat
  closed : Bool
  deriving DecidableEq, Repr

/- The rounding interval of the magnitude of a finite float. -/
def Rounding.ofParts (parts : Binary64) : Rounding :=
  let exponent := parts.exponent - 2
  let scale := Nat.pow 2 exponent.toNat
  { low := (4 * parts.mantissa - if parts.isLowerEdge then 1 else 2) * scale
    value := 4 * parts.mantissa * scale
    high := (4 * parts.mantissa + 2) * scale
    unit := Nat.pow 2 (-exponent).toNat
    closed := parts.mantissa % 2 == 0 }

/- Whether the decimal `digits · 10 ^ exponent` lies in the interval. -/
def Rounding.holds (interval : Rounding) (digits : Nat) (exponent : Int) : Bool :=
  let place := digits * interval.unit * Nat.pow 10 exponent.toNat
  let scale := Nat.pow 10 (-exponent).toNat
  if interval.closed then
    interval.low * scale ≤ place && place ≤ interval.high * scale
  else
    interval.low * scale < place && place < interval.high * scale

/- The integer part of the value divided by `10 ^ exponent`. -/
def Rounding.quotient (interval : Rounding) (exponent : Int) : Nat :=
  interval.value * Nat.pow 10 (-exponent).toNat
    / (interval.unit * Nat.pow 10 exponent.toNat)

/-
  Whether the value lies nearer to the upper of two neighbouring
  decimals. A tie goes to the upper one.
-/
def Rounding.upperIsNearer
    (interval : Rounding)
    (digits : Nat)
    (exponent : Int) :
    Bool :=
  (2 * digits + 1) * interval.unit * Nat.pow 10 exponent.toNat
    ≤ 2 * interval.value * Nat.pow 10 (-exponent).toNat

/-
  The least exponent `e` with the value below `10 ^ e`, searched
  downwards from a bound that it does not exceed.
-/
def Rounding.magnitude (interval : Rounding) : Nat → Int → Int
  | 0, exponent => exponent
  | fuel + 1, exponent =>
      if interval.quotient (exponent - 1) == 0 then
        interval.magnitude fuel (exponent - 1)
      else exponent

/- The decimal on one grid that is nearest in the interval, if any is in it. -/
def Rounding.nearest? (interval : Rounding) (exponent : Int) : Option Decimal :=
  let below := interval.quotient exponent
  let lower := interval.holds below exponent
  let upper := interval.holds (below + 1) exponent
  if lower && upper then
    some ⟨if interval.upperIsNearer below exponent then below + 1 else below,
      exponent⟩
  else if lower then some ⟨below, exponent⟩
  else if upper then some ⟨below + 1, exponent⟩
  else none

/- Searches grids from coarse to fine, at most `count` of them. -/
def Rounding.search (interval : Rounding) : (count : Nat) → Int → Decimal
  | 0, exponent => ⟨interval.quotient exponent, exponent⟩
  | count + 1, exponent =>
      match interval.nearest? exponent with
      | some decimal => decimal
      | none => interval.search count (exponent - 1)

/- Moves the zeros at the end of the digits into the exponent. -/
def Decimal.trimmed : Nat → Decimal → Decimal
  | 0, decimal => decimal
  | fuel + 1, decimal =>
      if decimal.digits % 10 == 0 && decimal.digits != 0 then
        trimmed fuel ⟨decimal.digits / 10, decimal.exponent + 1⟩
      else decimal

/-
  The shortest decimal that reads back as the magnitude of a
  finite float that is not zero.
-/
def shortest (x : Float) : Decimal :=
  let interval := Rounding.ofParts (Binary64.ofFloat x)
  (interval.search 17 (interval.magnitude 700 310 - 1)).trimmed 20

end SnippetGrader.Number
