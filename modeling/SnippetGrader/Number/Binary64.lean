/-
  The parts of a float, and operations that are exact on them.

  A finite float is a sign, a natural number below 2^53 and a
  power of two. Remainder and rounding are computed on these
  parts, so that no step rounds twice.

  Key definitions include:
    * `Binary64`, `Binary64.ofFloat`
    * `Number.remainder`
    * `Number.roundHalfEven`
    * `Number.powNat`
-/

namespace SnippetGrader.Number

/- The magnitude and sign of a finite float: `± mantissa · 2 ^ exponent`. -/
structure Binary64 where
  negative : Bool
  mantissa : Nat
  exponent : Int
  deriving DecidableEq, Repr

namespace Binary64

/- The parts of a float that is finite. -/
def ofFloat (x : Float) : Binary64 :=
  let bits : Nat := x.toBits.toNat
  let fraction : Nat := bits % Nat.pow 2 52
  let biased : Nat := bits / Nat.pow 2 52 % Nat.pow 2 11
  { negative := bits / Nat.pow 2 63 == 1
    mantissa := if biased == 0 then fraction else fraction + Nat.pow 2 52
    exponent := if biased == 0 then -1074 else (biased : Int) - 1075 }

/-
  Whether the next smaller float lies only half as far away as
  the next greater one.
-/
def isLowerEdge (parts : Binary64) : Bool :=
  parts.mantissa == Nat.pow 2 52 && parts.exponent > -1074

end Binary64

/- Whether the sign bit of a float is set. -/
def isNegative (x : Float) : Bool :=
  (Binary64.ofFloat x).negative

/- Gives a float the sign of another. -/
def withSignOf (x sign : Float) : Float :=
  if isNegative sign then -x.abs else x.abs

/-
  The remainder of a division whose quotient is cut towards
  zero. It has the sign of the dividend.
-/
def remainder (x y : Float) : Float :=
  if x.isNaN || y.isNaN || x.isInf || y == 0.0 then 0.0 / 0.0
  else if y.isInf then x
  else
    let a := Binary64.ofFloat x
    let b := Binary64.ofFloat y
    let exponent := min a.exponent b.exponent
    let dividend := a.mantissa * Nat.pow 2 (a.exponent - exponent).toNat
    let divisor := b.mantissa * Nat.pow 2 (b.exponent - exponent).toNat
    withSignOf
      (Float.scaleB (Float.ofNat (dividend % divisor)) exponent) x

/- The integer part of a float, cut towards zero. -/
def truncate (x : Float) : Float :=
  if x < 0.0 then x.ceil else x.floor

/- The nearest integral float; a tie goes to the even one. -/
def roundHalfEven (x : Float) : Float :=
  if x.isNaN || x.isInf then x
  else
    let magnitude := x.abs
    let below := magnitude.floor
    let part := magnitude - below
    let isEven := (below / 2.0).floor * 2.0 == below
    let rounded :=
      if part < 0.5 || (part == 0.5 && isEven) then below
      else below + 1.0
    withSignOf rounded x

/-
  A power with a natural exponent by repeated squaring: the
  square is formed only while further bits remain.
-/
def powNat (base : Float) (exponent : Nat) : Float :=
  go 64 1.0 base exponent
where
  go : Nat → Float → Float → Nat → Float
    | 0, result, _, _ => result
    | fuel + 1, result, base, exponent =>
        let result := if exponent % 2 == 1 then result * base else result
        if exponent / 2 == 0 then result
        else go fuel result (base * base) (exponent / 2)

/- A power with an integer exponent: a negative one inverts the power. -/
def powInt (base : Float) (exponent : Int) : Float :=
  if exponent < 0 then 1.0 / powNat base exponent.natAbs
  else powNat base exponent.natAbs

end SnippetGrader.Number
