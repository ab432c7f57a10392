import SnippetGrader.Evaluation.Order
import SnippetGrader.Number.Binary64
import SnippetGrader.Tree.Basic

/-
  Arithmetic on numbers.

  Integers are words: a result that no word holds is an error,
  never a wrong number. Division and remainder go to the floor,
  so that a remainder has the sign of the divisor.

  Key definitions include:
    * `Arithmetic.onInts`
    * `Arithmetic.onFloats`
    * `Arithmetic.signedPowerModulo`
-/

namespace SnippetGrader.Arithmetic

/- A result of an operation. -/
abbrev Result := Except EvalError Value

/- An integer, if a word holds it. -/
def fit (n : Int) : Result :=
  match Number.fitWord? n with
  | some word => .ok (.int word)
  | none => .error (.overflow .integer)

/- The words as rows of bits, in two's complement. -/
def bits (n : Int) : BitVec 64 :=
  BitVec.ofInt 64 n

/-
  A power of a word. Beyond an exponent of 63 only the powers of
  -1, 0 and 1 are words.
-/
def power (base : Int) (exponent : Nat) : Result :=
  if exponent < 64 then fit (Int.pow base exponent)
  else if base == 0 || base == 1 then .ok (.int base)
  else if base == -1 then .ok (.int (if exponent % 2 = 0 then 1 else -1))
  else .error (.overflow .integer)

/- The greatest exponent that is tried. -/
def maxExponent : Int := 4294967295

/- A power of words. With a negative exponent it is a float. -/
def intPower (base exponent : Int) : Result :=
  if exponent < 0 then
    if base == 0 then .error (.zeroDivision .negativePower)
    else
      .ok (.float
        (Float.pow (Number.wordToFloat base) (Number.wordToFloat exponent)))
  else if exponent > maxExponent then .error (.overflow .integer)
  else power base exponent.toNat

/- A word moved to the left, if moving it back gives it again. -/
def shiftLeft (n count : Int) : Result :=
  if count < 0 then .error (.value .negativeShift)
  else if n == 0 then .ok (.int 0)
  else if count ≥ 64 then .error (.overflow .integer)
  else
    let shifted := bits n <<< count.toNat
    if shifted.sshiftRight count.toNat != bits n then .error (.overflow .integer)
    else .ok (.int shifted.toInt)

/- A word moved to the right, keeping its sign. -/
def shiftRight (n count : Int) : Result :=
  if count < 0 then .error (.value .negativeShift)
  else if count ≥ 64 then .ok (.int (if n < 0 then -1 else 0))
  else .ok (.int ((bits n).sshiftRight count.toNat).toInt)

/- A quotient of words, rounded toward zero, if a word holds it. -/
def quotient? (a b : Int) : Option Int :=
  Number.fitWord? (a.tdiv b)

/- The remainder beside that quotient. Without a quotient there is none. -/
def remainder? (a b : Int) : Option Int :=
  (quotient? a b).map fun _ => a.tmod b

/- Whether a remainder is on the other side of zero than the divisor. -/
def isAstray (remainder divisor : Int) : Bool :=
  remainder != 0 && (decide (remainder < 0) != decide (divisor < 0))

/- A quotient of words, rounded to the floor. -/
def floorQuotient (a b : Int) : Result :=
  match quotient? a b, remainder? a b with
  | some quotient, some remainder =>
      .ok (.int
        (if isAstray remainder b then Number.wrapWord (quotient - 1)
        else quotient))
  | _, _ => .error (.overflow .integer)

/- The remainder of words that has the sign of the divisor. -/
def signedRemainder (a b : Int) : Int :=
  let remainder := (remainder? a b).getD 0
  if isAstray remainder b then Number.wrapWord (remainder + b) else remainder

/- An operation on two integers. -/
def onInts (op : BinaryOp) (a b : Int) : Result :=
  match op with
  | .add => fit (a + b)
  | .sub => fit (a - b)
  | .mul => fit (a * b)
  | .div =>
      if b == 0 then .error (.zeroDivision .quotient)
      else .ok (.float (Number.wordToFloat a / Number.wordToFloat b))
  | .floorDiv =>
      if b == 0 then .error (.zeroDivision .integer) else floorQuotient a b
  | .mod =>
      if b == 0 then .error (.zeroDivision .integer)
      else .ok (.int (signedRemainder a b))
  | .pow => intPower a b
  | .shiftLeft => shiftLeft a b
  | .shiftRight => shiftRight a b
  | .bitOr => .ok (.int (bits a ||| bits b).toInt)
  | .bitXor => .ok (.int (bits a ^^^ bits b).toInt)
  | .bitAnd => .ok (.int (bits a &&& bits b).toInt)
  | .matMul => .error (.type (.operands op.symbol "int" "int"))

/- The remainder of a division to the floor. -/
def floorRemainder (a b : Float) : Float :=
  let r := Number.remainder a b
  if r != 0 && (decide (r < 0) != decide (b < 0)) then r + b else r

/- An operation on two floats. The types are those a report names. -/
def onFloats (op : BinaryOp) (a b : Float) (leftType rightType : String) : Result :=
  match op with
  | .add => .ok (.float (a + b))
  | .sub => .ok (.float (a - b))
  | .mul => .ok (.float (a * b))
  | .div =>
      if b == 0 then .error (.zeroDivision .floatQuotient)
      else .ok (.float (a / b))
  | .floorDiv =>
      if b == 0 then .error (.zeroDivision .floatFloor)
      else .ok (.float (a / b).floor)
  | .mod =>
      if b == 0 then .error (.zeroDivision .floatRemainder)
      else .ok (.float (floorRemainder a b))
  | .pow =>
      if a == 0 && b < 0 then .error (.zeroDivision .negativePower)
      else .ok (.float (Float.pow a b))
  | _ => .error (.type (.operands op.symbol leftType rightType))

/- An operation on two numbers: on integers only if both are. -/
def onNumerals
    (op : BinaryOp)
    (a b : Numeral)
    (leftType rightType : String) :
    Result :=
  match a, b with
  | .int m, .int n => onInts op m n
  | a, b => onFloats op a.toFloat b.toFloat leftType rightType

/- An operation on one number, if there is one. -/
def onNumeral? (op : UnaryOp) : Numeral → Option Result
  | .int n =>
      match op with
      | .neg => some (fit (-n))
      | .pos => some (.ok (.int n))
      | .invert => some (.ok (.int (-n - 1)))
      | .not => none
  | .float x =>
      match op with
      | .neg => some (.ok (.float (-x)))
      | .pos => some (.ok (.float x))
      | _ => none

/-
  What is known of a power while it is computed by repeated
  squaring: the product of the factors taken so far, the factor
  that comes next, and the exponent that it is left to.
-/
structure PowerState where
  result : Int
  factor : Int
  exponent : Nat

namespace PowerState

/- One round. Products are wide words, and what is kept of them is their residue. -/
def next (modulus : Int) (state : PowerState) : PowerState where
  result :=
    if state.exponent % 2 = 1 then
      Number.wrapWide (state.result * state.factor) % modulus
    else state.result
  factor := Number.wrapWide (state.factor * state.factor) % modulus
  exponent := state.exponent / 2

/- Rounds until the exponent is used up. -/
def run (modulus : Int) (state : PowerState) : PowerState :=
  if state.exponent = 0 then state else (state.next modulus).run modulus
termination_by state.exponent
decreasing_by exact Nat.div_lt_self (Nat.pos_of_ne_zero ‹_›) Nat.one_lt_two

/- Before the first round. -/
def start (base : Int) (exponent : Nat) (modulus : Int) : PowerState where
  result := Int.tmod 1 modulus
  factor := base % modulus
  exponent

end PowerState

/- The residue of a power as a wide word, with the sign of the modulus. -/
def wideResidue (base : Int) (exponent : Nat) (modulus : Int) : Int :=
  let power := (PowerState.start base exponent modulus).run modulus
  let residue := power.result % (modulus.natAbs : Int)
  if modulus < 0 && residue != 0 then Number.wrapWide (residue + modulus)
  else residue

/- A power modulo a number that is not zero, with the sign of that number. -/
def signedPowerModulo (base : Int) (exponent : Nat) (modulus : Int) : Int :=
  Number.wrapWord (wideResidue base exponent modulus)

/- The integer part of a float that a word holds. -/
def floatToInt (x : Float) : Except EvalError Int :=
  if x.isNaN then .error (.value .nanToInteger)
  else if x.isInf || x ≥ 9.223372036854776e18 || x < -9.223372036854776e18 then
    .error (.overflow .floatToInteger)
  else .ok x.toInt64.toInt

end SnippetGrader.Arithmetic
