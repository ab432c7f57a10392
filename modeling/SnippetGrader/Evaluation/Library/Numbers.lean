import SnippetGrader.Evaluation.Library.Arguments

/-
  Routines on numbers, and the functions of the module `math`.

  Key definitions include:
    * `Eval.round`
    * `Eval.pow`
    * `Eval.runMath`
-/

namespace SnippetGrader.Eval

/- The absolute value of a number. -/
def abs (value : Value) : Eval Value := do
  match value with
  | .int n => ofExcept (Arithmetic.fit n.natAbs)
  | .bool b => return .int (if b then 1 else 0)
  | .float x => return .float x.abs
  | other => typeFault (.absOperand (← typeName other))

/- An exponent of ten that stays in the range of 32-bit words. -/
def tenTo (exponent : Int) : Float :=
  let clamped := if -2147483648 ≤ exponent && exponent ≤ 2147483647 then exponent else 2147483647
  Number.powInt 10.0 clamped

/-
  A number rounded to a number of digits after the point, or to
  an integer if there is none. A half goes to the even side.
-/
def round (number digits : Value) : Eval Value := do
  let places ←
    match digits with
    | .none => pure none
    | other => some <$> asInt "ndigits" other
  match number, places with
  | .int n, none => return .int n
  | .bool b, none => return .int (if b then 1 else 0)
  | .float x, none =>
      return .int (← ofExcept (Arithmetic.floatToInt (Number.roundHalfEven x)))
  | .int n, some count =>
      if count ≥ 0 then return .int n
      else
        let scale := tenTo (-count)
        let rounded := Number.roundHalfEven (Number.wordToFloat n / scale) * scale
        return .int (← ofExcept (Arithmetic.floatToInt rounded))
  | .float x, some count =>
      let scale := tenTo count
      let rounded := Number.roundHalfEven (x * scale) / scale
      return .float (if rounded.isFinite then rounded else x)
  | other, _ => typeFault (.notRoundable (← typeName other))

/- A power, perhaps modulo a number. -/
def pow (base exponent modulus : Value) : Eval Value := do
  if modulus.isNone then binary .pow base exponent
  else
    let b ← asInt "pow() base" base
    let e ← asInt "pow() exponent" exponent
    let m ← asInt "pow() modulus" modulus
    if m == 0 then valueFault .zeroModulus
    else if e < 0 then valueFault .negativeModularExponent
    else return .int (Arithmetic.signedPowerModulo b e.toNat m)

/- The quotient and the remainder of a division. -/
def divmod (x y : Value) : Eval Value := do
  let quotient ← binary .floorDiv x y
  let remainder ← binary .mod x y
  newTuple #[quotient, remainder]

/- The integer next to a number on one side. -/
def nextInteger (side : Float → Float) : Value → Eval Value
  | .int n => return .int n
  | other => do
      return .int (← ofExcept (Arithmetic.floatToInt (side (← asFloat other))))

/- The logarithm of a number, natural or to a base. -/
def log (args : List Value) : Eval Value := do
  checkCount "log" 1 2 args
  let x ← asFloat (argument args 0)
  if x ≤ 0 then valueFault .mathDomain
  else
    match args[1]? with
    | none => return .float x.log
    | some base =>
        let b ← asFloat base
        if b ≤ 0 || b == 1 then valueFault .mathDomain
        else return .float (x.log / b.log)

/- Runs a function of `math`. -/
def runMath (function : MathFunction) (args : List Value) (keywords : Keywords Value) :
    Eval Value := do
  let x := argument args 0
  match function with
  | .sqrt =>
      let x ← asFloat x
      if x < 0 then valueFault .mathDomain else return .float x.sqrt
  | .floor => nextInteger Float.floor x
  | .ceil => nextInteger Float.ceil x
  | .exp =>
      let result := (← asFloat x).exp
      if result.isInf then throw (.overflow .mathRange) else return .float result
  | .fabs => return .float (← asFloat x).abs
  | .pow =>
      let base ← asFloat x
      let exponent ← asFloat (argument args 1)
      if base == 0 && exponent < 0 then valueFault .mathDomain
      else return .float (Float.pow base exponent)
  | .log =>
      noKeywords "log" keywords
      log args

end SnippetGrader.Eval
