import SnippetGrader.Number.Shortest

/-
  Written forms of floats.

  Values are written with a decimal point, and with an exponent
  from 10^16 upwards. Literals in reports on tokens are written
  without an exponent and, if integral, without a point.

  Key definitions include:
    * `Number.valueText`
    * `Number.literalText`
-/

namespace SnippetGrader.Number

/- A run of zeros. -/
def zeros (count : Nat) : String :=
  String.ofList (List.replicate count '0')

/- A decimal with all its places written out. -/
def Decimal.positional (decimal : Decimal) : String :=
  let digits := (toString decimal.digits).toList
  if decimal.exponent ≥ 0 then
    String.ofList digits ++ zeros decimal.exponent.toNat
  else
    let places := (-decimal.exponent).toNat
    if digits.length > places then
      String.ofList (digits.take (digits.length - places)) ++ "."
        ++ String.ofList (digits.drop (digits.length - places))
    else
      "0." ++ zeros (places - digits.length) ++ String.ofList digits

/- A decimal with one digit before the point and an exponent of ten. -/
def Decimal.scientific (decimal : Decimal) : String :=
  let digits := (toString decimal.digits).toList
  let exponent := decimal.exponent + (digits.length : Int) - 1
  let mantissa :=
    match digits with
    | [] => ""
    | [d] => String.ofList [d]
    | d :: rest => String.ofList (d :: '.' :: rest)
  mantissa ++ "e" ++ (if exponent < 0 then "" else "+") ++ toString exponent

/- Writes a magnitude, with a minus if the sign bit of `x` is set. -/
def signed (x : Float) (magnitude : String) : String :=
  if isNegative x then "-" ++ magnitude else magnitude

/- The least magnitude that a value is written with an exponent for. -/
def exponentFrom : Float := 1e16

/- The written form of a value. -/
def valueText (x : Float) : String :=
  if x.isNaN then "nan"
  else if x.isInf then signed x "inf"
  else if x == 0.0 then signed x "0.0"
  else if x.abs ≥ exponentFrom then signed x (shortest x).scientific
  else
    let decimal := shortest x
    signed x
      (if decimal.exponent ≥ 0 then decimal.positional ++ ".0"
       else decimal.positional)

/- The written form of a literal in a report. -/
def literalText (x : Float) : String :=
  if x.isNaN then "NaN"
  else if x.isInf then signed x "inf"
  else if x == 0.0 then signed x "0"
  else signed x (shortest x).positional

end SnippetGrader.Number
