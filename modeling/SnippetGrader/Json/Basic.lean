/-
  JSON values.

  An object keeps its members in the order in which they were
  written, repeated names included, because a reader may have to
  refuse a repeated name. An integer is a number written without
  a fraction and without an exponent; any other number is kept
  as it was written.

  Key definitions include:
    * `Json`
    * `Json.text`
-/

namespace SnippetGrader

/- A JSON value. -/
inductive Json where
  | null
  | bool (value : Bool)
  | int (value : Int)
  | real (written : String)
  | str (value : String)
  | arr (items : List Json)
  | obj (members : List (String × Json))
  deriving Repr, Inhabited

namespace Json

/- The digits of a number below sixteen to the fourth, in base sixteen. -/
def hexDigits (n : Nat) : List Char :=
  [n / 4096, n / 256, n / 16, n].map fun digit =>
    Nat.digitChar (digit % 16)

/- The characters written for one character of a string. -/
def escaped (c : Char) : List Char :=
  if c = '"' then ['\\', '"']
  else if c = '\\' then ['\\', '\\']
  else if c = '\n' then ['\\', 'n']
  else if c = '\r' then ['\\', 'r']
  else if c = '\t' then ['\\', 't']
  else if c.toNat < 32 then '\\' :: 'u' :: hexDigits c.toNat
  else [c]

/- The written form of a string. -/
def stringText (value : String) : String :=
  String.ofList ('"' :: value.toList.flatMap escaped ++ ['"'])

mutual

/- The written form of a value, without white space. -/
def text : Json → String
  | .null => "null"
  | .bool value => if value then "true" else "false"
  | .int value => toString value
  | .real written => written
  | .str value => stringText value
  | .arr items => "[" ++ ",".intercalate (itemTexts items) ++ "]"
  | .obj members => "\x7b" ++ ",".intercalate (memberTexts members) ++ "\x7d"

/- The written forms of the items of an array. -/
def itemTexts : List Json → List String
  | [] => []
  | item :: items => text item :: itemTexts items

/- The written forms of the members of an object. -/
def memberTexts : List (String × Json) → List String
  | [] => []
  | (name, value) :: members =>
      (stringText name ++ ":" ++ text value) :: memberTexts members

end

end Json

end SnippetGrader
