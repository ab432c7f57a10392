import SnippetGrader.Json.Basic

/-
  Reading domain values from JSON.

  A record with named fields may be written as an object, in any
  order, or as an array that holds its fields in their declared
  order. Unknown names in an object are ignored, and a repeated
  known name is refused.

  Key definitions include:
    * `Json.member?`
    * `Json.fields?`
    * `Json.tagged?`
-/

namespace SnippetGrader.Json

/- A natural number below a bound. -/
def natBelow? (bound : Nat) : Json → Option Nat
  | .int value => if 0 ≤ value && value < bound then some value.toNat else none
  | _ => none

/- A string. -/
def str? : Json → Option String
  | .str value => some value
  | _ => none

/- A value that may be null. -/
def nullable? {α : Type} (read : Json → Option α) : Json → Option (Option α)
  | .null => some none
  | value => (read value).map some

/- The values of all members with a given name. -/
def valuesOf (name : String) (members : List (String × Json)) : List Json :=
  (members.filter fun entry => entry.1 == name).map (·.2)

/-
  The value of a member, if it is present once. The outer option
  tells a repeated name apart from an absent one.
-/
def member? (name : String) (members : List (String × Json)) : Option (Option Json) :=
  match valuesOf name members with
  | [] => some none
  | [value] => some (some value)
  | _ => none

/-
  The fields of a record in declared order, from an object or
  from an array. A field that an object leaves out is `none`; an
  array must hold as many values as there are fields.
-/
def fields? (names : List String) : Json → Option (List (Option Json))
  | .obj members => names.mapM fun name => member? name members
  | .arr items =>
      if items.length = names.length then some (items.map some) else none
  | _ => none

/-
  The fields of a record all of which have a default. An array
  may leave out fields at its end.
-/
def defaultedFields? (names : List String) : Json → Option (List (Option Json))
  | .obj members => names.mapM fun name => member? name members
  | .arr items =>
      if items.length ≤ names.length then
        some
          (items.map some
            ++ List.replicate (names.length - items.length) none)
      else none
  | _ => none

/-
  The name of a case: a string, or an object whose only member
  has that name and the value null.
-/
def caseName? : Json → Option String
  | .str name => some name
  | .obj [(name, .null)] => some name
  | _ => none

/-
  A value tagged with its case: an object with the tag among its
  members, or an array that starts with the tag. The rest is the
  value without its tag.
-/
def tagged? (tag : String) : Json → Option (String × Json)
  | .obj members =>
      match member? tag members with
      | some (some (.str name)) =>
          some (name, .obj (members.filter fun entry => entry.1 != tag))
      | _ => none
  | .arr (.str name :: rest) => some (name, .arr rest)
  | _ => none

/- A tagged value that carries nothing but its tag. -/
def isBare : Json → Bool
  | .obj _ => true
  | .arr items => items.isEmpty
  | _ => false

end SnippetGrader.Json
