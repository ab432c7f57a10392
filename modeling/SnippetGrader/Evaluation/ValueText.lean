import SnippetGrader.Evaluation.Equality
import SnippetGrader.Number.Notation
import SnippetGrader.Text.Quoted

/-
  The text of values.

  A container inside itself is shown by dots, and so is one that
  is nested too deeply.

  Key definitions include:
    * `Heap.repr`
    * `Heap.display`
-/

namespace SnippetGrader

/- A container that is being shown. -/
inductive OpenContainer where
  | list (address : Nat)
  | tuple (address : Nat)
  | dict (address : Nat)
  | set (address : Nat)
  deriving DecidableEq, Repr, Inhabited

namespace Heap

/- The texts of items with commas between them. -/
def itemsText (show' : Value → String) (items : Array Value) : String :=
  ", ".intercalate (items.toList.map show')

/- The texts of entries with commas between them. -/
def entriesText (show' : Value → String) (entries : Array (Value × Value)) : String :=
  ", ".intercalate
    (entries.toList.map fun (key, value) => show' key ++ ": " ++ show' value)

/- The name of what a method runs. -/
def calleeName (heap : Heap) : Callee → String
  | .function address => (heap.function address).name
  | .builtin routine => routine.name

/-
  The text of a value, given how the contents of a container are
  shown. A container whose contents are not shown is written
  with dots.
-/
def reprBy (heap : Heap) (contents : OpenContainer → Option (Value → String)) : Value → String
  | .none => "None"
  | .bool value => if value then "True" else "False"
  | .int value => toString value
  | .float value => Number.valueText value
  | .str value => Text.quoted value
  | .list address =>
      match contents (.list address) with
      | some inner => "[" ++ itemsText inner (heap.list address) ++ "]"
      | none => "[...]"
  | .tuple address =>
      match contents (.tuple address) with
      | some inner =>
          let items := heap.tuple address
          "(" ++ itemsText inner items
            ++ (if items.size = 1 then ",)" else ")")
      | none => "(...)"
  | .dict address =>
      match contents (.dict address) with
      | some inner =>
          "\x7b" ++ entriesText inner (heap.dict address) ++ "\x7d"
      | none => "\x7b...\x7d"
  | .set address =>
      let items := heap.set address
      if items.isEmpty then "set()"
      else
        match contents (.set address) with
        | some inner => "\x7b" ++ itemsText inner items ++ "\x7d"
        | none => "\x7b...\x7d"
  | .function address => "<function " ++ (heap.function address).name ++ ">"
  | .builtin routine => "<built-in function " ++ routine.name ++ ">"
  | .method receiver callee =>
      "<bound method " ++ heap.calleeName callee ++ " of "
        ++ heap.reprBy contents receiver ++ ">"
  | .type address => "<class '" ++ (heap.classAt address).name ++ "'>"
  | .object address => "<" ++ (heap.classOf address).name ++ " object>"
  | .mathModule _ => "<module 'math'>"
  | .placeholder path => "<" ++ path ++ ">"

/- The text of a value inside open containers, down to a depth. -/
def reprTo (heap : Heap) : (depth : Nat) → List OpenContainer → Value → String
  | 0, _ => heap.reprBy fun _ => none
  | depth + 1, opened =>
      heap.reprBy fun container =>
        if opened.contains container then none
        else some (heap.reprTo depth (container :: opened))

/- The text of a value that shows what it is. -/
def repr (heap : Heap) (value : Value) : String :=
  heap.reprTo maxNesting [] value

/- The text of a value for readers: a string is shown as it is. -/
def display (heap : Heap) : Value → String
  | .str value => value
  | value => heap.repr value

end Heap

end SnippetGrader
