import SnippetGrader.Evaluation.Value
import SnippetGrader.Number.Word

/-
  Identity and equality of values.

  Numbers are equal across their types, containers are equal if
  their contents are, and all other values only if they are the
  same. Containers are compared to a bounded depth, and below it
  they are unequal unless they are the same, so that values that
  contain themselves can be compared too.

  Key definitions include:
    * `Value.isIdentical`
    * `Heap.equal`
-/

namespace SnippetGrader

/- The greatest depth to which values are compared and shown. -/
def maxNesting : Nat := 200

namespace Value

/- Whether two values are the same. -/
def isIdentical : Value → Value → Bool
  | .none, .none => true
  | .bool a, .bool b => a == b
  | .int a, .int b => a == b
  | .str a, .str b => a == b
  | .list a, .list b => a == b
  | .tuple a, .tuple b => a == b
  | .dict a, .dict b => a == b
  | .set a, .set b => a == b
  | .function a, .function b => a == b
  | .builtin a, .builtin b => a.name == b.name
  | .type a, .type b => a == b
  | .object a, .object b => a == b
  | .mathModule a, .mathModule b => a == b
  | _, _ => false

/- The number that a value stands for in a comparison. -/
def number? : Value → Option Float
  | .bool value => some (if value then 1 else 0)
  | .int value => some (Number.wordToFloat value)
  | .float value => some value
  | _ => .none

end Value

namespace Heap

/- How the contents of containers are compared. -/
abbrev Relation := Value → Value → Bool

/- Whether two sequences have related items at each position. -/
def sameItems (related : Relation) (left right : Array Value) : Bool :=
  left.size == right.size
    && (left.toList.zip right.toList).all fun (a, b) => related a b

/- Whether each item of a set is related to one of another of equal size. -/
def sameSet (related : Relation) (left right : Array Value) : Bool :=
  left.size == right.size && left.all fun a => right.any fun b => related a b

/- Whether each entry of a dict is related to one of another of equal size. -/
def sameEntries (related : Relation) (left right : Array (Value × Value)) : Bool :=
  left.size == right.size
    && left.all fun (key, value) =>
      right.any fun (key', value') => related key key' && related value value'

/-
  Whether two values are equal, given how the contents of
  containers are compared. Without that, two containers are
  equal only if they are the same.
-/
def equalBy (heap : Heap) (contents : Option Relation) : Relation
  | .list a, .list b =>
      a == b || contents.any fun related =>
        sameItems related (heap.list a) (heap.list b)
  | .tuple a, .tuple b =>
      a == b || contents.any fun related =>
        sameItems related (heap.tuple a) (heap.tuple b)
  | .dict a, .dict b =>
      a == b || contents.any fun related =>
        sameEntries related (heap.dict a) (heap.dict b)
  | .set a, .set b =>
      a == b || contents.any fun related =>
        sameSet related (heap.set a) (heap.set b)
  | .str a, .str b => a == b
  | a, b =>
      match a.number?, b.number? with
      | some x, some y => x == y
      | _, _ => a.isIdentical b

/- Whether two values are equal down to a depth. -/
def equalTo (heap : Heap) : (depth : Nat) → Relation
  | 0 => heap.equalBy none
  | depth + 1 => heap.equalBy (some (heap.equalTo depth))

/- Whether two values are equal. -/
def equal (heap : Heap) : Relation :=
  heap.equalTo maxNesting

/- The items of which no earlier one is equal. -/
def distinct (heap : Heap) (items : Array Value) : Array Value :=
  items.foldl
    (fun kept item =>
      if kept.any fun other => heap.equal other item then kept
      else kept.push item)
    #[]

/-
  Gives a key a value among the entries of a dict. A key that is
  there stays as it is and where it is, and a new one goes last.
-/
def insertEntry
    (heap : Heap)
    (entries : Array (Value × Value))
    (key value : Value) :
    Array (Value × Value) :=
  match entries.findIdx? fun entry => heap.equal entry.1 key with
  | some index => entries.modify index fun entry => (entry.1, value)
  | none => entries.push (key, value)

/- The value of a key among the entries of a dict. -/
def entry? (heap : Heap) (entries : Array (Value × Value)) (key : Value) : Option Value :=
  (entries.find? fun entry => heap.equal entry.1 key).map (·.2)

end Heap

end SnippetGrader
