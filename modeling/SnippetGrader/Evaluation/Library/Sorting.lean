import SnippetGrader.Evaluation.Library.Arguments
import SnippetGrader.Sorting.Stable

/-
  Stable sorting by keys.

  Keys that have no order count as equal while the items are
  sorted, and the first pair of them that is met is reported
  afterwards.

  Key definitions include:
    * `Keyed`, `keyedLess`
    * `Eval.sortValues`
-/

namespace SnippetGrader

/- An item with the key it is sorted by. -/
structure Keyed where
  key : Value
  item : Value
  deriving Inhabited

/-
  Whether an item comes before another by its key, or behind it
  if the greatest is to come first. The state is the first two
  items whose keys have no order.
-/
def keyedLess
    (heap : Heap)
    (reverse : Bool) :
    Sorting.Less (Option (Keyed × Keyed)) Keyed :=
  fun left right unordered =>
    match heap.order "<" left.key right.key with
    | .ok order => some (order == (if reverse then .gt else .lt), unordered)
    | .error _ => some (false, unordered.or (some (left, right)))

/- Sorts items by their keys. Fails as the first keys without an order do. -/
def sortKeyed
    (heap : Heap)
    (reverse : Bool)
    (items : List Keyed) :
    Except EvalError (List Keyed) :=
  match (Sorting.stableSort (keyedLess heap reverse) items).run none with
  | none => .error .contradictoryOrder
  | some (sorted, none) => .ok sorted
  | some (sorted, some (left, right)) =>
      (heap.order "<" left.key right.key).map fun _ => sorted

namespace Eval

/- The item with its key: itself, or what a function makes of it. -/
def keyed (call : Caller) (key item : Value) : Eval Keyed := do
  if key.isNone then return ⟨item, item⟩
  else return ⟨← call key [item] [], item⟩

/- Sorts values by their keys. Items with equal keys keep their order. -/
def sortValues
    (call : Caller)
    (items : Array Value)
    (key : Value)
    (reverse : Bool) :
    Eval (Array Value) := do
  let keyedItems ← items.toList.mapM (keyed call key)
  let sorted ← ofExcept (← onHeap (sortKeyed · reverse keyedItems))
  return (sorted.map (·.item)).toArray

end Eval

end SnippetGrader
