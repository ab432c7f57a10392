import SnippetGrader.Evaluation.Equality
import SnippetGrader.Evaluation.Error

/-
  The order of values.

  Numbers, strings, lists and tuples can be ordered. Sequences
  are ordered by the first items that are not equal, and a
  sequence comes before any longer one that it starts.

  Key definitions include:
    * `Numeral`
    * `Heap.order`
-/

namespace SnippetGrader

/- A number of a value: truth values are integers. -/
inductive Numeral where
  | int (value : Int)
  | float (value : Float)
  deriving Repr, Inhabited

namespace Numeral

/- The number that a value is. -/
def of? : Value → Option Numeral
  | .bool value => some (.int (if value then 1 else 0))
  | .int value => some (.int value)
  | .float value => some (.float value)
  | _ => none

/- The nearest float. -/
def toFloat : Numeral → Float
  | .int value => Number.wordToFloat value
  | .float value => value

/- The order of two floats, unless one of them is not a number. -/
def floatOrder? (a b : Float) : Option Ordering :=
  if a < b then some .lt
  else if a > b then some .gt
  else if a == b then some .eq
  else none

/- The order of two numbers. Integers are ordered exactly. -/
def order? : Numeral → Numeral → Option Ordering
  | .int a, .int b => some (compare a b)
  | a, b => floatOrder? a.toFloat b.toFloat

end Numeral

namespace Heap

/- The order of two sequences, given the order of their items. -/
def sequenceOrder
    (heap : Heap)
    (itemOrder : Value → Value → Except EvalError Ordering) :
    List Value → List Value → Except EvalError Ordering
  | a :: left, b :: right =>
      if heap.equal a b then heap.sequenceOrder itemOrder left right
      else itemOrder a b
  | [], [] => .ok .eq
  | [], _ :: _ => .ok .lt
  | _ :: _, [] => .ok .gt

/-
  The order of two values, given the order of the items of
  sequences. Without that, sequences are nested too deeply. A
  number and one that is not a number count as equal.
-/
def orderBy
    (heap : Heap)
    (symbol : String)
    (items : Option (Value → Value → Except EvalError Ordering)) :
    Value → Value → Except EvalError Ordering
  | .str a, .str b => .ok (compare a b)
  | .list a, .list b =>
      match items with
      | some itemOrder =>
          heap.sequenceOrder itemOrder (heap.list a).toList (heap.list b).toList
      | none => .error .comparisonDepth
  | .tuple a, .tuple b =>
      match items with
      | some itemOrder =>
          heap.sequenceOrder itemOrder (heap.tuple a).toList (heap.tuple b).toList
      | none => .error .comparisonDepth
  | a, b =>
      match Numeral.of? a, Numeral.of? b with
      | some x, some y => .ok ((x.order? y).getD .eq)
      | _, _ =>
          .error (.type (.incomparable symbol (heap.typeName a) (heap.typeName b)))

/- The order of two values down to a depth. -/
def orderTo
    (heap : Heap)
    (symbol : String) :
    (depth : Nat) → Value → Value → Except EvalError Ordering
  | 0 => heap.orderBy symbol none
  | depth + 1 => heap.orderBy symbol (some (heap.orderTo symbol depth))

/-
  The order of two values. The symbol is the one that a report
  names if they have none.
-/
def order
    (heap : Heap)
    (symbol : String)
    (left right : Value) :
    Except EvalError Ordering :=
  heap.orderTo symbol maxNesting left right

end Heap

end SnippetGrader
