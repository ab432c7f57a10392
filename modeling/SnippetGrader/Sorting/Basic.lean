/-
  Sorting by asking which of two items comes first.

  A sort learns about its items only by asking. Whoever answers
  keeps a state of its own, such as the first question that had
  no answer, so the order of the questions belongs to a sort as
  much as its result does.

  Key definitions include:
    * `Sorting.Asking`, `Sorting.Less`
    * `Sorting.insertionSort`
    * `Sorting.merge`
-/

namespace SnippetGrader.Sorting

------------------------------------------------------------
-- Questions
------------------------------------------------------------

/-
  A computation that asks questions about items. The state is
  that of the one who answers. It fails if the answers turn out
  to contradict each other.
-/
abbrev Asking (σ : Type) := StateT σ Option

/- The question whether one item comes before another. -/
abbrev Less (σ α : Type) := α → α → Asking σ Bool

/- Gives up, because the answers fit no order. -/
def contradiction {σ α : Type} : Asking σ α :=
  fun _ => none

variable {σ α : Type}

------------------------------------------------------------
-- Insertion
------------------------------------------------------------

/-
  Puts an item among sorted ones, which are given from the last
  to the first. It goes past those that it comes before.
-/
def insertFromRight
    (less : Less σ α)
    (new : α) :
    List α → Asking σ (List α)
  | [] => return [new]
  | last :: before => do
      if ← less new last then
        return last :: (← insertFromRight less new before)
      else return new :: last :: before

/- Puts items, one after the other, among sorted ones. -/
def insertAll
    (less : Less σ α)
    (sorted : List α) :
    List α → Asking σ (List α)
  | [] => return sorted
  | new :: rest => do
      insertAll less (← insertFromRight less new sorted) rest

/- Sorts by insertion, from the left. -/
def insertionSort (less : Less σ α) (items : List α) : Asking σ (List α) :=
  List.reverse <$> insertAll less [] items

------------------------------------------------------------
-- Merging
------------------------------------------------------------

/-
  Merges two sorted lists from the front. The items that were
  taken already are given from the last to the first. Of two
  equal items the left one is taken first.
-/
def mergeForward
    (less : Less σ α)
    (taken : List α) :
    (left right : List α) → Asking σ (List α)
  | [], right => return taken.reverse ++ right
  | left, [] => return taken.reverse ++ left
  | l :: left, r :: right => do
      if ← less r l then mergeForward less (r :: taken) (l :: left) right
      else mergeForward less (l :: taken) left (r :: right)
termination_by left right => left.length + right.length

/-
  Merges two sorted lists from the back. Both are given from the
  last item to the first. Of two equal items the right one is
  taken first, since it comes to stand behind the other.
-/
def mergeBackward
    (less : Less σ α)
    (taken : List α) :
    (left right : List α) → Asking σ (List α)
  | [], right => return right.reverse ++ taken
  | left, [] => return left.reverse ++ taken
  | l :: left, r :: right => do
      if ← less r l then mergeBackward less (l :: taken) left (r :: right)
      else mergeBackward less (r :: taken) (l :: left) right
termination_by left right => left.length + right.length

/- Merges two sorted lists, from the front unless the left one is longer. -/
def merge (less : Less σ α) (left right : List α) : Asking σ (List α) :=
  if left.length ≤ right.length then mergeForward less [] left right
  else mergeBackward less [] left.reverse right.reverse

end SnippetGrader.Sorting
