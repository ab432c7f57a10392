import SnippetGrader.Sorting.Runs

/-
  Sorting by partition.

  A list is cut at a pivot in the items that come before it and
  those that do not, each in their old order. A pivot that is
  not greater than the pivot to the left of the list is the
  least item: then the items equal to it are cut off at once.
  After too many cuts the rest is sorted by merging runs.

  Key definitions include:
    * `Sorting.choosePivot`
    * `Sorting.partition`
    * `Sorting.quickSort`
-/

namespace SnippetGrader.Sorting

variable {σ α : Type}

------------------------------------------------------------
-- The Pivot
------------------------------------------------------------

/- Whether the item at a position comes before that at another. -/
def lessAt (less : Less σ α) (items : Array α) (i j : Nat) : Asking σ Bool :=
  match items[i]?, items[j]? with
  | some a, some b => less a b
  | _, _ => return false

/- The position of the middle one of three items. -/
def medianOfThree
    (less : Less σ α)
    (items : Array α)
    (a b c : Nat) :
    Asking σ Nat := do
  let aBeforeB ← lessAt less items a b
  let aBeforeC ← lessAt less items a c
  if aBeforeB = aBeforeC then
    if (← lessAt less items b c) = aBeforeB then return b else return c
  else return a

/-
  The position of the middle one of three items, each of which
  is chosen in the same way from a stretch of a given size while
  the stretches are long.
-/
def pseudoMedian
    (less : Less σ α)
    (items : Array α)
    (size a b c : Nat) :
    Asking σ Nat := do
  if 8 ≤ size then
    let step := size / 8
    let a ← pseudoMedian less items step a (a + step * 4) (a + step * 7)
    let b ← pseudoMedian less items step b (b + step * 4) (b + step * 7)
    let c ← pseudoMedian less items step c (c + step * 4) (c + step * 7)
    medianOfThree less items a b c
  else medianOfThree less items a b c
termination_by size
decreasing_by all_goals omega

/- The position of an item that is likely to be near the middle. -/
def choosePivot (less : Less σ α) (items : Array α) : Asking σ Nat :=
  let step := items.size / 8
  pseudoMedian less items step 0 (step * 4) (step * 7)

------------------------------------------------------------
-- Partition
------------------------------------------------------------

/-
  The items that pass a test and those that do not, in order.
  The item at the position of the pivot is not tested, but goes
  where it is told. The items that were read already are given
  from the last to the first.
-/
def partition
    (test : α → Asking σ Bool)
    (pivotGoesLeft : Bool)
    (left right : List α) :
    (pivotAfter : Option Nat) → List α → Asking σ (List α × List α)
  | _, [] => return (left.reverse, right.reverse)
  | some 0, item :: rest =>
      if pivotGoesLeft then
        partition test pivotGoesLeft (item :: left) right none rest
      else partition test pivotGoesLeft left (item :: right) none rest
  | pivotAfter, item :: rest => do
      let pivotAfter := pivotAfter.map (· - 1)
      if ← test item then
        partition test pivotGoesLeft (item :: left) right pivotAfter rest
      else partition test pivotGoesLeft left (item :: right) pivotAfter rest

------------------------------------------------------------
-- The Sort
------------------------------------------------------------

/- Sorts by merging runs that are sorted as soon as they are found. -/
def eagerSort (less : Less σ α) (items : List α) : Asking σ (List α) :=
  runSort ⟨true, fun run => return run, 0⟩ less items

/-
  Sorts by partition, with a limit to the number of cuts. The
  ancestor is the pivot that the items stand to the right of.
-/
def quick
    (less : Less σ α) :
    (limit : Nat) → (ancestor : Option α) → List α → Asking σ (List α)
  | 0, _, items =>
      if items.length ≤ shortLength then shortSort less items
      else eagerSort less items
  | limit + 1, ancestor, items => do
      if items.length ≤ shortLength then shortSort less items
      else
        let table := items.toArray
        let position ← choosePivot less table
        match table[position]? with
        | none => contradiction
        | some pivot =>
            let isLeast ←
              match ancestor with
              | some bound => not <$> less bound pivot
              | none => pure false
            let (left, right) ←
              if isLeast then pure ([], items)
              else partition (less · pivot) false [] [] (some position) items
            if left.isEmpty then
              let (same, rest) ←
                partition (not <$> less pivot ·) true [] [] (some position) items
              return same ++ (← quick less limit none rest)
            else
              let right ← quick less limit (some pivot) right
              return (← quick less limit ancestor left) ++ right

/- Sorts by partition, with two cuts for each binary place of the size. -/
def quickSort (less : Less σ α) (items : List α) : Asking σ (List α) :=
  quick less (2 * items.length.log2) none items

end SnippetGrader.Sorting
