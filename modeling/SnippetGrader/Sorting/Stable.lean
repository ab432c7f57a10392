import SnippetGrader.Sorting.Quick

/-
  A stable sort that adapts to its input.

  A few items are sorted by insertion. More are sorted by
  merging runs, which are sorted as soon as they are found if
  there are only a few of them, and by partition otherwise.

  Key definitions include:
    * `Sorting.stableSort`
-/

namespace SnippetGrader.Sorting

variable {σ α : Type}

/- The greatest number of items that are sorted by insertion. -/
def fewItems : Nat := 20

/- The number of items that may always be put off together. -/
def amplePlaces : Nat := 1000000

/- Sorts items. Those of which neither comes first keep their order. -/
def stableSort (less : Less σ α) (items : List α) : Asking σ (List α) :=
  let size := items.length
  if size ≤ fewItems then insertionSort less items
  else
    runSort
      { eager := size ≤ 2 * shortLength
        settle := quickSort less
        room := max (size - size / 2) (min size amplePlaces) }
      less items

end SnippetGrader.Sorting
