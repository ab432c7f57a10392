import SnippetGrader.Sorting.Basic

/-
  Sorting short lists.

  A short list is cut in two halves. The start of each half is
  sorted with a fixed plan of questions, the rest of the half is
  inserted, and the halves are merged from both ends at once.

  Key definitions include:
    * `Sorting.sortFour`
    * `Sorting.meet`
    * `Sorting.shortSort`
-/

namespace SnippetGrader.Sorting

variable {σ α : Type}

------------------------------------------------------------
-- Merging from Both Ends
------------------------------------------------------------

/-
  Two sorted lists that are being merged from both ends. The
  items that the front has not taken yet are `left` and `right`;
  those that the back has not taken yet are `leftBack` and
  `rightBack`, from the last to the first.
-/
structure Ends (α : Type) where
  front : List α
  left : List α
  right : List α
  leftBack : List α
  rightBack : List α
  back : List α

namespace Ends

/- Takes the lesser of the first items. -/
def takeFirst (less : Less σ α) (ends : Ends α) : Asking σ (Ends α) := do
  match ends.left, ends.right with
  | l :: left, r :: right =>
      if ← less r l then
        return { ends with front := r :: ends.front, right := right }
      else return { ends with front := l :: ends.front, left := left }
  | _, _ => contradiction

/- Takes the greater of the last items. -/
def takeLast (less : Less σ α) (ends : Ends α) : Asking σ (Ends α) := do
  match ends.leftBack, ends.rightBack with
  | l :: left, r :: right =>
      if ← less r l then
        return { ends with leftBack := left, back := l :: ends.back }
      else return { ends with rightBack := right, back := r :: ends.back }
  | _, _ => contradiction

/- Takes a number of items from either end, in turn. -/
def take (less : Less σ α) : Nat → Ends α → Asking σ (Ends α)
  | 0, ends => return ends
  | count + 1, ends => do
      take less count (← (← ends.takeFirst less).takeLast less)

end Ends

/-
  Merges two sorted lists from both ends. The left one has as
  many items as the right one, or one less: then an item is left
  over in the middle. The ends have to meet without a gap and
  without an item taken twice, or else the answers that led them
  contradict each other.
-/
def meet (less : Less σ α) (left right : List α) : Asking σ (List α) := do
  let half := left.length
  let ends ← Ends.take less half
    { front := []
      left := left
      right := right
      leftBack := left.reverse
      rightBack := right.reverse
      back := [] }
  let untaken := ends.left.length + ends.leftBack.length
  if untaken = half then
    let middle := ends.right.take (right.length - half)
    return ends.front.reverse ++ middle ++ ends.back
  else if untaken = half + 1 && right.length = half + 1 then
    return ends.front.reverse ++ ends.left.take 1 ++ ends.back
  else contradiction

------------------------------------------------------------
-- Fixed Plans
------------------------------------------------------------

/-
  Sorts four items with five questions: two pairs are sorted,
  their first and their last items are compared, and then the
  two items between.
-/
def sortFour (less : Less σ α) (a b c d : α) : Asking σ (List α) := do
  let leftTurned ← less b a
  let rightTurned ← less d c
  let (a, b) := if leftTurned then (b, a) else (a, b)
  let (c, d) := if rightTurned then (d, c) else (c, d)
  let rightFirst ← less c a
  let leftLast ← less d b
  let first := if rightFirst then c else a
  let last := if leftLast then b else d
  let inner := if rightFirst then a else if leftLast then c else b
  let outer := if leftLast then d else if rightFirst then b else c
  if ← less outer inner then return [first, outer, inner, last]
  else return [first, inner, outer, last]

/- Sorts eight items as two times four. -/
def sortEight (less : Less σ α) (a b c d e f g h : α) : Asking σ (List α) := do
  let left ← sortFour less a b c d
  let right ← sortFour less e f g h
  meet less left right

/-
  Sorts the start of one half of a list: eight, four or one of
  its items, as the size of the list allows. The items behind
  them are returned too.
-/
def sortStart
    (less : Less σ α)
    (size : Nat)
    (items : List α) :
    Asking σ (List α × List α) := do
  match items with
  | a :: b :: c :: d :: rest =>
      if 16 ≤ size then
        match rest with
        | e :: f :: g :: h :: rest => return (← sortEight less a b c d e f g h, rest)
        | _ => return ([], items)
      else if 8 ≤ size then return (← sortFour less a b c d, rest)
      else return ([], items)
  | _ => return ([], items)

/- The greatest number of items in a short list. -/
def shortLength : Nat := 32

/- Sorts a short list. -/
def shortSort (less : Less σ α) (items : List α) : Asking σ (List α) := do
  let size := items.length
  if size < 2 then return items
  else
    let (left, leftRest) ← sortStart less size (items.take (size / 2))
    let (right, rightRest) ← sortStart less size (items.drop (size / 2))
    let left ← insertAll less left.reverse leftRest
    let right ← insertAll less right.reverse rightRest
    meet less left.reverse right.reverse

end SnippetGrader.Sorting
