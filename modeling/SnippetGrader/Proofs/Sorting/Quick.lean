import SnippetGrader.Proofs.Sorting.Runs
import SnippetGrader.Sorting.Stable

/-
  Sorting by partition is stable, and with it the whole sort.

  What comes before the pivot and what does not are two lists in
  their old order, and no rank is in both. A pivot that is not
  greater than a bound below all items is the least of them, so
  that those equal to it may be cut off at once.

  Key theorems include:
    * `Sorting.partition_eq`
    * `Sorting.quickSort_stable`
    * `Sorting.stableSort_stable`
-/

namespace SnippetGrader.Sorting

variable {α κ σ : Type}
variable [LinearOrder κ]
variable {less : Less σ α}
variable {rank : α → κ}
variable {known : α → Prop}

------------------------------------------------------------
-- The Pivot
------------------------------------------------------------

section Pivots

variable (hLess : Answers less rank known)
variable {items : Array α}
variable (hKnown : ∀ item ∈ items, known item)

include hLess hKnown

theorem exists_lessAt
    (i j : Nat) :
    ∃ answer, lessAt less items i j = pure answer := by
  unfold lessAt
  split
  · rename_i a b hA hB
    exact ⟨_, hLess a b (hKnown a (Array.mem_of_getElem? hA))
      (hKnown b (Array.mem_of_getElem? hB))⟩
  · exact ⟨false, rfl⟩

/- The middle one of three positions is one of them. -/
theorem medianOfThree_mem
    (a b c : Nat) :
    Gives (medianOfThree less items a b c) (· ∈ [a, b, c]) := by
  obtain ⟨first, hFirst⟩ := exists_lessAt hLess hKnown a b
  obtain ⟨second, hSecond⟩ := exists_lessAt hLess hKnown a c
  obtain ⟨third, hThird⟩ := exists_lessAt hLess hKnown b c
  rw [medianOfThree, hFirst, pure_bind, hSecond, pure_bind]
  split
  · rw [hThird, pure_bind]
    split
    · exact .pure (by simp)
    · exact .pure (by simp)
  · exact .pure (by simp)

/- Three stretches within a list have their pseudo-median within it. -/
theorem pseudoMedian_lt
    {total size : Nat}
    {a b c : Nat}
    (hSize : 0 < size)
    (hA : a + size ≤ total)
    (hB : b + size ≤ total)
    (hC : c + size ≤ total) :
    Gives (pseudoMedian less items size a b c) (· < total) := by
  have hMiddle
      {a b c : Nat}
      (hA : a < total)
      (hB : b < total)
      (hC : c < total) :
      Gives (medianOfThree less items a b c) (· < total) := by
    refine (medianOfThree_mem hLess hKnown a b c).imp fun position hMem => ?_
    simp only [List.mem_cons, List.not_mem_nil, or_false] at hMem
    omega
  induction size using Nat.strongRecOn generalizing a b c with
  | ind size ih =>
      rw [pseudoMedian]
      split
      · have hStep : size / 8 < size := by omega
        have hSome : 0 < size / 8 := by omega
        refine (ih _ hStep hSome (by omega) (by omega) (by omega)).bind
          fun a hA => ?_
        refine (ih _ hStep hSome (by omega) (by omega) (by omega)).bind
          fun b hB => ?_
        refine (ih _ hStep hSome (by omega) (by omega) (by omega)).bind
          fun c hC => ?_
        exact hMiddle hA hB hC
      · exact hMiddle (by omega) (by omega) (by omega)

theorem choosePivot_lt
    (hLong : 8 ≤ items.size) :
    Gives (choosePivot less items) (· < items.size) := by
  unfold choosePivot
  exact pseudoMedian_lt hLess hKnown (by omega) (by omega) (by omega) (by omega)

end Pivots

------------------------------------------------------------
-- Partition
------------------------------------------------------------

/-
  A partition goes by the test, also for the pivot, which is not
  tested if it is told to go where the test would have it.
-/
theorem partition_eq
    {test : α → Asking σ Bool}
    {passes : α → Bool}
    {pivotGoesLeft : Bool}
    {left right : List α}
    {pivotAfter : Option Nat}
    {items : List α}
    (hTest : ∀ item ∈ items, test item = pure (passes item))
    (hPivot :
      ∀ position item,
        pivotAfter = some position →
          items[position]? = some item → passes item = pivotGoesLeft) :
    partition test pivotGoesLeft left right pivotAfter items =
      pure
        (left.reverse ++ items.filter passes,
          right.reverse ++ items.filter fun item => !passes item) := by
  fun_induction partition test pivotGoesLeft left right pivotAfter items with
  | case1 left right => simp
  | case2 left right item rest hLeft ih =>
      have hHere : passes item = true := (hPivot 0 item rfl rfl).trans hLeft
      rw [ih (fun other hMem => hTest other (List.mem_cons_of_mem _ hMem))
        (by simp)]
      simp [hHere]
  | case3 left right item rest hRight ih =>
      have hHere : passes item = false :=
        (hPivot 0 item rfl rfl).trans (Bool.eq_false_of_not_eq_true hRight)
      rw [ih (fun other hMem => hTest other (List.mem_cons_of_mem _ hMem))
        (by simp)]
      simp [hHere]
  | case4 left right pivotAfter item rest hOther after ihLeft ihRight =>
      have hRest : ∀ other ∈ rest, test other = pure (passes other) :=
        fun other hMem => hTest other (List.mem_cons_of_mem _ hMem)
      have hAfter :
          ∀ position other,
            after = some position →
              rest[position]? = some other → passes other = pivotGoesLeft := by
        intro position other hPosition hFound
        have hNext : pivotAfter = some (position + 1) := by
          obtain ⟨before, rfl, hBefore⟩ := Option.map_eq_some_iff.mp hPosition
          cases before with
          | zero => cases hOther rfl
          | succ before =>
              obtain rfl : before = position := hBefore
              rfl
        exact hPivot (position + 1) other hNext hFound
      rw [hTest item List.mem_cons_self, pure_bind]
      cases hPasses : passes item with
      | true => simp [ihLeft hRest hAfter, hPasses]
      | false => simp [ihRight hRest hAfter, hPasses]

------------------------------------------------------------
-- The Sort
------------------------------------------------------------

/- The items before a pivot, sorted, and then the others, sorted. -/
theorem stablySorted_partition
    (test : κ → Bool)
    {items left right : List α}
    (hBefore :
      ∀ a ∈ items, ∀ b ∈ items,
        test (rank a) = true → test (rank b) = false → rank a ≤ rank b)
    (hLeft :
      StablySorted rank (items.filter fun item => test (rank item)) left)
    (hRight :
      StablySorted rank (items.filter fun item => !test (rank item)) right) :
    StablySorted rank items (left ++ right) := by
  refine (hLeft.append hRight fun a hA b hB => ?_).of_ties
    (sameTies_partition test items)
  rw [List.mem_filter] at hA hB
  exact hBefore a hA.1 b hB.1 hA.2 (by simpa using hB.2)

section Sorts

variable (hLess : Answers less rank known)
variable {items : List α}
variable (hKnown : ∀ item ∈ items, known item)

include hLess hKnown

theorem eagerSort_stable :
    Gives (eagerSort less items) (StablySorted rank items) := by
  refine runSort_stable hLess (fun hPutOff => ?_) hKnown
  cases hPutOff

section Pivot

variable {position : Nat}
variable {pivot : α}
variable (hPivot : items[position]? = some pivot)

include hPivot

theorem partition_before :
    partition (less · pivot) false [] [] (some position) items =
      pure
        (items.filter fun item => decide (rank item < rank pivot),
          items.filter fun item => !decide (rank item < rank pivot)) := by
  have hMem := hKnown pivot (List.mem_of_getElem? hPivot)
  refine partition_eq (fun item hItem => hLess item pivot (hKnown item hItem)
    hMem) ?_
  rintro _ item ⟨⟩ hItem
  obtain rfl := Option.some.inj (hItem.symm.trans hPivot)
  exact decide_eq_false (lt_irrefl _)

theorem partition_upTo :
    partition (not <$> less pivot ·) true [] [] (some position) items =
      pure
        (items.filter fun item => !decide (rank pivot < rank item),
          items.filter fun item => !!decide (rank pivot < rank item)) := by
  have hMem := hKnown pivot (List.mem_of_getElem? hPivot)
  refine partition_eq (fun item hItem => ?_) ?_
  · rw [hLess pivot item hMem (hKnown item hItem), map_pure]
  · rintro _ item ⟨⟩ hItem
    obtain rfl := Option.some.inj (hItem.symm.trans hPivot)
    rw [decide_eq_false (lt_irrefl _)]
    rfl

end Pivot

end Sorts

/- Cuts off the items that are not greater than the pivot. -/
def cutOff
    (less : Less σ α)
    (limit position : Nat)
    (pivot : α)
    (items : List α) :
    Asking σ (List α) := do
  let (same, rest) ←
    partition (not <$> less pivot ·) true [] [] (some position) items
  return same ++ (← quick less limit none rest)

/- Cuts a list at a pivot, unless the pivot is the least item. -/
def cutAt
    (less : Less σ α)
    (limit position : Nat)
    (ancestor : Option α)
    (pivot : α)
    (items : List α) :
    Asking σ (List α) := do
  let (left, right) ←
    partition (less · pivot) false [] [] (some position) items
  if left.isEmpty then cutOff less limit position pivot items
  else
    let right ← quick less limit (some pivot) right
    return (← quick less limit ancestor left) ++ right

section Cutting

variable (hLess : Answers less rank known)
variable {items : List α}
variable (hKnown : ∀ item ∈ items, known item)
variable {limit position : Nat}
variable {ancestor : Option α}
variable {pivot : α}
variable (hPivot : items[position]? = some pivot)

/- A bound below all items, if there is one. -/
def BoundedBelow
    (rank : α → κ)
    (known : α → Prop)
    (ancestor : Option α)
    (items : List α) :
    Prop :=
  ∀ bound, ancestor = some bound →
    known bound ∧ ∀ item ∈ items, rank bound ≤ rank item

/- A sort by partition with a limit is stable for all known items. -/
def QuickIsStable
    (less : Less σ α)
    (rank : α → κ)
    (known : α → Prop)
    (limit : Nat) :
    Prop :=
  ∀ ancestor items, (∀ item ∈ items, known item) →
    BoundedBelow rank known ancestor items →
      Gives (quick less limit ancestor items) (StablySorted rank items)

variable (hInner : QuickIsStable less rank known limit)

include hLess hKnown hPivot hInner

/- The items that are cut off are those that are equal to the least. -/
theorem cutOff_stable
    (hLeast : ∀ item ∈ items, rank pivot ≤ rank item) :
    Gives (cutOff less limit position pivot items)
      (StablySorted rank items) := by
  rw [cutOff, partition_upTo hLess hKnown hPivot, pure_bind]
  refine (hInner none _ (fun item hMem =>
    hKnown item (List.mem_filter.mp hMem).1) nofun).bind fun rest hRest => ?_
  have hSame :
      Rising rank
        (items.filter fun item => !decide (rank pivot < rank item)) := by
    refine List.pairwise_of_forall_mem_list fun a hA b hB => ?_
    rw [List.mem_filter] at hA hB
    have hUpTo : rank a ≤ rank pivot := by simpa using hA.2
    exact hUpTo.trans (hLeast b hB.1)
  have hParts :
      ∀ a ∈ items, ∀ b ∈ items,
        (!decide (rank pivot < rank a)) = true →
          (!decide (rank pivot < rank b)) = false →
            rank a ≤ rank b := by
    intro a _ b _ hUpTo hBeyond
    have hLe : rank a ≤ rank pivot := by simpa using hUpTo
    have hLt : rank pivot < rank b := by simpa using hBeyond
    exact hLe.trans hLt.le
  exact .pure
    (stablySorted_partition (fun k => !decide (rank pivot < k)) hParts
      (.of_rising hSame) hRest)

theorem cutAt_stable
    (hAncestor : BoundedBelow rank known ancestor items) :
    Gives (cutAt less limit position ancestor pivot items)
      (StablySorted rank items) := by
  rw [cutAt, partition_before hLess hKnown hPivot, pure_bind]
  dsimp only
  split
  · rename_i hNone
    refine cutOff_stable hLess hKnown hPivot hInner fun item hMem => ?_
    rw [List.isEmpty_iff, List.filter_eq_nil_iff] at hNone
    exact not_lt.mp fun hBefore => hNone item hMem (decide_eq_true hBefore)
  · have hRightKnown :
        ∀ item ∈ items.filter (fun item => !decide (rank item < rank pivot)),
          known item :=
      fun item hMem => hKnown item (List.mem_filter.mp hMem).1
    have hRightBound :
        BoundedBelow rank known (some pivot)
          (items.filter fun item => !decide (rank item < rank pivot)) := by
      rintro _ ⟨⟩
      refine ⟨hKnown pivot (List.mem_of_getElem? hPivot), fun item hMem => ?_⟩
      simpa using (List.mem_filter.mp hMem).2
    have hLeftKnown :
        ∀ item ∈ items.filter (fun item => decide (rank item < rank pivot)),
          known item :=
      fun item hMem => hKnown item (List.mem_filter.mp hMem).1
    have hLeftBound :
        BoundedBelow rank known ancestor
          (items.filter fun item => decide (rank item < rank pivot)) :=
      fun bound hBound =>
        ⟨(hAncestor bound hBound).1, fun item hMem =>
          (hAncestor bound hBound).2 item (List.mem_filter.mp hMem).1⟩
    refine (hInner _ _ hRightKnown hRightBound).bind fun right hRight => ?_
    refine (hInner _ _ hLeftKnown hLeftBound).bind fun left hLeft => ?_
    have hParts :
        ∀ a ∈ items, ∀ b ∈ items,
          decide (rank a < rank pivot) = true →
            decide (rank b < rank pivot) = false →
              rank a ≤ rank b :=
      fun a _ b _ hBefore hBehind =>
        (of_decide_eq_true hBefore).le.trans
          (not_lt.mp (of_decide_eq_false hBehind))
    exact .pure
      (stablySorted_partition (fun k => decide (k < rank pivot)) hParts hLeft
        hRight)

end Cutting

section Sorts

variable (hLess : Answers less rank known)

include hLess

theorem quick_stable
    (limit : Nat) :
    QuickIsStable less rank known limit := by
  induction limit with
  | zero =>
      intro ancestor items hKnown _
      rw [quick]
      split
      · exact shortSort_stable hLess hKnown
      · exact eagerSort_stable hLess hKnown
  | succ limit ih =>
      intro ancestor items hKnown hAncestor
      rw [quick]
      split
      · exact shortSort_stable hLess hKnown
      rename_i hLong
      have hTable : ∀ item ∈ items.toArray, known item :=
        fun item hMem => hKnown item (List.mem_toArray.mp hMem)
      have hSize : 8 ≤ items.toArray.size := by
        simp [shortLength] at hLong ⊢
        omega
      refine (choosePivot_lt hLess hTable hSize).bind fun position hPosition => ?_
      obtain ⟨pivot, hPivot⟩ : ∃ pivot, items[position]? = some pivot :=
        ⟨_, List.getElem?_eq_getElem (by simpa using hPosition)⟩
      have hEntry : items.toArray[position]? = some pivot := by
        simpa using hPivot
      have hCutAt := cutAt_stable hLess hKnown hPivot ih hAncestor
      rw [hEntry]
      dsimp only
      cases ancestor with
      | none => exact hCutAt
      | some bound =>
          obtain ⟨hBound, hBelow⟩ := hAncestor bound rfl
          have hMem := hKnown pivot (List.mem_of_getElem? hPivot)
          dsimp only
          rw [hLess bound pivot hBound hMem, map_pure, pure_bind]
          split
          · rename_i hLeast
            rw [Bool.not_eq_true', decide_eq_false_iff_not, not_lt] at hLeast
            exact cutOff_stable hLess hKnown hPivot ih fun item hItem =>
              hLeast.trans (hBelow item hItem)
          · exact hCutAt

theorem quickSort_stable
    {items : List α}
    (hKnown : ∀ item ∈ items, known item) :
    Gives (quickSort less items) (StablySorted rank items) :=
  quick_stable hLess _ none items hKnown nofun

/-
  A sort that is answered by the ranks of the items gives them in
  order, ties as they were, and leaves the state as it is.
-/
theorem stableSort_stable
    {items : List α}
    (hKnown : ∀ item ∈ items, known item) :
    Gives (stableSort less items) (StablySorted rank items) := by
  unfold stableSort
  dsimp only
  split
  · exact insertionSort_stable hLess hKnown
  · exact runSort_stable hLess
      (fun _ items hItems => quickSort_stable hLess hItems) hKnown

end Sorts

end SnippetGrader.Sorting
