import SnippetGrader.Proofs.Sorting.Merging
import SnippetGrader.Sorting.Short

/-
  Sorting a short list is stable.

  Two halves are merged from both ends at once. Each end goes
  through the halves by a cut of its own, and two cuts cannot
  cross, so the ends meet without a gap and without an item
  taken twice. Therefore the merge does not give up.

  Key definitions include:
    * `Sorting.TakenFirst`, `Sorting.TakenLast`

  Key theorems include:
    * `Sorting.Cut.length_le`
    * `Sorting.meet_stable`
    * `Sorting.shortSort_stable`
-/

namespace SnippetGrader.Sorting

variable {α κ σ : Type}
variable [LinearOrder κ]
variable {less : Less σ α}
variable {rank : α → κ}
variable {known : α → Prop}

------------------------------------------------------------
-- Cuts that Do Not Cross
------------------------------------------------------------

/-
  Of two ways to cut a list, the one that cuts later has an item
  before it that is behind the other.
-/
theorem exists_between
    {first last first' last' : List α}
    (hSame : first ++ last = first' ++ last')
    (hLater : first'.length < first.length) :
    ∃ item ∈ first, item ∈ last' := by
  rcases List.append_eq_append_iff.mp hSame with
    ⟨between, rfl, -⟩ | ⟨between, rfl, rfl⟩
  · rw [List.length_append] at hLater
    omega
  · cases between with
    | nil => simp at hLater
    | cons item rest =>
        exact ⟨item, List.mem_append_right _ List.mem_cons_self,
          List.mem_append_left _ List.mem_cons_self⟩

/- Of two cuts through the same lists, the later one is later in both. -/
theorem Cut.length_le
    {left left' right right' : List α}
    {later later' further further' : List α}
    (hCut : Cut rank left left' right right')
    (hLater : Cut rank later later' further further')
    (hLeft : left ++ left' = later ++ later')
    (hRight : right ++ right' = further ++ further')
    (hLength : left.length + right.length ≤ later.length + further.length) :
    left.length ≤ later.length ∧ right.length ≤ further.length := by
  have hNone (a b : α) (hLess : rank b < rank a) (hLe : rank a ≤ rank b) :
      False :=
    hLe.not_gt hLess
  constructor
  · by_contra hShort
    obtain ⟨a, hA, hA'⟩ := exists_between hLeft (not_le.mp hShort)
    obtain ⟨b, hB, hB'⟩ := exists_between hRight.symm (by omega)
    exact hNone a b (hLater.right_lt b hB a hA') (hCut.left_le a hA b hB')
  · by_contra hShort
    obtain ⟨b, hB, hB'⟩ := exists_between hRight (not_le.mp hShort)
    obtain ⟨a, hA, hA'⟩ := exists_between hLeft.symm (by omega)
    exact hNone a b (hCut.right_lt b hB a hA') (hLater.left_le a hA b hB')

/- What is between two ways to cut a list. -/
theorem exists_middle
    {first last first' last' : List α}
    (hSame : first ++ last = first' ++ last')
    (hLength : first.length ≤ first'.length) :
    ∃ middle, first' = first ++ middle ∧ last = middle ++ last' := by
  rcases List.append_eq_append_iff.mp hSame with
    hMiddle | ⟨between, rfl, rfl⟩
  · exact hMiddle
  · rw [List.length_append] at hLength
    obtain rfl : between = [] := List.length_eq_zero_iff.mp (by omega)
    exact ⟨[], by simp, rfl⟩

------------------------------------------------------------
-- Merging from Both Ends
------------------------------------------------------------

/- The front of two lists has given up a number of items, which are merged. -/
structure TakenFirst
    (rank : α → κ)
    (left right : List α)
    (count : Nat)
    (front left' right' : List α) :
    Prop where
  split :
    ∃ leftTaken rightTaken,
      left = leftTaken ++ left' ∧
        right = rightTaken ++ right' ∧
          leftTaken.length + rightTaken.length = count ∧
            Cut rank leftTaken left' rightTaken right' ∧
              StablySorted rank (leftTaken ++ rightTaken) front.reverse

/- The back of two lists has given up a number of items, which are merged. -/
structure TakenLast
    (rank : α → κ)
    (left right : List α)
    (count : Nat)
    (back leftBack rightBack : List α) :
    Prop where
  split :
    ∃ leftTaken rightTaken,
      left = leftBack.reverse ++ leftTaken ∧
        right = rightBack.reverse ++ rightTaken ∧
          leftTaken.length + rightTaken.length = count ∧
            Cut rank leftBack.reverse leftTaken rightBack.reverse rightTaken ∧
              StablySorted rank (leftTaken ++ rightTaken) back

section Ends

variable (hLess : Answers less rank known)
variable {left right : List α}
variable (hLeft : Rising rank left)
variable (hRight : Rising rank right)
variable (hKnown : ∀ item ∈ left ++ right, known item)
variable {ends : Ends α}
variable {count : Nat}

include hLess hLeft hRight hKnown

theorem takeFirst_stable
    (hTaken :
      TakenFirst rank left right count ends.front ends.left ends.right)
    (hLeftCount : count < left.length)
    (hRightCount : count < right.length) :
    Gives (ends.takeFirst less) fun result =>
      ∃ front left' right',
        result = { ends with front, left := left', right := right' } ∧
          TakenFirst rank left right (count + 1) front left' right' := by
  obtain ⟨leftTaken, rightTaken, rfl, rfl, hCount, hCut, hFront⟩ :=
    hTaken.split
  simp only [List.length_append] at hLeftCount hRightCount
  rw [Ends.takeFirst]
  cases hL : ends.left with
  | nil => simp [hL] at hLeftCount; omega
  | cons l left' =>
      cases hR : ends.right with
      | nil => simp [hR] at hRightCount; omega
      | cons r right' =>
          rw [hL, hR] at hCut hKnown
          rw [hL] at hLeft
          rw [hR] at hRight
          have hRising := (rising_append.mp hLeft).2.1
          have hRising' := (rising_append.mp hRight).2.1
          refine .choose hLess (hKnown r (by simp)) (hKnown l (by simp))
            (fun hBefore => ?_) fun hLe => ?_
          · have hNext := hCut.pass_right hRising hBefore
            refine .pure ⟨r :: ends.front, l :: left', right', by rw [← hL],
              leftTaken, rightTaken ++ [r], rfl, by simp, ?_, hNext, ?_⟩
            · simp only [List.length_append, List.length_singleton]
              omega
            · have hHere : Cut rank leftTaken [] rightTaken [r] :=
                hCut.mono (List.Subset.refl _) (List.nil_subset _)
                  (List.Subset.refl _) (by simp)
              have hBoth :=
                hFront.of_cut hHere (hLeft.sublist (by simp))
                  (hRight.sublist (by simp)) (.single r)
              simpa using hBoth
          · have hNext := hCut.pass_left hRising' hLe
            refine .pure ⟨l :: ends.front, left', r :: right', by rw [← hR],
              leftTaken ++ [l], rightTaken, by simp, rfl, ?_, hNext, ?_⟩
            · simp only [List.length_append, List.length_singleton]
              omega
            · have hHere : Cut rank leftTaken [l] rightTaken [] :=
                hCut.mono (List.Subset.refl _) (by simp)
                  (List.Subset.refl _) (List.nil_subset _)
              have hBoth :=
                hFront.of_cut hHere (hLeft.sublist (by simp))
                  (hRight.sublist (by simp)) (.single l)
              simpa using hBoth

theorem takeLast_stable
    (hTaken :
      TakenLast rank left right count ends.back ends.leftBack ends.rightBack)
    (hLeftCount : count < left.length)
    (hRightCount : count < right.length) :
    Gives (ends.takeLast less) fun result =>
      ∃ back leftBack rightBack,
        result = { ends with back, leftBack, rightBack } ∧
          TakenLast rank left right (count + 1) back leftBack rightBack := by
  obtain ⟨leftTaken, rightTaken, rfl, rfl, hCount, hCut, hBack⟩ :=
    hTaken.split
  simp only [List.length_append, List.length_reverse] at hLeftCount hRightCount
  rw [Ends.takeLast]
  cases hL : ends.leftBack with
  | nil => simp [hL] at hLeftCount; omega
  | cons l leftBack =>
      cases hR : ends.rightBack with
      | nil => simp [hR] at hRightCount; omega
      | cons r rightBack =>
          rw [hL, hR, List.reverse_cons, List.reverse_cons] at hCut hKnown
          rw [hL, List.reverse_cons] at hLeft
          rw [hR, List.reverse_cons] at hRight
          have hRising := (rising_append.mp hLeft).1
          have hRising' := (rising_append.mp hRight).1
          refine .choose hLess (hKnown r (by simp)) (hKnown l (by simp))
            (fun hBefore => ?_) fun hLe => ?_
          · have hNext := hCut.pass_left_back hRising' hBefore
            rw [← List.reverse_cons] at hNext
            refine .pure ⟨l :: ends.back, leftBack, r :: rightBack, by rw [← hR],
              l :: leftTaken, rightTaken, by simp, rfl, ?_, hNext, ?_⟩
            · rw [List.length_cons]
              omega
            · have hHere : Cut rank [l] leftTaken [] rightTaken :=
                hCut.mono (by simp) (List.Subset.refl _)
                  (List.nil_subset _) (List.Subset.refl _)
              exact .of_cut hHere (hLeft.sublist (by simp))
                (hRight.sublist (by simp)) (.single l) hBack
          · have hNext := hCut.pass_right_back hRising hLe
            rw [← List.reverse_cons] at hNext
            refine .pure ⟨r :: ends.back, l :: leftBack, rightBack, by rw [← hL],
              leftTaken, r :: rightTaken, rfl, by simp, ?_, hNext, ?_⟩
            · rw [List.length_cons]
              omega
            · have hHere : Cut rank [] leftTaken [r] rightTaken :=
                hCut.mono (List.nil_subset _) (List.Subset.refl _) (by simp)
                  (List.Subset.refl _)
              exact .of_cut hHere (hLeft.sublist (by simp))
                (hRight.sublist (by simp)) (.single r) hBack

/- As long as there are items left, both ends take one after the other. -/
theorem take_stable
    {more : Nat}
    (hFirst :
      TakenFirst rank left right count ends.front ends.left ends.right)
    (hLast :
      TakenLast rank left right count ends.back ends.leftBack ends.rightBack)
    (hLeftCount : count + more ≤ left.length)
    (hRightCount : count + more ≤ right.length) :
    Gives (Ends.take less more ends) fun result =>
      TakenFirst rank left right (count + more) result.front result.left
          result.right ∧
        TakenLast rank left right (count + more) result.back result.leftBack
          result.rightBack := by
  induction more generalizing ends count with
  | zero => exact .pure ⟨hFirst, hLast⟩
  | succ more ih =>
      rw [Ends.take]
      refine (takeFirst_stable hLess hLeft hRight hKnown hFirst (by omega)
        (by omega)).bind ?_
      rintro _ ⟨front, left', right', rfl, hFirst'⟩
      let middle : Ends α := { ends with front, left := left', right := right' }
      have hMiddle :
          TakenLast rank left right count middle.back middle.leftBack
            middle.rightBack :=
        hLast
      refine (takeLast_stable hLess hLeft hRight hKnown hMiddle (by omega)
        (by omega)).bind ?_
      rintro _ ⟨back, leftBack, rightBack, rfl, hLast'⟩
      rw [show count + (more + 1) = count + 1 + more by omega] at *
      exact ih hFirst' hLast' hLeftCount hRightCount

end Ends

section Meeting

variable {left right front back : List α}
variable {left' right' leftBack rightBack : List α}
variable (hLeft : Rising rank left)
variable (hRight : Rising rank right)
variable (hLe : left.length ≤ right.length)
variable (hGe : right.length ≤ left.length + 1)

include hLeft hRight hLe hGe

/-
  When each end has taken as many items as the left list has, at
  most one item is between them, and it completes the merge.
-/
theorem TakenFirst.exists_between
    (hFirst : TakenFirst rank left right left.length front left' right')
    (hLast : TakenLast rank left right left.length back leftBack rightBack) :
    ∃ between leftEnd between' rightEnd,
      left' = between ++ leftEnd ∧
        right' = between' ++ rightEnd ∧
          left'.length + leftBack.length = left.length + between.length ∧
            between.length + between'.length = right.length - left.length ∧
              StablySorted rank (left ++ right)
                (front.reverse ++ ((between ++ between') ++ back)) := by
  obtain ⟨leftTaken, rightTaken, rfl, rfl, hCount, hCut, hFront⟩ :=
    hFirst.split
  obtain ⟨leftEnd, rightEnd, hLeftEq, hRightEq, hCount', hCut', hBack⟩ :=
    hLast.split
  have hLength := congrArg List.length hLeftEq
  have hLength' := congrArg List.length hRightEq
  simp only [List.length_append] at hLength hLength' hCount hCount' hLe hGe
  -- The ends have not crossed.
  obtain ⟨hNotPast, hNotPast'⟩ :=
    hCut.length_le hCut' hLeftEq hRightEq (by omega)
  obtain ⟨between, hBetween, rfl⟩ := exists_middle hLeftEq hNotPast
  obtain ⟨between', hBetween', rfl⟩ := exists_middle hRightEq hNotPast'
  have hSize := congrArg List.length hBetween
  have hSize' := congrArg List.length hBetween'
  simp only [List.length_append, List.length_reverse] at *
  have hMiddle :
      StablySorted rank (between ++ between') (between ++ between') := by
    refine .of_rising (.of_length_le ?_)
    rw [List.length_append]
    omega
  have hBehind : Cut rank between leftEnd between' rightEnd :=
    hCut'.mono (by rw [hBetween]; exact List.subset_append_right _ _)
      (List.Subset.refl _)
      (by rw [hBetween']; exact List.subset_append_right _ _)
      (List.Subset.refl _)
  have hRest :=
    hMiddle.of_cut hBehind (rising_append.mp hLeft).2.1
      (rising_append.mp hRight).2.1 hBack
  exact ⟨between, leftEnd, between', rightEnd, rfl, rfl, by omega, by omega,
    hFront.of_cut hCut hLeft hRight hRest⟩

/- The ends meet, since the right list is at most one item longer. -/
theorem meet_stable
    (hLess : Answers less rank known)
    (hKnown : ∀ item ∈ left ++ right, known item) :
    Gives (meet less left right) (StablySorted rank (left ++ right)) := by
  have hFirst : TakenFirst rank left right 0 [] left right :=
    ⟨[], [], rfl, rfl, rfl, .start, .nil⟩
  have hLast :
      TakenLast rank left right 0 [] left.reverse right.reverse :=
    ⟨[], [], by simp, by simp, rfl, .finish, .nil⟩
  rw [meet]
  refine (take_stable hLess hLeft hRight hKnown hFirst hLast (by omega)
    (by omega)).bind ?_
  rintro ⟨front, left', right', leftBack, rightBack, back⟩ ⟨hFirst, hLast⟩
  rw [Nat.zero_add] at hFirst hLast
  obtain ⟨between, leftEnd, between', rightEnd, rfl, rfl, hUntaken, hFew,
    hSorted⟩ := hFirst.exists_between hLeft hRight hLe hGe hLast
  dsimp only at *
  split
  · rename_i hNone
    obtain rfl : between = [] := List.length_eq_zero_iff.mp (by omega)
    have hTake :
        (between' ++ rightEnd).take (right.length - left.length) =
          between' :=
      List.take_left' (by rw [List.length_nil] at hFew; omega)
    rw [hTake, List.append_assoc]
    exact .pure hSorted
  · rename_i hSome
    obtain rfl : between' = [] := List.length_eq_zero_iff.mp (by omega)
    have hTake : (between ++ leftEnd).take 1 = between :=
      List.take_left' (by rw [List.length_nil] at hFew; omega)
    rw [List.length_nil] at hFew
    rw [if_pos (by
      rw [Bool.and_eq_true, decide_eq_true_iff, decide_eq_true_iff]
      omega), hTake, List.append_assoc]
    rw [List.append_nil] at hSorted
    exact .pure hSorted

end Meeting

------------------------------------------------------------
-- Fixed Plans
------------------------------------------------------------

/- The last three questions of a sort of four items, to two pairs in order. -/
def mergePairs (less : Less σ α) (a b c d : α) : Asking σ (List α) := do
  let rightFirst ← less c a
  let leftLast ← less d b
  let first := if rightFirst then c else a
  let last := if leftLast then b else d
  let inner := if rightFirst then a else if leftLast then c else b
  let outer := if leftLast then d else if rightFirst then b else c
  if ← less outer inner then return [first, outer, inner, last]
  else return [first, inner, outer, last]

theorem sortFour_eq
    (less : Less σ α)
    (a b c d : α) :
    sortFour less a b c d = (do
      let leftTurned ← less b a
      let rightTurned ← less d c
      mergePairs less (if leftTurned then b else a)
        (if leftTurned then a else b) (if rightTurned then d else c)
        (if rightTurned then c else d)) := by
  rw [sortFour]
  refine bind_congr fun leftTurned => bind_congr fun rightTurned => ?_
  cases leftTurned <;> cases rightTurned <;> rfl

/- Two items are in order after they are turned if the second is less. -/
theorem pair_in_order
    (rank : α → κ)
    (a b : α) :
    rank (if rank b < rank a then b else a) ≤
        rank (if rank b < rank a then a else b) ∧
      SameTies rank
        [if rank b < rank a then b else a, if rank b < rank a then a else b]
        [a, b] := by
  split
  · rename_i hLess
    have hSwap : SameTies rank ([b] ++ [a]) ([a] ++ [b]) :=
      .comm (by simpa using hLess.ne)
    exact ⟨hLess.le, hSwap⟩
  · rename_i hNotLess
    exact ⟨not_lt.mp hNotLess, .refl _⟩

section Plans

variable (hLess : Answers less rank known)

include hLess

theorem mergePairs_stable
    {a b c d : α}
    (hKnown : ∀ item ∈ [a, b, c, d], known item)
    (hLeft : rank a ≤ rank b)
    (hRight : rank c ≤ rank d) :
    Gives (mergePairs less a b c d) (StablySorted rank [a, b, c, d]) := by
  simp only [List.forall_mem_cons] at hKnown
  obtain ⟨hA, hB, hC, hD, -⟩ := hKnown
  have hTurned
      {items : List α}
      (hRising : Rising rank items)
      (hTies : SameTies rank items [a, b, c, d]) :
      Gives (pure items : Asking σ (List α))
        (StablySorted rank [a, b, c, d]) :=
    .pure ⟨hRising, hTies⟩
  rw [mergePairs]
  refine .ask hLess hC hA (.ask hLess hD hB ?_)
  -- Which two items are left for the middle depends on which go to the ends.
  by_cases hFirst : rank c < rank a <;> by_cases hLast : rank d < rank b <;>
    simp only [hFirst, hLast, decide_true, decide_false, if_true, if_false,
      Bool.false_eq_true] <;>
    refine .choose hLess (by assumption) (by assumption)
      (fun hInner => hTurned ?_ ?_) fun hInner => hTurned ?_ ?_
  all_goals
    simp only [Rising, SameTies, List.filter_cons, List.filter_nil]
    grind

theorem sortFour_stable
    {a b c d : α}
    (hKnown : ∀ item ∈ [a, b, c, d], known item) :
    Gives (sortFour less a b c d) (StablySorted rank [a, b, c, d]) := by
  obtain ⟨hLeft, hLeftTies⟩ := pair_in_order rank a b
  obtain ⟨hRight, hRightTies⟩ := pair_in_order rank c d
  have hTies := hLeftTies.append hRightTies
  rw [sortFour_eq]
  refine .ask hLess (hKnown b (by simp)) (hKnown a (by simp)) ?_
  refine .ask hLess (hKnown d (by simp)) (hKnown c (by simp)) ?_
  simp only [decide_eq_true_eq]
  exact (mergePairs_stable hLess
    (fun item hMem => hKnown item (hTies.mem_iff.mp hMem)) hLeft hRight).imp
    fun sorted hSorted => hSorted.of_ties hTies

theorem sortEight_stable
    {a b c d e f g h : α}
    (hKnown : ∀ item ∈ [a, b, c, d, e, f, g, h], known item) :
    Gives (sortEight less a b c d e f g h)
      (StablySorted rank [a, b, c, d, e, f, g, h]) := by
  have hLeftKnown : ∀ item ∈ [a, b, c, d], known item :=
    fun item hMem => hKnown item (List.mem_append_left [e, f, g, h] hMem)
  have hRightKnown : ∀ item ∈ [e, f, g, h], known item :=
    fun item hMem => hKnown item (List.mem_append_right [a, b, c, d] hMem)
  rw [sortEight]
  refine (sortFour_stable hLess hLeftKnown).bind fun left hLeft => ?_
  refine (sortFour_stable hLess hRightKnown).bind fun right hRight => ?_
  have hLengths : right.length = left.length :=
    hRight.length_eq.trans hLeft.length_eq.symm
  have hTies := hLeft.ties.append hRight.ties
  refine (meet_stable hLeft.rising hRight.rising (by omega) (by omega) hLess
    fun item hMem => hKnown item (hTies.mem_iff.mp hMem)).imp ?_
  exact fun sorted hSorted => hSorted.of_ties hTies

theorem sortStart_stable
    {size : Nat}
    {items : List α}
    (hKnown : ∀ item ∈ items, known item) :
    Gives (sortStart less size items) fun (sorted, rest) =>
      ∃ start, items = start ++ rest ∧ StablySorted rank start sorted := by
  have hNone :
      Gives (pure ([], items) : Asking σ (List α × List α))
        fun (sorted, rest) =>
          ∃ start, items = start ++ rest ∧ StablySorted rank start sorted :=
    .pure ⟨[], rfl, .nil⟩
  unfold sortStart
  split
  · rename_i a b c d rest
    split
    · split
      · rename_i e f g h rest
        refine (sortEight_stable hLess fun item hMem =>
          hKnown item (List.mem_append_left rest hMem)).bind ?_
        exact fun sorted hSorted => .pure ⟨_, rfl, hSorted⟩
      · exact hNone
    · split
      · refine (sortFour_stable hLess fun item hMem =>
          hKnown item (List.mem_append_left rest hMem)).bind ?_
        exact fun sorted hSorted => .pure ⟨_, rfl, hSorted⟩
      · exact hNone
  · exact hNone

/- The rest of a half is inserted among its sorted start. -/
theorem insertRest_stable
    {start rest sorted : List α}
    (hKnown : ∀ item ∈ start ++ rest, known item)
    (hSorted : StablySorted rank start sorted) :
    Gives (insertAll less sorted.reverse rest) fun result =>
      StablySorted rank (start ++ rest) result.reverse := by
  have hStart : ∀ item ∈ sorted.reverse, known item := fun item hMem =>
    hKnown item
      (List.mem_append_left _ (hSorted.mem_iff.mp (List.mem_reverse.mp hMem)))
  have hRest : ∀ item ∈ rest, known item := fun item hMem =>
    hKnown item (List.mem_append_right _ hMem)
  refine (insertAll_stable hLess hStart hRest
    (falling_reverse.mpr hSorted.rising)).imp fun result hResult => ?_
  rw [List.reverse_reverse] at hResult
  exact hResult.of_ties (hSorted.ties.append (.refl rest))

theorem shortSort_stable
    {items : List α}
    (hKnown : ∀ item ∈ items, known item) :
    Gives (shortSort less items) (StablySorted rank items) := by
  rw [shortSort]
  split
  · exact .pure (.of_rising (.of_length_le (by omega)))
  have hLeftKnown : ∀ item ∈ items.take (items.length / 2), known item :=
    fun item hMem => hKnown item (List.mem_of_mem_take hMem)
  have hRightKnown : ∀ item ∈ items.drop (items.length / 2), known item :=
    fun item hMem => hKnown item (List.mem_of_mem_drop hMem)
  refine (sortStart_stable hLess hLeftKnown).bind ?_
  rintro ⟨leftSorted, leftRest⟩ ⟨leftStart, hLeftEq, hLeftSorted⟩
  refine (sortStart_stable hLess hRightKnown).bind ?_
  rintro ⟨rightSorted, rightRest⟩ ⟨rightStart, hRightEq, hRightSorted⟩
  refine (insertRest_stable hLess (hLeftEq ▸ hLeftKnown) hLeftSorted).bind
    fun left hLeft => ?_
  refine (insertRest_stable hLess (hRightEq ▸ hRightKnown) hRightSorted).bind
    fun right hRight => ?_
  rw [← hLeftEq] at hLeft
  rw [← hRightEq] at hRight
  have hTies := hLeft.ties.append hRight.ties
  rw [List.take_append_drop] at hTies
  have hLeftLength := hLeft.length_eq
  have hRightLength := hRight.length_eq
  rw [List.length_take] at hLeftLength
  rw [List.length_drop] at hRightLength
  refine (meet_stable hLeft.rising hRight.rising (by omega) (by omega) hLess
    fun item hMem => hKnown item (hTies.mem_iff.mp hMem)).imp ?_
  exact fun sorted hSorted => hSorted.of_ties hTies

end Plans

end SnippetGrader.Sorting
