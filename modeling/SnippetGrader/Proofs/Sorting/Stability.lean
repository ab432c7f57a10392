import Mathlib.Data.List.Sort
import Mathlib.Order.Basic
import SnippetGrader.Sorting.Basic

/-
  What a stable sort gives.

  Items are sorted by rank. That a sort is stable is said for
  each rank apart: the items of that rank are the same, in the
  same order, before and after. So two stretches of a list may
  change places as long as they have no rank in common.

  Key definitions include:
    * `Sorting.Rising`, `Sorting.Falling`
    * `Sorting.SameTies`
    * `Sorting.StablySorted`
    * `Sorting.Answers`, `Sorting.Gives`

  Key theorems include:
    * `Sorting.SameTies.perm`
    * `Sorting.SameTies.comm`
    * `Sorting.StablySorted.of_cut`
-/

namespace SnippetGrader.Sorting

variable {α β γ κ σ : Type}

section Ranks

variable [LinearOrder κ]
variable {rank : α → κ}
variable {items others left right : List α}

------------------------------------------------------------
-- Ranks in Order
------------------------------------------------------------

/- No item has a lesser rank than one before it. -/
def Rising (rank : α → κ) (items : List α) : Prop :=
  items.Pairwise fun a b => rank a ≤ rank b

/- No item has a greater rank than one before it. -/
def Falling (rank : α → κ) (items : List α) : Prop :=
  items.Pairwise fun a b => rank b ≤ rank a

theorem Rising.nil : Rising rank [] :=
  List.Pairwise.nil

theorem Rising.of_length_le
    (hLength : items.length ≤ 1) :
    Rising rank items := by
  cases items with
  | nil => exact .nil
  | cons item rest =>
      rw [List.length_cons] at hLength
      rw [List.length_eq_zero_iff.mp (by omega : rest.length = 0)]
      exact List.pairwise_singleton ..

theorem rising_cons
    {item : α} :
    Rising rank (item :: items) ↔
      (∀ other ∈ items, rank item ≤ rank other) ∧ Rising rank items :=
  List.pairwise_cons

theorem falling_cons
    {item : α} :
    Falling rank (item :: items) ↔
      (∀ other ∈ items, rank other ≤ rank item) ∧ Falling rank items :=
  List.pairwise_cons

theorem rising_append :
    Rising rank (left ++ right) ↔
      Rising rank left ∧ Rising rank right ∧
        ∀ a ∈ left, ∀ b ∈ right, rank a ≤ rank b :=
  List.pairwise_append

theorem Rising.sublist
    (hRising : Rising rank others)
    (hSublist : items.Sublist others) :
    Rising rank items :=
  List.Pairwise.sublist hSublist hRising

theorem rising_reverse :
    Rising rank items.reverse ↔ Falling rank items :=
  List.pairwise_reverse

theorem falling_reverse :
    Falling rank items.reverse ↔ Rising rank items :=
  List.pairwise_reverse

------------------------------------------------------------
-- Ties
------------------------------------------------------------

/- Two lists that have the same items of each rank, in the same order. -/
def SameTies (rank : α → κ) (items others : List α) : Prop :=
  ∀ k,
    items.filter (fun item => rank item = k) =
      others.filter fun item => rank item = k

namespace SameTies

theorem refl
    (items : List α) :
    SameTies rank items items :=
  fun _ => rfl

theorem trans
    {third : List α}
    (hFirst : SameTies rank items others)
    (hSecond : SameTies rank others third) :
    SameTies rank items third :=
  fun k => (hFirst k).trans (hSecond k)

theorem append
    {left' right' : List α}
    (hLeft : SameTies rank left left')
    (hRight : SameTies rank right right') :
    SameTies rank (left ++ right) (left' ++ right') := by
  intro k
  rw [List.filter_append, List.filter_append, hLeft k, hRight k]

theorem cons
    (item : α)
    (hTies : SameTies rank items others) :
    SameTies rank (item :: items) (item :: others) :=
  append (refl [item]) hTies

theorem reverse
    (hTies : SameTies rank items others) :
    SameTies rank items.reverse others.reverse := by
  intro k
  rw [List.filter_reverse, List.filter_reverse, hTies k]

/- Two stretches without a common rank may change places. -/
theorem comm
    (hApart : ∀ a ∈ left, ∀ b ∈ right, rank a ≠ rank b) :
    SameTies rank (left ++ right) (right ++ left) := by
  intro k
  rw [List.filter_append, List.filter_append]
  by_cases hLeft : ∃ a ∈ left, rank a = k
  · obtain ⟨a, hMem, rfl⟩ := hLeft
    have hNone :
        right.filter (fun item => rank item = rank a) = [] := by
      rw [List.filter_eq_nil_iff]
      intro b hB hSame
      exact hApart a hMem b hB (of_decide_eq_true hSame).symm
    rw [hNone, List.append_nil, List.nil_append]
  · have hNone : left.filter (fun item => rank item = k) = [] := by
      rw [List.filter_eq_nil_iff]
      intro a hA hSame
      exact hLeft ⟨a, hA, of_decide_eq_true hSame⟩
    rw [hNone, List.append_nil, List.nil_append]

theorem mem_iff
    (hTies : SameTies rank items others)
    {item : α} :
    item ∈ items ↔ item ∈ others := by
  have hSame :
      item ∈ items.filter (fun other => rank other = rank item) ↔
        item ∈ others.filter fun other => rank other = rank item := by
    rw [hTies]
  simpa using hSame

/- Lists with the same ties have the same items. -/
theorem perm
    (hTies : SameTies rank items others) :
    items.Perm others := by
  classical
  rw [List.perm_iff_count]
  intro item
  have hCount
      (list : List α) :
      (list.filter fun other => rank other = rank item).count item =
        list.count item :=
    List.count_filter (by simp)
  rw [← hCount items, ← hCount others, hTies]

end SameTies

/- What passes a test of its rank may go before what does not. -/
theorem sameTies_partition
    (test : κ → Bool)
    (items : List α) :
    SameTies rank
      (items.filter (fun item => test (rank item)) ++
        items.filter fun item => !test (rank item))
      items := by
  intro k
  have hPart
      (test : κ → Bool) :
      items.filter (fun item => decide (rank item = k) && test (rank item)) =
        if test k then items.filter fun item => rank item = k else [] := by
    split
    · rename_i hTest
      refine List.filter_congr fun item _ => ?_
      by_cases hRank : rank item = k <;> simp [hRank, hTest]
    · rename_i hTest
      rw [List.filter_eq_nil_iff]
      intro item _ hBoth
      rw [Bool.and_eq_true, decide_eq_true_eq] at hBoth
      exact hTest (hBoth.1 ▸ hBoth.2)
  rw [List.filter_append, List.filter_filter, List.filter_filter, hPart test,
    hPart fun k => !test k]
  cases test k <;> simp

------------------------------------------------------------
-- Stable Sorts
------------------------------------------------------------

/- A list that is another one in order, ties as they were. -/
structure StablySorted
    (rank : α → κ)
    (items sorted : List α) :
    Prop where
  rising : Rising rank sorted
  ties : SameTies rank sorted items

namespace StablySorted

variable {sorted : List α}

theorem of_rising
    (hRising : Rising rank items) :
    StablySorted rank items items :=
  ⟨hRising, .refl items⟩

theorem of_ties
    (hSorted : StablySorted rank items sorted)
    (hTies : SameTies rank items others) :
    StablySorted rank others sorted :=
  ⟨hSorted.rising, hSorted.ties.trans hTies⟩

theorem nil : StablySorted rank ([] : List α) [] :=
  of_rising .nil

theorem single
    (item : α) :
    StablySorted rank [item] [item] :=
  of_rising (.of_length_le (Nat.le_refl 1))

theorem mem_iff
    (hSorted : StablySorted rank items sorted)
    {item : α} :
    item ∈ sorted ↔ item ∈ items :=
  hSorted.ties.mem_iff

theorem length_eq
    (hSorted : StablySorted rank items sorted) :
    sorted.length = items.length :=
  hSorted.ties.perm.length_eq

/- All items of the first list come before all of the second. -/
theorem append
    {left' right' : List α}
    (hLeft : StablySorted rank left left')
    (hRight : StablySorted rank right right')
    (hApart : ∀ a ∈ left, ∀ b ∈ right, rank a ≤ rank b) :
    StablySorted rank (left ++ right) (left' ++ right') := by
  refine ⟨rising_append.mpr ⟨hLeft.rising, hRight.rising, ?_⟩,
    hLeft.ties.append hRight.ties⟩
  intro a hA b hB
  exact hApart a (hLeft.mem_iff.mp hA) b (hRight.mem_iff.mp hB)

/- A list that falls without ties is sorted by turning it round. -/
theorem of_strictly_falling
    (hFalling : items.Pairwise fun a b => rank b < rank a) :
    StablySorted rank items items.reverse := by
  refine ⟨rising_reverse.mpr (hFalling.imp le_of_lt), fun k => ?_⟩
  rw [List.filter_reverse]
  -- Of each rank, there is at most one item.
  have hAlone :
      (items.filter fun item => rank item = k).Pairwise
        fun _ _ => False := by
    refine (hFalling.filter _).imp_of_mem fun hA hB hLess => ?_
    have hRank := of_decide_eq_true (List.mem_filter.mp hA).2
    have hRank' := of_decide_eq_true (List.mem_filter.mp hB).2
    exact hLess.ne (hRank'.trans hRank.symm)
  cases hFilter : items.filter (fun item => rank item = k) with
  | nil => rfl
  | cons item rest =>
      rw [hFilter, List.pairwise_cons] at hAlone
      rw [List.eq_nil_iff_forall_not_mem.mpr hAlone.1,
        List.reverse_singleton]

end StablySorted

------------------------------------------------------------
-- Cuts
------------------------------------------------------------

/-
  A cut through two sorted lists at once: in a stable merge of
  the two, all that is before the cut comes before all that is
  behind it.
-/
structure Cut
    (rank : α → κ)
    (left left' right right' : List α) :
    Prop where
  left_le : ∀ a ∈ left, ∀ b ∈ right', rank a ≤ rank b
  right_lt : ∀ b ∈ right, ∀ a ∈ left', rank b < rank a

namespace Cut

variable {left' right' : List α}
variable {l r : α}

/- Before the first and behind the last items, nothing is cut. -/
theorem start : Cut rank [] left [] right :=
  ⟨nofun, nofun⟩

theorem finish : Cut rank left [] right [] :=
  ⟨nofun, nofun⟩

theorem mono
    {within within' among among' : List α}
    (hCut : Cut rank left left' right right')
    (hLeft : within ⊆ left)
    (hLeft' : within' ⊆ left')
    (hRight : among ⊆ right)
    (hRight' : among' ⊆ right') :
    Cut rank within within' among among' where
  left_le a hA b hB := hCut.left_le a (hLeft hA) b (hRight' hB)
  right_lt b hB a hA := hCut.right_lt b (hRight hB) a (hLeft' hA)

/- A cut moves past the right one of two items if it is less. -/
theorem pass_right
    (hCut : Cut rank left (l :: left') right (r :: right'))
    (hLeft : Rising rank (l :: left'))
    (hLess : rank r < rank l) :
    Cut rank left (l :: left') (right ++ [r]) right' where
  left_le a hA b hB := hCut.left_le a hA b (List.mem_cons_of_mem _ hB)
  right_lt b hB a hA := by
    rcases List.mem_append.mp hB with hB | hB
    · exact hCut.right_lt b hB a hA
    · rw [List.mem_singleton.mp hB]
      rcases List.mem_cons.mp hA with rfl | hA
      · exact hLess
      · exact hLess.trans_le ((rising_cons.mp hLeft).1 a hA)

theorem pass_left
    (hCut : Cut rank left (l :: left') right (r :: right'))
    (hRight : Rising rank (r :: right'))
    (hLe : rank l ≤ rank r) :
    Cut rank (left ++ [l]) left' right (r :: right') where
  left_le a hA b hB := by
    rcases List.mem_append.mp hA with hA | hA
    · exact hCut.left_le a hA b hB
    · rw [List.mem_singleton.mp hA]
      rcases List.mem_cons.mp hB with rfl | hB
      · exact hLe
      · exact hLe.trans ((rising_cons.mp hRight).1 b hB)
  right_lt b hB a hA := hCut.right_lt b hB a (List.mem_cons_of_mem _ hA)

/- A cut moves back past the left one of two items if it is greater. -/
theorem pass_left_back
    (hCut : Cut rank (left ++ [l]) left' (right ++ [r]) right')
    (hRight : Rising rank (right ++ [r]))
    (hLess : rank r < rank l) :
    Cut rank left (l :: left') (right ++ [r]) right' where
  left_le a hA b hB := hCut.left_le a (List.mem_append_left _ hA) b hB
  right_lt b hB a hA := by
    rcases List.mem_cons.mp hA with rfl | hA
    · rcases List.mem_append.mp hB with hB | hB
      · exact ((rising_append.mp hRight).2.2 b hB r (by simp)).trans_lt hLess
      · rw [List.mem_singleton.mp hB]
        exact hLess
    · exact hCut.right_lt b hB a hA

theorem pass_right_back
    (hCut : Cut rank (left ++ [l]) left' (right ++ [r]) right')
    (hLeft : Rising rank (left ++ [l]))
    (hLe : rank l ≤ rank r) :
    Cut rank (left ++ [l]) left' right (r :: right') where
  left_le a hA b hB := by
    rcases List.mem_cons.mp hB with rfl | hB
    · rcases List.mem_append.mp hA with hA | hA
      · exact ((rising_append.mp hLeft).2.2 a hA l (by simp)).trans hLe
      · rw [List.mem_singleton.mp hA]
        exact hLe
    · exact hCut.left_le a hA b hB
  right_lt b hB a hA := hCut.right_lt b (List.mem_append_left _ hB) a hA

end Cut

/- What is merged on both sides of a cut makes up the merge. -/
theorem StablySorted.of_cut
    {left' right' front back : List α}
    (hCut : Cut rank left left' right right')
    (hLeft : Rising rank (left ++ left'))
    (hRight : Rising rank (right ++ right'))
    (hFront : StablySorted rank (left ++ right) front)
    (hBack : StablySorted rank (left' ++ right') back) :
    StablySorted rank ((left ++ left') ++ (right ++ right'))
      (front ++ back) := by
  have hAcross := (rising_append.mp hLeft).2.2
  have hAcross' := (rising_append.mp hRight).2.2
  have hBoth :
      StablySorted rank ((left ++ right) ++ (left' ++ right'))
        (front ++ back) := by
    refine hFront.append hBack fun a hA b hB => ?_
    rcases List.mem_append.mp hA with hA | hA
    · rcases List.mem_append.mp hB with hB | hB
      · exact hAcross a hA b hB
      · exact hCut.left_le a hA b hB
    · rcases List.mem_append.mp hB with hB | hB
      · exact (hCut.right_lt a hA b hB).le
      · exact hAcross' a hA b hB
  have hMiddle :
      SameTies rank (right ++ left') (left' ++ right) :=
    .comm fun b hB a hA => (hCut.right_lt b hB a hA).ne
  refine hBoth.of_ties ?_
  have hSwap :=
    ((SameTies.refl left).append hMiddle).append (.refl right')
  simpa only [List.append_assoc] using hSwap

end Ranks

------------------------------------------------------------
-- Answers
------------------------------------------------------------

/- Questions about known items are answered by their ranks. -/
def Answers
    [LinearOrder κ]
    (less : Less σ α)
    (rank : α → κ)
    (known : α → Prop) :
    Prop :=
  ∀ a b, known a → known b → less a b = pure (decide (rank a < rank b))

/- A computation that leaves the state as it is, and whose result has a property. -/
def Gives (action : Asking σ β) (post : β → Prop) : Prop :=
  ∃ value, action = pure value ∧ post value

namespace Gives

variable {post : β → Prop}
variable {after : γ → Prop}

theorem pure
    {value : β}
    (hPost : post value) :
    Gives (Pure.pure value : Asking σ β) post :=
  ⟨value, rfl, hPost⟩

theorem bind
    {first : Asking σ β}
    {next : β → Asking σ γ}
    (hFirst : Gives first post)
    (hNext : ∀ value, post value → Gives (next value) after) :
    Gives (first >>= next) after := by
  obtain ⟨value, rfl, hPost⟩ := hFirst
  rw [pure_bind]
  exact hNext value hPost

theorem imp
    {action : Asking σ β}
    {weaker : β → Prop}
    (hAction : Gives action post)
    (hImp : ∀ value, post value → weaker value) :
    Gives action weaker := by
  obtain ⟨value, hEq, hPost⟩ := hAction
  exact ⟨value, hEq, hImp value hPost⟩

/- The answer to a question is whether one rank is less than the other. -/
theorem ask
    [LinearOrder κ]
    {less : Less σ α}
    {rank : α → κ}
    {known : α → Prop}
    {a b : α}
    {next : Bool → Asking σ γ}
    (hLess : Answers less rank known)
    (hA : known a)
    (hB : known b)
    (hNext : Gives (next (decide (rank a < rank b))) after) :
    Gives (less a b >>= next) after := by
  rw [hLess a b hA hB, pure_bind]
  exact hNext

/- A choice by a question is one by the ranks. -/
theorem choose
    [LinearOrder κ]
    {less : Less σ α}
    {rank : α → κ}
    {known : α → Prop}
    {a b : α}
    {yes no : Asking σ γ}
    (hLess : Answers less rank known)
    (hA : known a)
    (hB : known b)
    (hYes : rank a < rank b → Gives yes after)
    (hNo : rank b ≤ rank a → Gives no after) :
    Gives (less a b >>= fun answer => if answer = true then yes else no)
      after := by
  refine .ask hLess hA hB ?_
  by_cases hBefore : rank a < rank b
  · rw [decide_eq_true hBefore, if_pos rfl]
    exact hYes hBefore
  · rw [decide_eq_false hBefore, if_neg Bool.false_ne_true]
    exact hNo (not_lt.mp hBefore)

end Gives

end SnippetGrader.Sorting
