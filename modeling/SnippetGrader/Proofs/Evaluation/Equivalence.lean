import SnippetGrader.Proofs.Evaluation.DataEquality
import SnippetGrader.Proofs.Number.Nearest

/-
  Equality of data is an equivalence.

  Data is what is built from constants by containers, to a
  bounded depth. Equality of data does not depend on how deep it
  is compared, as long as that is deep enough, and two equal
  containers without order can be arranged so that their items
  are equal one by one.

  Key definitions include:
    * `Covered`, `Arranged`
    * `Heap.IsData`
    * `Heap.Equates`

  Key theorems include:
    * `Covered.arranged`
    * `Heap.IsData.equalTo_eq`
    * `Heap.IsData.equal_iff`
    * `Heap.equivalenceOn_data`
    * `Heap.equal_equivalence`
-/

namespace SnippetGrader

------------------------------------------------------------
-- Arrangements
------------------------------------------------------------

section Arrangements

variable {α β γ : Type}

/- Lists of equal length, each item of the first related to one of the second. -/
structure Covered
    (related : α → β → Prop)
    (left : List α)
    (right : List β) :
    Prop where
  length : left.length = right.length
  item : ∀ x ∈ left, ∃ y ∈ right, related x y

/- Lists of which the second, in some order, is related to the first. -/
def Arranged
    (related : α → β → Prop)
    (left : List α)
    (right : List β) :
    Prop :=
  ∃ arranged, arranged.Perm right ∧ List.Forall₂ related left arranged

/- If no two items are related to the same one, they can be paired up. -/
theorem Covered.arranged
    {related : α → β → Prop}
    {left : List α}
    {right : List β}
    (hCovered : Covered related left right)
    (hDistinct :
      left.Pairwise fun x x' =>
        ∀ y ∈ right, related x y → ¬related x' y) :
    Arranged related left right := by
  induction left generalizing right with
  | nil =>
      have hEmpty : right = [] :=
        List.length_eq_zero_iff.mp hCovered.length.symm
      rw [hEmpty]
      exact ⟨[], .refl _, .nil⟩
  | cons x rest ih =>
      rw [List.pairwise_cons] at hDistinct
      obtain ⟨y, hMem, hHere⟩ := hCovered.item x List.mem_cons_self
      obtain ⟨before, after, rfl⟩ := List.append_of_mem hMem
      have hSubset : before ++ after ⊆ before ++ y :: after :=
        List.append_subset.mpr
          ⟨List.subset_append_left _ _,
            List.subset_append_of_subset_right _ (List.subset_cons_self _ _)⟩
      have hRest : Covered related rest (before ++ after) := by
        refine ⟨?_, fun x' hMem' => ?_⟩
        · have hLength := hCovered.length
          simp only [List.length_append, List.length_cons] at hLength ⊢
          omega
        · obtain ⟨y', hFound, hRelated⟩ :=
            hCovered.item x' (List.mem_cons_of_mem _ hMem')
          refine ⟨y', ?_, hRelated⟩
          have hOther : y' ≠ y := by
            rintro rfl
            exact hDistinct.1 x' hMem' y' hMem hHere hRelated
          simpa [hOther] using hFound
      obtain ⟨arranged, hPerm, hItems⟩ :=
        ih hRest (hDistinct.2.imp fun hNone y' hFound =>
          hNone y' (hSubset hFound))
      exact ⟨y :: arranged, (hPerm.cons y).trans List.perm_middle.symm,
        .cons hHere hItems⟩

theorem Arranged.covered
    {related : α → β → Prop}
    {left : List α}
    {right : List β}
    (hArranged : Arranged related left right) :
    Covered related left right := by
  obtain ⟨arranged, hPerm, hItems⟩ := hArranged
  refine ⟨hItems.length_eq.trans hPerm.length_eq, fun x hMem => ?_⟩
  obtain ⟨y, hFound, hRelated⟩ := exists_of_mem hItems x hMem
  exact ⟨y, hPerm.subset hFound, hRelated⟩

/- Two lists that can be paired up cover each other. -/
theorem Arranged.covered_flip
    {related : α → β → Prop}
    {left : List α}
    {right : List β}
    (hArranged : Arranged related left right) :
    Covered (flip related) right left := by
  obtain ⟨arranged, hPerm, hItems⟩ := hArranged
  refine ⟨(hItems.length_eq.trans hPerm.length_eq).symm, fun y hMem => ?_⟩
  exact exists_of_mem hItems.flip y (hPerm.symm.subset hMem)

theorem Covered.imp
    {first second : α → β → Prop}
    {left : List α}
    {right : List β}
    (hCovered : Covered first left right)
    (hImp : ∀ x ∈ left, ∀ y ∈ right, first x y → second x y) :
    Covered second left right := by
  refine ⟨hCovered.length, fun x hX => ?_⟩
  obtain ⟨y, hY, hRelated⟩ := hCovered.item x hX
  exact ⟨y, hY, hImp x hX y hY hRelated⟩

theorem Covered.trans
    {first : α → β → Prop}
    {second : β → γ → Prop}
    {both : α → γ → Prop}
    {xs : List α}
    {ys : List β}
    {zs : List γ}
    (hFirst : Covered first xs ys)
    (hSecond : Covered second ys zs)
    (hBoth :
      ∀ x ∈ xs, ∀ y ∈ ys, ∀ z ∈ zs, first x y → second y z → both x z) :
    Covered both xs zs := by
  refine ⟨hFirst.length.trans hSecond.length, fun x hX => ?_⟩
  obtain ⟨y, hY, hFirstHere⟩ := hFirst.item x hX
  obtain ⟨z, hZ, hSecondHere⟩ := hSecond.item y hY
  exact ⟨z, hZ, hBoth x hX y hY z hZ hFirstHere hSecondHere⟩

theorem forall₂_trans
    {first : α → β → Prop}
    {second : β → γ → Prop}
    {both : α → γ → Prop}
    {xs : List α}
    {ys : List β}
    {zs : List γ}
    (hFirst : List.Forall₂ first xs ys)
    (hSecond : List.Forall₂ second ys zs)
    (hBoth :
      ∀ x ∈ xs, ∀ y ∈ ys, ∀ z ∈ zs, first x y → second y z → both x z) :
    List.Forall₂ both xs zs := by
  induction hFirst generalizing zs with
  | nil =>
      cases hSecond
      exact .nil
  | cons hHere hRest ih =>
      cases hSecond with
      | cons hHere' hRest' =>
          refine .cons
            (hBoth _ List.mem_cons_self _ List.mem_cons_self _
              List.mem_cons_self hHere hHere')
            (ih hRest' fun x hX y hY z hZ => ?_)
          exact hBoth x (List.mem_cons_of_mem _ hX) y
            (List.mem_cons_of_mem _ hY) z (List.mem_cons_of_mem _ hZ)

/- Related lists are related in other ways, by their members. -/
theorem forall₂_imp_mem
    {first second : α → β → Prop}
    {xs : List α}
    {ys : List β}
    (hFirst : List.Forall₂ first xs ys)
    (hImp : ∀ x ∈ xs, ∀ y ∈ ys, first x y → second x y) :
    List.Forall₂ second xs ys := by
  induction hFirst with
  | nil => exact .nil
  | cons hHere hRest ih =>
      refine .cons (hImp _ List.mem_cons_self _ List.mem_cons_self hHere)
        (ih fun x hX y hY => ?_)
      exact hImp x (List.mem_cons_of_mem _ hX) y (List.mem_cons_of_mem _ hY)

theorem forall₂_congr_mem
    {first second : α → β → Prop}
    {xs : List α}
    {ys : List β}
    (hSame : ∀ x ∈ xs, ∀ y ∈ ys, (first x y ↔ second x y)) :
    List.Forall₂ first xs ys ↔ List.Forall₂ second xs ys :=
  ⟨fun hFirst => forall₂_imp_mem hFirst fun x hX y hY => (hSame x hX y hY).mp,
    fun hSecond =>
      forall₂_imp_mem hSecond fun x hX y hY => (hSame x hX y hY).mpr⟩

theorem covered_congr_mem
    {first second : α → β → Prop}
    {xs : List α}
    {ys : List β}
    (hSame : ∀ x ∈ xs, ∀ y ∈ ys, (first x y ↔ second x y)) :
    Covered first xs ys ↔ Covered second xs ys :=
  ⟨fun hFirst => hFirst.imp fun x hX y hY => (hSame x hX y hY).mp,
    fun hSecond => hSecond.imp fun x hX y hY => (hSame x hX y hY).mpr⟩

end Arrangements

namespace Heap

------------------------------------------------------------
-- Data
------------------------------------------------------------

/-
  Values that are data, with containers nested in each other to
  at most a depth. Neither the keys of a dict nor the items of a
  set are equal to each other.
-/
inductive IsData (heap : Heap) : (depth : Nat) → Value → Prop
  | none
      {depth : Nat} :
      IsData heap depth .none
  | bool
      {depth : Nat}
      (value : Bool) :
      IsData heap depth (.bool value)
  | int
      {depth : Nat}
      {value : Int}
      (hRange : Number.inWord value = true) :
      IsData heap depth (.int value)
  | float
      {depth : Nat}
      {value : Float}
      (hNumber : value.isNaN = false) :
      IsData heap depth (.float value)
  | str
      {depth : Nat}
      (value : String) :
      IsData heap depth (.str value)
  | list
      {depth address : Nat}
      (hItems : ∀ item ∈ (heap.list address).toList, IsData heap depth item) :
      IsData heap (depth + 1) (.list address)
  | tuple
      {depth address : Nat}
      (hItems : ∀ item ∈ (heap.tuple address).toList, IsData heap depth item) :
      IsData heap (depth + 1) (.tuple address)
  | dict
      {depth address : Nat}
      (hKeys :
        ∀ entry ∈ (heap.dict address).toList, IsData heap depth entry.1)
      (hValues :
        ∀ entry ∈ (heap.dict address).toList, IsData heap depth entry.2)
      (hDistinct :
        (heap.dict address).toList.Pairwise
          fun entry other => heap.equal entry.1 other.1 = false) :
      IsData heap (depth + 1) (.dict address)
  | set
      {depth address : Nat}
      (hItems : ∀ item ∈ (heap.set address).toList, IsData heap depth item)
      (hDistinct :
        (heap.set address).toList.Pairwise
          fun item other => heap.equal item other = false) :
      IsData heap (depth + 1) (.set address)

section Depths

variable {heap : Heap}
variable {m n : Nat}
variable {value other : Value}

/- Two values that are not containers of one kind are compared as constants are. -/
theorem equalTo_eq_of_equalBy
    (hContents :
      ∀ contents contents',
        heap.equalBy contents value other =
          heap.equalBy contents' value other) :
    heap.equalTo m value other = heap.equalTo n value other := by
  obtain ⟨first, hFirst⟩ := heap.exists_equalTo_eq m
  obtain ⟨second, hSecond⟩ := heap.exists_equalTo_eq n
  rw [hFirst, hSecond]
  exact hContents first second

/- Data is compared alike at all depths that it does not exceed. -/
theorem IsData.equalTo_eq
    (hValue : heap.IsData m value)
    (hOther : heap.IsData m other)
    (hLe : m ≤ n) :
    heap.equalTo m value other = heap.equalTo n value other := by
  induction m generalizing n value other with
  | zero =>
      exact equalTo_eq_of_equalBy fun _ _ => by
        cases hValue <;> cases other <;> rfl
  | succ m ih =>
      obtain ⟨n, rfl⟩ := Nat.exists_eq_add_one.mpr (by omega : 0 < n)
      -- Items at one place in both containers are compared alike.
      have hSame
          (x x' y y' : Value)
          (hX : x = x' ∧ heap.IsData m x)
          (hY : y = y' ∧ heap.IsData m y) :
          heap.equalTo m x y = heap.equalTo n x' y' := by
        rw [← hX.1, ← hY.1]
        exact ih hX.2 hY.2 (by omega)
      have hSelf
          {items : List Value}
          (hItems : ∀ item ∈ items, heap.IsData m item) :
          List.Forall₂ (fun x x' => x = x' ∧ heap.IsData m x) items items :=
        List.forall₂_same.mpr fun item hMem => ⟨rfl, hItems item hMem⟩
      cases hValue with
      | none | bool _ | int _ | float _ | str _ =>
          exact equalTo_eq_of_equalBy fun _ _ => by cases other <;> rfl
      | list hItems =>
          cases hOther with
          | list hOthers =>
              rw [equalTo_list, equalTo_list,
                sameItems_eq hSame (hSelf hItems) (hSelf hOthers)]
          | _ => rfl
      | tuple hItems =>
          cases hOther with
          | tuple hOthers =>
              rw [equalTo_tuple, equalTo_tuple,
                sameItems_eq hSame (hSelf hItems) (hSelf hOthers)]
          | _ => rfl
      | dict hKeys hValues hDistinct =>
          cases hOther with
          | dict hKeys' hValues' hDistinct' =>
              rw [equalTo_dict, equalTo_dict]
              refine congrArg _ (sameEntries_eq hSame ?_ ?_) <;>
                refine List.forall₂_same.mpr fun entry hMem => ?_
              · exact ⟨⟨rfl, hKeys entry hMem⟩, rfl, hValues entry hMem⟩
              · exact ⟨⟨rfl, hKeys' entry hMem⟩, rfl, hValues' entry hMem⟩
          | _ => rfl
      | set hItems hDistinct =>
          cases hOther with
          | set hOthers hDistinct' =>
              rw [equalTo_set, equalTo_set]
              exact congrArg _
                (covered_eq (hSelf hItems) (hSelf hOthers) hSame)
          | _ => rfl

theorem IsData.equalTo_eq_equal
    (hValue : heap.IsData m value)
    (hOther : heap.IsData m other)
    (hLe : m ≤ maxNesting) :
    heap.equalTo m value other = heap.equal value other :=
  hValue.equalTo_eq hOther hLe

end Depths

------------------------------------------------------------
-- Equal Data
------------------------------------------------------------

section Contents

variable {related : Relation}

theorem sameItems_iff
    {left right : Array Value} :
    sameItems related left right = true ↔
      List.Forall₂ (fun x y => related x y = true) left.toList
        right.toList := by
  rw [sameItems, Bool.and_eq_true, beq_iff_eq, List.all_eq_true,
    List.forall₂_iff_zip, Array.length_toList, Array.length_toList,
    Prod.forall]

theorem covered_iff
    {α β : Type}
    {test : α → β → Bool}
    {left : Array α}
    {right : Array β} :
    (left.size == right.size &&
        left.all fun x => right.any fun y => test x y) = true ↔
      Covered (fun x y => test x y = true) left.toList right.toList := by
  rw [Bool.and_eq_true, beq_iff_eq, ← Array.all_toList, List.all_eq_true]
  constructor
  · rintro ⟨hSize, hItems⟩
    refine ⟨hSize, fun x hMem => ?_⟩
    have hAny := hItems x hMem
    rwa [← Array.any_toList, List.any_eq_true] at hAny
  · rintro ⟨hLength, hItems⟩
    refine ⟨hLength, fun x hMem => ?_⟩
    rw [← Array.any_toList, List.any_eq_true]
    exact hItems x hMem

theorem sameSet_iff
    {left right : Array Value} :
    sameSet related left right = true ↔
      Covered (fun x y => related x y = true) left.toList right.toList :=
  covered_iff

theorem sameEntries_iff
    {left right : Array (Value × Value)} :
    sameEntries related left right = true ↔
      Covered
        (fun entry other =>
          related entry.1 other.1 = true ∧ related entry.2 other.2 = true)
        left.toList right.toList := by
  simp only [← Bool.and_eq_true]
  exact covered_iff

end Contents

/- Two entries whose keys and values are related. -/
structure EntryRelated
    (related : Value → Value → Prop)
    (entry other : Value × Value) :
    Prop where
  key : related entry.1 other.1
  value : related entry.2 other.2

theorem entryRelated_iff
    {related : Value → Value → Prop}
    {entry other : Value × Value} :
    EntryRelated related entry other ↔
      related entry.1 other.1 ∧ related entry.2 other.2 :=
  ⟨fun hRelated => ⟨hRelated.key, hRelated.value⟩,
    fun hBoth => ⟨hBoth.1, hBoth.2⟩⟩

/- Two values that are equal. -/
abbrev Equal (heap : Heap) (value other : Value) : Prop :=
  heap.equal value other = true

/- What makes data equal. -/
inductive Equates (heap : Heap) : Value → Value → Prop
  | none : Equates heap .none .none
  | number
      {value other : Value}
      {x y : Float}
      (hValue : value.number? = some x)
      (hOther : other.number? = some y)
      (hEqual : (x == y) = true) :
      Equates heap value other
  | str
      (value : String) :
      Equates heap (.str value) (.str value)
  | list
      {a b : Nat}
      (hItems :
        List.Forall₂ heap.Equal (heap.list a).toList (heap.list b).toList) :
      Equates heap (.list a) (.list b)
  | tuple
      {a b : Nat}
      (hItems :
        List.Forall₂ heap.Equal (heap.tuple a).toList
          (heap.tuple b).toList) :
      Equates heap (.tuple a) (.tuple b)
  | dict
      {a b : Nat}
      (hEntries :
        Covered (EntryRelated heap.Equal) (heap.dict a).toList
          (heap.dict b).toList) :
      Equates heap (.dict a) (.dict b)
  | set
      {a b : Nat}
      (hItems :
        Covered heap.Equal (heap.set a).toList (heap.set b).toList) :
      Equates heap (.set a) (.set b)

section Equivalence

variable {heap : Heap}
variable {m n : Nat}
variable {value other : Value}

/- Data is equal to itself. -/
theorem IsData.equal_self
    (hData : heap.IsData n value) :
    heap.Equal value value := by
  cases hData with
  | none => rfl
  | bool value => cases value <;> rfl
  | int hRange => exact Number.beq_self (isNaN_wordToFloat _)
  | float hNumber => exact Number.beq_self hNumber
  | str value => exact beq_self_eq_true value
  | list hItems | tuple hItems | set hItems _ =>
      exact Bool.or_eq_true_iff.mpr (.inl (beq_self_eq_true _))
  | dict hKeys hValues hDistinct =>
      exact Bool.or_eq_true_iff.mpr (.inl (beq_self_eq_true _))

/- The items of containers are compared like values on their own. -/
theorem IsData.equalTo_item_eq
    (hValue : heap.IsData n value)
    (hOther : heap.IsData n other)
    (hDepth : n + 1 ≤ maxNesting)
    (hItems : n ≤ m) :
    heap.equalTo m value other = heap.equal value other := by
  rw [← hValue.equalTo_eq hOther hItems]
  exact hValue.equalTo_eq_equal hOther (Nat.le_of_succ_le hDepth)

/- Sequences are equal if their items are. -/
theorem sameItems_iff_equal
    {left right : Array Value}
    (hLeft : ∀ item ∈ left.toList, heap.IsData n item)
    (hRight : ∀ item ∈ right.toList, heap.IsData n item)
    (hDepth : n + 1 ≤ maxNesting)
    (hItems : n ≤ m) :
    sameItems (heap.equalTo m) left right = true ↔
      List.Forall₂ heap.Equal left.toList right.toList := by
  rw [sameItems_iff]
  refine forall₂_congr_mem fun x hX y hY => ?_
  rw [(hLeft x hX).equalTo_item_eq (hRight y hY) hDepth hItems]

/- Sets are equal if their items are, in some order. -/
theorem sameSet_iff_equal
    {left right : Array Value}
    (hLeft : ∀ item ∈ left.toList, heap.IsData n item)
    (hRight : ∀ item ∈ right.toList, heap.IsData n item)
    (hDepth : n + 1 ≤ maxNesting)
    (hItems : n ≤ m) :
    sameSet (heap.equalTo m) left right = true ↔
      Covered heap.Equal left.toList right.toList := by
  rw [sameSet_iff]
  refine covered_congr_mem fun x hX y hY => ?_
  rw [(hLeft x hX).equalTo_item_eq (hRight y hY) hDepth hItems]

/- Dicts are equal if their keys and values are, in some order. -/
theorem sameEntries_iff_equal
    {left right : Array (Value × Value)}
    (hLeft :
      ∀ entry ∈ left.toList,
        heap.IsData n entry.1 ∧ heap.IsData n entry.2)
    (hRight :
      ∀ entry ∈ right.toList,
        heap.IsData n entry.1 ∧ heap.IsData n entry.2)
    (hDepth : n + 1 ≤ maxNesting)
    (hItems : n ≤ m) :
    sameEntries (heap.equalTo m) left right = true ↔
      Covered (EntryRelated heap.Equal) left.toList right.toList := by
  rw [sameEntries_iff]
  refine covered_congr_mem fun x hX y hY => ?_
  rw [(hLeft x hX).1.equalTo_item_eq (hRight y hY).1 hDepth hItems,
    (hLeft x hX).2.equalTo_item_eq (hRight y hY).2 hDepth hItems,
    entryRelated_iff]

/- Two containers are the same, or equal by what is in them. -/
theorem equal_of_contents
    {a b : Nat}
    {contents : Bool}
    {holds : Prop}
    (hContents : contents = true ↔ holds)
    (hSelf : a = b → holds) :
    (a == b || contents) = true ↔ holds := by
  rw [Bool.or_eq_true, beq_iff_eq, hContents]
  exact ⟨fun hSame => hSame.elim hSelf id, .inr⟩

/- Numbers of all types are compared as floats. -/
theorem equal_of_numbers
    {x y : Float}
    (hValue : value.number? = some x)
    (hOther : other.number? = some y) :
    heap.equal value other = (x == y) := by
  cases value <;> cases hValue <;> cases other <;> cases hOther <;> rfl

/- Data that has a reason to be equal is equal. -/
theorem Equates.equal
    (hEquates : heap.Equates value other)
    (hValue : heap.IsData n value)
    (hOther : heap.IsData n other)
    (hDepth : n ≤ maxNesting) :
    heap.Equal value other := by
  cases hEquates with
  | none => rfl
  | number hNumber hNumber' hEqual =>
      exact (equal_of_numbers hNumber hNumber').trans hEqual
  | str value => exact beq_self_eq_true value
  | list hSame =>
      cases hValue with
      | list hItems =>
          cases hOther with
          | list hOthers =>
              exact Bool.or_eq_true_iff.mpr (.inr
                ((sameItems_iff_equal hItems hOthers hDepth
                  (Nat.le_sub_one_of_lt hDepth)).mpr hSame))
  | tuple hSame =>
      cases hValue with
      | tuple hItems =>
          cases hOther with
          | tuple hOthers =>
              exact Bool.or_eq_true_iff.mpr (.inr
                ((sameItems_iff_equal hItems hOthers hDepth
                  (Nat.le_sub_one_of_lt hDepth)).mpr hSame))
  | dict hSame =>
      cases hValue with
      | dict hKeys hValues hDistinct =>
          cases hOther with
          | dict hKeys' hValues' hDistinct' =>
              exact Bool.or_eq_true_iff.mpr (.inr
                ((sameEntries_iff_equal
                  (fun entry hMem => ⟨hKeys entry hMem, hValues entry hMem⟩)
                  (fun entry hMem => ⟨hKeys' entry hMem, hValues' entry hMem⟩)
                  hDepth (Nat.le_sub_one_of_lt hDepth)).mpr hSame))
  | set hSame =>
      cases hValue with
      | set hItems hDistinct =>
          cases hOther with
          | set hOthers hDistinct' =>
              exact Bool.or_eq_true_iff.mpr (.inr
                ((sameSet_iff_equal hItems hOthers hDepth
                  (Nat.le_sub_one_of_lt hDepth)).mpr hSame))

/- Data that is equal has a reason to be. -/
theorem IsData.equates
    (hValue : heap.IsData n value)
    (hOther : heap.IsData n other)
    (hDepth : n ≤ maxNesting)
    (hEqual : heap.Equal value other) :
    heap.Equates value other := by
  have hSelf
      {items : List Value}
      {m : Nat}
      (hItems : ∀ item ∈ items, heap.IsData m item) :
      ∀ item ∈ items, heap.Equal item item :=
    fun item hMem => (hItems item hMem).equal_self
  -- Values of two kinds are unequal by computation.
  cases hValue with
  | none =>
      cases hOther with
      | none => exact .none
      | _ => exact (Bool.false_ne_true hEqual).elim
  | bool _ | int _ | float _ =>
      cases hOther with
      | bool _ | int _ | float _ => exact .number rfl rfl hEqual
      | _ => exact (Bool.false_ne_true hEqual).elim
  | str value =>
      cases hOther with
      | str other => exact beq_iff_eq.mp hEqual ▸ .str value
      | _ => exact (Bool.false_ne_true hEqual).elim
  | list hItems =>
      cases hOther with
      | list hOthers =>
          refine .list ((equal_of_contents
            (sameItems_iff_equal hItems hOthers hDepth
              (Nat.le_sub_one_of_lt hDepth)) ?_).mp hEqual)
          rintro rfl
          exact List.forall₂_same.mpr (hSelf hItems)
      | _ => exact (Bool.false_ne_true hEqual).elim
  | tuple hItems =>
      cases hOther with
      | tuple hOthers =>
          refine .tuple ((equal_of_contents
            (sameItems_iff_equal hItems hOthers hDepth
              (Nat.le_sub_one_of_lt hDepth)) ?_).mp hEqual)
          rintro rfl
          exact List.forall₂_same.mpr (hSelf hItems)
      | _ => exact (Bool.false_ne_true hEqual).elim
  | dict hKeys hValues hDistinct =>
      cases hOther with
      | dict hKeys' hValues' hDistinct' =>
          refine .dict ((equal_of_contents
            (sameEntries_iff_equal
              (fun entry hMem => ⟨hKeys entry hMem, hValues entry hMem⟩)
              (fun entry hMem => ⟨hKeys' entry hMem, hValues' entry hMem⟩)
              hDepth (Nat.le_sub_one_of_lt hDepth)) ?_).mp hEqual)
          rintro rfl
          exact ⟨rfl, fun entry hMem => ⟨entry, hMem,
            (hKeys entry hMem).equal_self, (hValues entry hMem).equal_self⟩⟩
      | _ => exact (Bool.false_ne_true hEqual).elim
  | set hItems hDistinct =>
      cases hOther with
      | set hOthers hDistinct' =>
          refine .set ((equal_of_contents
            (sameSet_iff_equal hItems hOthers hDepth
              (Nat.le_sub_one_of_lt hDepth)) ?_).mp hEqual)
          rintro rfl
          exact ⟨rfl, fun item hMem => ⟨item, hMem, hSelf hItems item hMem⟩⟩
      | _ => exact (Bool.false_ne_true hEqual).elim

/- Data is equal if and only if it has one of the reasons to be. -/
theorem IsData.equal_iff
    (hValue : heap.IsData n value)
    (hOther : heap.IsData n other)
    (hDepth : n ≤ maxNesting) :
    heap.Equal value other ↔ heap.Equates value other :=
  ⟨hValue.equates hOther hDepth,
    fun hEquates => hEquates.equal hValue hOther hDepth⟩

/- Equality of some values is symmetric and transitive. -/
structure EquivalenceOn (heap : Heap) (data : Value → Prop) : Prop where
  symm : ∀ {x y}, data x → data y → heap.Equal x y → heap.Equal y x
  trans :
    ∀ {x y z},
      data x → data y → data z →
        heap.Equal x y → heap.Equal y z → heap.Equal x z

/- No value is equal to two that are not equal to each other. -/
theorem EquivalenceOn.pairwise
    {data : Value → Prop}
    {α β : Type}
    {key : α → Value}
    {key' : β → Value}
    {left : List α}
    {right : List β}
    (hEquivalence : heap.EquivalenceOn data)
    (hLeft : ∀ x ∈ left, data (key x))
    (hRight : ∀ y ∈ right, data (key' y))
    (hDistinct :
      left.Pairwise fun x x' => heap.equal (key x) (key x') = false) :
    left.Pairwise fun x x' =>
      ∀ y ∈ right,
        heap.Equal (key x) (key' y) → ¬heap.Equal (key x') (key' y) := by
  refine hDistinct.imp_of_mem
    fun {x x'} hX hX' hUnequal y hY hFirst hSecond => ?_
  have hBack := hEquivalence.symm (hLeft x' hX') (hRight y hY) hSecond
  have hEqual :=
    hEquivalence.trans (hLeft x hX) (hRight y hY) (hLeft x' hX') hFirst hBack
  exact Bool.false_ne_true (hUnequal.symm.trans hEqual)

/- Sets that are equal can be arranged so that their items are. -/
theorem EquivalenceOn.arranged
    {data : Value → Prop}
    {left right : List Value}
    (hEquivalence : heap.EquivalenceOn data)
    (hLeft : ∀ x ∈ left, data x)
    (hRight : ∀ y ∈ right, data y)
    (hDistinct : left.Pairwise fun x x' => heap.equal x x' = false)
    (hSame : Covered heap.Equal left right) :
    Arranged heap.Equal left right :=
  hSame.arranged
    (@pairwise _ _ _ _ id id _ _ hEquivalence hLeft hRight hDistinct)

section Below

/- Data that is nested less deep than a depth. -/
def IsBelow (heap : Heap) (n : Nat) (value : Value) : Prop :=
  ∃ m, n = m + 1 ∧ heap.IsData m value

variable {a : Nat}

theorem IsData.list_items
    (hData : heap.IsData n (.list a)) :
    ∀ item ∈ (heap.list a).toList, heap.IsBelow n item := by
  cases hData with
  | list hItems => exact fun item hMem => ⟨_, rfl, hItems item hMem⟩

theorem IsData.tuple_items
    (hData : heap.IsData n (.tuple a)) :
    ∀ item ∈ (heap.tuple a).toList, heap.IsBelow n item := by
  cases hData with
  | tuple hItems => exact fun item hMem => ⟨_, rfl, hItems item hMem⟩

theorem IsData.set_items
    (hData : heap.IsData n (.set a)) :
    ∀ item ∈ (heap.set a).toList, heap.IsBelow n item := by
  cases hData with
  | set hItems hDistinct => exact fun item hMem => ⟨_, rfl, hItems item hMem⟩

theorem IsData.dict_keys
    (hData : heap.IsData n (.dict a)) :
    ∀ entry ∈ (heap.dict a).toList, heap.IsBelow n entry.1 := by
  cases hData with
  | dict hKeys hValues hDistinct =>
      exact fun entry hMem => ⟨_, rfl, hKeys entry hMem⟩

theorem IsData.dict_values
    (hData : heap.IsData n (.dict a)) :
    ∀ entry ∈ (heap.dict a).toList, heap.IsBelow n entry.2 := by
  cases hData with
  | dict hKeys hValues hDistinct =>
      exact fun entry hMem => ⟨_, rfl, hValues entry hMem⟩

theorem IsData.set_distinct
    (hData : heap.IsData n (.set a)) :
    (heap.set a).toList.Pairwise fun x x' => heap.equal x x' = false := by
  cases hData with
  | set hItems hDistinct => exact hDistinct

theorem IsData.dict_distinct
    (hData : heap.IsData n (.dict a)) :
    (heap.dict a).toList.Pairwise
      fun entry other => heap.equal entry.1 other.1 = false := by
  cases hData with
  | dict hKeys hValues hDistinct => exact hDistinct

end Below

/- Equal dicts can be arranged so that their entries are equal. -/
theorem EquivalenceOn.arranged_entries
    {a b : Nat}
    (hEquivalence : heap.EquivalenceOn (heap.IsBelow n))
    (hLeft : heap.IsData n (.dict a))
    (hRight : heap.IsData n (.dict b))
    (hSame :
      Covered (EntryRelated heap.Equal) (heap.dict a).toList
        (heap.dict b).toList) :
    Arranged (EntryRelated heap.Equal) (heap.dict a).toList
      (heap.dict b).toList := by
  refine hSame.arranged ?_
  refine (hEquivalence.pairwise hLeft.dict_keys hRight.dict_keys
    hLeft.dict_distinct).imp fun hNone y hY hFirst hSecond => ?_
  exact hNone y hY hFirst.key hSecond.key

/- Equality of containers goes both ways if that of their items does. -/
theorem Equates.symm
    (hItems : heap.EquivalenceOn (heap.IsBelow n))
    (hValue : heap.IsData n value)
    (hOther : heap.IsData n other)
    (hEquates : heap.Equates value other) :
    heap.Equates other value := by
  cases hEquates with
  | none => exact .none
  | number hNumber hNumber' hEqual =>
      exact .number hNumber' hNumber ((Number.beq_comm _ _).trans hEqual)
  | str value => exact .str value
  | list hSame =>
      refine .list (forall₂_imp_mem hSame.flip fun y hY x hX => ?_)
      exact hItems.symm (hValue.list_items x hX) (hOther.list_items y hY)
  | tuple hSame =>
      refine .tuple (forall₂_imp_mem hSame.flip fun y hY x hX => ?_)
      exact hItems.symm (hValue.tuple_items x hX) (hOther.tuple_items y hY)
  | dict hSame =>
      have hArranged := hItems.arranged_entries hValue hOther hSame
      refine .dict (hArranged.covered_flip.imp fun y hY x hX hSame => ⟨?_, ?_⟩)
      · exact hItems.symm (hValue.dict_keys x hX) (hOther.dict_keys y hY)
          hSame.key
      · exact hItems.symm (hValue.dict_values x hX) (hOther.dict_values y hY)
          hSame.value
  | set hSame =>
      have hArranged :=
        hItems.arranged hValue.set_items hOther.set_items
          hValue.set_distinct hSame
      refine .set (hArranged.covered_flip.imp fun y hY x hX => ?_)
      exact hItems.symm (hValue.set_items x hX) (hOther.set_items y hY)

/- Containers with equal items that are equal to a third one's are equal. -/
theorem Equates.trans
    {third : Value}
    (hItems : heap.EquivalenceOn (heap.IsBelow n))
    (hValue : heap.IsData n value)
    (hOther : heap.IsData n other)
    (hThird : heap.IsData n third)
    (hFirst : heap.Equates value other)
    (hSecond : heap.Equates other third) :
    heap.Equates value third := by
  cases hFirst with
  | none =>
      cases hSecond with
      | none => exact .none
      | number hNumber _ _ => cases hNumber
  | str value =>
      cases hSecond with
      | str value => exact .str value
      | number hNumber _ _ => cases hNumber
  | number hNumber hNumber' hEqual =>
      cases hSecond with
      | number hMiddle hLast hEqual' =>
          cases hNumber'.symm.trans hMiddle
          exact .number hNumber hLast (Number.beq_trans hEqual hEqual')
      | _ => cases hNumber'
  | list hSame =>
      cases hSecond with
      | number hNumber _ _ => cases hNumber
      | list hSame' =>
          refine .list (forall₂_trans hSame hSame' fun x hX y hY z hZ => ?_)
          exact hItems.trans (hValue.list_items x hX)
            (hOther.list_items y hY) (hThird.list_items z hZ)
  | tuple hSame =>
      cases hSecond with
      | number hNumber _ _ => cases hNumber
      | tuple hSame' =>
          refine .tuple (forall₂_trans hSame hSame' fun x hX y hY z hZ => ?_)
          exact hItems.trans (hValue.tuple_items x hX)
            (hOther.tuple_items y hY) (hThird.tuple_items z hZ)
  | dict hSame =>
      cases hSecond with
      | number hNumber _ _ => cases hNumber
      | dict hSame' =>
          refine .dict (hSame.trans hSame'
            fun x hX y hY z hZ hLeft hRight => ⟨?_, ?_⟩)
          · exact hItems.trans (hValue.dict_keys x hX)
              (hOther.dict_keys y hY) (hThird.dict_keys z hZ) hLeft.key
              hRight.key
          · exact hItems.trans (hValue.dict_values x hX)
              (hOther.dict_values y hY) (hThird.dict_values z hZ)
              hLeft.value hRight.value
  | set hSame =>
      cases hSecond with
      | number hNumber _ _ => cases hNumber
      | set hSame' =>
          refine .set (hSame.trans hSame' fun x hX y hY z hZ => ?_)
          exact hItems.trans (hValue.set_items x hX) (hOther.set_items y hY)
            (hThird.set_items z hZ)

theorem EquivalenceOn.mono
    {data data' : Value → Prop}
    (hEquivalence : heap.EquivalenceOn data)
    (hData : ∀ value, data' value → data value) :
    heap.EquivalenceOn data' where
  symm := fun hX hY => hEquivalence.symm (hData _ hX) (hData _ hY)
  trans := fun hX hY hZ =>
    hEquivalence.trans (hData _ hX) (hData _ hY) (hData _ hZ)

theorem EquivalenceOn.below
    (hItems : ∀ m, n = m + 1 → heap.EquivalenceOn (heap.IsData m)) :
    heap.EquivalenceOn (heap.IsBelow n) := by
  constructor
  · rintro x y ⟨m, hBelow, hX⟩ ⟨_, rfl, hY⟩
    cases hBelow
    exact (hItems m rfl).symm hX hY
  · rintro x y z ⟨m, hBelow, hX⟩ ⟨_, hBelow', hY⟩ ⟨_, rfl, hZ⟩
    cases hBelow
    cases hBelow'
    exact (hItems m rfl).trans hX hY hZ

/- Equality of data is an equivalence. -/
theorem equivalenceOn_data
    (heap : Heap)
    (hDepth : n ≤ maxNesting) :
    heap.EquivalenceOn (heap.IsData n) := by
  induction n using Nat.strongRecOn with
  | ind n ih =>
      -- The items of containers are compared less deep.
      have hItems : heap.EquivalenceOn (heap.IsBelow n) :=
        .below fun m hBelow => ih m (by omega) (by omega)
      constructor
      · intro x y hX hY hEqual
        have hEquates := (hX.equal_iff hY hDepth).mp hEqual
        exact (hY.equal_iff hX hDepth).mpr (hEquates.symm hItems hX hY)
      · intro x y z hX hY hZ hFirst hSecond
        have hEquates := (hX.equal_iff hY hDepth).mp hFirst
        have hEquates' := (hY.equal_iff hZ hDepth).mp hSecond
        exact (hX.equal_iff hZ hDepth).mpr
          (hEquates.trans hItems hX hY hZ hEquates')

theorem equivalenceOn_below
    (heap : Heap)
    (hDepth : n ≤ maxNesting) :
    heap.EquivalenceOn (heap.IsBelow n) :=
  .below fun _ hBelow => heap.equivalenceOn_data (by omega)

------------------------------------------------------------
-- Comparisons in One Direction
------------------------------------------------------------

section Directions

variable {a b : Nat}

/- If each item of a set is equal to one of another of its size, so is each of the other's. -/
theorem covered_set_symm
    (hLeft : heap.IsData n (.set a))
    (hRight : heap.IsData n (.set b))
    (hDepth : n ≤ maxNesting)
    (hCovered :
      Covered heap.Equal (heap.set a).toList (heap.set b).toList) :
    Covered heap.Equal (heap.set b).toList (heap.set a).toList := by
  have hBack :=
    (Equates.set hCovered).symm (heap.equivalenceOn_below hDepth) hLeft hRight
  cases hBack with
  | set hItems => exact hItems
  | number hNumber _ _ => cases hNumber

theorem covered_dict_symm
    (hLeft : heap.IsData n (.dict a))
    (hRight : heap.IsData n (.dict b))
    (hDepth : n ≤ maxNesting)
    (hCovered :
      Covered (EntryRelated heap.Equal) (heap.dict a).toList
        (heap.dict b).toList) :
    Covered (EntryRelated heap.Equal) (heap.dict b).toList
      (heap.dict a).toList := by
  have hBack :=
    (Equates.dict hCovered).symm (heap.equivalenceOn_below hDepth) hLeft hRight
  cases hBack with
  | dict hEntries => exact hEntries
  | number hNumber _ _ => cases hNumber

theorem sameSet_comm
    (hLeft : heap.IsData n (.set a))
    (hRight : heap.IsData n (.set b))
    (hDepth : n ≤ maxNesting)
    (hContents : n ≤ m + 1) :
    sameSet (heap.equalTo m) (heap.set a) (heap.set b) =
      sameSet (heap.equalTo m) (heap.set b) (heap.set a) := by
  have hForth := covered_set_symm hLeft hRight hDepth
  have hBack := covered_set_symm hRight hLeft hDepth
  cases hLeft with
  | set hItems _ =>
      cases hRight with
      | set hOthers _ =>
          have hBelow := Nat.le_of_succ_le_succ hContents
          rw [Bool.eq_iff_iff, sameSet_iff_equal hItems hOthers hDepth hBelow,
            sameSet_iff_equal hOthers hItems hDepth hBelow]
          exact ⟨hForth, hBack⟩

theorem sameEntries_comm
    (hLeft : heap.IsData n (.dict a))
    (hRight : heap.IsData n (.dict b))
    (hDepth : n ≤ maxNesting)
    (hContents : n ≤ m + 1) :
    sameEntries (heap.equalTo m) (heap.dict a) (heap.dict b) =
      sameEntries (heap.equalTo m) (heap.dict b) (heap.dict a) := by
  have hForth := covered_dict_symm hLeft hRight hDepth
  have hBack := covered_dict_symm hRight hLeft hDepth
  cases hLeft with
  | dict hKeys hValues _ =>
      cases hRight with
      | dict hKeys' hValues' _ =>
          have hBelow := Nat.le_of_succ_le_succ hContents
          have hEntries entry hMem := And.intro (hKeys entry hMem) (hValues entry hMem)
          have hEntries' entry hMem := And.intro (hKeys' entry hMem) (hValues' entry hMem)
          rw [Bool.eq_iff_iff,
            sameEntries_iff_equal hEntries hEntries' hDepth hBelow,
            sameEntries_iff_equal hEntries' hEntries hDepth hBelow]
          exact ⟨hForth, hBack⟩

end Directions

/-
  Equality of data is an equivalence. The comparisons of sets
  and dicts, which look for the contents of one among those of
  the other, give the same either way round, at each depth that
  the contents do not exceed.
-/
theorem equal_equivalence
    (heap : Heap)
    (hDepth : n ≤ maxNesting) :
    Equivalence
        (fun x y : { value // heap.IsData n value } => heap.Equal x y) ∧
      (∀ a b depth,
        heap.IsData n (.set a) →
          heap.IsData n (.set b) →
            n ≤ depth + 1 →
              sameSet (heap.equalTo depth) (heap.set a) (heap.set b) =
                sameSet (heap.equalTo depth) (heap.set b) (heap.set a)) ∧
      ∀ a b depth,
        heap.IsData n (.dict a) →
          heap.IsData n (.dict b) →
            n ≤ depth + 1 →
              sameEntries (heap.equalTo depth) (heap.dict a) (heap.dict b) =
                sameEntries (heap.equalTo depth) (heap.dict b)
                  (heap.dict a) := by
  have hEquivalence := heap.equivalenceOn_data hDepth
  refine ⟨⟨fun x => x.2.equal_self, fun {x y} => hEquivalence.symm x.2 y.2,
    fun {x y z} => hEquivalence.trans x.2 y.2 z.2⟩, ?_, ?_⟩
  · intro a b depth hLeft hRight hContents
    exact sameSet_comm hLeft hRight hDepth hContents
  · intro a b depth hLeft hRight hContents
    exact sameEntries_comm hLeft hRight hDepth hContents

/- Two sets of equal items of different types, in different orders. -/
theorem equal_equivalence_sets :
    let heap : Heap :=
      { sets := #[#[.int 1, .str "a"], #[.str "a", .bool true]] }
    1 ≤ maxNesting ∧
      heap.IsData 1 (.set 0) ∧
      heap.IsData 1 (.set 1) ∧
      heap.equal (.set 0) (.set 1) = true ∧
      heap.equal (.set 1) (.set 0) = true ∧
      sameSet (heap.equalTo 0) (heap.set 0) (heap.set 1) =
        sameSet (heap.equalTo 0) (heap.set 1) (heap.set 0) := by
  intro heap
  have hFirst : heap.IsData 1 (.set 0) := by
    refine .set (fun item hMem => ?_) (by decide)
    rcases List.mem_pair.mp hMem with rfl | rfl
    · exact .int rfl
    · exact .str _
  have hSecond : heap.IsData 1 (.set 1) := by
    refine .set (fun item hMem => ?_) (by decide)
    rcases List.mem_pair.mp hMem with rfl | rfl
    · exact .str _
    · exact .bool _
  have hEqual : heap.equal (.set 0) (.set 1) = true := by decide +kernel
  obtain ⟨hEquivalence, hSets, _⟩ := equal_equivalence (n := 1) heap (by decide)
  exact ⟨by decide, hFirst, hSecond, hEqual,
    hEquivalence.symm (x := ⟨_, hFirst⟩) (y := ⟨_, hSecond⟩) hEqual,
    hSets 0 1 0 hFirst hSecond le_rfl⟩

end Equivalence

end Heap

end SnippetGrader
