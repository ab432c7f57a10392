import SnippetGrader.Proofs.Evaluation.Data

/-
  Equality of plain data.

  Whether two values are equal depends only on the data that they
  hold: values with the same data are equal, at whatever
  addresses it is, and containers with other data are compared by
  what is in them.

  Key definitions include:
    * `Heap.Shared`, `Heap.ShareOne`, `Heap.AgreeOn`
    * `Heap.Differ`

  Key theorems include:
    * `Heap.Holds.equalTo_eq_true`
    * `Heap.Shared.equalTo_eq_of_parts`
    * `Heap.Shared.equalTo_eq`
    * `Heap.pairwise_unequal_iff`
-/

namespace SnippetGrader

namespace Heap

------------------------------------------------------------
-- Equality of Data
------------------------------------------------------------

section Contents

variable {α β γ δ : Type}

theorem size_eq_of_forall₂
    {paired : α → β → Prop}
    {xs : Array α}
    {ys : Array β}
    (hPaired : List.Forall₂ paired xs.toList ys.toList) :
    xs.size = ys.size := by
  rw [← Array.length_toList, hPaired.length_eq, Array.length_toList]

/- Each item is related to one of another container of equal size. -/
theorem covered_eq
    {first : α → β → Prop}
    {second : γ → δ → Prop}
    {test : α → γ → Bool}
    {test' : β → δ → Bool}
    {left : Array α}
    {left' : Array β}
    {right : Array γ}
    {right' : Array δ}
    (hLeft : List.Forall₂ first left.toList left'.toList)
    (hRight : List.Forall₂ second right.toList right'.toList)
    (hSame :
      ∀ x x' y y', first x x' → second y y' → test x y = test' x' y') :
    (left.size == right.size &&
        left.all fun x => right.any fun y => test x y) =
      (left'.size == right'.size &&
        left'.all fun x => right'.any fun y => test' x y) := by
  have hAny (x : α) (x' : β) (hItem : first x x') :
      (right.any fun y => test x y) = right'.any fun y => test' x' y := by
    rw [← Array.any_toList, ← Array.any_toList]
    exact (all_and_any_eq hRight fun y y' => hSame _ _ _ _ hItem).2
  have hAll := (all_and_any_eq hLeft hAny).1
  rw [Array.all_toList, Array.all_toList] at hAll
  rw [hAll, size_eq_of_forall₂ hLeft, size_eq_of_forall₂ hRight]

section Pairs

variable {first second : Value → Value → Prop}
variable {related related' : Relation}
variable
  (hSame :
    ∀ x x' y y', first x x' → second y y' → related x y = related' x' y')

include hSame

theorem sameItems_eq
    {left left' right right' : Array Value}
    (hLeft : List.Forall₂ first left.toList left'.toList)
    (hRight : List.Forall₂ second right.toList right'.toList) :
    sameItems related left right = sameItems related' left' right' := by
  have hZip :=
    all_and_any_eq (forall₂_zip hLeft hRight)
      fun x y hPaired => hSame _ _ _ _ hPaired.1 hPaired.2
  unfold sameItems
  rw [size_eq_of_forall₂ hLeft, size_eq_of_forall₂ hRight]
  exact congrArg _ hZip.1

theorem sameEntries_eq
    {left left' right right' : Array (Value × Value)}
    (hLeft :
      List.Forall₂
        (fun entry entry' => first entry.1 entry'.1 ∧ first entry.2 entry'.2)
        left.toList left'.toList)
    (hRight :
      List.Forall₂
        (fun entry entry' => second entry.1 entry'.1 ∧ second entry.2 entry'.2)
        right.toList right'.toList) :
    sameEntries related left right = sameEntries related' left' right' := by
  refine covered_eq hLeft hRight fun entry entry' other other' hFirst hSecond => ?_
  change
    (related entry.1 other.1 && related entry.2 other.2) =
      (related' entry'.1 other'.1 && related' entry'.2 other'.2)
  rw [hSame _ _ _ _ hFirst.1 hSecond.1, hSame _ _ _ _ hFirst.2 hSecond.2]

end Pairs

/- Containers whose items are related in order are related. -/
theorem covered_of_forall₂
    {test : α → β → Bool}
    {left : Array α}
    {right : Array β}
    (hItems :
      List.Forall₂ (fun x y => test x y = true) left.toList right.toList) :
    (left.size == right.size &&
      left.all fun x => right.any fun y => test x y) = true := by
  rw [Bool.and_eq_true, ← Array.all_toList, List.all_eq_true]
  refine ⟨beq_iff_eq.mpr (size_eq_of_forall₂ hItems), fun x hMem => ?_⟩
  rw [← Array.any_toList, List.any_eq_true]
  exact exists_of_mem hItems x hMem

theorem sameItems_of_forall₂
    {related : Relation}
    {left right : Array Value}
    (hItems :
      List.Forall₂ (fun x y => related x y = true) left.toList
        right.toList) :
    sameItems related left right = true := by
  unfold sameItems
  rw [size_eq_of_forall₂ hItems, beq_self_eq_true, Bool.true_and,
    List.all_eq_true]
  exact fun pair hMem => List.forall₂_zip hItems hMem

end Contents

/- An integer stands for a number in a comparison. -/
theorem isNaN_wordToFloat
    (n : Int) :
    (Number.wordToFloat n).isNaN = false := by
  have hNumber := (Number.unsigned_toFloat n.natAbs.toUInt64).1
  unfold Number.wordToFloat
  split
  · exact Number.isNaN_neg hNumber
  · exact hNumber

/- How two constants are compared does not depend on the depth. -/
theorem exists_equalTo_eq
    (heap : Heap)
    (n : Nat) :
    ∃ contents, heap.equalTo n = heap.equalBy contents := by
  cases n with
  | zero => exact ⟨none, rfl⟩
  | succ n => exact ⟨_, rfl⟩

section Containers

variable {heap : Heap}
variable {n a b : Nat}

theorem equalTo_list :
    heap.equalTo (n + 1) (.list a) (.list b) =
      (a == b || sameItems (heap.equalTo n) (heap.list a) (heap.list b)) := rfl

theorem equalTo_tuple :
    heap.equalTo (n + 1) (.tuple a) (.tuple b) =
      (a == b ||
        sameItems (heap.equalTo n) (heap.tuple a) (heap.tuple b)) := rfl

theorem equalTo_dict :
    heap.equalTo (n + 1) (.dict a) (.dict b) =
      (a == b ||
        sameEntries (heap.equalTo n) (heap.dict a) (heap.dict b)) := rfl

theorem equalTo_set :
    heap.equalTo (n + 1) (.set a) (.set b) =
      (a == b || sameSet (heap.equalTo n) (heap.set a) (heap.set b)) := rfl

end Containers

/- Values that hold the same data are equal. -/
theorem Holds.equalTo_eq_true
    {heap : Heap}
    {value other : Value}
    {datum : Datum}
    {n : Nat}
    (hValue : heap.Holds value datum)
    (hOther : heap.Holds other datum)
    (hDepth : datum.depth ≤ n) :
    heap.equalTo n value other = true := by
  induction datum using Datum.induct generalizing value other n with
  | step datum ih =>
      have hItems
          {m : Nat}
          (hSucc : n = m + 1)
          {values others : List Value}
          {items : List Datum}
          (hParts : items ⊆ datum.parts)
          (hFirst : List.Forall₂ heap.Holds values items)
          (hSecond : List.Forall₂ heap.Holds others items) :
          List.Forall₂ (fun x y => heap.equalTo m x y = true) values
            others := by
        refine (forall₂_of_forall₂ hFirst hSecond).imp fun x y hSame => ?_
        obtain ⟨item, hMem, hX, hY⟩ := hSame
        exact ih item (hParts hMem) hX hY
          (Datum.depth_part_le (hSucc ▸ hDepth) (hParts hMem))
      obtain ⟨contents, hContents⟩ := heap.exists_equalTo_eq n
      cases hValue with
      | none =>
          cases hOther
          rw [hContents]
          rfl
      | bool value =>
          cases hOther
          rw [hContents]
          cases value <;> rfl
      | int hRange =>
          cases hOther
          rw [hContents]
          exact Number.beq_self (isNaN_wordToFloat _)
      | float hFinite =>
          cases hOther
          rw [hContents]
          exact Number.beq_self hFinite.number
      | str value =>
          cases hOther
          rw [hContents]
          exact beq_self_eq_true value
      | list hAddress hFirst =>
          cases hOther with
          | list hAddress' hSecond =>
              obtain ⟨m, rfl⟩ := Datum.exists_succ rfl hDepth
              rw [equalTo_list, Bool.or_eq_true]
              exact .inr (sameItems_of_forall₂
                (hItems rfl (List.Subset.refl _) hFirst hSecond))
      | tuple hAddress hFirst =>
          cases hOther with
          | tuple hAddress' hSecond =>
              obtain ⟨m, rfl⟩ := Datum.exists_succ rfl hDepth
              rw [equalTo_tuple, Bool.or_eq_true]
              exact .inr (sameItems_of_forall₂
                (hItems rfl (List.Subset.refl _) hFirst hSecond))
      | set hAddress hFirst hDistinct =>
          cases hOther with
          | set hAddress' hSecond hDistinct' =>
              obtain ⟨m, rfl⟩ := Datum.exists_succ rfl hDepth
              rw [equalTo_set, Bool.or_eq_true]
              exact .inr (covered_of_forall₂
                (hItems rfl (List.Subset.refl _) hFirst hSecond))
      | dict hAddress hKeys hValues hDistinct =>
          cases hOther with
          | dict hAddress' hKeys' hValues' hDistinct' =>
              obtain ⟨m, rfl⟩ := Datum.exists_succ rfl hDepth
              rw [equalTo_dict, Bool.or_eq_true]
              have hEntries :=
                forall₂_pairs
                  (hItems rfl (List.subset_append_left _ _) hKeys hKeys')
                  (hItems rfl (List.subset_append_right _ _) hValues hValues')
              refine .inr (covered_of_forall₂ ?_)
              exact hEntries.imp fun x y hSame => Bool.and_eq_true_iff.mpr hSame

------------------------------------------------------------
-- Data in Two Heaps
------------------------------------------------------------

section TwoHeaps

variable {heap heap' : Heap}

/- Two values, one in each of two heaps, that hold the same data. -/
structure Shared
    (heap heap' : Heap)
    (datum : Datum)
    (value value' : Value) :
    Prop where
  left : heap.Holds value datum
  right : heap'.Holds value' datum

/- The same constant, or two containers of one kind. -/
inductive Corresponds : Value → Value → Prop
  | none : Corresponds .none .none
  | bool (value : Bool) : Corresponds (.bool value) (.bool value)
  | int (value : Int) : Corresponds (.int value) (.int value)
  | float (value : Float) : Corresponds (.float value) (.float value)
  | str (value : String) : Corresponds (.str value) (.str value)
  | list (a a' : Nat) : Corresponds (.list a) (.list a')
  | tuple (a a' : Nat) : Corresponds (.tuple a) (.tuple a')
  | dict (a a' : Nat) : Corresponds (.dict a) (.dict a')
  | set (a a' : Nat) : Corresponds (.set a) (.set a')

theorem Shared.corresponds
    {datum : Datum}
    {value value' : Value}
    (hShared : Shared heap heap' datum value value') :
    Corresponds value value' := by
  obtain ⟨hLeft, hRight⟩ := hShared
  cases hLeft <;> cases hRight <;> constructor

/- Two values that hold the same one of some data. -/
def ShareOne
    (heap heap' : Heap)
    (parts : List Datum)
    (value value' : Value) :
    Prop :=
  ∃ part ∈ parts, heap.Holds value part ∧ heap'.Holds value' part

/- Values that hold some of the data are compared alike in two heaps. -/
def AgreeOn
    (heap heap' : Heap)
    (n : Nat)
    (parts others : List Datum) :
    Prop :=
  ∀ x x' y y',
    ShareOne heap heap' parts x x' →
      ShareOne heap heap' others y y' →
        heap.equalTo n x y = heap'.equalTo n x' y'

theorem ShareOne.of_subset
    {parts others : List Datum}
    {value value' : Value}
    (hShared : ShareOne heap heap' parts value value')
    (hSubset : parts ⊆ others) :
    ShareOne heap heap' others value value' := by
  obtain ⟨part, hMem, hPart⟩ := hShared
  exact ⟨part, hSubset hMem, hPart⟩

namespace Shared

variable {a a' b b' : Nat}
variable {items others : List Datum}
variable {entries otherEntries : List (Datum × Datum)}

theorem list_items
    (hShared : Shared heap heap' (.list items) (.list a) (.list a')) :
    List.Forall₂ (ShareOne heap heap' items) (heap.list a).toList
      (heap'.list a').toList := by
  cases hShared.left with
  | list _ hLeft =>
      cases hShared.right with
      | list _ hRight => exact forall₂_of_forall₂ hLeft hRight

theorem tuple_items
    (hShared : Shared heap heap' (.tuple items) (.tuple a) (.tuple a')) :
    List.Forall₂ (ShareOne heap heap' items) (heap.tuple a).toList
      (heap'.tuple a').toList := by
  cases hShared.left with
  | tuple _ hLeft =>
      cases hShared.right with
      | tuple _ hRight => exact forall₂_of_forall₂ hLeft hRight

theorem set_items
    (hShared : Shared heap heap' (.set items) (.set a) (.set a')) :
    List.Forall₂ (ShareOne heap heap' items) (heap.set a).toList
      (heap'.set a').toList := by
  cases hShared.left with
  | set _ hLeft _ =>
      cases hShared.right with
      | set _ hRight _ => exact forall₂_of_forall₂ hLeft hRight

theorem dict_entries
    (hShared : Shared heap heap' (.dict entries) (.dict a) (.dict a')) :
    List.Forall₂
      (fun entry entry' =>
        ShareOne heap heap' (Datum.dict entries).parts entry.1 entry'.1 ∧
          ShareOne heap heap' (Datum.dict entries).parts entry.2 entry'.2)
      (heap.dict a).toList (heap'.dict a').toList := by
  cases hShared.left with
  | dict _ hKeys hValues _ =>
      cases hShared.right with
      | dict _ hKeys' hValues' _ =>
          have hSharedKeys := forall₂_of_forall₂ hKeys hKeys'
          have hSharedValues := forall₂_of_forall₂ hValues hValues'
          refine forall₂_pairs (hSharedKeys.imp fun _ _ hKey => ?_)
            (hSharedValues.imp fun _ _ hValue => ?_)
          · exact ShareOne.of_subset hKey (List.subset_append_left _ _)
          · exact ShareOne.of_subset hValue (List.subset_append_right _ _)

/- Containers with other data are not at the same address. -/
theorem address_ne
    {datum second : Datum}
    (kind : Nat → Value)
    (hFirst : Shared heap heap' datum (kind a) (kind a'))
    (hSecond : Shared heap heap' second (kind b) (kind b'))
    (hDiffer : datum ≠ second) :
    (a == b) = false ∧ (a' == b') = false := by
  rw [beq_eq_false_iff_ne, beq_eq_false_iff_ne]
  constructor
  · rintro rfl
    exact hDiffer (hFirst.left.datum_unique hSecond.left)
  · rintro rfl
    exact hDiffer (hFirst.right.datum_unique hSecond.right)

theorem equalTo_list_eq
    {n : Nat}
    (hFirst : Shared heap heap' (.list items) (.list a) (.list a'))
    (hSecond : Shared heap heap' (.list others) (.list b) (.list b'))
    (hDiffer : Datum.list items ≠ .list others)
    (hAgree : AgreeOn heap heap' n items others) :
    heap.equalTo (n + 1) (.list a) (.list b) =
      heap'.equalTo (n + 1) (.list a') (.list b') := by
  obtain ⟨hLeft, hRight⟩ := hFirst.address_ne .list hSecond hDiffer
  rw [equalTo_list, equalTo_list, hLeft, hRight,
    sameItems_eq hAgree hFirst.list_items hSecond.list_items]

theorem equalTo_tuple_eq
    {n : Nat}
    (hFirst : Shared heap heap' (.tuple items) (.tuple a) (.tuple a'))
    (hSecond : Shared heap heap' (.tuple others) (.tuple b) (.tuple b'))
    (hDiffer : Datum.tuple items ≠ .tuple others)
    (hAgree : AgreeOn heap heap' n items others) :
    heap.equalTo (n + 1) (.tuple a) (.tuple b) =
      heap'.equalTo (n + 1) (.tuple a') (.tuple b') := by
  obtain ⟨hLeft, hRight⟩ := hFirst.address_ne .tuple hSecond hDiffer
  rw [equalTo_tuple, equalTo_tuple, hLeft, hRight,
    sameItems_eq hAgree hFirst.tuple_items hSecond.tuple_items]

theorem equalTo_set_eq
    {n : Nat}
    (hFirst : Shared heap heap' (.set items) (.set a) (.set a'))
    (hSecond : Shared heap heap' (.set others) (.set b) (.set b'))
    (hDiffer : Datum.set items ≠ .set others)
    (hAgree : AgreeOn heap heap' n items others) :
    heap.equalTo (n + 1) (.set a) (.set b) =
      heap'.equalTo (n + 1) (.set a') (.set b') := by
  obtain ⟨hLeft, hRight⟩ := hFirst.address_ne .set hSecond hDiffer
  rw [equalTo_set, equalTo_set, hLeft, hRight]
  exact congrArg (false || ·)
    (covered_eq hFirst.set_items hSecond.set_items hAgree)

theorem equalTo_dict_eq
    {n : Nat}
    (hFirst : Shared heap heap' (.dict entries) (.dict a) (.dict a'))
    (hSecond : Shared heap heap' (.dict otherEntries) (.dict b) (.dict b'))
    (hDiffer : Datum.dict entries ≠ .dict otherEntries)
    (hAgree :
      AgreeOn heap heap' n (Datum.dict entries).parts
        (Datum.dict otherEntries).parts) :
    heap.equalTo (n + 1) (.dict a) (.dict b) =
      heap'.equalTo (n + 1) (.dict a') (.dict b') := by
  obtain ⟨hLeft, hRight⟩ := hFirst.address_ne .dict hSecond hDiffer
  rw [equalTo_dict, equalTo_dict, hLeft, hRight,
    sameEntries_eq hAgree hFirst.dict_entries hSecond.dict_entries]

/- Values with different data are compared alike if their parts are. -/
theorem equalTo_eq_of_parts
    {value value' other other' : Value}
    {datum second : Datum}
    {n : Nat}
    (hFirst : Shared heap heap' datum value value')
    (hSecond : Shared heap heap' second other other')
    (hDiffer : datum ≠ second)
    (hDepth : datum.depth ≤ n)
    (hAgree :
      ∀ m, n = m + 1 → AgreeOn heap heap' m datum.parts second.parts) :
    heap.equalTo n value other = heap'.equalTo n value' other' := by
  -- Only two containers of one kind are compared by what is in them.
  obtain ⟨contents, hContents⟩ := heap.exists_equalTo_eq n
  obtain ⟨contents', hContents'⟩ := heap'.exists_equalTo_eq n
  have hOthers := hSecond.corresponds
  cases hFirst.corresponds with
  | none | bool _ | int _ | float _ | str _ =>
      rw [hContents, hContents']
      cases hOthers <;> rfl
  | list a a' =>
      cases hOthers with
      | list b b' =>
          obtain ⟨items, rfl⟩ := hFirst.left.exists_list
          obtain ⟨others, rfl⟩ := hSecond.left.exists_list
          obtain ⟨m, rfl⟩ := Datum.exists_succ rfl hDepth
          exact hFirst.equalTo_list_eq hSecond hDiffer (hAgree m rfl)
      | _ =>
          rw [hContents, hContents']
          rfl
  | tuple a a' =>
      cases hOthers with
      | tuple b b' =>
          obtain ⟨items, rfl⟩ := hFirst.left.exists_tuple
          obtain ⟨others, rfl⟩ := hSecond.left.exists_tuple
          obtain ⟨m, rfl⟩ := Datum.exists_succ rfl hDepth
          exact hFirst.equalTo_tuple_eq hSecond hDiffer (hAgree m rfl)
      | _ =>
          rw [hContents, hContents']
          rfl
  | set a a' =>
      cases hOthers with
      | set b b' =>
          obtain ⟨items, rfl⟩ := hFirst.left.exists_set
          obtain ⟨others, rfl⟩ := hSecond.left.exists_set
          obtain ⟨m, rfl⟩ := Datum.exists_succ rfl hDepth
          exact hFirst.equalTo_set_eq hSecond hDiffer (hAgree m rfl)
      | _ =>
          rw [hContents, hContents']
          rfl
  | dict a a' =>
      cases hOthers with
      | dict b b' =>
          obtain ⟨entries, rfl⟩ := hFirst.left.exists_dict
          obtain ⟨others, rfl⟩ := hSecond.left.exists_dict
          obtain ⟨m, rfl⟩ := Datum.exists_succ rfl hDepth
          exact hFirst.equalTo_dict_eq hSecond hDiffer (hAgree m rfl)
      | _ =>
          rw [hContents, hContents']
          rfl

end Shared

/- Whether two values are equal depends on the data that they hold. -/
theorem Shared.equalTo_eq
    {value value' other other' : Value}
    {datum second : Datum}
    {n : Nat}
    (hFirst : Shared heap heap' datum value value')
    (hSecond : Shared heap heap' second other other')
    (hDepth : datum.depth ≤ n)
    (hDepth' : second.depth ≤ n) :
    heap.equalTo n value other = heap'.equalTo n value' other' := by
  induction datum using Datum.induct
    generalizing n value value' other other' second with
  | step datum ih =>
      by_cases hSame : datum = second
      · -- Values with the same data are equal, at whatever addresses they are.
        subst hSame
        rw [hFirst.left.equalTo_eq_true hSecond.left hDepth,
          hFirst.right.equalTo_eq_true hSecond.right hDepth]
      · refine hFirst.equalTo_eq_of_parts hSecond hSame hDepth ?_
        rintro m rfl x x' y y' ⟨part, hPart, hX⟩ ⟨other, hOther, hY⟩
        exact ih part hPart ⟨hX.1, hX.2⟩ ⟨hY.1, hY.2⟩
          (Datum.depth_part_le hDepth hPart)
          (Datum.depth_part_le hDepth' hOther)

end TwoHeaps

------------------------------------------------------------
-- Unequal Data
------------------------------------------------------------

/- Data that is not equal wherever values hold it. -/
def Differ (first second : Datum) : Prop :=
  ∀ (heap : Heap) (value other : Value),
    heap.Holds value first →
      heap.Holds other second →
        heap.equal value other = false

/- Values are unequal to each other if and only if their data is. -/
theorem pairwise_unequal_iff
    {heap : Heap}
    {values : List Value}
    {items : List Datum}
    (hItems : List.Forall₂ heap.Holds values items)
    (hDepth : ∀ item ∈ items, item.depth ≤ maxNesting) :
    (values.Pairwise fun x y => heap.equal x y = false) ↔
      items.Pairwise Differ := by
  refine pairwise_iff_of_forall₂
    (forall₂_imp hItems fun value item hMem hItem =>
      And.intro hItem (hDepth item hMem)) ?_
  rintro value other item second ⟨hValue, hItem⟩ ⟨hOther, hSecond⟩
  constructor
  · intro hUnequal heap' value' other' hValue' hOther'
    have hFirst : Shared heap' heap item value' value := ⟨hValue', hValue⟩
    have hBoth : Shared heap' heap second other' other := ⟨hOther', hOther⟩
    exact (hFirst.equalTo_eq hBoth hItem hSecond).trans hUnequal
  · intro hDiffer
    exact hDiffer heap value other hValue hOther

end Heap

end SnippetGrader
