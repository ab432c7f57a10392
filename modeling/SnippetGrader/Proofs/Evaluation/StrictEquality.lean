import SnippetGrader.Grading.Condition
import SnippetGrader.Proofs.Evaluation.Equivalence

/-
  Strict equality of data.

  Values are strictly the same if they have the same type and the
  same contents, all the way down. Two values that are strictly
  the same are strictly equal, but not the other way round:
  integers are equal by their nearest floats, and the items of
  sets are equal across their types.

  Key definitions include:
    * `Heap.AlikeBy`
    * `Heap.StrictlySame`, `Heap.Matches`
    * `Heap.IsPrecise`

  Key theorems include:
    * `Heap.IsData.strictlyEqualTo_iff`
    * `Heap.strictlyEqual_iff`
-/

namespace SnippetGrader

namespace Heap

------------------------------------------------------------
-- Strict Equality
------------------------------------------------------------

/-
  Values of one type with alike contents, given which integers
  are alike, which items of lists, tuples and dicts, and which
  items of sets. The entries of a dict and the items of a set may
  come in any order.
-/
inductive AlikeBy
    (heap : Heap)
    (integers : Int → Int → Prop)
    (contents setItems : Value → Value → Prop) :
    Value → Value → Prop
  | none : AlikeBy heap integers contents setItems .none .none
  | bool
      (value : Bool) :
      AlikeBy heap integers contents setItems (.bool value) (.bool value)
  | int
      {m n : Int}
      (hSame : integers m n) :
      AlikeBy heap integers contents setItems (.int m) (.int n)
  | float
      {x y : Float}
      (hSame : (x == y) = true) :
      AlikeBy heap integers contents setItems (.float x) (.float y)
  | str
      (value : String) :
      AlikeBy heap integers contents setItems (.str value) (.str value)
  | list
      {a b : Nat}
      (hItems :
        List.Forall₂ contents (heap.list a).toList (heap.list b).toList) :
      AlikeBy heap integers contents setItems (.list a) (.list b)
  | tuple
      {a b : Nat}
      (hItems :
        List.Forall₂ contents (heap.tuple a).toList (heap.tuple b).toList) :
      AlikeBy heap integers contents setItems (.tuple a) (.tuple b)
  | dict
      {a b : Nat}
      {arranged : List (Value × Value)}
      (hOrder : arranged.Perm (heap.dict b).toList)
      (hKeys :
        List.Forall₂ contents ((heap.dict a).toList.map (·.1))
          (arranged.map (·.1)))
      (hValues :
        List.Forall₂ contents ((heap.dict a).toList.map (·.2))
          (arranged.map (·.2))) :
      AlikeBy heap integers contents setItems (.dict a) (.dict b)
  | set
      {a b : Nat}
      {arranged : List Value}
      (hOrder : arranged.Perm (heap.set b).toList)
      (hItems : List.Forall₂ setItems (heap.set a).toList arranged) :
      AlikeBy heap integers contents setItems (.set a) (.set b)

/- Values with equal contents of the same types, all the way down. -/
inductive StrictlySame (heap : Heap) : Value → Value → Prop
  | alike
      {left right : Value}
      (hAlike :
        AlikeBy heap (· = ·) (StrictlySame heap) (StrictlySame heap) left
          right) :
      StrictlySame heap left right

/-
  Values with contents that match, all the way down to sets.
  Integers match if their nearest floats are equal, and sets if
  their items are equal.
-/
inductive Matches (heap : Heap) : Value → Value → Prop
  | alike
      {left right : Value}
      (hAlike :
        AlikeBy heap
          (fun m n => (Number.wordToFloat m == Number.wordToFloat n) = true)
          (Matches heap) heap.Equal left right) :
      Matches heap left right

/- The values right inside a container. -/
def parts (heap : Heap) : Value → List Value
  | .list a => (heap.list a).toList
  | .tuple a => (heap.tuple a).toList
  | .set a => (heap.set a).toList
  | .dict a =>
      (heap.dict a).toList.map (·.1) ++ (heap.dict a).toList.map (·.2)
  | _ => []

/- The items of a set. -/
def members (heap : Heap) : Value → List Value
  | .set a => (heap.set a).toList
  | _ => []

section Relations

variable {heap : Heap}
variable {n k : Nat}
variable {left right : Value}
variable {integers integers' : Int → Int → Prop}
variable {contents contents' setItems setItems' : Value → Value → Prop}

theorem IsData.isBelow_parts
    (hData : heap.IsData n left) :
    ∀ part ∈ heap.parts left, heap.IsBelow n part := by
  cases id hData with
  | list hItems => exact hData.list_items
  | tuple hItems => exact hData.tuple_items
  | set hItems hDistinct => exact hData.set_items
  | dict hKeys hValues hDistinct =>
      intro part hMem
      rcases List.mem_append.mp hMem with hKey | hValue
      · obtain ⟨entry, hFound, rfl⟩ := List.mem_map.mp hKey
        exact hData.dict_keys entry hFound
      · obtain ⟨entry, hFound, rfl⟩ := List.mem_map.mp hValue
        exact hData.dict_values entry hFound
  | _ => exact nofun

theorem members_subset
    (heap : Heap)
    (value : Value) :
    heap.members value ⊆ heap.parts value := by
  cases value with
  | set a => exact List.Subset.refl _
  | _ => exact List.nil_subset _

/- Alike values stay so if their integers and their parts do. -/
theorem AlikeBy.imp
    (hAlike : heap.AlikeBy integers contents setItems left right)
    (hIntegers :
      ∀ m n,
        left = .int m → right = .int n → integers m n → integers' m n)
    (hContents :
      ∀ x ∈ heap.parts left, ∀ y ∈ heap.parts right,
        contents x y → contents' x y)
    (hSetItems :
      ∀ x ∈ heap.members left, ∀ y ∈ heap.members right,
        setItems x y → setItems' x y) :
    heap.AlikeBy integers' contents' setItems' left right := by
  cases hAlike with
  | none => exact .none
  | bool value => exact .bool value
  | int hSame => exact .int (hIntegers _ _ rfl rfl hSame)
  | float hSame => exact .float hSame
  | str value => exact .str value
  | list hItems => exact .list (forall₂_imp_mem hItems hContents)
  | tuple hItems => exact .tuple (forall₂_imp_mem hItems hContents)
  | dict hOrder hKeys hValues =>
      refine .dict hOrder (forall₂_imp_mem hKeys fun x hX y hY => ?_)
        (forall₂_imp_mem hValues fun x hX y hY => ?_)
      · exact hContents x (List.mem_append_left _ hX) y
          (List.mem_append_left _ ((hOrder.map _).subset hY))
      · exact hContents x (List.mem_append_right _ hX) y
          (List.mem_append_right _ ((hOrder.map _).subset hY))
  | set hOrder hItems =>
      exact .set hOrder (forall₂_imp_mem hItems fun x hX y hY =>
        hSetItems x hX y (hOrder.subset hY))

/- The entries of alike dicts can be paired up. -/
theorem arranged_entries_iff
    {a b : Nat} :
    heap.AlikeBy integers contents setItems (.dict a) (.dict b) ↔
      Arranged (EntryRelated contents) (heap.dict a).toList
        (heap.dict b).toList := by
  constructor
  · intro hAlike
    cases hAlike with
    | dict hOrder hKeys hValues =>
        refine ⟨_, hOrder, ?_⟩
        exact (forall₂_pairs hKeys hValues).imp fun _ _ hSame =>
          ⟨hSame.1, hSame.2⟩
  · rintro ⟨arranged, hOrder, hEntries⟩
    refine .dict hOrder ?_ ?_ <;>
      rw [List.forall₂_map_left_iff, List.forall₂_map_right_iff]
    · exact hEntries.imp fun _ _ hSame => hSame.key
    · exact hEntries.imp fun _ _ hSame => hSame.value

/- Alike values are equal if their parts are. -/
theorem AlikeBy.equates
    (hAlike :
      heap.AlikeBy
        (fun m n => (Number.wordToFloat m == Number.wordToFloat n) = true)
        heap.Equal heap.Equal left right) :
    heap.Equates left right := by
  cases hAlike with
  | none => exact .none
  | bool value =>
      refine .number rfl rfl ?_
      cases value <;> rfl
  | int hSame => exact .number rfl rfl hSame
  | float hSame => exact .number rfl rfl hSame
  | str value => exact .str value
  | list hItems => exact .list hItems
  | tuple hItems => exact .tuple hItems
  | dict hOrder hKeys hValues =>
      exact .dict (arranged_entries_iff.mp
        (@AlikeBy.dict heap (· = ·) _ heap.Equal _ _ _ hOrder hKeys
          hValues)).covered
  | set hOrder hItems => exact .set (Arranged.covered ⟨_, hOrder, hItems⟩)

/- What holds of the data in two containers holds of the containers. -/
theorem IsData.induct₂
    {motive : Value → Value → Prop}
    (step :
      ∀ {m left right},
        m ≤ n → heap.IsData m left → heap.IsData m right →
          (∀ x ∈ heap.parts left, ∀ y ∈ heap.parts right, motive x y) →
            motive left right)
    (hLeft : heap.IsData n left)
    (hRight : heap.IsData n right) :
    motive left right := by
  induction n using Nat.strongRecOn generalizing left right with
  | ind n ih =>
      refine step le_rfl hLeft hRight fun x hX y hY => ?_
      obtain ⟨m, rfl, hItem⟩ := hLeft.isBelow_parts x hX
      obtain ⟨_, hSame, hItem'⟩ := hRight.isBelow_parts y hY
      cases hSame
      exact ih m (by omega) (fun hLe => step (hLe.trans (by omega))) hItem
        hItem'

/- Values that match are equal. -/
theorem Matches.equal
    (hLeft : heap.IsData n left)
    (hRight : heap.IsData n right)
    (hDepth : n ≤ maxNesting)
    (hMatches : heap.Matches left right) :
    heap.Equal left right := by
  refine @IsData.induct₂ heap n left right
    (fun left right => heap.Matches left right → heap.Equal left right)
    ?_ hLeft hRight hMatches
  rintro m left right hLe hLeft hRight hParts ⟨hAlike⟩
  refine (hLeft.equal_iff hRight (hLe.trans hDepth)).mpr (AlikeBy.equates ?_)
  exact hAlike.imp (fun _ _ _ _ => id) hParts fun _ _ _ _ => id

theorem Matches.equal_of_below
    (hLeft : heap.IsBelow n left)
    (hRight : heap.IsBelow n right)
    (hDepth : n ≤ maxNesting)
    (hMatches : heap.Matches left right) :
    heap.Equal left right := by
  obtain ⟨m, hBelow, hData⟩ := hLeft
  obtain ⟨_, rfl, hData'⟩ := hRight
  cases hBelow
  exact hMatches.equal hData hData' (by omega)

/- Values that are strictly the same match. -/
theorem StrictlySame.toMatches
    (hLeft : heap.IsData n left)
    (hRight : heap.IsData n right)
    (hDepth : n ≤ maxNesting)
    (hSame : heap.StrictlySame left right) :
    heap.Matches left right := by
  refine @IsData.induct₂ heap n left right
    (fun left right => heap.StrictlySame left right → heap.Matches left right)
    ?_ hLeft hRight hSame
  rintro m left right hLe hLeft hRight hParts ⟨hAlike⟩
  refine ⟨hAlike.imp ?_ hParts fun x hX y hY hItem => ?_⟩
  · rintro m _ - - rfl
    exact Number.beq_self (isNaN_wordToFloat m)
  · have hX' := heap.members_subset left hX
    have hY' := heap.members_subset right hY
    exact (hParts x hX' y hY' hItem).equal_of_below
      (hLeft.isBelow_parts x hX') (hRight.isBelow_parts y hY')
      (hLe.trans hDepth)

/- Data is strictly the same as itself. -/
theorem IsData.strictlySame_self
    (hData : heap.IsData n left) :
    heap.StrictlySame left left := by
  have hSelf
      {items : List Value}
      (hItems : ∀ item ∈ items, heap.StrictlySame item item) :
      List.Forall₂ heap.StrictlySame items items :=
    List.forall₂_same.mpr hItems
  induction hData with
  | none => exact ⟨.none⟩
  | bool value => exact ⟨.bool value⟩
  | int hRange => exact ⟨.int rfl⟩
  | float hNumber => exact ⟨.float (Number.beq_self hNumber)⟩
  | str value => exact ⟨.str value⟩
  | list hItems ih => exact ⟨.list (hSelf ih)⟩
  | tuple hItems ih => exact ⟨.tuple (hSelf ih)⟩
  | dict hKeys hValues hDistinct ihKeys ihValues =>
      exact ⟨.dict (.refl _) (hSelf (List.forall_mem_map.mpr ihKeys))
        (hSelf (List.forall_mem_map.mpr ihValues))⟩
  | set hItems hDistinct ih => exact ⟨.set (.refl _) (hSelf ih)⟩

------------------------------------------------------------
-- The Strict Comparison
------------------------------------------------------------

theorem strictlyEqualTo_list
    {a b : Nat} :
    heap.strictlyEqualTo (k + 1) (.list a) (.list b) =
      (a == b ||
        sameItems (heap.strictlyEqualTo k) (heap.list a) (heap.list b)) :=
  rfl

theorem strictlyEqualTo_tuple
    {a b : Nat} :
    heap.strictlyEqualTo (k + 1) (.tuple a) (.tuple b) =
      (a == b ||
        sameItems (heap.strictlyEqualTo k) (heap.tuple a) (heap.tuple b)) :=
  rfl

theorem strictlyEqualTo_dict
    {a b : Nat} :
    heap.strictlyEqualTo (k + 1) (.dict a) (.dict b) =
      (a == b ||
        sameEntries (heap.strictlyEqualTo k) (heap.dict a) (heap.dict b)) :=
  rfl

/- Values other than lists, tuples and dicts are compared as equal values are. -/
theorem exists_strictlyEqualTo_eq
    (heap : Heap)
    (k : Nat) :
    ∃ contents, heap.strictlyEqualTo k = heap.strictlyEqualBy contents := by
  cases k with
  | zero => exact ⟨none, rfl⟩
  | succ k => exact ⟨_, rfl⟩

/- Truth values are equal only to themselves. -/
theorem bool_eq_of_equal
    {first second : Bool}
    (hEqual : heap.Equal (.bool first) (.bool second)) :
    first = second := by
  have hApart : ((1 : Float) == 0) = false := by decide
  have hApart' : ((0 : Float) == 1) = false := by decide
  cases first <;> cases second
  · rfl
  · exact (Bool.false_ne_true (hApart'.symm.trans hEqual)).elim
  · exact (Bool.false_ne_true (hApart.symm.trans hEqual)).elim
  · rfl

section Containers

variable {a b : Nat}

theorem matches_list_iff :
    heap.Matches (.list a) (.list b) ↔
      List.Forall₂ heap.Matches (heap.list a).toList
        (heap.list b).toList := by
  refine ⟨?_, fun hItems => ⟨.list hItems⟩⟩
  rintro ⟨hAlike⟩
  cases hAlike with
  | list hItems => exact hItems

theorem matches_tuple_iff :
    heap.Matches (.tuple a) (.tuple b) ↔
      List.Forall₂ heap.Matches (heap.tuple a).toList
        (heap.tuple b).toList := by
  refine ⟨?_, fun hItems => ⟨.tuple hItems⟩⟩
  rintro ⟨hAlike⟩
  cases hAlike with
  | tuple hItems => exact hItems

/- Dicts match if each entry of one matches some entry of the other. -/
theorem matches_dict_iff
    (hLeft : heap.IsData n (.dict a))
    (hRight : heap.IsData n (.dict b))
    (hDepth : n ≤ maxNesting) :
    Covered
        (fun entry other =>
          heap.Matches entry.1 other.1 ∧ heap.Matches entry.2 other.2)
        (heap.dict a).toList (heap.dict b).toList ↔
      heap.Matches (.dict a) (.dict b) := by
  constructor
  · intro hCovered
    -- Keys that match the same one would be equal.
    have hDistinct :=
      (heap.equivalenceOn_below hDepth).pairwise hLeft.dict_keys
        hRight.dict_keys hLeft.dict_distinct
    have hKey
        (x : Value × Value)
        (hX : x ∈ (heap.dict a).toList)
        (y : Value × Value)
        (hY : y ∈ (heap.dict b).toList)
        (hMatch : heap.Matches x.1 y.1) :
        heap.Equal x.1 y.1 :=
      hMatch.equal_of_below (hLeft.dict_keys x hX) (hRight.dict_keys y hY)
        hDepth
    refine ⟨arranged_entries_iff.mpr (Covered.arranged ?_ ?_)⟩
    · exact hCovered.imp fun x hX y hY => entryRelated_iff.mpr
    · refine hDistinct.imp_of_mem fun {x x'} hX hX' hNone y hY hFirst hOther => ?_
      exact hNone y hY (hKey x hX y hY hFirst.key)
        (hKey x' hX' y hY hOther.key)
  · rintro ⟨hAlike⟩
    exact (arranged_entries_iff.mp hAlike).covered.imp
      fun x hX y hY => entryRelated_iff.mp

/- Sets match if they are equal. -/
theorem matches_set_iff
    (hLeft : heap.IsData n (.set a))
    (hRight : heap.IsData n (.set b))
    (hDepth : n ≤ maxNesting) :
    heap.Equates (.set a) (.set b) ↔ heap.Matches (.set a) (.set b) := by
  constructor
  · intro hEquates
    cases hEquates with
    | number hNumber _ _ => cases hNumber
    | set hCovered =>
        obtain ⟨arranged, hOrder, hItems⟩ :=
          (heap.equivalenceOn_below hDepth).arranged hLeft.set_items
            hRight.set_items hLeft.set_distinct hCovered
        exact ⟨.set hOrder hItems⟩
  · rintro ⟨hAlike⟩
    cases hAlike with
    | set hOrder hItems =>
        exact .set (Arranged.covered ⟨_, hOrder, hItems⟩)

/- Lists are strictly equal if they are the same one, or their items are. -/
theorem strictlyEqualTo_list_iff
    (hSelf : a = b → heap.Matches (.list a) (.list b))
    (hParts :
      ∀ x ∈ (heap.list a).toList, ∀ y ∈ (heap.list b).toList,
        (heap.strictlyEqualTo k x y = true ↔ heap.Matches x y)) :
    heap.strictlyEqualTo (k + 1) (.list a) (.list b) = true ↔
      heap.Matches (.list a) (.list b) := by
  rw [strictlyEqualTo_list, matches_list_iff]
  exact equal_of_contents (sameItems_iff.trans (forall₂_congr_mem hParts))
    fun hSame => matches_list_iff.mp (hSelf hSame)

theorem strictlyEqualTo_tuple_iff
    (hSelf : a = b → heap.Matches (.tuple a) (.tuple b))
    (hParts :
      ∀ x ∈ (heap.tuple a).toList, ∀ y ∈ (heap.tuple b).toList,
        (heap.strictlyEqualTo k x y = true ↔ heap.Matches x y)) :
    heap.strictlyEqualTo (k + 1) (.tuple a) (.tuple b) = true ↔
      heap.Matches (.tuple a) (.tuple b) := by
  rw [strictlyEqualTo_tuple, matches_tuple_iff]
  exact equal_of_contents (sameItems_iff.trans (forall₂_congr_mem hParts))
    fun hSame => matches_tuple_iff.mp (hSelf hSame)

/- Dicts are compared by the parts of their entries. -/
theorem strictlyEqualTo_dict_iff
    (hLeft : heap.IsData n (.dict a))
    (hRight : heap.IsData n (.dict b))
    (hDepth : n ≤ maxNesting)
    (hSelf : a = b → heap.Matches (.dict a) (.dict b))
    (hParts :
      ∀ x ∈ heap.parts (.dict a), ∀ y ∈ heap.parts (.dict b),
        (heap.strictlyEqualTo k x y = true ↔ heap.Matches x y)) :
    heap.strictlyEqualTo (k + 1) (.dict a) (.dict b) = true ↔
      heap.Matches (.dict a) (.dict b) := by
  have hEntries
      (x : Value × Value)
      (hX : x ∈ (heap.dict a).toList)
      (y : Value × Value)
      (hY : y ∈ (heap.dict b).toList) :=
    and_congr
      (hParts x.1
        (List.mem_append_left _ (List.mem_map_of_mem hX)) y.1
        (List.mem_append_left _ (List.mem_map_of_mem hY)))
      (hParts x.2
        (List.mem_append_right _ (List.mem_map_of_mem hX)) y.2
        (List.mem_append_right _ (List.mem_map_of_mem hY)))
  rw [strictlyEqualTo_dict]
  refine equal_of_contents ?_ hSelf
  exact (sameEntries_iff.trans (covered_congr_mem hEntries)).trans
    (matches_dict_iff hLeft hRight hDepth)

end Containers

section Step

variable
  (hLeft : heap.IsData n left)
  (hRight : heap.IsData n right)
  (hDepth : n ≤ maxNesting)
  (hLe : n ≤ k)
  (hSelf : left = right → heap.Matches left right)
  (hParts :
    ∀ x ∈ heap.parts left, ∀ y ∈ heap.parts right,
      (heap.strictlyEqualTo (k - 1) x y = true ↔ heap.Matches x y))

include hLeft hRight hDepth hLe hSelf hParts

/- Strictly equal data matches, if that is so of its parts. -/
theorem matches_of_strictlyEqualTo
    (hEqual : heap.strictlyEqualTo k left right = true) :
    heap.Matches left right := by
  obtain ⟨related, hRelated⟩ := heap.exists_strictlyEqualTo_eq k
  have hBy := hRelated ▸ hEqual
  -- Values of two types are not strictly equal, by computation.
  cases id hLeft with
  | none =>
      cases id hRight with
      | none => exact ⟨.none⟩
      | _ => exact (Bool.false_ne_true hBy).elim
  | bool value =>
      cases id hRight with
      | bool other =>
          exact hSelf (congrArg Value.bool (@bool_eq_of_equal heap _ _ hBy))
      | _ => exact (Bool.false_ne_true hBy).elim
  | int hRange =>
      cases id hRight with
      | int hRange' => exact ⟨.int hBy⟩
      | _ => exact (Bool.false_ne_true hBy).elim
  | float hNumber =>
      cases id hRight with
      | float hNumber' => exact ⟨.float hBy⟩
      | _ => exact (Bool.false_ne_true hBy).elim
  | str value =>
      cases id hRight with
      | str other => exact hSelf (congrArg Value.str (beq_iff_eq.mp hBy))
      | _ => exact (Bool.false_ne_true hBy).elim
  | list hItems =>
      cases id hRight with
      | list hItems' =>
          obtain ⟨k, rfl⟩ := Nat.exists_eq_add_one.mpr (by omega : 0 < k)
          exact (strictlyEqualTo_list_iff
            (fun hSame => hSelf (congrArg _ hSame)) hParts).mp hEqual
      | _ => exact (Bool.false_ne_true hBy).elim
  | tuple hItems =>
      cases id hRight with
      | tuple hItems' =>
          obtain ⟨k, rfl⟩ := Nat.exists_eq_add_one.mpr (by omega : 0 < k)
          exact (strictlyEqualTo_tuple_iff
            (fun hSame => hSelf (congrArg _ hSame)) hParts).mp hEqual
      | _ => exact (Bool.false_ne_true hBy).elim
  | dict hKeys hValues hDistinct =>
      cases id hRight with
      | dict hKeys' hValues' hDistinct' =>
          obtain ⟨k, rfl⟩ := Nat.exists_eq_add_one.mpr (by omega : 0 < k)
          exact (strictlyEqualTo_dict_iff hLeft hRight hDepth
            (fun hSame => hSelf (congrArg _ hSame)) hParts).mp hEqual
      | _ => exact (Bool.false_ne_true hBy).elim
  | set hItems hDistinct =>
      cases id hRight with
      | set hItems' hDistinct' =>
          exact (matches_set_iff hLeft hRight hDepth).mp
            (hLeft.equates hRight hDepth hBy)
      | _ => exact (Bool.false_ne_true hBy).elim

/- Data that matches is strictly equal, if that is so of its parts. -/
theorem strictlyEqualTo_of_matches
    (hMatches : heap.Matches left right) :
    heap.strictlyEqualTo k left right = true := by
  obtain ⟨related, hRelated⟩ := heap.exists_strictlyEqualTo_eq k
  obtain ⟨hAlike⟩ := id hMatches
  cases hAlike with
  | none =>
      rw [hRelated]
      rfl
  | bool value =>
      rw [hRelated]
      cases value <;> rfl
  | int hSame | float hSame =>
      rw [hRelated]
      exact hSame
  | str value =>
      rw [hRelated]
      exact beq_self_eq_true value
  | list hItems =>
      cases id hLeft with
      | list _ =>
          obtain ⟨k, rfl⟩ := Nat.exists_eq_add_one.mpr (by omega : 0 < k)
          exact (strictlyEqualTo_list_iff
            (fun hSame => hSelf (congrArg _ hSame)) hParts).mpr hMatches
  | tuple hItems =>
      cases id hLeft with
      | tuple _ =>
          obtain ⟨k, rfl⟩ := Nat.exists_eq_add_one.mpr (by omega : 0 < k)
          exact (strictlyEqualTo_tuple_iff
            (fun hSame => hSelf (congrArg _ hSame)) hParts).mpr hMatches
  | dict hOrder hKeys hValues =>
      cases id hLeft with
      | dict _ _ _ =>
          obtain ⟨k, rfl⟩ := Nat.exists_eq_add_one.mpr (by omega : 0 < k)
          exact (strictlyEqualTo_dict_iff hLeft hRight hDepth
            (fun hSame => hSelf (congrArg _ hSame)) hParts).mpr hMatches
  | set hOrder hItems =>
      rw [hRelated]
      exact ((matches_set_iff hLeft hRight hDepth).mpr hMatches).equal hLeft
        hRight hDepth

end Step

/- Data is strictly equal if and only if it matches. -/
theorem IsData.strictlyEqualTo_iff
    (hLeft : heap.IsData n left)
    (hRight : heap.IsData n right)
    (hDepth : n ≤ maxNesting)
    (hLe : n ≤ k) :
    heap.strictlyEqualTo k left right = true ↔ heap.Matches left right := by
  induction n using Nat.strongRecOn generalizing left right k with
  | ind n ih =>
      have hParts
          (x : Value)
          (hX : x ∈ heap.parts left)
          (y : Value)
          (hY : y ∈ heap.parts right) :
          heap.strictlyEqualTo (k - 1) x y = true ↔ heap.Matches x y := by
        obtain ⟨m, rfl, hItem⟩ := hLeft.isBelow_parts x hX
        obtain ⟨_, hBelow, hItem'⟩ := hRight.isBelow_parts y hY
        cases hBelow
        exact ih m (by omega) hItem hItem' (by omega) (by omega)
      have hSelf (hSame : left = right) : heap.Matches left right :=
        hSame ▸ hLeft.strictlySame_self.toMatches hLeft hLeft hDepth
      exact ⟨matches_of_strictlyEqualTo hLeft hRight hDepth hLe hSelf hParts,
        strictlyEqualTo_of_matches hLeft hRight hDepth hLe hSelf hParts⟩

end Relations

------------------------------------------------------------
-- Precise Data
------------------------------------------------------------

/-
  Data with integers of at most 53 bits and, anywhere inside of
  sets, no numbers of other types.
-/
inductive IsPrecise (heap : Heap) : (inSet : Bool) → Value → Prop
  | none
      {inSet : Bool} :
      IsPrecise heap inSet .none
  | bool
      (value : Bool) :
      IsPrecise heap false (.bool value)
  | int
      {inSet : Bool}
      {value : Int}
      (hSmall : value.natAbs ≤ 2 ^ 53) :
      IsPrecise heap inSet (.int value)
  | float
      (value : Float) :
      IsPrecise heap false (.float value)
  | str
      {inSet : Bool}
      (value : String) :
      IsPrecise heap inSet (.str value)
  | list
      {inSet : Bool}
      {a : Nat}
      (hItems : ∀ item ∈ (heap.list a).toList, IsPrecise heap inSet item) :
      IsPrecise heap inSet (.list a)
  | tuple
      {inSet : Bool}
      {a : Nat}
      (hItems : ∀ item ∈ (heap.tuple a).toList, IsPrecise heap inSet item) :
      IsPrecise heap inSet (.tuple a)
  | dict
      {inSet : Bool}
      {a : Nat}
      (hKeys :
        ∀ entry ∈ (heap.dict a).toList, IsPrecise heap inSet entry.1)
      (hValues :
        ∀ entry ∈ (heap.dict a).toList, IsPrecise heap inSet entry.2) :
      IsPrecise heap inSet (.dict a)
  | set
      {inSet : Bool}
      {a : Nat}
      (hItems : ∀ item ∈ (heap.set a).toList, IsPrecise heap true item) :
      IsPrecise heap inSet (.set a)

section Precise

variable {heap : Heap}
variable {n : Nat}
variable {left right : Value}
variable {inSet : Bool}

/- What may be in a set may be anywhere. -/
theorem IsPrecise.anywhere
    (hPrecise : heap.IsPrecise true left) :
    heap.IsPrecise inSet left := by
  generalize hInSet : true = place at hPrecise
  induction hPrecise with
  | none => exact .none
  | bool value => cases hInSet
  | int hSmall => exact .int hSmall
  | float value => cases hInSet
  | str value => exact .str value
  | list hItems ih => exact .list fun item hMem => ih item hMem hInSet
  | tuple hItems ih => exact .tuple fun item hMem => ih item hMem hInSet
  | dict hKeys hValues ihKeys ihValues =>
      exact .dict (fun entry hMem => ihKeys entry hMem hInSet)
        fun entry hMem => ihValues entry hMem hInSet
  | set hItems ih => exact .set hItems

theorem IsPrecise.members
    (hPrecise : heap.IsPrecise inSet left) :
    ∀ part ∈ heap.members left, heap.IsPrecise true part := by
  cases hPrecise with
  | set hItems => exact hItems
  | _ => exact nofun

theorem IsPrecise.parts
    (hPrecise : heap.IsPrecise inSet left) :
    ∀ part ∈ heap.parts left, heap.IsPrecise inSet part := by
  cases hPrecise with
  | list hItems | tuple hItems => exact hItems
  | set hItems => exact fun part hMem => (hItems part hMem).anywhere
  | dict hKeys hValues =>
      intro part hMem
      rcases List.mem_append.mp hMem with hKey | hValue
      · exact List.forall_mem_map.mpr hKeys part hKey
      · exact List.forall_mem_map.mpr hValues part hValue
  | _ => exact nofun

/- Integers of at most 53 bits have floats of their own. -/
theorem eq_of_beq_wordToFloat
    {a b : Int}
    (hFirst : a.natAbs ≤ 2 ^ 53)
    (hSecond : b.natAbs ≤ 2 ^ 53)
    (hSame : (Number.wordToFloat a == Number.wordToFloat b) = true) :
    a = b := by
  rw [Number.beq_wordToFloat_iff (by omega) (by omega),
    Number.rounded_of_small hFirst, Number.rounded_of_small hSecond] at hSame
  exact_mod_cast hSame

/- Equal data that may be in a set is alike, with parts that are equal. -/
theorem Equates.alike
    (hEquivalence : heap.EquivalenceOn (heap.IsBelow n))
    (hLeft : heap.IsData n left)
    (hRight : heap.IsData n right)
    (hPrecise : heap.IsPrecise true left)
    (hPrecise' : heap.IsPrecise true right)
    (hEquates : heap.Equates left right) :
    heap.AlikeBy (· = ·) heap.Equal heap.Equal left right := by
  cases hEquates with
  | none => exact .none
  | number hNumber hNumber' hSame =>
      cases hPrecise with
      | int hSmall =>
          cases hPrecise' with
          | int hSmall' =>
              cases hNumber
              cases hNumber'
              exact .int (eq_of_beq_wordToFloat hSmall hSmall' hSame)
          | _ => cases hNumber'
      | _ => cases hNumber
  | str value => exact .str value
  | list hItems => exact .list hItems
  | tuple hItems => exact .tuple hItems
  | dict hCovered =>
      exact arranged_entries_iff.mpr
        (hEquivalence.arranged_entries hLeft hRight hCovered)
  | set hCovered =>
      obtain ⟨arranged, hOrder, hItems⟩ :=
        hEquivalence.arranged hLeft.set_items hRight.set_items
          hLeft.set_distinct hCovered
      exact .set hOrder hItems

/- Equal data that may be in a set is strictly the same. -/
theorem IsPrecise.strictlySame_of_equal
    (hLeft : heap.IsData n left)
    (hRight : heap.IsData n right)
    (hDepth : n ≤ maxNesting)
    (hPrecise : heap.IsPrecise true left)
    (hPrecise' : heap.IsPrecise true right)
    (hEqual : heap.Equal left right) :
    heap.StrictlySame left right := by
  refine @IsData.induct₂ heap n left right
    (fun left right =>
      heap.IsPrecise true left → heap.IsPrecise true right →
        heap.Equal left right → heap.StrictlySame left right)
    ?_ hLeft hRight hPrecise hPrecise' hEqual
  intro m left right hLe hLeft hRight hParts hPrecise hPrecise' hEqual
  have hInside
      (x : Value)
      (hX : x ∈ heap.parts left)
      (y : Value)
      (hY : y ∈ heap.parts right)
      (hItem : heap.Equal x y) :
      heap.StrictlySame x y :=
    hParts x hX y hY (hPrecise.parts x hX) (hPrecise'.parts y hY) hItem
  have hAlike :=
    ((hLeft.equal_iff hRight (hLe.trans hDepth)).mp hEqual).alike
      (heap.equivalenceOn_below (hLe.trans hDepth)) hLeft hRight hPrecise
      hPrecise'
  exact ⟨hAlike.imp (fun _ _ _ _ => id) hInside fun x hX y hY =>
    hInside x (heap.members_subset left hX) y (heap.members_subset right hY)⟩

/- Precise data that matches is strictly the same. -/
theorem Matches.strictlySame
    (hLeft : heap.IsData n left)
    (hRight : heap.IsData n right)
    (hDepth : n ≤ maxNesting)
    (hPrecise : heap.IsPrecise false left)
    (hPrecise' : heap.IsPrecise false right)
    (hMatches : heap.Matches left right) :
    heap.StrictlySame left right := by
  refine @IsData.induct₂ heap n left right
    (fun left right =>
      heap.IsPrecise false left → heap.IsPrecise false right →
        heap.Matches left right → heap.StrictlySame left right)
    ?_ hLeft hRight hPrecise hPrecise' hMatches
  rintro m left right hLe hLeft hRight hParts hPrecise hPrecise' ⟨hAlike⟩
  refine ⟨hAlike.imp ?_ (fun x hX y hY => ?_) fun x hX y hY hItem => ?_⟩
  · rintro m n rfl rfl hSame
    cases hPrecise with
    | int hSmall =>
        cases hPrecise' with
        | int hSmall' => exact eq_of_beq_wordToFloat hSmall hSmall' hSame
  · exact hParts x hX y hY (hPrecise.parts x hX) (hPrecise'.parts y hY)
  · obtain ⟨k, hBelow, hData⟩ :=
      hLeft.isBelow_parts x (heap.members_subset left hX)
    obtain ⟨_, rfl, hData'⟩ :=
      hRight.isBelow_parts y (heap.members_subset right hY)
    cases hBelow
    exact IsPrecise.strictlySame_of_equal hData hData' (by omega)
      (hPrecise.members x hX) (hPrecise'.members y hY) hItem

/-
  Data is strictly equal if and only if it matches. So what is
  strictly the same is strictly equal. The converse holds of
  integers of at most 53 bits, and where no truth values and
  floats are inside of sets.
-/
theorem strictlyEqual_iff
    (hLeft : heap.IsData maxNesting left)
    (hRight : heap.IsData maxNesting right) :
    (heap.strictlyEqual left right = true ↔ heap.Matches left right) ∧
      (heap.StrictlySame left right →
        heap.strictlyEqual left right = true) ∧
      (heap.IsPrecise false left →
        heap.IsPrecise false right →
          (heap.strictlyEqual left right = true ↔
            heap.StrictlySame left right)) := by
  have hMatches :
      heap.strictlyEqual left right = true ↔ heap.Matches left right :=
    hLeft.strictlyEqualTo_iff hRight le_rfl le_rfl
  have hSame (hSame : heap.StrictlySame left right) :
      heap.strictlyEqual left right = true :=
    hMatches.mpr (hSame.toMatches hLeft hRight le_rfl)
  refine ⟨hMatches, hSame, fun hPrecise hPrecise' => ⟨fun hEqual => ?_, hSame⟩⟩
  exact (hMatches.mp hEqual).strictlySame hLeft hRight le_rfl hPrecise
    hPrecise'

/- Two sets with the same items in another order. -/
theorem strictlyEqual_iff_sets :
    let heap : Heap :=
      { sets := #[#[.int 1, .str "a"], #[.str "a", .int 1]] }
    heap.IsData maxNesting (.set 0) ∧
      heap.IsData maxNesting (.set 1) ∧
      heap.IsPrecise false (.set 0) ∧
      heap.IsPrecise false (.set 1) ∧
      heap.StrictlySame (.set 0) (.set 1) ∧
      heap.strictlyEqual (.set 0) (.set 1) = true := by
  intro heap
  have hFirst : heap.IsData maxNesting (.set 0) := by
    refine .set (fun item hMem => ?_) (by decide)
    rcases List.mem_pair.mp hMem with rfl | rfl
    · exact .int rfl
    · exact .str _
  have hSecond : heap.IsData maxNesting (.set 1) := by
    refine .set (fun item hMem => ?_) (by decide)
    rcases List.mem_pair.mp hMem with rfl | rfl
    · exact .str _
    · exact .int rfl
  have hPrecise : heap.IsPrecise false (.set 0) := by
    refine .set fun item hMem => ?_
    rcases List.mem_pair.mp hMem with rfl | rfl
    · exact .int (by decide)
    · exact .str _
  have hPrecise' : heap.IsPrecise false (.set 1) := by
    refine .set fun item hMem => ?_
    rcases List.mem_pair.mp hMem with rfl | rfl
    · exact .str _
    · exact .int (by decide)
  have hSame : heap.StrictlySame (.set 0) (.set 1) :=
    ⟨.set (List.Perm.swap (Value.str "a") (Value.int 1) [])
      (.cons ⟨.int rfl⟩ (.cons ⟨.str "a"⟩ .nil))⟩
  exact ⟨hFirst, hSecond, hPrecise, hPrecise', hSame,
    ((strictlyEqual_iff hFirst hSecond).2.2 hPrecise hPrecise').mpr hSame⟩

/-
  Two integers beyond 53 bits are strictly equal, and so are the
  set of an integer and the set of the same number as a float.
-/
theorem strictlyEqual_overlooks_types :
    let heap : Heap := { sets := #[#[.int 1], #[.float 1]] }
    let first : Value := .int 9007199254740992
    let second : Value := .int 9007199254740993
    (heap.IsData 0 first ∧
      heap.IsData 0 second ∧
      heap.strictlyEqual first second = true ∧
      ¬heap.StrictlySame first second) ∧
      heap.IsData 1 (.set 0) ∧
      heap.IsData 1 (.set 1) ∧
      heap.strictlyEqual (.set 0) (.set 1) = true ∧
      ¬heap.StrictlySame (.set 0) (.set 1) := by
  intro heap first second
  have hNumber : (1 : Float).isNaN = false := by decide
  refine ⟨⟨.int rfl, .int rfl, by decide, ?_⟩, ?_, ?_,
    by decide +kernel, ?_⟩
  · change ¬heap.StrictlySame (.int 9007199254740992) (.int 9007199254740993)
    rintro ⟨hAlike⟩
    cases hAlike with
    | int hSame => exact absurd hSame (by decide)
  · refine .set (fun item hMem => ?_) (List.pairwise_singleton _ _)
    cases List.mem_singleton.mp hMem
    exact .int rfl
  · refine .set (fun item hMem => ?_) (List.pairwise_singleton _ _)
    cases List.mem_singleton.mp hMem
    exact .float hNumber
  · rintro ⟨hAlike⟩
    cases hAlike with
    | set hOrder hItems =>
        cases List.perm_singleton.mp hOrder
        cases hItems with
        | cons hItem _ =>
            cases hItem with
            | alike hAlike => cases hAlike

end Precise

end Heap

end SnippetGrader
