import SnippetGrader.Proofs.Evaluation.DataEquality
import SnippetGrader.Proofs.Evaluation.Lengths

/-
  Data in a heap that grows.

  A value goes on holding its data while containers are added,
  since those that were there are still there. A container that
  is added holds what its items hold, and no item of a set and no
  entry of a dict is lost if they differ from each other.

  Key definitions include:
    * `Heap.Grows`
    * `Heap.HoldsEntries`

  Key theorems include:
    * `Heap.Holds.of_grows`
    * `Heap.holds_addList`, `Heap.holds_addTuple`
    * `Heap.holds_addSet`, `Heap.holds_addDict`
    * `Heap.holdsEntries_insertEntry`
-/

namespace SnippetGrader

namespace Heap

------------------------------------------------------------
-- Growing Heaps
------------------------------------------------------------

/- A heap in which all that was there is still there. -/
structure Grows (earlier later : Heap) : Prop where
  lists : earlier.lists.toList <+: later.lists.toList
  tuples : earlier.tuples.toList <+: later.tuples.toList
  dicts : earlier.dicts.toList <+: later.dicts.toList
  sets : earlier.sets.toList <+: later.sets.toList

namespace Grows

theorem refl
    (heap : Heap) :
    heap.Grows heap :=
  ⟨List.prefix_rfl, List.prefix_rfl, List.prefix_rfl, List.prefix_rfl⟩

theorem trans
    {first second third : Heap}
    (hFirst : first.Grows second)
    (hSecond : second.Grows third) :
    first.Grows third where
  lists := hFirst.lists.trans hSecond.lists
  tuples := hFirst.tuples.trans hSecond.tuples
  dicts := hFirst.dicts.trans hSecond.dicts
  sets := hFirst.sets.trans hSecond.sets

end Grows

theorem getElem?_of_prefix
    {α : Type}
    {earlier later : Array α}
    (hPrefix : earlier.toList <+: later.toList)
    {address : Nat}
    (hAddress : address < earlier.size) :
    address < later.size ∧ later[address]? = earlier[address]? := by
  have hLength := hPrefix.length_le
  simp only [Array.length_toList] at hLength
  refine ⟨by omega, ?_⟩
  rw [← Array.getElem?_toList, ← Array.getElem?_toList]
  obtain ⟨added, hAdded⟩ := hPrefix
  rw [← hAdded, List.getElem?_append_left (by simpa using hAddress)]

theorem prefix_push
    {α : Type}
    (items : Array α)
    (item : α) :
    items.toList <+: (items.push item).toList := by
  rw [Array.toList_push]
  exact List.prefix_append _ _

/- A value goes on holding its data while the heap grows. -/
theorem Holds.of_grows
    {heap later : Heap}
    {value : Value}
    {datum : Datum}
    (hHolds : heap.Holds value datum)
    (hGrows : heap.Grows later)
    (hDepth : datum.depth ≤ maxNesting) :
    later.Holds value datum := by
  induction datum using Datum.induct generalizing value with
  | step datum ih =>
      have hParts : ∀ part ∈ datum.parts, part.depth ≤ maxNesting :=
        fun part hMem => (Datum.depth_lt hMem).le.trans hDepth
      have hItems
          {values : List Value}
          {items : List Datum}
          (hSubset : items ⊆ datum.parts)
          (hItems : List.Forall₂ heap.Holds values items) :
          List.Forall₂ later.Holds values items :=
        forall₂_imp hItems fun x item hMem hItem =>
          ih item (hSubset hMem) hItem (hParts item (hSubset hMem))
      have hUnequal
          {values : List Value}
          {items : List Datum}
          (hSubset : items ⊆ datum.parts)
          (hHeld : List.Forall₂ heap.Holds values items)
          (hDistinct : values.Pairwise fun x y => heap.equal x y = false) :
          values.Pairwise fun x y => later.equal x y = false := by
        have hDepths : ∀ item ∈ items, item.depth ≤ maxNesting :=
          fun item hMem => hParts item (hSubset hMem)
        rw [pairwise_unequal_iff (hItems hSubset hHeld) hDepths]
        exact (pairwise_unequal_iff hHeld hDepths).mp hDistinct
      cases hHolds with
      | none => exact .none
      | bool value => exact .bool value
      | int hRange => exact .int hRange
      | float hFinite => exact .float hFinite
      | str value => exact .str value
      | @list address items hAddress hHeld =>
          obtain ⟨hValid, hSame⟩ := getElem?_of_prefix hGrows.lists hAddress
          have hList : later.list address = heap.list address :=
            congrArg (·.getD #[]) hSame
          refine .list hValid ?_
          rw [hList]
          exact hItems (List.Subset.refl _) hHeld
      | @tuple address items hAddress hHeld =>
          obtain ⟨hValid, hSame⟩ := getElem?_of_prefix hGrows.tuples hAddress
          have hTuple : later.tuple address = heap.tuple address :=
            congrArg (·.getD #[]) hSame
          refine .tuple hValid ?_
          rw [hTuple]
          exact hItems (List.Subset.refl _) hHeld
      | @set address items hAddress hHeld hDistinct =>
          obtain ⟨hValid, hSame⟩ := getElem?_of_prefix hGrows.sets hAddress
          have hSet : later.set address = heap.set address :=
            congrArg (·.getD #[]) hSame
          refine .set hValid ?_ ?_
          · rw [hSet]
            exact hItems (List.Subset.refl _) hHeld
          · rw [hSet]
            exact hUnequal (List.Subset.refl _) hHeld hDistinct
      | @dict address entries hAddress hKeys hValues hDistinct =>
          obtain ⟨hValid, hSame⟩ := getElem?_of_prefix hGrows.dicts hAddress
          have hDict : later.dict address = heap.dict address :=
            congrArg (·.getD #[]) hSame
          refine .dict hValid ?_ ?_ ?_
          · rw [hDict]
            exact hItems (List.subset_append_left _ _) hKeys
          · rw [hDict]
            exact hItems (List.subset_append_right _ _) hValues
          · rw [hDict]
            exact hUnequal (List.subset_append_left _ _) hKeys hDistinct

------------------------------------------------------------
-- Made Containers
------------------------------------------------------------

variable {heap : Heap}
variable {values : Array Value}
variable {items : List Datum}

/- Items that differ from each other are all kept. -/
theorem distinct_eq
    (hDistinct :
      values.toList.Pairwise fun item other =>
        heap.equal item other = false) :
    heap.distinct values = values := by
  have hKept
      (rest : List Value)
      (kept : Array Value)
      (hDistinct :
        (kept.toList ++ rest).Pairwise fun item other =>
          heap.equal item other = false) :
      rest.foldl
          (fun kept item =>
            if kept.any fun other => heap.equal other item then kept
            else kept.push item)
          kept =
        kept ++ rest.toArray := by
    induction rest generalizing kept with
    | nil => simp
    | cons item rest ih =>
        have hNew : (kept.any fun other => heap.equal other item) = false := by
          rw [← Array.any_toList, List.any_eq_false]
          intro other hMem
          rw [(List.pairwise_append.mp hDistinct).2.2 other hMem item
            List.mem_cons_self]
          exact Bool.false_ne_true
        rw [List.foldl_cons, hNew, if_neg Bool.false_ne_true, ih]
        · simp
        · simpa using hDistinct
  unfold distinct
  rw [← Array.foldl_toList, hKept _ _ (by simpa using hDistinct)]
  simp

/- A key that differs from all others is added at the end. -/
theorem insertEntry_eq
    {entries : Array (Value × Value)}
    {key value : Value}
    (hNew : ∀ entry ∈ entries.toList, heap.equal entry.1 key = false) :
    heap.insertEntry entries key value = entries.push (key, value) := by
  have hNone : (entries.findIdx? fun entry => heap.equal entry.1 key) = none := by
    rw [Array.findIdx?_eq_none_iff]
    exact fun entry hMem => hNew entry (Array.mem_toList_iff.mpr hMem)
  rw [insertEntry, hNone]

section Added

variable
  (hItems : List.Forall₂ heap.Holds values.toList items)
  (hDepth : ∀ item ∈ items, item.depth ≤ maxNesting)

include hItems hDepth

/- Values go on holding their data when a container is added. -/
theorem forall₂_holds_of_grows
    {later : Heap}
    (hGrows : heap.Grows later) :
    List.Forall₂ later.Holds values.toList items :=
  forall₂_imp hItems fun _ item hMem hItem =>
    hItem.of_grows hGrows (hDepth item hMem)

theorem holds_addList :
    heap.Grows (heap.addList values).2 ∧
      (heap.addList values).2.Holds (heap.addList values).1 (.list items) := by
  have hGrows : heap.Grows (heap.addList values).2 :=
    { Grows.refl heap with lists := prefix_push _ _ }
  refine ⟨hGrows, .list (by simp [addList]) ?_⟩
  rw [list_addList]
  exact forall₂_holds_of_grows hItems hDepth hGrows

theorem holds_addTuple :
    heap.Grows (heap.addTuple values).2 ∧
      (heap.addTuple values).2.Holds (heap.addTuple values).1
        (.tuple items) := by
  have hGrows : heap.Grows (heap.addTuple values).2 :=
    { Grows.refl heap with tuples := prefix_push _ _ }
  refine ⟨hGrows, .tuple (by simp [addTuple]) ?_⟩
  rw [tuple_addTuple]
  exact forall₂_holds_of_grows hItems hDepth hGrows

/- A set is made of items that differ from each other. -/
theorem holds_addSet
    (hDiffer : items.Pairwise Differ) :
    heap.Grows (heap.addSet (heap.distinct values)).2 ∧
      (heap.addSet (heap.distinct values)).2.Holds
        (heap.addSet (heap.distinct values)).1 (.set items) := by
  rw [distinct_eq ((pairwise_unequal_iff hItems hDepth).mpr hDiffer)]
  have hGrows : heap.Grows (heap.addSet values).2 :=
    { Grows.refl heap with sets := prefix_push _ _ }
  have hHeld := forall₂_holds_of_grows hItems hDepth hGrows
  have hSet : (heap.addSet values).2.set heap.sets.size = values := by
    simp [addSet, set]
  refine ⟨hGrows, .set (by simp [addSet]) ?_ ?_⟩
  · rw [hSet]
    exact hHeld
  · rw [hSet]
    exact (pairwise_unequal_iff hHeld hDepth).mpr hDiffer

end Added

/- Entries of a dict that hold data, with keys that differ. -/
structure HoldsEntries
    (heap : Heap)
    (pairs : Array (Value × Value))
    (entries : List (Datum × Datum)) :
    Prop where
  keys :
    List.Forall₂ heap.Holds (pairs.toList.map (·.1)) (entries.map (·.1))
  values :
    List.Forall₂ heap.Holds (pairs.toList.map (·.2)) (entries.map (·.2))

/- How deeply the keys and values of a dict are nested. -/
def EntriesWithin (entries : List (Datum × Datum)) : Prop :=
  ∀ part ∈ (Datum.dict entries).parts, part.depth ≤ maxNesting

theorem EntriesWithin.of_subset
    {entries others : List (Datum × Datum)}
    (hDepth : EntriesWithin others)
    (hSubset : entries ⊆ others) :
    EntriesWithin entries := by
  intro part hMem
  refine hDepth part (List.mem_append.mpr ?_)
  exact (List.mem_append.mp hMem).imp
    (fun hKey => List.map_subset _ hSubset hKey)
    (fun hValue => List.map_subset _ hSubset hValue)

section Entries

variable {pairs : Array (Value × Value)}
variable {entries : List (Datum × Datum)}

theorem HoldsEntries.of_grows
    {later : Heap}
    (hEntries : heap.HoldsEntries pairs entries)
    (hDepth : EntriesWithin entries)
    (hGrows : heap.Grows later) :
    later.HoldsEntries pairs entries where
  keys :=
    forall₂_imp hEntries.keys fun _ key hMem hKey =>
      hKey.of_grows hGrows (hDepth key (List.mem_append_left _ hMem))
  values :=
    forall₂_imp hEntries.values fun _ value hMem hValue =>
      hValue.of_grows hGrows (hDepth value (List.mem_append_right _ hMem))

theorem holds_addDict
    (hEntries : heap.HoldsEntries pairs entries)
    (hDepth : EntriesWithin entries)
    (hDiffer : (entries.map (·.1)).Pairwise Differ) :
    heap.Grows (heap.addDict pairs).2 ∧
      (heap.addDict pairs).2.Holds (heap.addDict pairs).1
        (.dict entries) := by
  have hGrows : heap.Grows (heap.addDict pairs).2 :=
    { Grows.refl heap with dicts := prefix_push _ _ }
  have hHeld := hEntries.of_grows hDepth hGrows
  have hDict : (heap.addDict pairs).2.dict heap.dicts.size = pairs := by
    simp [addDict, dict]
  refine ⟨hGrows, .dict (by simp [addDict]) ?_ ?_ ?_⟩
  · rw [hDict]
    exact hHeld.keys
  · rw [hDict]
    exact hHeld.values
  · rw [hDict]
    refine (pairwise_unequal_iff hHeld.keys fun key hMem => ?_).mpr hDiffer
    exact hDepth key (List.mem_append_left _ hMem)

/- An entry whose key differs from all others is added at the end. -/
theorem holdsEntries_insertEntry
    (hEntries : heap.HoldsEntries pairs entries)
    {key value : Value}
    {entry : Datum × Datum}
    (hKey : heap.Holds key entry.1)
    (hValue : heap.Holds value entry.2)
    (hDiffer : ∀ other ∈ entries.map (·.1), Differ other entry.1) :
    heap.HoldsEntries (heap.insertEntry pairs key value)
      (entries ++ [entry]) := by
  have hNew : ∀ pair ∈ pairs.toList, heap.equal pair.1 key = false := by
    intro pair hMem
    obtain ⟨other, hOther, hHeld⟩ :=
      exists_of_mem hEntries.keys pair.1 (List.mem_map_of_mem hMem)
    exact hDiffer other hOther heap pair.1 key hHeld hKey
  rw [insertEntry_eq hNew]
  constructor
  · simpa using List.rel_append hEntries.keys (.cons hKey .nil)
  · simpa using List.rel_append hEntries.values (.cons hValue .nil)

end Entries

end Heap

end SnippetGrader
