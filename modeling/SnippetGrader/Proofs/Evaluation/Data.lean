import SnippetGrader.Evaluation.ValueText
import SnippetGrader.Proofs.Number.Negation

/-
  Values that are plain data.

  Data is a tree of constants and containers, and a value holds
  it if it shows that tree wherever in the heap its containers
  are.

  Key definitions include:
    * `Datum`, `Datum.depth`, `Datum.size`
    * `Heap.Holds`

  Key theorems include:
    * `Datum.induct`
    * `Heap.Holds.datum_unique`
    * `Heap.Holds.of_mem_parts`
-/

namespace SnippetGrader

------------------------------------------------------------
-- Data
------------------------------------------------------------

/- What a value without functions and objects in it shows. -/
inductive Datum where
  | none
  | bool (value : Bool)
  | int (value : Int)
  | float (value : Float)
  | str (value : String)
  | list (items : List Datum)
  | tuple (items : List Datum)
  | dict (entries : List (Datum × Datum))
  | set (items : List Datum)

namespace Datum

/- The data right inside a container. -/
def parts : Datum → List Datum
  | .list items | .tuple items | .set items => items
  | .dict entries => entries.map (·.1) ++ entries.map (·.2)
  | _ => []

theorem mem_parts_dict
    {entries : List (Datum × Datum)}
    {entry : Datum × Datum}
    (hMem : entry ∈ entries) :
    entry.1 ∈ (Datum.dict entries).parts ∧
      entry.2 ∈ (Datum.dict entries).parts :=
  ⟨List.mem_append_left _ (List.mem_map_of_mem hMem),
    List.mem_append_right _ (List.mem_map_of_mem hMem)⟩

mutual

/- How many containers lie inside each other. -/
def depth : Datum → Nat
  | .list items | .tuple items | .set items => 1 + itemsDepth items
  | .dict entries => 1 + entriesDepth entries
  | _ => 0

/- The depth of the deepest of some data. -/
def itemsDepth : List Datum → Nat
  | [] => 0
  | item :: rest => max item.depth (itemsDepth rest)

/- The depth of the deepest of some keys and values. -/
def entriesDepth : List (Datum × Datum) → Nat
  | [] => 0
  | (key, value) :: rest =>
      max (max key.depth value.depth) (entriesDepth rest)

end

mutual

/- How many constants and containers there are in all. -/
def size : Datum → Nat
  | .list items | .tuple items | .set items => 1 + itemsSize items
  | .dict entries => 1 + entriesSize entries
  | _ => 1

/- The size of some data together. -/
def itemsSize : List Datum → Nat
  | [] => 0
  | item :: rest => item.size + itemsSize rest

/- The size of some keys and values together. -/
def entriesSize : List (Datum × Datum) → Nat
  | [] => 0
  | (key, value) :: rest => key.size + value.size + entriesSize rest

end

/- What holds of data if it holds of its parts holds of all data. -/
theorem induct
    {motive : Datum → Prop}
    (step :
      ∀ datum, (∀ part ∈ datum.parts, motive part) → motive datum)
    (datum : Datum) :
    motive datum := by
  refine step datum fun part hMem => ?_
  have hSmaller : sizeOf part < sizeOf datum := by
    cases datum with
    | list items | tuple items | set items =>
        have hItem := List.sizeOf_lt_of_mem hMem
        simp [parts] at hItem ⊢
        omega
    | dict entries =>
        have hEntry (entry : Datum × Datum) (hMem : entry ∈ entries) :
            sizeOf entry.1 < sizeOf (Datum.dict entries) ∧
              sizeOf entry.2 < sizeOf (Datum.dict entries) := by
          have hItem := List.sizeOf_lt_of_mem hMem
          obtain ⟨key, value⟩ := entry
          simp at hItem ⊢
          omega
        rcases List.mem_append.mp hMem with hKey | hValue
        · obtain ⟨entry, hFound, rfl⟩ := List.mem_map.mp hKey
          exact (hEntry entry hFound).1
        · obtain ⟨entry, hFound, rfl⟩ := List.mem_map.mp hValue
          exact (hEntry entry hFound).2
    | _ => cases hMem
  exact induct step part
termination_by datum

theorem itemsDepth_le_iff
    {items : List Datum}
    {n : Nat} :
    itemsDepth items ≤ n ↔ ∀ item ∈ items, item.depth ≤ n := by
  induction items with
  | nil => simp [itemsDepth]
  | cons item rest ih =>
      rw [itemsDepth, max_le_iff, ih, List.forall_mem_cons]

theorem entriesDepth_eq
    (entries : List (Datum × Datum)) :
    entriesDepth entries =
      max (itemsDepth (entries.map (·.1)))
        (itemsDepth (entries.map (·.2))) := by
  induction entries with
  | nil => rfl
  | cons entry rest ih =>
      rw [entriesDepth, ih, max_max_max_comm]
      rfl

/- The parts of a container lie less deep than the container. -/
theorem depth_lt
    {datum part : Datum}
    (hMem : part ∈ datum.parts) :
    part.depth < datum.depth := by
  have hItems {items : List Datum} (hMem : part ∈ items) :
      part.depth ≤ itemsDepth items :=
    itemsDepth_le_iff.mp le_rfl part hMem
  cases datum with
  | list items | tuple items | set items =>
      exact Nat.lt_one_add_iff.mpr (hItems hMem)
  | dict entries =>
      rw [depth, entriesDepth_eq, Nat.lt_one_add_iff, le_max_iff]
      exact (List.mem_append.mp hMem).imp hItems hItems
  | _ => cases hMem

/- A depth that a container is within is not zero. -/
theorem exists_succ
    {datum : Datum}
    {n depth : Nat}
    (hContainer : datum.depth = 1 + depth)
    (hDepth : datum.depth ≤ n) :
    ∃ m, n = m + 1 :=
  Nat.exists_eq_add_one_of_ne_zero (by omega)

/- The parts of a container are within a depth less by one. -/
theorem depth_part_le
    {datum part : Datum}
    {m : Nat}
    (hDepth : datum.depth ≤ m + 1)
    (hMem : part ∈ datum.parts) :
    part.depth ≤ m :=
  Nat.le_of_lt_succ ((depth_lt hMem).trans_le hDepth)

theorem size_le_itemsSize
    {items : List Datum}
    {part : Datum}
    (hMem : part ∈ items) :
    part.size ≤ itemsSize items := by
  induction items with
  | nil => cases hMem
  | cons item rest ih =>
      rw [itemsSize]
      rcases List.mem_cons.mp hMem with rfl | hRest
      · exact Nat.le_add_right _ _
      · exact (ih hRest).trans (Nat.le_add_left _ _)

theorem entriesSize_eq
    (entries : List (Datum × Datum)) :
    entriesSize entries =
      itemsSize (entries.map (·.1)) + itemsSize (entries.map (·.2)) := by
  induction entries with
  | nil => rfl
  | cons entry rest ih =>
      rw [entriesSize, ih, List.map_cons, List.map_cons, itemsSize,
        itemsSize]
      omega

/- The parts of a container are smaller than the container. -/
theorem size_lt
    {datum part : Datum}
    (hMem : part ∈ datum.parts) :
    part.size < datum.size := by
  cases datum with
  | list items | tuple items | set items =>
      exact Nat.lt_one_add_iff.mpr (size_le_itemsSize hMem)
  | dict entries =>
      rw [size, entriesSize_eq, Nat.lt_one_add_iff]
      rcases List.mem_append.mp hMem with hKey | hValue
      · exact (size_le_itemsSize hKey).trans (Nat.le_add_right _ _)
      · exact (size_le_itemsSize hValue).trans (Nat.le_add_left _ _)
  | _ => cases hMem

theorem size_pos
    (datum : Datum) :
    0 < datum.size := by
  cases datum <;>
    first | exact Nat.one_pos | exact Nat.add_pos_left Nat.one_pos _

end Datum

------------------------------------------------------------
-- Related Lists
------------------------------------------------------------

section RelatedLists

variable {α β γ δ : Type}

/- Related lists have related items. -/
theorem forall₂_of_forall₂
    {first : α → γ → Prop}
    {second : β → γ → Prop}
    {xs : List α}
    {ys : List β}
    {data : List γ}
    (hFirst : List.Forall₂ first xs data)
    (hSecond : List.Forall₂ second ys data) :
    List.Forall₂
      (fun x y => ∃ datum ∈ data, first x datum ∧ second y datum) xs ys := by
  induction hFirst generalizing ys with
  | nil =>
      cases hSecond
      exact .nil
  | cons hHere hRest ih =>
      cases hSecond with
      | cons hHere' hRest' =>
          refine .cons ⟨_, List.mem_cons_self, hHere, hHere'⟩ ?_
          refine (ih hRest').imp fun x y hSame => ?_
          obtain ⟨datum, hMem, hDatum⟩ := hSame
          exact ⟨datum, List.mem_cons_of_mem _ hMem, hDatum⟩

/- A list is related to at most one if each of its items is. -/
theorem eq_of_forall₂
    {related : α → β → Prop}
    {xs : List α}
    {ys zs : List β}
    (hUnique :
      ∀ x, ∀ y ∈ ys, ∀ z, related x y → related x z → y = z)
    (hFirst : List.Forall₂ related xs ys)
    (hSecond : List.Forall₂ related xs zs) :
    ys = zs := by
  induction hFirst generalizing zs with
  | nil =>
      cases hSecond
      rfl
  | cons hHere hRest ih =>
      cases hSecond with
      | cons hHere' hRest' =>
          rw [hUnique _ _ List.mem_cons_self _ hHere hHere',
            ih (fun x y hMem => hUnique x y (List.mem_cons_of_mem _ hMem))
              hRest']

theorem forall₂_imp
    {first second : α → β → Prop}
    {xs : List α}
    {ys : List β}
    (hFirst : List.Forall₂ first xs ys)
    (hSecond : ∀ x, ∀ y ∈ ys, first x y → second x y) :
    List.Forall₂ second xs ys := by
  induction hFirst with
  | nil => exact .nil
  | cons hHere hRest ih =>
      exact .cons (hSecond _ _ List.mem_cons_self hHere)
        (ih fun x y hMem => hSecond x y (List.mem_cons_of_mem _ hMem))

theorem exists_of_mem
    {paired : α → β → Prop}
    {xs : List α}
    {ys : List β}
    (hPaired : List.Forall₂ paired xs ys) :
    ∀ x ∈ xs, ∃ y ∈ ys, paired x y := by
  induction hPaired with
  | nil => nofun
  | cons hHere hRest ih =>
      rw [List.forall_mem_cons]
      refine ⟨⟨_, List.mem_cons_self, hHere⟩, fun x hMem => ?_⟩
      obtain ⟨y, hFound, hRelated⟩ := ih x hMem
      exact ⟨y, List.mem_cons_of_mem _ hFound, hRelated⟩

theorem forall_iff_of_forall₂
    {paired : α → β → Prop}
    {first : α → Prop}
    {second : β → Prop}
    {xs : List α}
    {ys : List β}
    (hPaired : List.Forall₂ paired xs ys)
    (hSame : ∀ x y, paired x y → (first x ↔ second y)) :
    (∀ x ∈ xs, first x) ↔ ∀ y ∈ ys, second y := by
  induction hPaired with
  | nil => exact ⟨nofun, nofun⟩
  | cons hHere hRest ih =>
      rw [List.forall_mem_cons, List.forall_mem_cons, ih,
        hSame _ _ hHere]

/- A relation holds along a list if it does along a related one. -/
theorem pairwise_iff_of_forall₂
    {paired : α → β → Prop}
    {first : α → α → Prop}
    {second : β → β → Prop}
    {xs : List α}
    {ys : List β}
    (hPaired : List.Forall₂ paired xs ys)
    (hSame :
      ∀ x x' y y',
        paired x y → paired x' y' → (first x x' ↔ second y y')) :
    xs.Pairwise first ↔ ys.Pairwise second := by
  induction hPaired with
  | nil => exact ⟨fun _ => .nil, fun _ => .nil⟩
  | cons hHere hRest ih =>
      have hHead := forall_iff_of_forall₂ hRest (hSame _ · _ · hHere ·)
      rw [List.pairwise_cons, List.pairwise_cons, ih, hHead]

theorem forall₂_zip
    {first : α → β → Prop}
    {second : γ → δ → Prop}
    {xs : List α}
    {xs' : List β}
    {ys : List γ}
    {ys' : List δ}
    (hFirst : List.Forall₂ first xs xs')
    (hSecond : List.Forall₂ second ys ys') :
    List.Forall₂ (fun pair pair' => first pair.1 pair'.1 ∧ second pair.2 pair'.2)
      (xs.zip ys) (xs'.zip ys') := by
  induction hFirst generalizing ys ys' with
  | nil => exact .nil
  | cons hHere hRest ih =>
      cases hSecond with
      | nil => exact .nil
      | cons hHere' hRest' => exact .cons ⟨hHere, hHere'⟩ (ih hRest')

/- Pairs are related if their parts are. -/
theorem forall₂_pairs
    {first : α → β → Prop}
    {second : γ → δ → Prop}
    {xs : List (α × γ)}
    {ys : List (β × δ)}
    (hFirst : List.Forall₂ first (xs.map (·.1)) (ys.map (·.1)))
    (hSecond : List.Forall₂ second (xs.map (·.2)) (ys.map (·.2))) :
    List.Forall₂ (fun x y => first x.1 y.1 ∧ second x.2 y.2) xs ys := by
  have hZip := forall₂_zip hFirst hSecond
  rwa [List.zip_map', List.zip_map', List.map_id', List.map_id'] at hZip

/- Tests that agree on related items agree on related lists. -/
theorem all_and_any_eq
    {paired : α → β → Prop}
    {p : α → Bool}
    {q : β → Bool}
    {xs : List α}
    {ys : List β}
    (hPaired : List.Forall₂ paired xs ys)
    (hSame : ∀ x y, paired x y → p x = q y) :
    xs.all p = ys.all q ∧ xs.any p = ys.any q := by
  induction hPaired with
  | nil => exact ⟨rfl, rfl⟩
  | cons hHere hRest ih =>
      simp only [List.all_cons, List.any_cons, hSame _ _ hHere, ih, and_self]

end RelatedLists

------------------------------------------------------------
-- Values that Hold Data
------------------------------------------------------------

namespace Heap

/-
  A value that holds data: numbers are those that have a literal
  form, and neither the keys of a dict nor the items of a set are
  equal to each other.
-/
inductive Holds (heap : Heap) : Value → Datum → Prop
  | none : Holds heap .none .none
  | bool
      (value : Bool) :
      Holds heap (.bool value) (.bool value)
  | int
      {value : Int}
      (hRange : Number.wordMin < value ∧ value ≤ Number.wordMax) :
      Holds heap (.int value) (.int value)
  | float
      {value : Float}
      (hFinite : Number.IsFinite value) :
      Holds heap (.float value) (.float value)
  | str
      (value : String) :
      Holds heap (.str value) (.str value)
  | list
      {address : Nat}
      {items : List Datum}
      (hAddress : address < heap.lists.size)
      (hItems : List.Forall₂ (Holds heap) (heap.list address).toList items) :
      Holds heap (.list address) (.list items)
  | tuple
      {address : Nat}
      {items : List Datum}
      (hAddress : address < heap.tuples.size)
      (hItems : List.Forall₂ (Holds heap) (heap.tuple address).toList items) :
      Holds heap (.tuple address) (.tuple items)
  | dict
      {address : Nat}
      {entries : List (Datum × Datum)}
      (hAddress : address < heap.dicts.size)
      (hKeys :
        List.Forall₂ (Holds heap) ((heap.dict address).toList.map (·.1))
          (entries.map (·.1)))
      (hValues :
        List.Forall₂ (Holds heap) ((heap.dict address).toList.map (·.2))
          (entries.map (·.2)))
      (hDistinct :
        ((heap.dict address).toList.map (·.1)).Pairwise
          fun key other => heap.equal key other = false) :
      Holds heap (.dict address) (.dict entries)
  | set
      {address : Nat}
      {items : List Datum}
      (hAddress : address < heap.sets.size)
      (hItems : List.Forall₂ (Holds heap) (heap.set address).toList items)
      (hDistinct :
        (heap.set address).toList.Pairwise
          fun item other => heap.equal item other = false) :
      Holds heap (.set address) (.set items)

section Containers

variable {heap : Heap}
variable {address : Nat}
variable {datum : Datum}

theorem Holds.exists_list
    (hHolds : heap.Holds (.list address) datum) :
    ∃ items, datum = .list items := by
  cases hHolds
  exact ⟨_, rfl⟩

theorem Holds.exists_tuple
    (hHolds : heap.Holds (.tuple address) datum) :
    ∃ items, datum = .tuple items := by
  cases hHolds
  exact ⟨_, rfl⟩

theorem Holds.exists_set
    (hHolds : heap.Holds (.set address) datum) :
    ∃ items, datum = .set items := by
  cases hHolds
  exact ⟨_, rfl⟩

theorem Holds.exists_dict
    (hHolds : heap.Holds (.dict address) datum) :
    ∃ entries, datum = .dict entries := by
  cases hHolds
  exact ⟨_, rfl⟩

end Containers

/- A value holds at most one datum. -/
theorem Holds.datum_unique
    {heap : Heap}
    {value : Value}
    {datum other : Datum}
    (hDatum : heap.Holds value datum)
    (hOther : heap.Holds value other) :
    datum = other := by
  induction datum using Datum.induct generalizing value other with
  | step datum ih =>
      have hItems
          {values : List Value}
          {items others : List Datum}
          (hParts : items ⊆ datum.parts)
          (hFirst : List.Forall₂ heap.Holds values items)
          (hSecond : List.Forall₂ heap.Holds values others) :
          items = others :=
        @eq_of_forall₂ _ _ heap.Holds _ _ _
          (fun _ item hMem _ => ih item (hParts hMem)) hFirst hSecond
      cases hDatum with
      | none | bool _ | int _ | float _ | str _ =>
          cases hOther
          rfl
      | list hAddress hFirst =>
          cases hOther with
          | list hAddress' hSecond =>
              exact congrArg Datum.list
                (hItems (List.Subset.refl _) hFirst hSecond)
      | tuple hAddress hFirst =>
          cases hOther with
          | tuple hAddress' hSecond =>
              exact congrArg Datum.tuple
                (hItems (List.Subset.refl _) hFirst hSecond)
      | set hAddress hFirst hDistinct =>
          cases hOther with
          | set hAddress' hSecond hDistinct' =>
              exact congrArg Datum.set
                (hItems (List.Subset.refl _) hFirst hSecond)
      | @dict _ entries hAddress hKeys hValues hDistinct =>
          cases hOther with
          | @dict _ others hAddress' hKeys' hValues' hDistinct' =>
              have hFirst :=
                hItems (List.subset_append_left _ _) hKeys hKeys'
              have hSecond :=
                hItems (List.subset_append_right _ _) hValues hValues'
              rw [← List.zip_unzip entries, ← List.zip_unzip others,
                List.unzip_eq_map, List.unzip_eq_map, hFirst, hSecond]

/- The parts of a container are held by values in it. -/
theorem Holds.of_mem_parts
    {heap : Heap}
    {value : Value}
    {datum part : Datum}
    (hHolds : heap.Holds value datum)
    (hMem : part ∈ datum.parts) :
    ∃ inner, heap.Holds inner part := by
  have hItems
      {values : List Value}
      {items : List Datum}
      (hHeld : List.Forall₂ heap.Holds values items)
      (hMem : part ∈ items) :
      ∃ inner, heap.Holds inner part := by
    have hFlipped :
        List.Forall₂ (fun item inner => heap.Holds inner item) items
          values :=
      hHeld.flip
    obtain ⟨inner, -, hInner⟩ := exists_of_mem hFlipped part hMem
    exact ⟨inner, hInner⟩
  cases hHolds with
  | none | bool _ | int _ | float _ | str _ => cases hMem
  | list hAddress hHeld | tuple hAddress hHeld => exact hItems hHeld hMem
  | set hAddress hHeld hDistinct => exact hItems hHeld hMem
  | dict hAddress hKeys hValues hDistinct =>
      rcases List.mem_append.mp hMem with hKey | hValue
      · exact hItems hKeys hKey
      · exact hItems hValues hValue

end Heap

end SnippetGrader
