import SnippetGrader.Evaluation.Library.Containers
import SnippetGrader.Proofs.Evaluation.Equivalence
import SnippetGrader.Proofs.Evaluation.Frozen

/-
  Dicts as maps in the order of insertion.

  To insert an entry either gives a new value to the first key
  that is equal, or adds the entry at the end. As long as no two
  keys are equal to each other, the keys are a set of which
  equality picks at most one member, and so a dict is a map.

  Key definitions include:
    * `Heap.KeysOn`, `Heap.IsMap`
    * `Heap.Inserts`
    * `Eval.outcome`

  Key theorems include:
    * `Heap.inserts_insertEntry`
    * `Heap.Inserts.isMap`
    * `Heap.Inserts.value?_of_equal`, `Heap.Inserts.value?_of_unequal`
    * `Eval.setItem_dict`
-/

namespace SnippetGrader

/- The entries of a dict in their order. -/
abbrev Entries := List (Value × Value)

namespace Heap

variable {heap later : Heap}
variable {data : Value → Prop}
variable {key other value : Value}
variable {entries inserted : Entries}

------------------------------------------------------------
-- Maps
------------------------------------------------------------

/- Values that never change, and on which equality is an equivalence. -/
structure KeysOn (heap : Heap) (data : Value → Prop) : Prop
    extends heap.EquivalenceOn data where
  frozen : ∀ {key}, data key → heap.IsFrozen key

/- Entries whose keys are data, and of which no two have equal keys. -/
structure IsMap
    (heap : Heap)
    (data : Value → Prop)
    (entries : Entries) :
    Prop where
  keys : ∀ key ∈ entries.map Prod.fst, data key
  distinct :
    (entries.map Prod.fst).Pairwise fun key other =>
      heap.equal key other = false

/- Frozen data on which equality is an equivalence stays so. -/
theorem KeysOn.of_keepsTuples
    (hKeys : heap.KeysOn data)
    (hKeeps : heap.KeepsTuples later) :
    later.KeysOn data where
  frozen hKey := (hKeys.frozen hKey).of_keepsTuples hKeeps
  symm := by
    intro x y hX hY hEqual
    rw [Equal, (hKeys.frozen hY).equal_eq (hKeys.frozen hX) hKeeps]
    rw [Equal, (hKeys.frozen hX).equal_eq (hKeys.frozen hY) hKeeps] at hEqual
    exact hKeys.symm hX hY hEqual
  trans := by
    intro x y z hX hY hZ hFirst hSecond
    rw [Equal, (hKeys.frozen hX).equal_eq (hKeys.frozen hZ) hKeeps]
    rw [Equal, (hKeys.frozen hX).equal_eq (hKeys.frozen hY) hKeeps] at hFirst
    rw [Equal, (hKeys.frozen hY).equal_eq (hKeys.frozen hZ) hKeeps] at hSecond
    exact hKeys.trans hX hY hZ hFirst hSecond

theorem IsMap.of_keepsTuples
    (hMap : heap.IsMap data entries)
    (hKeys : heap.KeysOn data)
    (hKeeps : heap.KeepsTuples later) :
    later.IsMap data entries where
  keys := hMap.keys
  distinct := by
    refine hMap.distinct.imp_of_mem fun {x y} hX hY hUnequal => ?_
    rw [(hKeys.frozen (hMap.keys x hX)).equal_eq
      (hKeys.frozen (hMap.keys y hY)) hKeeps]
    exact hUnequal

/- Data that never changes, nested less deep than values are compared. -/
theorem keysOn_data
    (heap : Heap) :
    heap.KeysOn fun key => heap.IsFrozen key ∧ heap.IsData maxNesting key where
  toEquivalenceOn :=
    (heap.equivalenceOn_data le_rfl).mono fun _ hKey => hKey.2
  frozen hKey := hKey.1

------------------------------------------------------------
-- Insertion
------------------------------------------------------------

/-
  What becomes of entries when one is inserted: the first that
  has an equal key gets the value and keeps its key, or the new
  one goes last.
-/
inductive Inserts
    (heap : Heap)
    (key value : Value) :
    Entries → Entries → Prop
  | replaced
      {before after : Entries}
      {found : Value × Value}
      (hBefore : ∀ entry ∈ before, heap.equal entry.1 key = false)
      (hFound : heap.Equal found.1 key) :
      Inserts heap key value (before ++ found :: after)
        (before ++ (found.1, value) :: after)
  | added
      {entries : Entries}
      (hNew : ∀ entry ∈ entries, heap.equal entry.1 key = false) :
      Inserts heap key value entries (entries ++ [(key, value)])

theorem inserts_insertEntry
    (heap : Heap)
    (entries : Array (Value × Value))
    (key value : Value) :
    heap.Inserts key value entries.toList
      (heap.insertEntry entries key value).toList := by
  cases hFind : entries.findIdx? fun entry => heap.equal entry.1 key with
  | none =>
      have hNew : ∀ entry ∈ entries.toList, heap.equal entry.1 key = false := by
        intro entry hMem
        rw [Array.findIdx?_eq_none_iff] at hFind
        exact hFind entry (Array.mem_toList_iff.mp hMem)
      rw [insertEntry_eq hNew, Array.toList_push]
      exact .added hNew
  | some index =>
      obtain ⟨hIndex, hFound, hBefore⟩ :=
        Array.findIdx?_eq_some_iff_getElem.mp hFind
      obtain ⟨before, found, after, hEntries, hLength, hModified⟩ :=
        List.exists_of_modify (fun entry => (entry.1, value))
          (show index < entries.toList.length from hIndex)
      have hInsert :
          (heap.insertEntry entries key value).toList =
            before ++ (found.1, value) :: after := by
        rw [insertEntry, hFind, Array.toList_modify, hModified]
      subst hLength
      rw [hInsert, hEntries]
      refine .replaced ?_ ?_
      · intro entry hMem
        obtain ⟨place, hPlace, rfl⟩ := List.mem_iff_getElem.mp hMem
        have hHere := hBefore place hPlace
        simp only [← Array.getElem_toList, hEntries,
          List.getElem_append_left hPlace] at hHere
        exact Bool.eq_false_of_not_eq_true hHere
      · simpa [← Array.getElem_toList, hEntries] using hFound

/- The value of the first entry with an equal key. -/
def value? (heap : Heap) (entries : Entries) (key : Value) : Option Value :=
  (entries.find? fun entry => heap.equal entry.1 key).map Prod.snd

theorem value?_cons
    (entry : Value × Value)
    (rest : Entries) :
    heap.value? (entry :: rest) key =
      if heap.equal entry.1 key then some entry.2 else heap.value? rest key := by
  unfold value?
  rw [List.find?_cons]
  split <;> simp only [*] <;> rfl

theorem value?_append
    (before rest : Entries) :
    heap.value? (before ++ rest) key =
      (heap.value? before key).or (heap.value? rest key) := by
  unfold value?
  rw [List.find?_append, Option.map_or]

theorem value?_eq_none
    {before : Entries}
    (hBefore : ∀ entry ∈ before, heap.equal entry.1 key = false) :
    heap.value? before key = none := by
  unfold value?
  rw [Option.map_eq_none_iff, List.find?_eq_none]
  exact fun entry hMem => by simp [hBefore entry hMem]

namespace Inserts

variable (hInserts : heap.Inserts key value entries inserted)

include hInserts

/- Only a key that is equal to none of the others is added. -/
theorem keys_eq :
    inserted.map Prod.fst = entries.map Prod.fst ∨
      inserted.map Prod.fst = entries.map Prod.fst ++ [key] ∧
        ∀ other ∈ entries.map Prod.fst, heap.equal other key = false := by
  cases hInserts with
  | replaced hBefore hFound =>
      left
      simp only [List.map_append, List.map_cons]
  | added hNew =>
      right
      refine ⟨by simp, ?_⟩
      intro other hMem
      obtain ⟨entry, hEntry, rfl⟩ := List.mem_map.mp hMem
      exact hNew entry hEntry

/- A key that is there keeps its place, and so do all others. -/
theorem keys_eq_of_equal
    {entry : Value × Value}
    (hMem : entry ∈ entries)
    (hEqual : heap.Equal entry.1 key) :
    inserted.map Prod.fst = entries.map Prod.fst := by
  rcases hInserts.keys_eq with hSame | ⟨-, hNew⟩
  · exact hSame
  · have hUnequal := hNew entry.1 (List.mem_map_of_mem hMem)
    exact absurd (hUnequal.symm.trans hEqual) Bool.false_ne_true

/- An entry with a new key goes last. -/
theorem eq_of_unequal
    (hNew : ∀ entry ∈ entries, ¬heap.Equal entry.1 key) :
    inserted = entries ++ [(key, value)] := by
  cases hInserts with
  | replaced hBefore hFound => exact absurd hFound (hNew _ (by simp))
  | added _ => rfl

theorem isMap
    (hMap : heap.IsMap data entries)
    (hKey : data key) :
    heap.IsMap data inserted := by
  rcases hInserts.keys_eq with hSame | ⟨hAdded, hNew⟩
  · exact ⟨hSame ▸ hMap.keys, hSame ▸ hMap.distinct⟩
  · constructor
    · rw [hAdded]
      intro other hMem
      rcases List.mem_append.mp hMem with hMem | hMem
      · exact hMap.keys other hMem
      · rw [List.mem_singleton.mp hMem]
        exact hKey
    · rw [hAdded, List.pairwise_append]
      refine ⟨hMap.distinct, List.pairwise_singleton .., ?_⟩
      intro other hMem last hLast
      rw [List.mem_singleton.mp hLast]
      exact hNew other hMem

section Reading

variable
  (hKeys : heap.KeysOn data)
  (hMap : heap.IsMap data entries)
  (hKey : data key)
  (hOther : data other)

include hKeys hMap hKey hOther

/- What is read at an equal key is what was inserted. -/
theorem value?_of_equal
    (hEqual : heap.Equal other key) :
    heap.value? inserted other = some value := by
  have hBack := hKeys.symm hOther hKey hEqual
  -- A key that is equal to neither of the two is not in the way.
  have hSkip
      {before : Entries}
      (hBefore : ∀ entry ∈ before, heap.equal entry.1 key = false)
      (hData : ∀ entry ∈ before, data entry.1) :
      ∀ entry ∈ before, heap.equal entry.1 other = false := by
    intro entry hMem
    refine Bool.eq_false_of_not_eq_true fun hHere => ?_
    have hThere := hKeys.trans (hData entry hMem) hOther hKey hHere hEqual
    exact Bool.false_ne_true ((hBefore entry hMem).symm.trans hThere)
  have hData : ∀ entry ∈ entries, data entry.1 :=
    fun entry hMem => hMap.keys _ (List.mem_map_of_mem hMem)
  cases hInserts with
  | @replaced before after found hBefore hFound =>
      have hFirst : ∀ entry ∈ before, data entry.1 :=
        fun entry hMem => hData entry (List.mem_append_left _ hMem)
      have hHere : heap.Equal found.1 other :=
        hKeys.trans (hData found (by simp)) hKey hOther hFound hBack
      rw [value?_append, value?_eq_none (hSkip hBefore hFirst), value?_cons,
        if_pos hHere]
      rfl
  | added hNew =>
      rw [value?_append, value?_eq_none (hSkip hNew hData), value?_cons,
        if_pos hBack]
      rfl

/- What is read at any other key is what was there. -/
theorem value?_of_unequal
    (hUnequal : ¬heap.Equal other key) :
    heap.value? inserted other = heap.value? entries other := by
  cases hInserts with
  | @replaced before after found hBefore hFound =>
      have hMem : found.1 ∈ (before ++ found :: after).map Prod.fst := by simp
      have hThere : ¬heap.Equal found.1 other := by
        intro hHere
        have hBack := hKeys.symm (hMap.keys _ hMem) hOther hHere
        exact hUnequal
          (hKeys.trans hOther (hMap.keys _ hMem) hKey hBack hFound)
      rw [value?_append, value?_append, value?_cons, value?_cons,
        if_neg hThere, if_neg hThere]
  | added hNew =>
      have hThere : ¬heap.Equal key other :=
        fun hHere => hUnequal (hKeys.symm hKey hOther hHere)
      rw [value?_append, value?_cons, if_neg hThere]
      exact Option.or_none

end Reading

end Inserts

------------------------------------------------------------
-- Dicts of a Heap
------------------------------------------------------------

theorem entry?_eq
    (heap : Heap)
    (entries : Array (Value × Value))
    (key : Value) :
    heap.entry? entries key = heap.value? entries.toList key := by
  unfold entry? value?
  rw [Array.find?_toList]

theorem any_eq_isSome_entry?
    (heap : Heap)
    (entries : Array (Value × Value))
    (key : Value) :
    (entries.any fun entry => heap.equal entry.1 key) =
      (heap.entry? entries key).isSome := by
  unfold entry?
  rw [Option.isSome_map, ← Array.any_toList, ← Array.find?_toList,
    List.isSome_find?]

theorem dict_setDict
    {address : Nat}
    (hAddress : address < heap.dicts.size)
    (entries : Array (Value × Value)) :
    (heap.setDict address entries).dict address = entries := by
  simp [setDict, dict, hAddress, Array.getElem_modify_self]

end Heap

------------------------------------------------------------
-- Steps on Dicts
------------------------------------------------------------

namespace Eval

variable {α : Type}
variable {address : Nat}

/- What a step gives, without the state that it leaves. -/
def outcome (action : Eval α) (start : Interpreter) : Except EvalError α :=
  match action start with
  | .ok value _ => .ok value
  | .error fault _ => .error fault

/- The dict of a state after an entry was inserted. -/
def inserted (address : Nat) (key value : Value) (start : Interpreter) : Interpreter :=
  { start with
    store.heap :=
      start.store.heap.setDict address
        (start.store.heap.insertEntry (start.store.heap.dict address) key
          value) }

theorem setItem_dict
    (address : Nat)
    (key value : Value)
    (start : Interpreter) :
    setItem (.dict address) key value start =
      .ok () (inserted address key value start) := rfl

/- Reading fails with the key if it is not there. -/
theorem getItem_dict
    (address : Nat)
    (key : Value)
    (start : Interpreter) :
    getItem (.dict address) key start =
      (start.store.heap.entry? (start.store.heap.dict address) key).elim
        (.error (.key (start.store.heap.repr key)) start)
        (.ok · start) := by
  have hRead :
      onHeap (fun heap => heap.entry? (heap.dict address) key) start =
        .ok (start.store.heap.entry? (start.store.heap.dict address) key)
          start :=
    rfl
  refine (bind_eq_of_ok hRead _).trans ?_
  cases start.store.heap.entry? (start.store.heap.dict address) key <;> rfl

theorem contains_dict
    (address : Nat)
    (key : Value)
    (start : Interpreter) :
    contains (.dict address) key start =
      .ok (start.store.heap.entry? (start.store.heap.dict address) key).isSome
        start := by
  rw [← Heap.any_eq_isSome_entry?]
  rfl

theorem runDict_get
    (address : Nat)
    (key default : Value)
    (keywords : Keywords Value)
    (start : Interpreter) :
    runDict .get [.dict address, key, default] keywords start =
      .ok
        ((start.store.heap.entry? (start.store.heap.dict address) key).getD
          default)
        start := rfl

section Assignment

variable {data : Value → Prop}
variable {key other value : Value}
variable {start : Interpreter}

theorem outcome_getItem
    (address : Nat)
    (key : Value)
    (start : Interpreter) :
    outcome (getItem (.dict address) key) start =
      (start.store.heap.value? (start.store.heap.dict address).toList key).elim
        (.error (.key (start.store.heap.repr key))) .ok := by
  unfold outcome
  rw [getItem_dict, Heap.entry?_eq]
  cases start.store.heap.value? (start.store.heap.dict address).toList key <;>
    rfl

variable
  (hKeys : start.store.heap.KeysOn data)
  (hAddress : address < start.store.heap.dicts.size)
  (hMap : start.store.heap.IsMap data (start.store.heap.dict address).toList)
  (hKey : data key)

theorem keepsTuples_inserted :
    start.store.heap.KeepsTuples (inserted address key value start).store.heap :=
  List.prefix_rfl

include hAddress in
theorem inserts_inserted :
    start.store.heap.Inserts key value
      (start.store.heap.dict address).toList
      ((inserted address key value start).store.heap.dict address).toList := by
  unfold inserted
  dsimp only
  rw [Heap.dict_setDict hAddress]
  exact start.store.heap.inserts_insertEntry _ key value

include hKeys hAddress hMap hKey

theorem isMap_inserted :
    (inserted address key value start).store.heap.IsMap data
      ((inserted address key value start).store.heap.dict address).toList :=
  ((inserts_inserted hAddress).isMap hMap hKey).of_keepsTuples hKeys
    keepsTuples_inserted

/- What is read after an assignment is found with the equality before it. -/
theorem value?_inserted
    (hOther : data other) :
    (inserted address key value start).store.heap.value?
        ((inserted address key value start).store.heap.dict address).toList
        other =
      start.store.heap.value?
        ((inserted address key value start).store.heap.dict address).toList
        other := by
  have hInserts :
      start.store.heap.Inserts key value
        (start.store.heap.dict address).toList
        ((inserted address key value start).store.heap.dict address).toList :=
    inserts_inserted hAddress
  have hAfter := hInserts.isMap hMap hKey
  unfold Heap.value?
  refine congrArg (Option.map Prod.snd) (List.find?_congr fun entry hMem => ?_)
  have hData := hAfter.keys _ (List.mem_map_of_mem hMem)
  exact (hKeys.frozen hData).equal_eq (hKeys.frozen hOther)
    keepsTuples_inserted

theorem outcome_getItem_of_equal
    (hOther : data other)
    (hEqual : start.store.heap.Equal other key) :
    outcome (getItem (.dict address) other)
      (inserted address key value start) = .ok value := by
  rw [outcome_getItem, value?_inserted hKeys hAddress hMap hKey hOther,
    (inserts_inserted hAddress).value?_of_equal hKeys hMap hKey hOther hEqual]
  rfl

theorem outcome_getItem_of_unequal
    (hOther : data other)
    (hUnequal : ¬start.store.heap.Equal other key) :
    outcome (getItem (.dict address) other)
        (inserted address key value start) =
      outcome (getItem (.dict address) other) start := by
  have hText :
      (inserted address key value start).store.heap.repr other =
        start.store.heap.repr other :=
    (hKeys.frozen hOther).repr_eq keepsTuples_inserted
  have hSame :
      start.store.heap.value?
          ((inserted address key value start).store.heap.dict address).toList
          other =
        start.store.heap.value? (start.store.heap.dict address).toList other :=
    (inserts_inserted hAddress).value?_of_unequal hKeys hMap hKey hOther
      hUnequal
  rw [outcome_getItem, outcome_getItem, hText,
    value?_inserted hKeys hAddress hMap hKey hOther, hSame]

end Assignment

end Eval

end SnippetGrader
