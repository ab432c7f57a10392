import SnippetGrader.Proofs.Evaluation.Dicts
import SnippetGrader.Proofs.Evaluation.Rules
import SnippetGrader.Proofs.Signature.Leftovers

/-
  The ways to make a dict.

  A display, a call of `dict` and the keyword arguments that a
  parameter collects all make the dict that one gets from an
  empty dict by assigning its items one after another. Their
  entries are put together before there is a dict, while code
  may run in between; keys that never change are compared then
  as they are at the end.

  Key definitions include:
    * `Eval.assembled`
    * `Heap.insertAll`
    * `Evaluator.Enters`, `Eval.Offers`

  Key theorems include:
    * `Eval.assembled_eq`
    * `Evaluator.evalForm_dict`
    * `Eval.toDict_eq`
    * `Evaluator.boundValue_varKeyword`
-/

namespace SnippetGrader

------------------------------------------------------------
-- Entries after Each Other
------------------------------------------------------------

namespace Heap

variable {heap later : Heap}
variable {found : Array (Value × Value)}
variable {key value : Value}

/- Entries whose keys never change. -/
def FrozenKeys (heap : Heap) (entries : Entries) : Prop :=
  ∀ entry ∈ entries, heap.IsFrozen entry.1

theorem FrozenKeys.of_keepsTuples
    {entries : Entries}
    (hFrozen : heap.FrozenKeys entries)
    (hKeeps : heap.KeepsTuples later) :
    later.FrozenKeys entries :=
  fun entry hMem => (hFrozen entry hMem).of_keepsTuples hKeeps

theorem Inserts.frozenKeys
    {entries inserted : Entries}
    (hInserts : heap.Inserts key value entries inserted)
    (hFrozen : heap.FrozenKeys entries)
    (hKey : heap.IsFrozen key) :
    heap.FrozenKeys inserted := by
  intro entry hMem
  have hKeys : entry.1 ∈ inserted.map Prod.fst := List.mem_map_of_mem hMem
  have hOld : ∀ other ∈ entries.map Prod.fst, heap.IsFrozen other := by
    intro other hOther
    obtain ⟨earlier, hEarlier, rfl⟩ := List.mem_map.mp hOther
    exact hFrozen earlier hEarlier
  rcases hInserts.keys_eq with hSame | ⟨hAdded, -⟩
  · exact hOld _ (hSame ▸ hKeys)
  · rw [hAdded] at hKeys
    rcases List.mem_append.mp hKeys with hOther | hLast
    · exact hOld _ hOther
    · rw [List.mem_singleton.mp hLast]
      exact hKey

theorem findIdx?_congr
    {α : Type}
    {test other : α → Bool}
    {items : List α}
    (hSame : ∀ item ∈ items, test item = other item) :
    items.findIdx? test = items.findIdx? other := by
  induction items with
  | nil => rfl
  | cons item rest ih =>
      have hRest := ih fun later hMem => hSame later (List.mem_cons_of_mem _ hMem)
      rw [List.findIdx?_cons, List.findIdx?_cons, hRest,
        hSame item List.mem_cons_self]

/- Frozen keys are inserted alike before and after the heap has changed. -/
theorem insertEntry_eq_of_keepsTuples
    (hFound : heap.FrozenKeys found.toList)
    (hKey : heap.IsFrozen key)
    (hKeeps : heap.KeepsTuples later) :
    later.insertEntry found key value = heap.insertEntry found key value := by
  have hFind :
      (found.findIdx? fun entry => later.equal entry.1 key) =
        found.findIdx? fun entry => heap.equal entry.1 key := by
    have hArray : found = found.toList.toArray := Array.toArray_toList.symm
    rw [hArray, List.findIdx?_toArray, List.findIdx?_toArray]
    exact findIdx?_congr fun entry hMem =>
      (hFound entry hMem).equal_eq hKey hKeeps
  unfold insertEntry
  rw [hFind]

theorem frozenKeys_insertEntry
    (hFound : heap.FrozenKeys found.toList)
    (hKey : heap.IsFrozen key) :
    heap.FrozenKeys (heap.insertEntry found key value).toList :=
  (heap.inserts_insertEntry found key value).frozenKeys hFound hKey

/- The last dict that was added gets other entries. -/
theorem setDict_addDict
    (heap : Heap)
    (found entries : Array (Value × Value)) :
    (heap.addDict found).2.setDict heap.dicts.size entries =
      (heap.addDict entries).2 := by
  have hDicts :
      (heap.dicts.push found).modify heap.dicts.size (fun _ => entries) =
        heap.dicts.push entries := by
    refine Array.ext (by simp) fun place hPlace hOther => ?_
    rw [Array.getElem_modify]
    split
    · subst place
      simp
    · simp only [Array.size_modify, Array.size_push] at hPlace
      have hOld : place < heap.dicts.size := by omega
      rw [Array.getElem_push_lt hOld, Array.getElem_push_lt hOld]
  unfold setDict addDict
  rw [hDicts]

/- Inserts entries one after another. -/
def insertAll
    (heap : Heap)
    (found : Array (Value × Value))
    (entries : Entries) :
    Array (Value × Value) :=
  entries.foldl (fun found entry => heap.insertEntry found entry.1 entry.2) found

/- Entries with keys that differ from each other are kept as they are. -/
theorem insertAll_of_distinct
    {entries : Entries}
    (hDistinct :
      (found.toList ++ entries).Pairwise fun entry other =>
        heap.equal entry.1 other.1 = false) :
    heap.insertAll found entries = found ++ entries.toArray := by
  induction entries generalizing found with
  | nil => simp [insertAll]
  | cons entry rest ih =>
      have hNew : ∀ other ∈ found.toList, heap.equal other.1 entry.1 = false :=
        fun other hMem =>
          (List.pairwise_append.mp hDistinct).2.2 other hMem entry
            List.mem_cons_self
      have hRest :
          heap.insertAll (found.push entry) rest =
            found.push entry ++ rest.toArray :=
        ih (by simpa using hDistinct)
      rw [insertAll, List.foldl_cons, insertEntry_eq hNew]
      refine hRest.trans ?_
      simp

end Heap

------------------------------------------------------------
-- Item Assignments
------------------------------------------------------------

/- The state with a dict added. -/
def Interpreter.withDict
    (start : Interpreter)
    (entries : Array (Value × Value)) :
    Interpreter :=
  { start with store.heap := (start.store.heap.addDict entries).2 }

namespace Eval

variable {start : Interpreter}

/- An empty dict, to whose items values are then assigned. -/
def assembled (entries : Entries) : Eval Value := do
  let dict ← newDict #[]
  entries.forM fun entry => setItem dict entry.1 entry.2
  return dict

theorem newDict_eq
    (entries : Array (Value × Value))
    (start : Interpreter) :
    newDict entries start =
      .ok (.dict start.store.heap.dicts.size) (start.withDict entries) := rfl

/- The last dict of a heap gets one more entry. -/
theorem setItem_withDict
    {found : Array (Value × Value)}
    {key : Value}
    (hFound : start.store.heap.FrozenKeys found.toList)
    (hKey : start.store.heap.IsFrozen key)
    (value : Value) :
    setItem (.dict start.store.heap.dicts.size) key value
        (start.withDict found) =
      .ok () (start.withDict (start.store.heap.insertEntry found key value)) := by
  have hDict :
      (start.withDict found).store.heap.dict start.store.heap.dicts.size =
        found := by
    simp [Interpreter.withDict, Heap.addDict, Heap.dict]
  have hSame :
      (start.withDict found).store.heap.insertEntry found key value =
        start.store.heap.insertEntry found key value :=
    Heap.insertEntry_eq_of_keepsTuples hFound hKey List.prefix_rfl
  rw [setItem_dict, inserted, hDict, hSame]
  exact congrArg
    (fun heap => EStateM.Result.ok () { start with store.heap := heap })
    (start.store.heap.setDict_addDict found _)

theorem forM_setItem
    {entries : Entries}
    {found : Array (Value × Value)}
    (hFound : start.store.heap.FrozenKeys found.toList)
    (hEntries : start.store.heap.FrozenKeys entries) :
    (entries.forM fun entry =>
        setItem (.dict start.store.heap.dicts.size) entry.1 entry.2)
        (start.withDict found) =
      .ok () (start.withDict (start.store.heap.insertAll found entries)) := by
  induction entries generalizing found with
  | nil => rfl
  | cons entry rest ih =>
      have hKey := hEntries entry List.mem_cons_self
      have hStep := setItem_withDict hFound hKey entry.2
      refine (bind_eq_of_ok hStep _).trans ?_
      exact ih (Heap.frozenKeys_insertEntry hFound hKey) fun later hMem =>
        hEntries later (List.mem_cons_of_mem _ hMem)

theorem assembled_eq
    {entries : Entries}
    (hEntries : start.store.heap.FrozenKeys entries) :
    assembled entries start =
      newDict (start.store.heap.insertAll #[] entries) start := by
  have hNone : start.store.heap.FrozenKeys (#[] : Array (Value × Value)).toList :=
    fun _ hMem => absurd hMem List.not_mem_nil
  refine (bind_eq_of_ok (newDict_eq #[] start) _).trans ?_
  exact bind_eq_of_ok (forM_setItem hNone hEntries) _

end Eval

------------------------------------------------------------
-- Displays
------------------------------------------------------------

namespace Evaluator

open Eval

variable {inner : Evaluator}
variable {start last : Interpreter}
variable {pairs : List (Expr × Expr)}
variable {entries : Entries}

/- The entries that the expressions of a display are evaluated to. -/
inductive Enters (inner : Evaluator) :
    Interpreter → List (Expr × Expr) → Entries → Interpreter → Prop
  | nil
      {start : Interpreter} :
      Enters inner start [] [] start
  | cons
      {start mid next last : Interpreter}
      {keyExpr valueExpr : Expr}
      {key value : Value}
      {rest : List (Expr × Expr)}
      {entries : Entries}
      (hKey : inner.expr keyExpr start = .ok key mid)
      (hFrozen : mid.store.heap.IsFrozen key)
      (hValue : inner.expr valueExpr mid = .ok value next)
      (hRest : Enters inner next rest entries last) :
      Enters inner start ((keyExpr, valueExpr) :: rest)
        ((key, value) :: entries) last

theorem keepsTuples_of_ok
    (hInner : ∀ expr, Eval.KeepsTuples (inner.expr expr))
    {expr : Expr}
    {value : Value}
    (hOk : inner.expr expr start = .ok value last) :
    start.store.heap.KeepsTuples last.store.heap := by
  have hKeeps := hInner expr start
  rwa [hOk] at hKeeps

namespace Enters

variable (hInner : ∀ expr, Eval.KeepsTuples (inner.expr expr))

include hInner

theorem keepsTuples
    (hEnters : inner.Enters start pairs entries last) :
    start.store.heap.KeepsTuples last.store.heap := by
  induction hEnters with
  | nil => exact List.prefix_rfl
  | cons hKey hFrozen hValue hRest ih =>
      exact (keepsTuples_of_ok hInner hKey).trans
        ((keepsTuples_of_ok hInner hValue).trans ih)

theorem frozenKeys
    (hEnters : inner.Enters start pairs entries last) :
    last.store.heap.FrozenKeys entries := by
  induction hEnters with
  | nil => exact fun _ hMem => absurd hMem List.not_mem_nil
  | cons hKey hFrozen hValue hRest ih =>
      refine List.forall_mem_cons.mpr ⟨?_, ih⟩
      exact hFrozen.of_keepsTuples
        ((keepsTuples_of_ok hInner hValue).trans (hRest.keepsTuples hInner))

/- Keys are compared when they are found as they are at the end. -/
theorem entries_eq
    (hEnters : inner.Enters start pairs entries last)
    {found : Array (Value × Value)}
    (hFound : start.store.heap.FrozenKeys found.toList) :
    inner.entries found pairs start =
      .ok (last.store.heap.insertAll found entries) last := by
  induction hEnters generalizing found with
  | nil => rfl
  | @cons start mid next last keyExpr valueExpr key value rest entries hKey
      hFrozen hValue hRest ih =>
      have hAfterKey := keepsTuples_of_ok hInner hKey
      have hAfterValue := keepsTuples_of_ok hInner hValue
      have hFrozenKey := hFrozen.of_keepsTuples hAfterValue
      have hFrozenFound :=
        (hFound.of_keepsTuples hAfterKey).of_keepsTuples hAfterValue
      have hAdd :
          addEntry found key value next =
            .ok (next.store.heap.insertEntry found key value) next :=
        rfl
      have hSame :
          last.store.heap.insertEntry found key value =
            next.store.heap.insertEntry found key value :=
        Heap.insertEntry_eq_of_keepsTuples hFrozenFound hFrozenKey
          (hRest.keepsTuples hInner)
      refine (bind_eq_of_ok hKey _).trans ?_
      refine (bind_eq_of_ok hValue _).trans ?_
      refine (bind_eq_of_ok hAdd _).trans ?_
      rw [ih (Heap.frozenKeys_insertEntry hFrozenFound hFrozenKey),
        Heap.insertAll, Heap.insertAll, List.foldl_cons, hSame]

end Enters

theorem evalForm_dict
    (hInner : ∀ expr, Eval.KeepsTuples (inner.expr expr))
    (hEnters : inner.Enters start pairs entries last) :
    inner.evalForm (.dict pairs) start = assembled entries last := by
  have hNone : start.store.heap.FrozenKeys (#[] : Array (Value × Value)).toList :=
    fun _ hMem => absurd hMem List.not_mem_nil
  rw [assembled_eq (hEnters.frozenKeys hInner)]
  exact bind_eq_of_ok (hEnters.entries_eq hInner hNone) _

end Evaluator

------------------------------------------------------------
-- Calls of dict
------------------------------------------------------------

namespace Eval

variable {start : Interpreter}

/- The entries of keyword arguments. -/
def keywordEntries (keywords : Keywords Value) : Entries :=
  keywords.map fun keyword => (.str keyword.1, keyword.2)

/-
  The entries that the positional arguments of a call of `dict`
  offer: none, those of a dict, or the items of an iterable, each
  of which is an iterable of two.
-/
inductive Offers (start : Interpreter) : List Value → Entries → Prop
  | none :
      Offers start [] []
  | dict
      {address : Nat}
      (hDistinct :
        (start.store.heap.dict address).toList.Pairwise fun entry other =>
          start.store.heap.equal entry.1 other.1 = false) :
      Offers start [.dict address] (start.store.heap.dict address).toList
  | pairs
      {value : Value}
      {items : Array Value}
      {entries : Entries}
      (hOther : ∀ address, value ≠ .dict address)
      (hItems : iterate value start = .ok items start)
      (hPairs :
        List.Forall₂
          (fun item entry =>
            iterate item start = .ok #[entry.1, entry.2] start)
          items.toList entries) :
      Offers start [value] entries

theorem foldlM_addPair
    {items : List Value}
    {entries : Entries}
    (hPairs :
      List.Forall₂
        (fun item entry => iterate item start = .ok #[entry.1, entry.2] start)
        items entries)
    (found : Array (Value × Value)) :
    items.foldlM addPair found start =
      .ok (start.store.heap.insertAll found entries) start := by
  induction hPairs generalizing found with
  | nil => rfl
  | @cons item entry items entries hPair hRest ih =>
      have hStep :
          addPair found item start =
            .ok (start.store.heap.insertEntry found entry.1 entry.2) start :=
        (bind_eq_of_ok hPair _).trans rfl
      rw [List.foldlM_cons]
      exact (bind_eq_of_ok hStep _).trans (ih _)

theorem foldlM_addEntry
    (keywords : Keywords Value)
    (found : Array (Value × Value)) :
    keywords.foldlM
        (fun entries keyword => addEntry entries (.str keyword.1) keyword.2)
        found start =
      .ok (start.store.heap.insertAll found (keywordEntries keywords)) start := by
  induction keywords generalizing found with
  | nil => rfl
  | cons keyword rest ih =>
      have hStep :
          addEntry found (.str keyword.1) keyword.2 start =
            .ok (start.store.heap.insertEntry found (.str keyword.1) keyword.2)
              start :=
        rfl
      rw [List.foldlM_cons]
      exact (bind_eq_of_ok hStep _).trans (ih _)

theorem frozenKeys_keywordEntries
    (heap : Heap)
    (keywords : Keywords Value) :
    heap.FrozenKeys (keywordEntries keywords) := by
  intro entry hMem
  obtain ⟨keyword, -, rfl⟩ := List.mem_map.mp hMem
  exact .str keyword.1

/- A dict of given entries and those of keywords after them. -/
def withKeywords
    (keywords : Keywords Value)
    (given : Array (Value × Value)) :
    Eval Value := do
  let entries ←
    keywords.foldlM
      (fun entries keyword => addEntry entries (.str keyword.1) keyword.2) given
  newDict entries

theorem withKeywords_eq
    (keywords : Keywords Value)
    (given : Array (Value × Value)) :
    withKeywords keywords given start =
      newDict
        (start.store.heap.insertAll given (keywordEntries keywords)) start :=
  bind_eq_of_ok (foldlM_addEntry keywords given) _

theorem toDict_pairs
    {value : Value}
    (hOther : ∀ address, value ≠ .dict address)
    (keywords : Keywords Value) :
    toDict [value] keywords = (do
      let items ← iterate value
      let given ← items.toList.foldlM addPair #[]
      withKeywords keywords given) := by
  cases value <;> first | rfl | exact absurd rfl (hOther _)

/- The given entries are put together first, and then the keywords. -/
theorem toDict_of_offers
    {args : List Value}
    {given : Entries}
    (hOffers : Offers start args given)
    (keywords : Keywords Value) :
    toDict args keywords start =
      withKeywords keywords (start.store.heap.insertAll #[] given) start := by
  cases hOffers with
  | none => rfl
  | @dict address hDistinct =>
      have hGiven :
          start.store.heap.insertAll #[]
              (start.store.heap.dict address).toList =
            start.store.heap.dict address := by
        rw [Heap.insertAll_of_distinct (by simpa using hDistinct),
          Array.toArray_toList, Array.empty_append]
      rw [hGiven]
      rfl
  | @pairs value items _ hOther hItems hPairs =>
      rw [toDict_pairs hOther, bind_eq_of_ok hItems]
      exact bind_eq_of_ok (foldlM_addPair hPairs #[]) _

/- A call of `dict` assigns what is given, and then the keywords. -/
theorem toDict_eq
    {args : List Value}
    {given : Entries}
    (hOffers : Offers start args given)
    (hFrozen : start.store.heap.FrozenKeys given)
    (keywords : Keywords Value) :
    toDict args keywords start =
      assembled (given ++ keywordEntries keywords) start := by
  have hEntries :
      start.store.heap.FrozenKeys (given ++ keywordEntries keywords) := by
    intro entry hMem
    rcases List.mem_append.mp hMem with hGiven | hKeyword
    · exact hFrozen entry hGiven
    · exact frozenKeys_keywordEntries _ keywords entry hKeyword
  have hAll :
      start.store.heap.insertAll #[] (given ++ keywordEntries keywords) =
        start.store.heap.insertAll (start.store.heap.insertAll #[] given)
          (keywordEntries keywords) :=
    List.foldl_append
  rw [assembled_eq hEntries, hAll, toDict_of_offers hOffers, withKeywords_eq]

end Eval

------------------------------------------------------------
-- Keyword Arguments
------------------------------------------------------------

namespace Evaluator

open Eval

/- Keywords that differ from each other make a dict as they are. -/
theorem keywordDict_eq
    {keywords : Keywords Value}
    (hDistinct : (keywords.map Prod.fst).Nodup)
    (start : Interpreter) :
    keywordDict keywords start = assembled (keywordEntries keywords) start := by
  have hUnequal :
      (keywordEntries keywords).Pairwise fun entry other =>
        start.store.heap.equal entry.1 other.1 = false := by
    refine List.pairwise_map.mpr ((List.pairwise_map.mp hDistinct).imp ?_)
    intro keyword other hDiffer
    exact beq_eq_false_iff_ne.mpr hDiffer
  rw [assembled_eq (frozenKeys_keywordEntries _ keywords),
    Heap.insertAll_of_distinct (by simpa using hUnequal), Array.empty_append]
  rfl

/- The keywords that a parameter collects are those of one call. -/
theorem boundValue_varKeyword
    {callee : String}
    {signature : Signature}
    {args : List Value}
    {keywords pairs : Keywords Value}
    {bound : List (Parameter × Binding Value)}
    {start last : Interpreter}
    (hBound :
      bindArguments callee signature args keywords start = .ok bound last)
    {param : Parameter}
    (hMem : (param, .varKeyword pairs) ∈ bound)
    (default : Eval Value)
    (state : Interpreter) :
    boundValue default (.varKeyword pairs) state =
      assembled (keywordEntries pairs) state := by
  have hDistinct : (pairs.map Prod.fst).Nodup := by
    cases hBind : signature.bind args keywords with
    | ok result =>
        have hEntries : bound = result.withDefaults.entries := by
          simp only [bindArguments, hBind] at hBound
          cases hBound
          rfl
        exact Signature.nodup_of_varKeyword hBind (hEntries ▸ hMem)
    | error fault =>
        simp only [bindArguments, hBind] at hBound
        cases hBound
  exact keywordDict_eq hDistinct state

end Evaluator

------------------------------------------------------------
-- Dicts as Maps
------------------------------------------------------------

open Eval Evaluator

/-
  A dict is a map in the order of insertion. For keys that never
  change and on which equality is an equivalence, assigning an
  item keeps the keys unequal, gives the value at the keys equal
  to its own and changes no other item; a key that was there
  keeps its place and itself, and a new one goes last. Item
  access, membership and `get` find the same keys, and the other
  ways to make a dict are assignments of its items in order.
-/
theorem dict_is_ordered_map :
    (∀ (start : Interpreter)
        (data : Value → Prop)
        (address : Nat)
        (key value : Value),
      start.store.heap.KeysOn data →
        address < start.store.heap.dicts.size →
          start.store.heap.IsMap data
              (start.store.heap.dict address).toList →
            data key →
              ∃ last,
                setItem (.dict address) key value start = .ok () last ∧
                  last.store.heap.KeysOn data ∧
                  last.store.heap.IsMap data
                    (last.store.heap.dict address).toList ∧
                  (∀ other,
                    data other →
                      (start.store.heap.Equal other key →
                          outcome (getItem (.dict address) other) last =
                            .ok value) ∧
                        (¬start.store.heap.Equal other key →
                          outcome (getItem (.dict address) other) last =
                            outcome (getItem (.dict address) other) start)) ∧
                  ((∃ entry ∈ (start.store.heap.dict address).toList,
                      start.store.heap.Equal entry.1 key) →
                    (last.store.heap.dict address).toList.map Prod.fst =
                      (start.store.heap.dict address).toList.map Prod.fst) ∧
                  ((∀ entry ∈ (start.store.heap.dict address).toList,
                      ¬start.store.heap.Equal entry.1 key) →
                    (last.store.heap.dict address).toList =
                      (start.store.heap.dict address).toList ++
                        [(key, value)])) ∧
      (∀ (start : Interpreter)
          (address : Nat)
          (key default : Value)
          (keywords : Keywords Value),
        ∃ found : Option Value,
          contains (.dict address) key start = .ok found.isSome start ∧
            getItem (.dict address) key start =
              found.elim (.error (.key (start.store.heap.repr key)) start)
                (.ok · start) ∧
            runDict .get [.dict address, key, default] keywords start =
              .ok (found.getD default) start) ∧
      (∀ (n : Nat)
          (start last : Interpreter)
          (pairs : List (Expr × Expr))
          (entries : Entries),
        (levels n).Enters start pairs entries last →
          (levels n).evalForm (.dict pairs) start = assembled entries last) ∧
      (∀ (start : Interpreter)
          (args : List Value)
          (given : Entries)
          (keywords : Keywords Value),
        Offers start args given →
          start.store.heap.FrozenKeys given →
            toDict args keywords start =
              assembled (given ++ keywordEntries keywords) start) ∧
      ∀ (callee : String)
        (signature : Signature)
        (args : List Value)
        (keywords pairs : Keywords Value)
        (param : Parameter)
        (bound : List (Parameter × Binding Value))
        (default : Eval Value)
        (start last state : Interpreter),
        bindArguments callee signature args keywords start = .ok bound last →
          (param, .varKeyword pairs) ∈ bound →
            boundValue default (.varKeyword pairs) state =
              assembled (keywordEntries pairs) state := by
  refine ⟨?_, ?_, ?_, ?_, ?_⟩
  · intro start data address key value hKeys hAddress hMap hKey
    have hInserts :
        start.store.heap.Inserts key value
          (start.store.heap.dict address).toList
          ((inserted address key value start).store.heap.dict address).toList :=
      inserts_inserted hAddress
    refine ⟨inserted address key value start, rfl,
      hKeys.of_keepsTuples keepsTuples_inserted,
      isMap_inserted hKeys hAddress hMap hKey, ?_, ?_, ?_⟩
    · intro other hOther
      exact ⟨outcome_getItem_of_equal hKeys hAddress hMap hKey hOther,
        outcome_getItem_of_unequal hKeys hAddress hMap hKey hOther⟩
    · rintro ⟨entry, hMem, hEqual⟩
      exact hInserts.keys_eq_of_equal hMem hEqual
    · intro hNew
      exact hInserts.eq_of_unequal hNew
  · intro start address key default keywords
    exact ⟨_, contains_dict address key start, getItem_dict address key start,
      runDict_get address key default keywords start⟩
  · intro n start last pairs entries hEnters
    exact evalForm_dict (keepsTuples_expr n) hEnters
  · intro start args given keywords hOffers hFrozen
    exact toDict_eq hOffers hFrozen keywords
  · intro callee signature args keywords pairs param bound default start last
      state hBound hMem
    exact boundValue_varKeyword hBound hMem default state

/-
  In a dict with the key 1, an assignment at the key True gives 1
  another value. A display, a call of `dict` and keyword
  arguments make dicts of one item.
-/
theorem dict_is_ordered_map_numbers :
    let start : Interpreter :=
      { (default : Interpreter) with
        limits := ⟨10, 10⟩
        store.heap.dicts := #[#[(.int 1, .str "one")]] }
    let display : List (Expr × Expr) :=
      [(.synthetic (.int 1), .synthetic (.str "one"))]
    let collecting : Signature := ⟨[⟨"rest", .varKeyword, none⟩]⟩
    (∃ last,
      setItem (.dict 0) (.bool true) (.str "True") start = .ok () last ∧
        outcome (getItem (.dict 0) (.int 1)) last = .ok (.str "True") ∧
        (last.store.heap.dict 0).toList.map Prod.fst = [.int 1]) ∧
      (∃ last,
        (levels 1).evalForm (.dict display) start =
          assembled [(.int 1, .str "one")] last) ∧
      toDict [.dict 0] [("a", .none)] start =
        assembled [(.int 1, .str "one"), (.str "a", .none)] start ∧
      ∃ bound last,
        bindArguments "f" collecting [] [("a", .none)] start = .ok bound last ∧
          boundValue (return .none) (.varKeyword [("a", .none)]) start =
            assembled [(.str "a", .none)] start := by
  intro start display collecting
  obtain ⟨hAssign, -, hDisplay, hCall, hCollect⟩ := dict_is_ordered_map
  have hOne : start.store.heap.IsData maxNesting (.int 1) := .int rfl
  have hTrue : start.store.heap.IsData maxNesting (.bool true) := .bool true
  have hEqual : start.store.heap.Equal (.int 1) (.bool true) := by
    decide
  have hMap :
      start.store.heap.IsMap
        (fun key =>
          start.store.heap.IsFrozen key ∧ start.store.heap.IsData maxNesting key)
        (start.store.heap.dict 0).toList := by
    refine ⟨fun key hMem => ?_, List.pairwise_singleton ..⟩
    rw [show key = .int 1 from List.mem_singleton.mp hMem]
    exact ⟨.int 1, hOne⟩
  refine ⟨?_, ?_, ?_, ?_⟩
  · obtain ⟨last, hSet, -, -, hRead, hPlace, -⟩ :=
      hAssign start _ 0 (.bool true) (.str "True")
        start.store.heap.keysOn_data (by decide) hMap ⟨.bool true, hTrue⟩
    exact ⟨last, hSet, (hRead (.int 1) ⟨.int 1, hOne⟩).1 hEqual,
      hPlace ⟨_, List.mem_singleton.mpr rfl, hEqual⟩⟩
  · exact ⟨_, hDisplay 1 start _ display _
      (.cons rfl (.int 1) rfl .nil)⟩
  · refine hCall start [.dict 0] _ [("a", .none)] (.dict ?_) ?_
    · exact List.pairwise_singleton ..
    · intro entry hMem
      rw [show entry = (.int 1, .str "one") from List.mem_singleton.mp hMem]
      exact .int 1
  · exact ⟨_, start, rfl,
      hCollect "f" collecting [] [("a", .none)] _ _ _ _ start start start rfl
        (List.mem_singleton.mpr rfl)⟩

end SnippetGrader
