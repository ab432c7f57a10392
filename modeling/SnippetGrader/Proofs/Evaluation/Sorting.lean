import Mathlib.Order.OrderDual
import SnippetGrader.Evaluation.Library.Routines
import SnippetGrader.Proofs.Evaluation.Lengths
import SnippetGrader.Proofs.Evaluation.Ordering
import SnippetGrader.Proofs.Sorting.Quick

/-
  Sorting values by their keys.

  Keys are of one kind if they are all integers and truth values,
  or all strings. Such keys are ranked by the integers that they
  are, or by their texts. If the greatest is to come first, the
  ranks are taken in reverse; which keys tie stays the same, so
  the sort is stable in both directions.

  Key definitions include:
    * `Value.IsInteger`, `Value.integer`
    * `Value.IsText`, `Value.text`
    * `StablyOrdered`

  Key theorems include:
    * `sortKeyed_stable`
    * `Eval.keyed_items`
    * `Eval.sorts_stably_or_keeps_list`
-/

namespace SnippetGrader

open Sorting (Answers Gives StablySorted)

------------------------------------------------------------
-- Keys of One Kind
------------------------------------------------------------

namespace Value

/- A key that is an integer or a truth value. -/
def IsInteger : Value → Prop
  | .bool _ | .int _ => True
  | _ => False

/- The integer that such a key is. -/
def integer : Value → Int
  | .bool value => if value then 1 else 0
  | .int n => n
  | _ => 0

/- A key that is a string. -/
def IsText : Value → Prop
  | .str _ => True
  | _ => False

/- The text of such a key. -/
def text : Value → String
  | .str text => text
  | _ => ""

variable {heap : Heap}
variable {symbol : String}
variable {left right : Value}

theorem numeral_of_isInteger
    {key : Value}
    (hKey : key.IsInteger) :
    Numeral.of? key = some (.int key.integer) := by
  cases key <;> first | rfl | cases hKey

theorem order_of_isInteger
    (hLeft : left.IsInteger)
    (hRight : right.IsInteger) :
    heap.order symbol left right = .ok (compare left.integer right.integer) :=
  Heap.order_of_integers (numeral_of_isInteger hLeft)
    (numeral_of_isInteger hRight)

theorem order_of_isText
    (hLeft : left.IsText)
    (hRight : right.IsText) :
    heap.order symbol left right = .ok (compare left.text right.text) := by
  cases left <;> cases hLeft
  cases right <;> cases hRight
  rfl

end Value

------------------------------------------------------------
-- Sorted Items
------------------------------------------------------------

section Ranks

variable {κ : Type}
variable [LinearOrder κ]
variable {rank : Value → κ}
variable {reverse : Bool}
variable {items sorted : List Keyed}

/-
  Items in the order of their keys, or in reverse. They are the
  items of another list, and items with equal keys stand in the
  same order in both.
-/
structure StablyOrdered
    (rank : Value → κ)
    (reverse : Bool)
    (items sorted : List Keyed) :
    Prop where
  perm : sorted.Perm items
  ordered :
    sorted.Pairwise fun a b =>
      if reverse then rank b.key ≤ rank a.key else rank a.key ≤ rank b.key
  ties :
    ∀ k,
      sorted.filter (fun entry => rank entry.key = k) =
        items.filter fun entry => rank entry.key = k

theorem StablyOrdered.of_forward
    (hSorted : StablySorted (fun entry : Keyed => rank entry.key) items sorted) :
    StablyOrdered rank false items sorted :=
  ⟨hSorted.ties.perm, hSorted.rising, hSorted.ties⟩

theorem StablyOrdered.of_backward
    (hSorted :
      StablySorted (fun entry : Keyed => OrderDual.toDual (rank entry.key))
        items sorted) :
    StablyOrdered rank true items sorted :=
  ⟨hSorted.ties.perm, hSorted.rising, hSorted.ties⟩

variable {heap : Heap}
variable {IsKey : Value → Prop}

/- A sort by ranks succeeds, because no two keys are without an order. -/
theorem sortKeyed_of_answers
    {less : Keyed → κ}
    (hLess : Answers (keyedLess heap reverse) less fun entry => IsKey entry.key)
    (hKeys : ∀ entry ∈ items, IsKey entry.key) :
    ∃ sorted,
      sortKeyed heap reverse items = .ok sorted ∧
        StablySorted less items sorted := by
  obtain ⟨sorted, hSort, hSorted⟩ := Sorting.stableSort_stable hLess hKeys
  refine ⟨sorted, ?_, hSorted⟩
  unfold sortKeyed
  rw [hSort]
  rfl

/- Keys whose order is that of their ranks are sorted by the ranks. -/
theorem sortKeyed_stable
    (hOrder :
      ∀ left right,
        IsKey left →
          IsKey right →
            heap.order "<" left right = .ok (compare (rank left) (rank right)))
    (reverse : Bool)
    (hKeys : ∀ entry ∈ items, IsKey entry.key) :
    ∃ sorted,
      sortKeyed heap reverse items = .ok sorted ∧
        StablyOrdered rank reverse items sorted := by
  cases reverse with
  | false =>
      have hLess :
          Answers (keyedLess heap false) (fun entry => rank entry.key)
            fun entry => IsKey entry.key := by
        intro a b hA hB
        funext unordered
        have hBefore :
            (compare (rank a.key) (rank b.key) == .lt) =
              decide (rank a.key < rank b.key) := by
          rw [Bool.eq_iff_iff, beq_iff_eq, decide_eq_true_eq, compare_lt_iff_lt]
        simp only [keyedLess, hOrder a.key b.key hA hB]
        exact congrArg (fun answer => some (answer, unordered)) hBefore
      obtain ⟨sorted, hSort, hSorted⟩ := sortKeyed_of_answers hLess hKeys
      exact ⟨sorted, hSort, .of_forward hSorted⟩
  | true =>
      have hLess :
          Answers (keyedLess heap true)
            (fun entry => OrderDual.toDual (rank entry.key))
            fun entry => IsKey entry.key := by
        intro a b hA hB
        funext unordered
        have hBehind :
            (compare (rank a.key) (rank b.key) == .gt) =
              decide (rank b.key < rank a.key) := by
          rw [Bool.eq_iff_iff, beq_iff_eq, decide_eq_true_eq, compare_gt_iff_gt]
        simp only [keyedLess, hOrder a.key b.key hA hB]
        exact congrArg (fun answer => some (answer, unordered)) hBehind
      obtain ⟨sorted, hSort, hSorted⟩ := sortKeyed_of_answers hLess hKeys
      exact ⟨sorted, hSort, .of_backward hSorted⟩

end Ranks

namespace Eval

variable {call : Caller}
variable {start last : Interpreter}

------------------------------------------------------------
-- Keys of Items
------------------------------------------------------------

theorem keyed_item
    {key item : Value}
    {entry : Keyed}
    (hEntry : keyed call key item start = .ok entry last) :
    entry.item = item := by
  unfold keyed at hEntry
  split at hEntry
  · cases hEntry
    rfl
  · obtain ⟨found, mid, -, hFound⟩ := exists_of_bind_ok hEntry
    cases hFound
    rfl

/- Each item gets a key of its own. -/
theorem keyed_items
    {key : Value}
    {items : List Value}
    {keyedItems : List Keyed}
    (hKeys : items.mapM (keyed call key) start = .ok keyedItems last) :
    keyedItems.map (·.item) = items := by
  induction items generalizing start keyedItems with
  | nil =>
      cases hKeys
      rfl
  | cons item rest ih =>
      rw [List.mapM_cons] at hKeys
      obtain ⟨entry, mid, hEntry, hRest⟩ := exists_of_bind_ok hKeys
      obtain ⟨others, _, hOthers, hAll⟩ := exists_of_bind_ok hRest
      cases hAll
      rw [List.map_cons, keyed_item hEntry, ih hOthers]

/- Without a key function, items are their own keys. -/
theorem mapM_keyed_none
    (call : Caller)
    (items : List Value) :
    items.mapM (keyed call .none) = pure (items.map fun item => ⟨item, item⟩) := by
  have hKeyed : keyed call .none = fun item => pure ⟨item, item⟩ := rfl
  rw [hKeyed, List.mapM_pure]

/- Values whose items have keys are sorted as the items with their keys are. -/
theorem sortValues_eq
    {items : Array Value}
    {key : Value}
    {reverse : Bool}
    {keyedItems sorted : List Keyed}
    (hKeys : items.toList.mapM (keyed call key) start = .ok keyedItems last)
    (hSort : sortKeyed last.store.heap reverse keyedItems = .ok sorted) :
    sortValues call items key reverse start =
      .ok (sorted.map (·.item)).toArray last := by
  unfold sortValues
  rw [bind_eq_of_ok hKeys]
  change ((ofExcept (sortKeyed last.store.heap reverse keyedItems)) >>= _) last = _
  rw [hSort]
  rfl

------------------------------------------------------------
-- Failures
------------------------------------------------------------

/- A step that changes nothing if it fails. -/
def FailsCleanly {α : Type} (action : Eval α) : Prop :=
  ∀ {start last fault}, action start = .error fault last → last = start

theorem Reads.bind_failsCleanly
    {α β : Type}
    {first : Eval α}
    {next : α → Eval β}
    (hFirst : Reads first)
    (hNext : ∀ value, FailsCleanly (next value)) :
    FailsCleanly (first >>= next) := by
  intro start last fault hFault
  have hState := hFirst start
  cases hResult : first start with
  | ok value mid =>
      rw [hResult] at hState
      obtain rfl : mid = start := hState
      rw [bind_eq_of_ok hResult] at hFault
      exact hNext value hFault
  | error other mid =>
      rw [hResult] at hState
      rw [bind_eq_of_error hResult] at hFault
      cases hFault
      exact hState

theorem reads_ofExcept
    {α : Type}
    (result : Except EvalError α) :
    Reads (ofExcept result) := by
  intro start
  cases result <;> rfl

theorem reads_receiverList
    (args : List Value) :
    Reads (receiverList args) := by
  intro start
  unfold receiverList
  split <;> rfl

theorem reads_sortValues
    (call : Caller)
    (items : Array Value)
    (reverse : Bool) :
    Reads (sortValues call items .none reverse) := by
  unfold sortValues
  rw [mapM_keyed_none, pure_bind]
  refine (reads_onHeap _).bind fun sorted => ?_
  exact (reads_ofExcept sorted).bind fun _ _ => rfl

/- The list is replaced only after all that may fail. -/
theorem failsCleanly_sort
    (call : Caller)
    {args : List Value}
    (hKey : argument args 1 = .none)
    (keywords : Keywords Value) :
    FailsCleanly (runBuiltin call (.listMethod .sort) args keywords) := by
  change FailsCleanly (runList call .sort args keywords)
  unfold runList
  rw [hKey]
  refine (reads_receiverList args).bind_failsCleanly fun address => ?_
  refine (reads_onHeap _).bind_failsCleanly fun items => ?_
  refine (reads_onHeap _).bind_failsCleanly fun reverse => ?_
  refine (reads_sortValues call items reverse).bind_failsCleanly fun sorted => ?_
  intro start last fault hFault
  cases hFault

------------------------------------------------------------
-- Sorting
------------------------------------------------------------

/-
  Items that have keys are sorted by them, in order or in
  reverse, if the keys are all integers and truth values or all
  strings: the result has the same items, and those with equal
  keys stand as they stood before. A list that fails to be
  sorted by its own items leaves everything as it was.
-/
theorem sorts_stably_or_keeps_list
    (call : Caller) :
    (∀ (items : Array Value)
        (key : Value)
        (reverse : Bool)
        (keyedItems : List Keyed)
        (start last : Interpreter),
      items.toList.mapM (keyed call key) start = .ok keyedItems last →
        keyedItems.map (·.item) = items.toList ∧
          (key = .none →
            keyedItems = items.toList.map (fun item => ⟨item, item⟩) ∧
              last = start) ∧
          ((∀ entry ∈ keyedItems, entry.key.IsInteger) →
            ∃ sorted,
              sortValues call items key reverse start =
                  .ok (sorted.map (·.item)).toArray last ∧
                StablyOrdered Value.integer reverse keyedItems sorted) ∧
          ((∀ entry ∈ keyedItems, entry.key.IsText) →
            ∃ sorted,
              sortValues call items key reverse start =
                  .ok (sorted.map (·.item)).toArray last ∧
                StablyOrdered Value.text reverse keyedItems sorted)) ∧
      ∀ (args : List Value)
        (keywords : Keywords Value)
        (fault : EvalError)
        (start last : Interpreter),
        argument args 1 = .none →
          runBuiltin call (.listMethod .sort) args keywords start =
              .error fault last →
            last = start := by
  constructor
  · intro items key reverse keyedItems start last hKeys
    refine ⟨keyed_items hKeys, ?_, ?_, ?_⟩
    · rintro rfl
      rw [mapM_keyed_none] at hKeys
      cases hKeys
      exact ⟨rfl, rfl⟩
    · intro hIntegers
      obtain ⟨sorted, hSort, hSorted⟩ :=
        sortKeyed_stable (fun _ _ => Value.order_of_isInteger) reverse hIntegers
      exact ⟨sorted, sortValues_eq hKeys hSort, hSorted⟩
    · intro hTexts
      obtain ⟨sorted, hSort, hSorted⟩ :=
        sortKeyed_stable (fun _ _ => Value.order_of_isText) reverse hTexts
      exact ⟨sorted, sortValues_eq hKeys hSort, hSorted⟩
  · intro args keywords fault start last hKey hFault
    exact failsCleanly_sort call hKey keywords hFault

/-
  The greatest of a few numbers comes first, and a list of a
  number and a string stays as it is.
-/
theorem sorts_stably_or_keeps_list_numbers :
    let call : Caller := fun _ _ _ => throw .unfinished
    let start : Interpreter :=
      { (default : Interpreter) with
        store.heap.lists := #[#[.int 2, .str "two"]] }
    (∃ sorted,
      sortValues call #[.bool true, .int 2, .int 1] .none true start =
          .ok (sorted.map (·.item)).toArray start ∧
        StablyOrdered Value.integer true
          [⟨.bool true, .bool true⟩, ⟨.int 2, .int 2⟩, ⟨.int 1, .int 1⟩]
          sorted) ∧
      ∃ fault last,
        runBuiltin call (.listMethod .sort) [.list 0, .none, .bool false] []
            start = .error fault last ∧
          last = start := by
  intro call start
  constructor
  · have hSort :=
      (sorts_stably_or_keeps_list call).1 #[.bool true, .int 2, .int 1] .none
        true _ start start rfl
    refine hSort.2.2.1 ?_
    simp [Value.IsInteger]
  · have hFault :
        runBuiltin call (.listMethod .sort) [.list 0, .none, .bool false] []
            start =
          .error (.type (.incomparable "<" "str" "int")) start :=
      rfl
    exact ⟨_, start, hFault,
      (sorts_stably_or_keeps_list call).2 _ [] _ start start rfl hFault⟩

end Eval

end SnippetGrader
