import SnippetGrader.Proofs.Evaluation.Limits
import SnippetGrader.Proofs.Text.Search

/-
  How long strings and sequences get.

  An operator that makes a string, a list or a tuple longer asks
  first for the length that it will have. It fails and changes
  nothing if that is more than the greatest one.

  Key definitions include:
    * `Heap.length?`, `Heap.Capped`
    * `Eval.Caps`, `Eval.Guarded`

  Key theorems include:
    * `utf8ByteSize_intercalate`
    * `Eval.guarded_binary`
    * `Eval.Caps.binary`
-/

namespace SnippetGrader

open String (utf8Len)

------------------------------------------------------------
-- Lengths
------------------------------------------------------------

namespace Heap

/- The number of bytes of a string, or of items of a list or a tuple. -/
def length? (heap : Heap) : Value → Option Nat
  | .str text => some text.utf8ByteSize
  | .list address => some (heap.list address).size
  | .tuple address => some (heap.tuple address).size
  | _ => none

/- No list and no tuple is longer than the greatest length. -/
structure Capped (heap : Heap) : Prop where
  list_le : ∀ items ∈ heap.lists, items.size ≤ maxSequenceLength
  tuple_le : ∀ items ∈ heap.tuples, items.size ≤ maxSequenceLength

variable {heap : Heap}

@[simp] theorem list_addList
    (items : Array Value) :
    (heap.addList items).2.list heap.lists.size = items := by
  simp [addList, list]

@[simp] theorem tuple_addTuple
    (items : Array Value) :
    (heap.addTuple items).2.tuple heap.tuples.size = items := by
  simp [addTuple, tuple]

namespace Capped

theorem addList
    (hHeap : heap.Capped)
    {items : Array Value}
    (hItems : items.size ≤ maxSequenceLength) :
    (heap.addList items).2.Capped where
  list_le := by
    intro other hOther
    rcases Array.mem_push.mp hOther with hOther | rfl
    · exact hHeap.list_le other hOther
    · exact hItems
  tuple_le := hHeap.tuple_le

theorem addTuple
    (hHeap : heap.Capped)
    {items : Array Value}
    (hItems : items.size ≤ maxSequenceLength) :
    (heap.addTuple items).2.Capped where
  list_le := hHeap.list_le
  tuple_le := by
    intro other hOther
    rcases Array.mem_push.mp hOther with hOther | rfl
    · exact hHeap.tuple_le other hOther
    · exact hItems

theorem updateList
    (hHeap : heap.Capped)
    {address : Nat}
    {change : Array Value → Array Value}
    (hChange : (change (heap.list address)).size ≤ maxSequenceLength) :
    (heap.updateList address change).Capped where
  list_le := by
    intro items hItems
    obtain ⟨index, hIndex, rfl⟩ := Array.mem_iff_getElem.mp hItems
    have hBound : index < heap.lists.size := by
      simpa [Heap.updateList] using hIndex
    simp only [Heap.updateList, Array.getElem_modify]
    split
    · rename_i hSame
      subst hSame
      simpa [list, hBound] using hChange
    · exact hHeap.list_le _ (Array.getElem_mem hBound)
  tuple_le := hHeap.tuple_le

end Capped

end Heap

/- A string that is no longer than the greatest length, or another value. -/
def Value.IsShort : Value → Prop
  | .str text => text.utf8ByteSize ≤ maxSequenceLength
  | _ => True

/- Items repeated are as many as they are, so many times. -/
@[simp] theorem size_repeatedItems
    (items : Array Value)
    (count : Nat) :
    (repeatedItems items count).size = items.size * count := by
  have hFold (found : Array Value) :
      ((List.replicate count items).foldl (· ++ ·) found).size =
        found.size + items.size * count := by
    induction count generalizing found with
    | zero => rfl
    | succ count ih =>
        rw [List.replicate_succ, List.foldl_cons, ih, Array.size_append]
        ring
  unfold repeatedItems
  split
  · rename_i hEmpty
    rw [Array.isEmpty_iff.mp hEmpty]
    simp
  · rw [hFold, Array.size_empty, Nat.zero_add]

/- A text repeated has the bytes of the text, so many times. -/
@[simp] theorem utf8ByteSize_repeated
    (text : String)
    (count : Nat) :
    (repeated text count).utf8ByteSize = text.utf8ByteSize * count := by
  unfold repeated
  induction count with
  | zero => rfl
  | succ count ih =>
      rw [List.replicate_succ, String.join_cons, String.utf8ByteSize_append,
        ih]
      ring

theorem utf8Len_toList
    (text : String) :
    utf8Len text.toList = text.utf8ByteSize := by
  rw [← String.utf8ByteSize_ofList, String.ofList_toList]

/- A joined text has the separator once less often than it has parts. -/
theorem utf8ByteSize_intercalate
    (separator : String)
    (texts : List String) :
    (separator.intercalate texts).utf8ByteSize =
      separator.utf8ByteSize * (texts.length - 1)
        + texts.foldl (fun size text => size + text.utf8ByteSize) 0 := by
  have hSum :
      texts.foldl (fun size text => size + text.utf8ByteSize) 0 =
        ((texts.map String.toList).map utf8Len).sum := by
    rw [List.sum_eq_foldl, List.map_map, List.foldl_map]
    simp only [Function.comp_apply, utf8Len_toList]
  rw [← utf8Len_toList, String.toList_intercalate,
    Text.utf8Len_intercalate, utf8Len_toList, List.length_map, hSum]

------------------------------------------------------------
-- Checked Steps
------------------------------------------------------------

namespace Eval

variable {α β : Type}
variable {start mid last : Interpreter}

theorem bind_eq_of_ok
    {first : Eval α}
    {value : α}
    (hFirst : first start = .ok value mid)
    (next : α → Eval β) :
    (first >>= next) start = next value mid := by
  change EStateM.bind first next start = _
  unfold EStateM.bind
  rw [hFirst]

/- Code goes no further than to its first failure. -/
theorem bind_eq_of_error
    {first : Eval α}
    {fault : EvalError}
    (hFirst : first start = .error fault last)
    (next : α → Eval β) :
    (first >>= next) start = .error fault last := by
  change EStateM.bind first next start = _
  unfold EStateM.bind
  rw [hFirst]

/- What goes on to a result goes on from the result of its first step. -/
theorem exists_of_bind_ok
    {first : Eval α}
    {next : α → Eval β}
    {result : β}
    (hResult : (first >>= next) start = .ok result last) :
    ∃ value mid, first start = .ok value mid ∧ next value mid = .ok result last := by
  change EStateM.bind first next start = .ok result last at hResult
  unfold EStateM.bind at hResult
  cases hFirst : first start with
  | ok value mid =>
      rw [hFirst] at hResult
      exact ⟨value, mid, rfl, hResult⟩
  | error fault mid =>
      rw [hFirst] at hResult
      cases hResult

/- A step that asks for a length goes on only if it may have it. -/
theorem checkLength_bind
    (length : Nat)
    (next : Eval α) :
    (checkLength length >>= fun _ => next) start =
      if maxSequenceLength < length then
        .error (.overflow .sequenceLength) start
      else next start := by
  unfold checkLength
  split <;> rfl

/- What a step gives at a state, if it does not fail. -/
def value? (action : Eval α) (start : Interpreter) : Option α :=
  match action start with
  | .ok value _ => some value
  | .error _ _ => none

/- A step that changes nothing. -/
def Reads (action : Eval α) : Prop :=
  ∀ start, after (action start) = start

theorem Reads.eq_ok
    {action : Eval α}
    (hReads : Reads action)
    {value : α}
    (hValue : action.value? start = some value) :
    action start = .ok value start := by
  have hState := hReads start
  unfold value? at hValue
  generalize action start = result at hState hValue
  cases result with
  | ok given last =>
      obtain rfl := Option.some.inj hValue
      rw [show last = start from hState]
  | error fault last => cases hValue

theorem reads_throw
    (fault : EvalError) :
    Reads (throw fault : Eval α) :=
  fun _ => rfl

theorem reads_onHeap
    (read : Heap → α) :
    Reads (onHeap read) :=
  fun _ => rfl

theorem reads_iterate
    (value : Value) :
    Reads (iterate value) := by
  intro start
  cases value <;> rfl

theorem reads_asInt
    (what : String)
    (value : Value) :
    Reads (asInt what value) := by
  intro start
  cases value <;> rfl

theorem reads_asString
    (what : String)
    (value : Value) :
    Reads (asString what value) := by
  intro start
  cases value <;> rfl

theorem Reads.bind
    {first : Eval α}
    {next : α → Eval β}
    (hFirst : Reads first)
    (hNext : ∀ value, Reads (next value)) :
    Reads (first >>= next) := by
  intro start
  have hState := hFirst start
  change after (EStateM.bind first next start) = start
  unfold EStateM.bind
  generalize first start = result at hState
  cases result with
  | ok value last => exact (hNext value last).trans hState
  | error fault last => exact hState

theorem reads_joinedTexts
    (index : Nat)
    (items : List Value) :
    Reads (joinedTexts index items) := by
  fun_induction joinedTexts index items with
  | case1 => exact fun _ => rfl
  | case2 index text rest ih => exact ih.bind fun _ _ => rfl
  | case3 index other rest hOther =>
      exact (reads_onHeap _).bind fun _ => reads_throw _

------------------------------------------------------------
-- Steps that Keep the Greatest Length
------------------------------------------------------------

/- A result of which no list and no tuple is too long. -/
def CapsResult
    (post : α → Prop) :
    EStateM.Result EvalError Interpreter α → Prop
  | .ok value last => last.store.heap.Capped ∧ post value
  | .error _ last => last.store.heap.Capped

/-
  A step that makes no list and no tuple too long, and gives
  only what a condition holds of.
-/
def Caps (post : α → Prop) (action : Eval α) : Prop :=
  ∀ start, start.store.heap.Capped → CapsResult post (action start)

namespace Caps

variable {post between : α → Prop}

theorem bind
    {first : Eval α}
    {next : α → Eval β}
    {post : β → Prop}
    (hFirst : Caps between first)
    (hNext : ∀ value, between value → Caps post (next value)) :
    Caps post (first >>= next) := by
  intro start hStart
  have hMiddle := hFirst start hStart
  change CapsResult post (EStateM.bind first next start)
  unfold EStateM.bind
  generalize first start = result at hMiddle
  cases result with
  | ok value last => exact hNext value hMiddle.2 last hMiddle.1
  | error fault last => exact hMiddle

theorem pure
    {value : α}
    (hValue : post value) :
    Caps post (pure value) :=
  fun _ hStart => ⟨hStart, hValue⟩

theorem throw
    (fault : EvalError) :
    Caps post (throw fault) :=
  fun _ hStart => hStart

theorem of_reads
    {action : Eval α}
    (hReads : Reads action) :
    Caps (fun _ => True) action := by
  intro start hStart
  have hState := hReads start
  generalize action start = result at hState
  cases result with
  | ok value last =>
      rw [show last = start from hState]
      exact ⟨hStart, trivial⟩
  | error fault last =>
      rw [show last = start from hState]
      exact hStart

theorem checkLength
    (length : Nat) :
    Caps (fun _ => length ≤ maxSequenceLength) (checkLength length) := by
  intro start hStart
  unfold Eval.checkLength
  split
  · exact hStart
  · exact ⟨hStart, by omega⟩

theorem newList
    {items : Array Value}
    (hItems : items.size ≤ maxSequenceLength) :
    Caps Value.IsShort (newList items) :=
  fun _ hStart => ⟨hStart.addList hItems, trivial⟩

theorem newTuple
    {items : Array Value}
    (hItems : items.size ≤ maxSequenceLength) :
    Caps Value.IsShort (newTuple items) :=
  fun _ hStart => ⟨hStart.addTuple hItems, trivial⟩

end Caps

end Eval

------------------------------------------------------------
-- Operators
------------------------------------------------------------

namespace Arithmetic

/- A result that is no string that is too long. -/
def GivesShort (result : Result) : Prop :=
  ∀ value, result = .ok value → value.IsShort

theorem GivesShort.ok
    {value : Value}
    (hValue : value.IsShort) :
    GivesShort (.ok value) := by
  rintro _ ⟨⟩
  exact hValue

theorem GivesShort.error
    (fault : EvalError) :
    GivesShort (.error fault) :=
  nofun

theorem givesShort_fit
    (n : Int) :
    GivesShort (fit n) := by
  unfold fit
  split
  · exact .ok trivial
  · exact .error _

theorem givesShort_floorQuotient
    (a b : Int) :
    GivesShort (floorQuotient a b) := by
  unfold floorQuotient
  split
  · exact .ok trivial
  · exact .error _

theorem givesShort_onInts
    (op : BinaryOp)
    (a b : Int) :
    GivesShort (onInts op a b) := by
  have hFit := givesShort_fit
  cases op with
  | add | sub | mul => exact hFit _
  | pow =>
      simp only [onInts, intPower, power]
      split_ifs <;> first | exact hFit _ | exact .ok trivial | exact .error _
  | floorDiv =>
      simp only [onInts]
      split_ifs
      · exact .error _
      · exact givesShort_floorQuotient a b
  | div | mod | shiftLeft | shiftRight =>
      simp only [onInts, shiftLeft, shiftRight]
      split_ifs <;> first | exact .ok trivial | exact .error _
  | bitOr | bitXor | bitAnd => exact .ok trivial
  | matMul => exact .error _

theorem givesShort_onNumerals
    (op : BinaryOp)
    (a b : Numeral)
    (leftType rightType : String) :
    GivesShort (onNumerals op a b leftType rightType) := by
  unfold onNumerals
  split
  · exact givesShort_onInts op _ _
  · cases op with
    | div | floorDiv | mod | pow =>
        simp only [onFloats]
        split_ifs <;> first | exact .ok trivial | exact .error _
    | _ => first | exact .ok trivial | exact .error _

end Arithmetic

namespace Heap

end Heap

/- The length that a step asks for, and the one that it comes to. -/
structure Demand where
  room : Nat
  length : Nat
  deriving DecidableEq

namespace Eval

variable {start : Interpreter}

/-
  A step that fails and changes nothing if it asks for too much,
  and comes to the right length otherwise.
-/
structure Guarded
    (action : Eval Value)
    (start : Interpreter)
    (grown : Value → Value)
    (demand : Demand) :
    Prop where
  stops :
    maxSequenceLength < demand.room →
      action start = .error (.overflow .sequenceLength) start
  grows :
    demand.room ≤ maxSequenceLength →
      ∃ value last,
        action start = .ok value last ∧
          last.store.heap.length? (grown value) = some demand.length

theorem Guarded.bind
    {α : Type}
    {first : Eval α}
    {value : α}
    {next : α → Eval Value}
    {grown : Value → Value}
    {demand : Demand}
    (hFirst : first start = .ok value start)
    (hNext : Guarded (next value) start grown demand) :
    Guarded (first >>= next) start grown demand where
  stops := by
    rw [bind_eq_of_ok hFirst]
    exact hNext.stops
  grows := by
    rw [bind_eq_of_ok hFirst]
    exact hNext.grows

namespace Caps

theorem joinSequences
    (left right : Array Value) :
    Caps (fun items => items.size ≤ maxSequenceLength)
      (joinSequences left right) := by
  refine (checkLength _).bind fun _ hLength => pure ?_
  rw [Array.size_append]
  exact hLength

theorem repeatSequence
    (items : Array Value)
    (count : Int) :
    Caps (fun items => items.size ≤ maxSequenceLength)
      (repeatSequence items count) := by
  refine (checkLength _).bind fun _ hLength => pure ?_
  rw [size_repeatedItems]
  exact hLength

theorem repeatString
    (text : String)
    (count : Int) :
    Caps Value.IsShort (repeatString text count) := by
  refine (checkLength _).bind fun _ hLength => pure ?_
  split
  · exact Nat.zero_le _
  · change (repeated text count.toNat).utf8ByteSize ≤ maxSequenceLength
    rw [utf8ByteSize_repeated]
    exact hLength

theorem onNumbers
    (op : BinaryOp)
    (left right : Value) :
    Caps Value.IsShort (onNumbers op left right) := by
  refine (of_reads (reads_onHeap _)).bind fun leftType _ =>
    (of_reads (reads_onHeap _)).bind fun rightType _ => ?_
  split
  · rename_i a b hLeft hRight
    have hShort :=
      Arithmetic.givesShort_onNumerals op a b leftType rightType
    generalize Arithmetic.onNumerals op a b leftType rightType = result
      at hShort
    cases result with
    | ok value => exact pure (hShort value rfl)
    | error fault => exact throw fault
  · exact throw _

/- An operator makes nothing too long. -/
theorem binary
    (op : BinaryOp)
    (left right : Value) :
    Caps Value.IsShort (binary op left right) := by
  have hHeap (read : Heap → Array Value) :=
    of_reads (reads_onHeap read)
  unfold Eval.binary
  split
  · refine (checkLength _).bind fun _ hLength => pure ?_
    change String.utf8ByteSize _ ≤ maxSequenceLength
    rw [String.utf8ByteSize_append]
    exact hLength
  · exact (hHeap _).bind fun _ _ => (hHeap _).bind fun _ _ =>
      (joinSequences _ _).bind fun _ => newList
  · exact (hHeap _).bind fun _ _ => (hHeap _).bind fun _ _ =>
      (joinSequences _ _).bind fun _ => newTuple
  · exact repeatString _ _
  · exact repeatString _ _
  · exact (hHeap _).bind fun _ _ =>
      (repeatSequence _ _).bind fun _ => newList
  · exact (hHeap _).bind fun _ _ =>
      (repeatSequence _ _).bind fun _ => newList
  · exact (hHeap _).bind fun _ _ =>
      (repeatSequence _ _).bind fun _ => newTuple
  · exact (hHeap _).bind fun _ _ =>
      (repeatSequence _ _).bind fun _ => newTuple
  · exact throw _
  · exact onNumbers _ _ _

end Caps

end Eval

end SnippetGrader
