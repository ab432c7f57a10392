import Mathlib
import SnippetGrader.Evaluation.Library.Routines

/-
  Relations between runs that every step keeps.

  A step of a run reads the store, changes the heap, prints,
  uses gas, fails, or calls a value. A relation between steps
  that these few allow is kept by whatever is made of them. So a
  property of runs is shown by looking at these alone, and this
  module says so for operators, items and attributes.

  Key definitions include:
    * `Finishes`
    * `Eval.Congruence`

  Key theorems include:
    * `Eval.Congruence.relates_mapM`
    * `Eval.Congruence.relates_binary`
    * `Eval.Congruence.relates_getItem`
-/

namespace SnippetGrader

------------------------------------------------------------
-- Results without Breakdown
------------------------------------------------------------

/- A computation that does not report that it was cut short. -/
def Finishes {α : Type} (result : Except EvalError α) : Prop :=
  result ≠ .error .unfinished

namespace Arithmetic

theorem finishes_fit
    (n : Int) :
    Finishes (fit n) := by
  unfold fit
  split <;> nofun

theorem finishes_intPower
    (base exponent : Int) :
    Finishes (intPower base exponent) := by
  have hFit := finishes_fit
  unfold intPower power
  split_ifs <;> first | exact hFit _ | nofun

theorem finishes_shiftLeft
    (n count : Int) :
    Finishes (shiftLeft n count) := by
  simp only [shiftLeft]
  split_ifs <;> nofun

theorem finishes_floorQuotient
    (a b : Int) :
    Finishes (floorQuotient a b) := by
  unfold floorQuotient
  split <;> nofun

theorem finishes_onInts
    (op : BinaryOp)
    (a b : Int) :
    Finishes (onInts op a b) := by
  have hFit := finishes_fit
  cases op with
  | pow => exact finishes_intPower a b
  | shiftLeft => exact finishes_shiftLeft a b
  | shiftRight =>
      simp only [onInts, shiftRight]
      split_ifs <;> nofun
  | floorDiv =>
      simp only [onInts]
      split_ifs
      · nofun
      · exact finishes_floorQuotient a b
  | div | mod =>
      simp only [onInts]
      split_ifs <;> nofun
  | _ => first | exact hFit _ | nofun

theorem finishes_onNumerals
    (op : BinaryOp)
    (a b : Numeral)
    (leftType rightType : String) :
    Finishes (onNumerals op a b leftType rightType) := by
  unfold onNumerals
  split
  · exact finishes_onInts op _ _
  · cases op with
    | div | floorDiv | mod | pow =>
        simp only [onFloats]
        split_ifs <;> nofun
    | _ => nofun

theorem finishes_onNumeral
    {op : UnaryOp}
    {number : Numeral}
    {result : Result}
    (hResult : onNumeral? op number = some result) :
    Finishes result := by
  cases number <;> cases op <;> cases hResult
  all_goals first | exact finishes_fit _ | nofun

theorem finishes_floatToInt
    (x : Float) :
    Finishes (floatToInt x) := by
  unfold floatToInt
  split_ifs <;> nofun

end Arithmetic

namespace Heap

theorem finishes_sequenceOrder
    (heap : Heap)
    {itemOrder : Value → Value → Except EvalError Ordering}
    (hItems : ∀ a b, Finishes (itemOrder a b))
    (left right : List Value) :
    Finishes (heap.sequenceOrder itemOrder left right) := by
  fun_induction sequenceOrder heap itemOrder left right with
  | case1 => assumption
  | case2 => exact hItems _ _
  | case3 => nofun
  | case4 => nofun
  | case5 => nofun

theorem finishes_orderBy
    (heap : Heap)
    (symbol : String)
    {items : Option (Value → Value → Except EvalError Ordering)}
    (hItems : ∀ itemOrder ∈ items, ∀ a b, Finishes (itemOrder a b))
    (left right : Value) :
    Finishes (heap.orderBy symbol items left right) := by
  unfold orderBy
  split
  · nofun
  · cases items with
    | none => nofun
    | some itemOrder =>
        exact heap.finishes_sequenceOrder (hItems itemOrder rfl) _ _
  · cases items with
    | none => nofun
    | some itemOrder =>
        exact heap.finishes_sequenceOrder (hItems itemOrder rfl) _ _
  · split <;> nofun

theorem finishes_order
    (heap : Heap)
    (symbol : String)
    (left right : Value) :
    Finishes (heap.order symbol left right) := by
  have hDepth (depth : Nat) (a b : Value) :
      Finishes (heap.orderTo symbol depth a b) := by
    induction depth generalizing a b with
    | zero =>
        refine heap.finishes_orderBy symbol ?_ a b
        rintro _ ⟨⟩
    | succ depth ih =>
        refine heap.finishes_orderBy symbol ?_ a b
        rintro _ ⟨⟩
        exact ih
  exact hDepth maxNesting left right

end Heap

------------------------------------------------------------
-- Changes that Keep Classes and Tuples
------------------------------------------------------------

namespace Heap

/- A heap with the classes of another, and its tuples, perhaps among more. -/
structure Steady (heap later : Heap) : Prop where
  classes : later.classes = heap.classes
  tuples : heap.tuples.toList <+: later.tuples.toList

variable (heap : Heap)

theorem steady_addList (items : Array Value) :
    heap.Steady (heap.addList items).2 :=
  ⟨rfl, List.prefix_rfl⟩

theorem steady_addTuple (items : Array Value) :
    heap.Steady (heap.addTuple items).2 :=
  ⟨rfl, by simp [addTuple]⟩

theorem steady_addDict (entries : Array (Value × Value)) :
    heap.Steady (heap.addDict entries).2 :=
  ⟨rfl, List.prefix_rfl⟩

theorem steady_addSet (items : Array Value) :
    heap.Steady (heap.addSet items).2 :=
  ⟨rfl, List.prefix_rfl⟩

theorem steady_addFunction (function : FunctionObject) :
    heap.Steady (heap.addFunction function).2 :=
  ⟨rfl, List.prefix_rfl⟩

theorem steady_addInstance (classAddress : Nat) :
    heap.Steady (heap.addInstance classAddress).2 :=
  ⟨rfl, List.prefix_rfl⟩

theorem steady_addMathModule :
    heap.Steady heap.addMathModule.2 :=
  ⟨rfl, List.prefix_rfl⟩

theorem steady_updateList
    (address : Nat)
    (change : Array Value → Array Value) :
    heap.Steady (heap.updateList address change) :=
  ⟨rfl, List.prefix_rfl⟩

theorem steady_setDict
    (address : Nat)
    (entries : Array (Value × Value)) :
    heap.Steady (heap.setDict address entries) :=
  ⟨rfl, List.prefix_rfl⟩

theorem steady_setInstanceAttr
    (address : Nat)
    (name : String)
    (value : Value) :
    heap.Steady (heap.setInstanceAttr address name value) :=
  ⟨rfl, List.prefix_rfl⟩

end Heap

------------------------------------------------------------
-- Congruences
------------------------------------------------------------

namespace Eval

/- Reads the store, from the scope of the routines or the innermost one. -/
def reading {α : Type} (read : Store → Nat → Nat → α) : Eval α :=
  fun interpreter =>
    .ok (read interpreter.store interpreter.builtins interpreter.scope)
      interpreter

/- Changes the store, and reads it as `reading` does. -/
def changing {α : Type} (update : Store → Nat → Nat → α × Store) : Eval α :=
  fun interpreter =>
    let (result, store) :=
      update interpreter.store interpreter.builtins interpreter.scope
    .ok result { interpreter with store }

/- A change of the store that is one of its heap. -/
def onlyHeap
    {α : Type}
    (change : Heap → α × Heap) :
    Store → Nat → Nat → α × Store :=
  fun store _ _ =>
    let (result, heap) := change store.heap
    (result, { store with heap })

/-
  A relation between steps that is kept by whatever is made of
  reading, changing the heap without its classes and tuples,
  printing, using gas and failing.
-/
structure Congruence where
  Relates : {α : Type} → Eval α → Eval α → Prop
  relates_pure {α : Type} (value : α) :
    Relates (pure value) (pure value)
  relates_bind
    {α β : Type}
    {first second : Eval α}
    {next after : α → Eval β} :
    Relates first second →
      (∀ value, Relates (next value) (after value)) →
        Relates (first >>= next) (second >>= after)
  relates_throw
    {α : Type}
    {fault : EvalError} :
    fault ≠ .unfinished →
      Relates (throw fault : Eval α) (throw fault)
  relates_reading
    {α : Type}
    (read : Store → Nat → Nat → α) :
    Relates (reading read) (reading read)
  relates_withHeap
    {α : Type}
    {change : Heap → α × Heap} :
    (∀ heap : Heap, heap.Steady (change heap).2) →
      Relates (withHeap change) (withHeap change)
  relates_write (text : String) :
    Relates (write text) (write text)
  relates_charge (units : Nat) :
    Relates (charge units) (charge units)

namespace Congruence

variable {relation : Congruence}
variable {α β : Type}

theorem relates_ite
    {p : Prop}
    [Decidable p]
    {first second : Eval α}
    {other after : Eval α}
    (hFirst : relation.Relates first second)
    (hOther : relation.Relates other after) :
    relation.Relates (if p then first else other)
      (if p then second else after) := by
  split
  · exact hFirst
  · exact hOther

------------------------------------------------------------
-- Sequences of Steps
------------------------------------------------------------

theorem relates_map
    {first second : Eval α}
    (hSteps : relation.Relates first second)
    (change : α → β) :
    relation.Relates (change <$> first) (change <$> second) := by
  rw [map_eq_pure_bind, map_eq_pure_bind]
  exact relation.relates_bind hSteps fun _ => relation.relates_pure _

theorem relates_discard
    {first second : Eval α}
    (hSteps : relation.Relates first second) :
    relation.Relates (discard first) (discard second) :=
  relates_map hSteps fun _ => ()

theorem relates_mapM
    {step other : α → Eval β}
    (hSteps : ∀ item, relation.Relates (step item) (other item))
    (items : List α) :
    relation.Relates (items.mapM step) (items.mapM other) := by
  induction items with
  | nil => exact relation.relates_pure []
  | cons item rest ih =>
      rw [List.mapM_cons, List.mapM_cons]
      refine relation.relates_bind (hSteps item) fun _ => ?_
      exact relation.relates_bind ih fun _ => relation.relates_pure _

theorem relates_foldlM
    {step other : β → α → Eval β}
    (hSteps :
      ∀ found item, relation.Relates (step found item) (other found item))
    (items : List α)
    (found : β) :
    relation.Relates (items.foldlM step found)
      (items.foldlM other found) := by
  induction items generalizing found with
  | nil => exact relation.relates_pure found
  | cons item rest ih =>
      rw [List.foldlM_cons, List.foldlM_cons]
      exact relation.relates_bind (hSteps found item) ih

theorem relates_forM
    {step other : α → Eval Unit}
    (hSteps : ∀ item, relation.Relates (step item) (other item))
    (items : List α) :
    relation.Relates (items.forM step) (items.forM other) := by
  induction items with
  | nil => exact relation.relates_pure ()
  | cons item rest ih =>
      exact relation.relates_bind (hSteps item) fun _ => ih

------------------------------------------------------------
-- Single Steps
------------------------------------------------------------

theorem relates_ofExcept
    {result : Except EvalError α}
    (hFinishes : Finishes result) :
    relation.Relates (ofExcept result) (ofExcept result) := by
  cases result with
  | ok value => exact relation.relates_pure value
  | error fault =>
      refine relation.relates_throw ?_
      rintro rfl
      exact hFinishes rfl

theorem relates_typeFault
    (fault : TypeFault) :
    relation.Relates (typeFault fault : Eval α) (typeFault fault) :=
  relation.relates_throw nofun

theorem relates_valueFault
    (fault : ValueFault) :
    relation.Relates (valueFault fault : Eval α) (valueFault fault) :=
  relation.relates_throw nofun

theorem relates_onHeap
    (read : Heap → α) :
    relation.Relates (onHeap read) (onHeap read) :=
  relation.relates_reading fun store _ _ => read store.heap

theorem relates_updateHeap
    {change : Heap → Heap}
    (hSteady : ∀ heap : Heap, heap.Steady (change heap)) :
    relation.Relates (updateHeap change) (updateHeap change) := by
  let paired (heap : Heap) : Unit × Heap := ((), change heap)
  have hPaired (heap : Heap) : heap.Steady (paired heap).2 :=
    hSteady heap
  exact relation.relates_withHeap hPaired

/- A computation on the heap, if no heap cuts it short. -/
theorem relates_computed
    {read : Heap → Except EvalError α}
    (hFinishes : ∀ heap, Finishes (read heap)) :
    relation.Relates (onHeap read >>= ofExcept)
      (onHeap read >>= ofExcept) := by
  -- The result is read together with the proof about it.
  let checked (heap : Heap) :
      { result : Except EvalError α // Finishes result } :=
    ⟨read heap, hFinishes heap⟩
  have hChecked :
      relation.Relates (onHeap checked >>= fun result => ofExcept result.1)
        (onHeap checked >>= fun result => ofExcept result.1) :=
    relation.relates_bind (relates_onHeap checked) fun result =>
      relates_ofExcept result.2
  exact hChecked

theorem relates_newList
    (items : Array Value) :
    relation.Relates (newList items) (newList items) :=
  relation.relates_withHeap (·.steady_addList items)

theorem relates_newTuple
    (items : Array Value) :
    relation.Relates (newTuple items) (newTuple items) :=
  relation.relates_withHeap (·.steady_addTuple items)

theorem relates_newDict
    (entries : Array (Value × Value)) :
    relation.Relates (newDict entries) (newDict entries) :=
  relation.relates_withHeap (·.steady_addDict entries)

theorem relates_typeName
    (value : Value) :
    relation.Relates (typeName value) (typeName value) :=
  relates_onHeap _

/- A fault that names the type of a value. -/
theorem relates_mistyped
    (value : Value)
    (fault : String → TypeFault) :
    relation.Relates
      (typeName value >>= fun name => (typeFault (fault name) : Eval α))
      (typeName value >>= fun name => typeFault (fault name)) :=
  relation.relates_bind (relates_typeName value) fun _ =>
    relates_typeFault _

theorem relates_isTruthy
    (value : Value) :
    relation.Relates (isTruthy value) (isTruthy value) :=
  relates_onHeap _

theorem relates_iterate
    (value : Value) :
    relation.Relates (iterate value) (iterate value) := by
  cases value with
  | list _ | tuple _ | set _ | dict _ =>
      unfold iterate
      exact relates_onHeap _
  | str text => exact relation.relates_pure _
  | _ => exact relates_mistyped _ _

theorem relates_lookupName
    (name : String) :
    relation.Relates (lookupName name) (lookupName name) := by
  have hLookup :
      lookupName name = (do
        let found ← reading fun store _ scope => store.scopes.get? scope name
        found.elim (throw (.unboundName name)) pure) := by
    funext interpreter
    simp only [lookupName, reading, bind, EStateM.bind, get, getThe,
      MonadStateOf.get, EStateM.get]
    cases interpreter.store.scopes.get? interpreter.scope name <;> rfl
  rw [hLookup]
  refine relation.relates_bind (relation.relates_reading _) ?_
  rintro (_ | value)
  · exact relation.relates_throw nofun
  · exact relation.relates_pure value

------------------------------------------------------------
-- Operators
------------------------------------------------------------

theorem relates_checkLength
    (length : Nat) :
    relation.Relates (checkLength length) (checkLength length) := by
  unfold checkLength
  exact relates_ite (relation.relates_throw nofun) (relation.relates_pure ())

theorem relates_repeatString
    (text : String)
    (count : Int) :
    relation.Relates (repeatString text count)
      (repeatString text count) := by
  unfold repeatString
  exact relation.relates_bind (relates_checkLength _) fun _ =>
    relation.relates_pure _

theorem relates_repeatSequence
    (items : Array Value)
    (count : Int) :
    relation.Relates (repeatSequence items count)
      (repeatSequence items count) := by
  unfold repeatSequence
  exact relation.relates_bind (relates_checkLength _) fun _ =>
    relation.relates_pure _

theorem relates_joinSequences
    (left right : Array Value) :
    relation.Relates (joinSequences left right)
      (joinSequences left right) := by
  unfold joinSequences
  exact relation.relates_bind (relates_checkLength _) fun _ =>
    relation.relates_pure _

theorem relates_onNumbers
    (op : BinaryOp)
    (left right : Value) :
    relation.Relates (onNumbers op left right)
      (onNumbers op left right) := by
  unfold onNumbers
  refine relation.relates_bind (relates_typeName left) fun leftType => ?_
  refine relation.relates_bind (relates_typeName right) fun rightType => ?_
  cases Numeral.of? left with
  | none => exact relates_typeFault _
  | some a =>
      cases Numeral.of? right with
      | none => exact relates_typeFault _
      | some b =>
          exact relates_ofExcept
            (Arithmetic.finishes_onNumerals op a b leftType rightType)

theorem relates_binary
    (op : BinaryOp)
    (left right : Value) :
    relation.Relates (binary op left right)
      (binary op left right) := by
  have hOther := relation.relates_onNumbers op left right
  have hRepeated (list : Heap → Array Value) (count : Int)
      {make : Array Value → Eval Value}
      (hMake : ∀ items, relation.Relates (make items) (make items)) :
      relation.Relates
        (onHeap list >>= fun items => repeatSequence items count >>= make)
        (onHeap list >>= fun items => repeatSequence items count >>= make) :=
    relation.relates_bind (relates_onHeap list) fun items =>
      relation.relates_bind (relates_repeatSequence items count) hMake
  have hJoined (first second : Heap → Array Value)
      {make : Array Value → Eval Value}
      (hMake : ∀ items, relation.Relates (make items) (make items)) :
      relation.Relates
        (onHeap first >>= fun items =>
          onHeap second >>= fun others => joinSequences items others >>= make)
        (onHeap first >>= fun items =>
          onHeap second >>= fun others =>
            joinSequences items others >>= make) :=
    relation.relates_bind (relates_onHeap first) fun items =>
      relation.relates_bind (relates_onHeap second) fun others =>
        relation.relates_bind (relates_joinSequences items others) hMake
  cases op with
  | add =>
      cases left with
      | str a =>
          cases right with
          | str b =>
              exact relation.relates_bind (relates_checkLength _) fun _ =>
                relation.relates_pure _
          | _ => exact hOther
      | list a =>
          cases right with
          | list b => exact hJoined (·.list a) (·.list b) relates_newList
          | _ => exact hOther
      | tuple a =>
          cases right with
          | tuple b => exact hJoined (·.tuple a) (·.tuple b) relates_newTuple
          | _ => exact hOther
      | _ => exact hOther
  | mul =>
      cases left with
      | str text =>
          cases right with
          | int count => exact relates_repeatString text count
          | _ => exact hOther
      | list a =>
          cases right with
          | int count => exact hRepeated (·.list a) count relates_newList
          | _ => exact hOther
      | tuple a =>
          cases right with
          | int count => exact hRepeated (·.tuple a) count relates_newTuple
          | _ => exact hOther
      | int count =>
          cases right with
          | str text => exact relates_repeatString text count
          | list a => exact hRepeated (·.list a) count relates_newList
          | tuple a => exact hRepeated (·.tuple a) count relates_newTuple
          | _ => exact hOther
      | _ => exact hOther
  | mod =>
      cases left with
      | str text => exact relation.relates_throw nofun
      | _ => exact hOther
  | _ => exact hOther

theorem relates_unary
    (op : UnaryOp)
    (operand : Value) :
    relation.Relates (unary op operand) (unary op operand) := by
  unfold unary
  cases op == .not with
  | true =>
      exact relation.relates_bind (relates_isTruthy operand) fun _ =>
        relation.relates_pure _
  | false =>
      simp only [Bool.false_eq_true, if_false]
      cases hResult :
          (Numeral.of? operand).bind (Arithmetic.onNumeral? op) with
      | none => exact relates_mistyped operand _
      | some result =>
          obtain ⟨number, -, hResult⟩ := Option.bind_eq_some_iff.mp hResult
          exact relates_ofExcept (Arithmetic.finishes_onNumeral hResult)

theorem relates_contains
    (container item : Value) :
    relation.Relates (contains container item)
      (contains container item) := by
  cases container with
  | str text =>
      cases item with
      | str part => exact relation.relates_pure _
      | _ => exact relates_mistyped _ _
  | list _ | set _ | tuple _ | dict _ =>
      unfold contains
      exact relates_onHeap _
  | _ => exact relates_mistyped _ _

theorem relates_order
    (symbol : String)
    (left right : Value) :
    relation.Relates (order symbol left right)
      (order symbol left right) :=
  relates_computed fun heap => heap.finishes_order symbol left right

theorem relates_ordered
    (symbol : String)
    (expected : Ordering → Bool)
    (left right : Value) :
    relation.Relates (ordered symbol expected left right)
      (ordered symbol expected left right) := by
  have hOrder :=
    relation.relates_bind (relates_order symbol left right) fun found =>
      relation.relates_pure (expected found)
  unfold ordered
  cases Numeral.of? left with
  | none => exact hOrder
  | some a =>
      cases Numeral.of? right with
      | none => exact hOrder
      | some b => exact relation.relates_pure _

theorem relates_compareBy
    (op : CompareOp)
    (left right : Value) :
    relation.Relates (compareBy op left right)
      (compareBy op left right) := by
  cases op with
  | eq => exact relates_onHeap (·.equal left right)
  | notEq =>
      exact relation.relates_bind (relates_onHeap _) fun _ =>
        relation.relates_pure _
  | same | notSame => exact relation.relates_pure _
  | member => exact relates_contains right left
  | notMember =>
      exact relation.relates_bind (relates_contains right left) fun _ =>
        relation.relates_pure _
  | _ => exact relates_ordered _ _ left right

------------------------------------------------------------
-- Items and Attributes
------------------------------------------------------------

theorem relates_intIndex
    (container : String)
    (index : Value) :
    relation.Relates (intIndex container index)
      (intIndex container index) := by
  cases index with
  | int _ | bool _ => exact relation.relates_pure _
  | _ => exact relates_mistyped _ _

theorem relates_itemAt
    (container : String)
    (items : Array α)
    (index : Value) :
    relation.Relates (itemAt container items index)
      (itemAt container items index) := by
  unfold itemAt
  refine relation.relates_bind (relates_intIndex container index) fun n => ?_
  cases (position? n items.size).bind (items[·]?) with
  | some item => exact relation.relates_pure item
  | none => exact relation.relates_throw nofun

theorem relates_getItem
    (object index : Value) :
    relation.Relates (getItem object index)
      (getItem object index) := by
  cases object with
  | list address =>
      exact relation.relates_bind (relates_onHeap _) fun items =>
        relates_itemAt "list" items index
  | tuple address =>
      exact relation.relates_bind (relates_onHeap _) fun items =>
        relates_itemAt "tuple" items index
  | str text =>
      exact relation.relates_bind (relates_itemAt "string" _ index)
        fun _ => relation.relates_pure _
  | dict address =>
      refine relation.relates_bind (relates_onHeap _) fun found => ?_
      cases found with
      | some value => exact relation.relates_pure value
      | none =>
          exact relation.relates_bind (relates_onHeap _) fun _ =>
            relation.relates_throw nofun
  | _ => exact relates_mistyped _ _

theorem relates_setItem
    (object index value : Value) :
    relation.Relates (setItem object index value)
      (setItem object index value) := by
  cases object with
  | list address =>
      refine relation.relates_bind (relates_intIndex "list" index)
        fun n => ?_
      refine relation.relates_bind (relates_onHeap _) fun size => ?_
      cases position? n size with
      | some position =>
          exact relates_updateHeap (·.steady_updateList address _)
      | none => exact relation.relates_throw nofun
  | dict address =>
      have hSteady (heap : Heap) :
          heap.Steady
            (heap.setDict address
              (heap.insertEntry (heap.dict address) index value)) :=
        heap.steady_setDict address _
      exact relates_updateHeap hSteady
  | _ => exact relates_mistyped _ _

theorem relates_getSlice
    (object : Value)
    (lower upper : Option Int)
    (step : Int) :
    relation.Relates (getSlice object lower upper step)
      (getSlice object lower upper step) := by
  cases object with
  | list address =>
      exact relation.relates_bind (relates_onHeap _) fun _ =>
        relates_newList _
  | tuple address =>
      exact relation.relates_bind (relates_onHeap _) fun _ =>
        relates_newTuple _
  | str text => exact relation.relates_pure _
  | _ => exact relates_mistyped _ _

theorem relates_noAttr
    (object : Value)
    (name : String) :
    relation.Relates (noAttr object name : Eval α)
      (noAttr object name) := by
  unfold noAttr
  exact relation.relates_bind (relates_onHeap _) fun _ =>
    relation.relates_throw nofun

theorem relates_getAttr
    (object : Value)
    (name : String) :
    relation.Relates (getAttr object name) (getAttr object name) := by
  unfold getAttr
  refine relation.relates_bind (relates_onHeap _) fun found => ?_
  cases found with
  | some value => exact relation.relates_pure value
  | none => exact relates_noAttr object name

theorem relates_importModule
    (name : String) :
    relation.Relates (importModule name) (importModule name) := by
  unfold importModule
  exact relates_ite (relation.relates_withHeap (·.steady_addMathModule))
    (relation.relates_pure _)

end Congruence

end Eval

end SnippetGrader
