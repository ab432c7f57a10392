import SnippetGrader.Proofs.Evaluation.DataText
import SnippetGrader.Proofs.Evaluation.KeptData
import SnippetGrader.Proofs.Evaluation.Limits

/-
  Values that never change.

  No step changes a tuple, and all code only adds tuples to those
  that are there. So constants, and tuples of constants and such
  tuples, are compared and shown alike however the heap changes.

  Key definitions include:
    * `Heap.KeepsTuples`, `Heap.IsFrozen`
    * `Eval.KeepsTuples`

  Key theorems include:
    * `Heap.IsFrozen.equal_eq`
    * `Heap.IsFrozen.repr_eq`
    * `Evaluator.keepsTuples_expr`
-/

namespace SnippetGrader

namespace Heap

------------------------------------------------------------
-- Frozen Values
------------------------------------------------------------

/- A heap that has the tuples of an earlier one, perhaps among more. -/
def KeepsTuples (heap later : Heap) : Prop :=
  heap.tuples.toList <+: later.tuples.toList

/- Constants, and tuples of frozen values. -/
inductive IsFrozen (heap : Heap) : Value → Prop
  | none :
      IsFrozen heap .none
  | bool
      (value : Bool) :
      IsFrozen heap (.bool value)
  | int
      (value : Int) :
      IsFrozen heap (.int value)
  | float
      (value : Float) :
      IsFrozen heap (.float value)
  | str
      (text : String) :
      IsFrozen heap (.str text)
  | tuple
      {address : Nat}
      (hAddress : address < heap.tuples.size)
      (hItems : ∀ item ∈ (heap.tuple address).toList, IsFrozen heap item) :
      IsFrozen heap (.tuple address)

namespace IsFrozen

variable {heap later : Heap}
variable {value other : Value}
variable {address : Nat}

theorem tuple_eq
    (hTuple : heap.IsFrozen (.tuple address))
    (hKeeps : heap.KeepsTuples later) :
    later.tuple address = heap.tuple address := by
  cases hTuple with
  | tuple hAddress hItems =>
      obtain ⟨-, hSame⟩ := getElem?_of_prefix hKeeps hAddress
      exact congrArg (·.getD #[]) hSame

theorem of_keepsTuples
    (hValue : heap.IsFrozen value)
    (hKeeps : heap.KeepsTuples later) :
    later.IsFrozen value := by
  induction hValue with
  | none => exact .none
  | bool value => exact .bool value
  | int value => exact .int value
  | float value => exact .float value
  | str text => exact .str text
  | tuple hAddress hItems ih =>
      have hSame := (IsFrozen.tuple hAddress hItems).tuple_eq hKeeps
      obtain ⟨hLater, -⟩ := getElem?_of_prefix hKeeps hAddress
      exact .tuple hLater (hSame ▸ ih)

theorem forall₂_self
    {items : List Value}
    (hItems : ∀ item ∈ items, heap.IsFrozen item) :
    List.Forall₂ (fun x x' => x = x' ∧ heap.IsFrozen x) items items :=
  List.forall₂_same.mpr fun item hMem => ⟨rfl, hItems item hMem⟩

/- Only two tuples are compared by what is in them. -/
theorem equalTo_eq
    (hValue : heap.IsFrozen value)
    (hOther : heap.IsFrozen other)
    (hKeeps : heap.KeepsTuples later)
    (depth : Nat) :
    later.equalTo depth value other = heap.equalTo depth value other := by
  induction depth generalizing value other with
  | zero => cases hValue <;> cases hOther <;> rfl
  | succ depth ih =>
      cases hValue with
      | @tuple a hAddress hItems =>
          cases hOther with
          | @tuple b hAddress' hItems' =>
              have hLeft := (IsFrozen.tuple hAddress hItems).tuple_eq hKeeps
              have hRight := (IsFrozen.tuple hAddress' hItems').tuple_eq hKeeps
              have hSame
                  (x x' y y' : Value)
                  (hX : x = x' ∧ heap.IsFrozen x)
                  (hY : y = y' ∧ heap.IsFrozen y) :
                  later.equalTo depth x y = heap.equalTo depth x' y' := by
                rw [← hX.1, ← hY.1]
                exact ih hX.2 hY.2
              rw [equalTo_tuple, equalTo_tuple, hLeft, hRight,
                sameItems_eq hSame (forall₂_self hItems) (forall₂_self hItems')]
          | _ => rfl
      | _ => cases hOther <;> rfl

theorem equal_eq
    (hValue : heap.IsFrozen value)
    (hOther : heap.IsFrozen other)
    (hKeeps : heap.KeepsTuples later) :
    later.equal value other = heap.equal value other :=
  hValue.equalTo_eq hOther hKeeps maxNesting

theorem reprTo_eq
    (hValue : heap.IsFrozen value)
    (hKeeps : heap.KeepsTuples later)
    (depth : Nat)
    (opened : List OpenContainer) :
    later.reprTo depth opened value = heap.reprTo depth opened value := by
  induction depth generalizing value opened with
  | zero => cases hValue <;> rfl
  | succ depth ih =>
      cases hValue with
      | @tuple a hAddress hItems =>
          have hSame := (IsFrozen.tuple hAddress hItems).tuple_eq hKeeps
          cases hOpen : opened.contains (.tuple a) with
          | true =>
              unfold reprTo reprBy
              simp only [hOpen, if_true]
          | false =>
              have hText :
                  itemsText (later.reprTo depth (.tuple a :: opened))
                      (heap.tuple a) =
                    itemsText (heap.reprTo depth (.tuple a :: opened))
                      (heap.tuple a) :=
                congrArg (", ".intercalate ·)
                  (List.map_congr_left fun item hMem =>
                    ih (hItems item hMem) _)
              rw [reprTo_tuple hOpen, reprTo_tuple hOpen, hSame, hText]
      | _ => rfl

theorem repr_eq
    (hValue : heap.IsFrozen value)
    (hKeeps : heap.KeepsTuples later) :
    later.repr value = heap.repr value :=
  hValue.reprTo_eq hKeeps maxNesting []

end IsFrozen

end Heap

------------------------------------------------------------
-- Code Keeps Tuples
------------------------------------------------------------

namespace Eval

variable {α β : Type}

/- A step that changes no tuple. -/
def KeepsTuples (action : Eval α) : Prop :=
  ∀ start : Interpreter,
    start.store.heap.KeepsTuples (after (action start)).store.heap

namespace KeepsTuples

theorem bind
    {first : Eval α}
    {next : α → Eval β}
    (hFirst : KeepsTuples first)
    (hNext : ∀ value, KeepsTuples (next value)) :
    KeepsTuples (first >>= next) := by
  intro start
  have hBefore := hFirst start
  cases hResult : first start with
  | ok value mid =>
      rw [hResult] at hBefore
      rw [bind_eq_of_ok hResult]
      exact hBefore.trans (hNext value mid)
  | error fault mid =>
      rw [hResult] at hBefore
      rw [bind_eq_of_error hResult]
      exact hBefore

theorem inScope
    {action : Eval α}
    (hAction : KeepsTuples action)
    (scope : Nat) :
    KeepsTuples (inScope scope action) := by
  intro start
  have hInner := hAction { start with scope }
  unfold Eval.inScope
  dsimp only
  generalize action { start with scope } = result at hInner
  cases result <;> exact hInner

theorem inCall
    {action : Eval α}
    (hAction : KeepsTuples action)
    (scope : Nat) :
    KeepsTuples (inCall scope action) := by
  intro start
  have hInner := hAction.inScope scope { start with depth := start.depth + 1 }
  unfold Eval.inCall
  dsimp only
  split
  · exact List.prefix_rfl
  · generalize Eval.inScope scope action
      { start with depth := start.depth + 1 } = result at hInner
    cases result <;> exact hInner

end KeepsTuples

/- Steps that change no tuple, as a relation that all code keeps. -/
def keepingTuples : LevelCongruence where
  Relates action _ := KeepsTuples action
  relates_pure _ _ := List.prefix_rfl
  relates_bind := KeepsTuples.bind
  relates_throw _ _ := List.prefix_rfl
  relates_reading _ _ := List.prefix_rfl
  relates_withHeap hSteady start := (hSteady start.store.heap).tuples
  relates_write _ _ := List.prefix_rfl
  relates_charge units start := by
    unfold charge
    dsimp only
    split <;> exact List.prefix_rfl
  relates_define _ _ _ := List.prefix_rfl
  relates_setClassAttr _ _ _ _ := List.prefix_rfl
  relates_openScope _ _ _ := List.prefix_rfl
  relates_inScope scope _ _ hBody := hBody.inScope scope
  relates_inCall scope _ _ hBody := hBody.inCall scope
  relates_addClass _ _ _ _ := List.prefix_rfl
  relates_unfinished _ := List.prefix_rfl

end Eval

/- Expressions change no tuple, at any number of levels. -/
theorem Evaluator.keepsTuples_expr
    (n : Nat)
    (expr : Expr) :
    Eval.KeepsTuples ((levels n).expr expr) :=
  (Eval.keepingTuples.agrees_levels n).expr expr

end SnippetGrader
