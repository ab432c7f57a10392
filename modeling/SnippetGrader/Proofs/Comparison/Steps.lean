import SnippetGrader.Proofs.Comparison.Acceptance
import SnippetGrader.Proofs.Number.Unsigned
import SnippetGrader.Proofs.Tree.Grammar

/-
  Comparing nodes of one shape, step by step.

  Two nodes of one shape are compared by comparing their
  children pair by pair, in order. Only the places at which the
  pairs are reported differ from step to step.

  Key definitions include:
    * `Comparison.inOrder`
    * `Comparison.Pairs`

  Key theorems include:
    * `Comparison.bySlots_eq_inOrder`
    * `Node.sameShape_self`
-/

namespace SnippetGrader

namespace Comparison

variable {σ τ : Type}

------------------------------------------------------------
-- Steps
------------------------------------------------------------

/- One step after the other. -/
def inOrder : List (Comparing σ τ Unit) → Comparing σ τ Unit
  | [] => return ()
  | step :: rest => do
      step
      inOrder rest

theorem inOrder_append
    (first second : List (Comparing σ τ Unit)) :
    inOrder (first ++ second) =
      (do
        inOrder first
        inOrder second) := by
  induction first with
  | nil => simp [inOrder]
  | cons step rest ih => simp [inOrder, ih]

/- One step for each pair of nodes, at any place. -/
def Pairs
    (inner : Rule σ τ)
    (pairs : List (Node × Node))
    (steps : List (Comparing σ τ Unit)) :
    Prop :=
  List.Forall₂
    (fun pair step =>
      ∃ place, step = inner (some pair.1) (some pair.2) place)
    pairs steps

theorem items_eq_inOrder
    (inner : Rule σ τ)
    {lefts rights : List Node}
    (hLength : lefts.length = rights.length)
    (place : Place) :
    ∃ steps,
      Pairs inner (lefts.zip rights) steps ∧
        items inner (pairUp lefts rights) place = inOrder steps := by
  induction lefts generalizing rights place with
  | nil =>
      cases rights with
      | nil => exact ⟨[], .nil, rfl⟩
      | cons right rights => simp at hLength
  | cons left lefts ih =>
      cases rights with
      | nil => simp at hLength
      | cons right rights =>
          obtain ⟨steps, hPairs, hItems⟩ :=
            ih (by simpa using hLength) (place.enter left right)
          refine ⟨inner left right place :: steps,
            .cons ⟨place, rfl⟩ hPairs, ?_⟩
          simp only [pairUp, items, inOrder, hItems]

theorem slot_eq_inOrder
    {inner : Rule σ τ}
    (hAbsent : ∀ place, inner none none place = return ())
    (left right : Node)
    (place : Place)
    {leftSlot rightSlot : Slot}
    (hShape : leftSlot.sameShape rightSlot = true) :
    ∃ steps,
      Pairs inner
          ((Node.slotChildren leftSlot).zip
            (Node.slotChildren rightSlot)) steps ∧
        slot inner left right place leftSlot rightSlot =
          inOrder steps := by
  cases leftSlot <;> cases rightSlot <;>
    simp only [Slot.sameShape, Bool.false_eq_true] at hShape
  case node.node a b =>
      refine ⟨[inner a b place], .cons ⟨place, rfl⟩ .nil, ?_⟩
      simp [slot, inOrder]
  case optional.optional a b =>
      cases a with
      | none =>
          cases b with
          | none => exact ⟨[], .nil, hAbsent place⟩
          | some b => simp at hShape
      | some a =>
          cases b with
          | none => simp at hShape
          | some b =>
              refine ⟨[inner a b place], .cons ⟨place, rfl⟩ .nil, ?_⟩
              simp [slot, inOrder]
  case nodes.nodes a b =>
      exact items_eq_inOrder inner (by simpa using hShape) place
  case leaf.leaf a b =>
      refine ⟨[], .nil, ?_⟩
      simp [slot, inOrder, hShape]
  case leaves.leaves a b =>
      refine ⟨[], .nil, ?_⟩
      simp [slot, inOrder, hShape]

theorem slots_eq_inOrder
    {inner : Rule σ τ}
    (hAbsent : ∀ place, inner none none place = return ())
    (left right : Node)
    (place : Place)
    {leftSlots rightSlots : List (String × Slot)}
    (hShapes :
      List.Forall₂
        (fun (a b : String × Slot) =>
          a.1 = b.1 ∧ a.2.sameShape b.2 = true)
        leftSlots rightSlots) :
    ∃ steps,
      Pairs inner
          ((leftSlots.flatMap fun slot =>
              Node.slotChildren slot.2).zip
            (rightSlots.flatMap fun slot =>
              Node.slotChildren slot.2)) steps ∧
        slots inner left right place (leftSlots.zip rightSlots) =
          inOrder steps := by
  induction hShapes with
  | nil => exact ⟨[], .nil, rfl⟩
  | @cons leftSlot rightSlot _ _ hFirst _ ih =>
      obtain ⟨first, hFirstPairs, hFirstSteps⟩ :=
        slot_eq_inOrder hAbsent left right place hFirst.2
      obtain ⟨later, hLaterPairs, hLaterSteps⟩ := ih
      refine ⟨first ++ later, ?_, ?_⟩
      · rw [List.flatMap_cons, List.flatMap_cons,
          List.zip_append (Slot.length_slotChildren_eq hFirst.2)]
        exact List.rel_append hFirstPairs hLaterPairs
      · simp only [List.zip_cons_cons, slots, hFirst.1,
          beq_self_eq_true, if_true, hFirstSteps, hLaterSteps,
          inOrder_append]

/- Nodes of one shape are compared child by child. -/
theorem bySlots_eq_inOrder
    {inner : Rule σ τ}
    (hAbsent : ∀ place, inner none none place = return ())
    {left right : Node}
    (hShape : left.SameShape right)
    (place : Place) :
    ∃ steps,
      Pairs inner (left.children.zip right.children) steps ∧
        bySlots inner left right place = inOrder steps :=
  slots_eq_inOrder hAbsent left right place hShape.2

theorem node_of_callParts
    {node : Node}
    {parts : CallParts}
    (hParts : callParts? node = some parts) :
    ∃ span,
      node =
        .expr (.mk span (.call parts.callee parts.args parts.keywords)) := by
  unfold callParts? at hParts
  split at hParts
  · cases hParts
    exact ⟨_, rfl⟩
  · cases hParts

theorem callee_mem_children
    {node : Node}
    {parts : CallParts}
    (hParts : callParts? node = some parts) :
    .expr parts.callee ∈ node.children := by
  obtain ⟨span, rfl⟩ := node_of_callParts hParts
  simp [Node.children, Node.slots, Node.exprSlots]

end Comparison

------------------------------------------------------------
-- Shapes
------------------------------------------------------------

/- Whether a leaf is anything but NaN. -/
def Leaf.isDefinite : Leaf → Bool
  | .float value => !value.isNaN
  | _ => true

theorem Leaf.beq_self
    {leaf : Leaf}
    (hDefinite : leaf.isDefinite = true) :
    (leaf == leaf) = true := by
  cases leaf with
  | float value =>
      exact Number.beq_self (by simpa [isDefinite] using hDefinite)
  | none => rfl
  | int value => exact beq_self_eq_true value
  | str value => exact beq_self_eq_true value
  | bool value => exact beq_self_eq_true value
  | ident name => exact beq_self_eq_true name
  | symbol text => exact beq_self_eq_true text

theorem Leaf.all_beq_self
    {leaves : List Leaf}
    (hDefinite : leaves.all isDefinite = true) :
    (leaves == leaves) = true := by
  induction leaves with
  | nil => rfl
  | cons leaf rest ih =>
      rw [List.all_cons, Bool.and_eq_true] at hDefinite
      rw [List.cons_beq_cons, beq_self hDefinite.1,
        ih hDefinite.2, Bool.and_true]

/- Whether a slot holds anything but NaN. -/
def Slot.isDefinite : Slot → Bool
  | .leaf value => value.isDefinite
  | .leaves values => values.all Leaf.isDefinite
  | _ => true

theorem Slot.sameShape_self
    {slot : Slot}
    (hDefinite : slot.isDefinite = true) :
    slot.sameShape slot = true := by
  cases slot with
  | node _ => rfl
  | optional _ => exact beq_self_eq_true _
  | nodes _ => exact beq_self_eq_true _
  | leaf leaf => exact Leaf.beq_self hDefinite
  | leaves leaves => exact Leaf.all_beq_self hDefinite

/- Only a float could be indefinite. -/
theorem Node.isDefinite_slots
    {node : Node}
    (hReads : node.ReadsBack) :
    ∀ slot ∈ node.slots, slot.2.isDefinite = true := by
  rw [← List.all_eq_true]
  cases node with
  | program root => rfl
  | stmt inner =>
      obtain ⟨span, form⟩ := inner
      cases form <;> rfl
  | expr inner =>
      obtain ⟨span, form⟩ := inner
      cases form
      case float value =>
          have hNumber : value.isNaN = false := hReads.1
          change (!value.isNaN && true) = true
          rw [hNumber]
          rfl
      case compare left rest =>
          simp [slots, exprSlots, Slot.isDefinite,
            Leaf.isDefinite, exprSlot, exprsSlot]
      all_goals rfl
  | keyword argument =>
      obtain ⟨name, value, span⟩ := argument
      cases name <;> rfl
  | param declared => rfl
  | imported name =>
      obtain ⟨source, asName, span⟩ := name
      cases asName <;> rfl

/- A node that reads back has the shape of itself. -/
theorem Node.sameShape_self
    {node : Node}
    (hReads : node.ReadsBack) :
    node.SameShape node := by
  refine ⟨rfl, ?_⟩
  rw [List.forall₂_same]
  intro slot hSlot
  exact ⟨rfl, Slot.sameShape_self (isDefinite_slots hReads slot hSlot)⟩

end SnippetGrader
