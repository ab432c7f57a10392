import SnippetGrader.Proofs.Parsing.Programs

/-
  What the readers of a tree may rely on.

  Binding, comparison and evaluation take a tree apart without
  checking it again: parameters are in order, names are not
  repeated, lists that belong together are equally long, and a
  slice stands only where an index does. All of this holds at
  every node of a program that was read without a fault, seen
  through the slots by which it is read.

  Key definitions include:
    * `Slot.width`, `Node.width`
    * `Node.Regular`

  Key theorems include:
    * `Node.Grammatical.regular`
    * `regular_of_parseSource`
-/

namespace SnippetGrader

------------------------------------------------------------
-- Regular Nodes
------------------------------------------------------------

/- The number of entries of a slot. -/
def Slot.width : Slot → Nat
  | .node _ | .leaf _ => 1
  | .optional inner => inner.toList.length
  | .nodes inner => inner.length
  | .leaves inner => inner.length

/- The number of entries of a named slot. -/
def Node.width (node : Node) (name : String) : Nat :=
  (node.slots.find? fun slot => slot.1 == name).elim 0 fun slot =>
    slot.2.width

/- Whether a node is an index with several items, one of them a slice. -/
def Node.HoldsSlice (node : Node) : Prop :=
  node.kind = "Tuple" ∧ ∃ item ∈ node.children, item.kind = "Slice"

/-
  What holds at a node: parameters and keywords as a signature
  and a call need them, as many entries in each list as the
  grammar asks for, and slices only as an index or as items of
  an index.
-/
structure Node.Regular (node : Node) : Prop where
  functionParams :
    ∀ span name params body,
      node = .stmt (.mk span (.functionDef name params body)) →
        ParamsWellFormed params
  lambdaParams :
    ∀ span params body,
      node = .expr (.mk span (.lambda params body)) →
        ParamsWellFormed params
  keywordNames :
    ∀ span callee args keywords,
      node = .expr (.mk span (.call callee args keywords)) →
        (keywords.filterMap fun keyword =>
          keyword.name.map (·.name)).Nodup
  comparison :
    ∀ span left rest,
      node = .expr (.mk span (.compare left rest)) →
        node.width "ops" = node.width "comparators" ∧
          0 < node.width "ops"
  boolean :
    ∀ span op values,
      node = .expr (.mk span (.boolean op values)) →
        2 ≤ node.width "values"
  dictionary :
    ∀ span entries,
      node = .expr (.mk span (.dict entries)) →
        node.width "keys" = node.width "values"
  set :
    ∀ span items,
      node = .expr (.mk span (.set items)) → 0 < node.width "elts"
  assignment :
    ∀ span targets value,
      node = .stmt (.mk span (.assign targets value)) →
        0 < node.width "targets"
  slices :
    ∀ slot ∈ node.slots, ∀ child ∈ slotChildren slot.2,
      child.kind = "Slice" →
        node.kind = "Tuple" ∨
          node.kind = "Subscript" ∧ slot.1 = "slice"
  indexTuples :
    ∀ slot ∈ node.slots, ∀ child ∈ slotChildren slot.2,
      child.HoldsSlice →
        node.kind = "Subscript" ∧ slot.1 = "slice"

------------------------------------------------------------
-- Grammatical Nodes
------------------------------------------------------------

namespace Node

/- Only an expression of a kind is of that kind. -/
theorem isSlice_of_kind
    {node : Node}
    (hKind : node.kind = "Slice") :
    ∃ expr, node = .expr expr ∧ expr.isSlice = true := by
  obtain ⟨⟨span, form⟩, rfl⟩ :=
    exists_expr_of_kind (by rw [hKind]; exact of_decide_eq_true rfl)
  have hForm : form.ctorIdx = 12 := exprForm_ctorIdx hKind
  cases form <;>
    first
    | exact ⟨_, rfl, rfl⟩
    | exact absurd hForm (Nat.ne_of_beq_eq_false rfl)

theorem isIndexOnly_of_isSlice
    {expr : Expr}
    (hSlice : expr.isSlice = true) :
    expr.isIndexOnly = true := by
  obtain ⟨span, form⟩ := expr
  cases form <;> first | rfl | cases hSlice

/- A tuple with a slice is no slice, but can only be an index. -/
theorem isIndexOnly_of_holdsSlice
    {node : Node}
    (hHolds : node.HoldsSlice) :
    ∃ expr,
      node = .expr expr ∧
        expr.isIndexOnly = true ∧ expr.isSlice = false := by
  obtain ⟨hKind, item, hItem, hSlice⟩ := hHolds
  obtain ⟨index, rfl, hIndex⟩ := isSlice_of_kind hSlice
  obtain ⟨⟨span, form⟩, rfl⟩ :=
    exists_expr_of_kind (by rw [hKind]; exact of_decide_eq_true rfl)
  have hForm : form.ctorIdx = 6 := exprForm_ctorIdx hKind
  cases form
  case tuple items =>
      refine ⟨_, rfl, List.any_eq_true.mpr ⟨index, ?_, hIndex⟩, rfl⟩
      simpa [children, slots, exprSlots] using hItem
  all_goals exact absurd hForm (Nat.ne_of_beq_eq_false rfl)

variable {node : Node}

/-
  Where an expression stands that can only be an index: in the
  place of an index, or in a tuple if it is a slice.
-/
theorem Grammatical.place_of_index
    (hNode : node.Grammatical)
    {slot : String × Slot}
    (hSlot : slot ∈ node.slots)
    {index : Expr}
    (hIndex : .expr index ∈ slotChildren slot.2)
    (hOnly : index.isIndexOnly = true) :
    node.kind = "Tuple" ∧ index.isSlice = true ∨
      node.kind = "Subscript" ∧ slot.1 = "slice" := by
  have hMay :=
    hNode.indices index (List.mem_flatMap.mpr ⟨slot, hSlot, hIndex⟩) hOnly
  cases node with
  | expr inner =>
      obtain ⟨span, form⟩ := inner
      cases form
      case tuple items => exact Or.inl ⟨rfl, hMay⟩
      case subscript object inner =>
          refine Or.inr ⟨rfl, ?_⟩
          have hObject : object.isIndexOnly = false := hNode.readsBack
          rcases List.mem_cons.mp hSlot with rfl | hSlot
          · cases List.mem_singleton.mp hIndex
            rw [hObject] at hOnly
            cases hOnly
          · cases List.mem_singleton.mp hSlot
            rfl
      all_goals exact hMay.elim
  | _ => exact hMay.elim

/- A node that is grammatical is regular. -/
theorem Grammatical.regular
    (hNode : node.Grammatical) :
    node.Regular where
  functionParams := by
    rintro span name params body rfl
    exact hNode.readsBack
  lambdaParams := by
    rintro span params body rfl
    exact hNode.readsBack
  keywordNames := by
    rintro span callee args keywords rfl
    exact hNode.readsBack
  comparison := by
    rintro span left rest rfl
    have hRest : rest ≠ [] := hNode.readsBack
    simpa [width, slots, exprSlots, exprsSlot, Slot.width,
      List.length_pos_iff] using hRest
  boolean := by
    rintro span op values rfl
    have hValues : 2 ≤ values.length := hNode.readsBack
    simpa [width, slots, exprSlots, exprsSlot, Slot.width] using hValues
  dictionary := by
    rintro span entries rfl
    simp [width, slots, exprSlots, exprsSlot, Slot.width]
  set := by
    rintro span items rfl
    have hItems : items ≠ [] := hNode.readsBack
    simpa [width, slots, exprSlots, exprsSlot, Slot.width,
      List.length_pos_iff] using hItems
  assignment := by
    rintro span targets value rfl
    have hTargets : targets ≠ [] := hNode.readsBack
    simpa [width, slots, stmtSlots, exprsSlot, Slot.width,
      List.length_pos_iff] using hTargets
  slices := by
    intro slot hSlot child hChild hSlice
    obtain ⟨index, rfl, hIndex⟩ := isSlice_of_kind hSlice
    exact (hNode.place_of_index hSlot hChild
      (isIndexOnly_of_isSlice hIndex)).imp And.left id
  indexTuples := by
    intro slot hSlot child hChild hHolds
    obtain ⟨index, rfl, hOnly, hTuple⟩ := isIndexOnly_of_holdsSlice hHolds
    rcases hNode.place_of_index hSlot hChild hOnly with hItem | hIndex
    · rw [hTuple] at hItem
      cases hItem.2
    · exact hIndex

end Node

theorem Node.Everywhere.imp
    {holds other : Node → Prop}
    (hImplies : ∀ node, holds node → other node)
    {node : Node}
    (hNode : node.Everywhere holds) :
    node.Everywhere other := by
  induction hNode with
  | intro hHere _ ih => exact ⟨hImplies _ hHere, ih⟩

------------------------------------------------------------
-- Programs
------------------------------------------------------------

/- Every node of a program that was read is regular. -/
theorem regular_of_parseSource
    {name text : String}
    {result : Program}
    (hRead : parseSource name text = .ok result) :
    (Node.program result).Everywhere Node.Regular :=
  (grammatical_of_parseSource hRead).imp fun _ hNode => hNode.regular

/- Parameters after a slash and a star, keywords, and two slices. -/
theorem regular_of_parseSource_sliced :
    ∃ result,
      parseSource "table.py"
          "def f(a, /, b=1, *, c, **d):\n    return a[b:, c < b <= 1](c=d)" =
        .ok result ∧
        (Node.program result).Everywhere Node.Regular := by
  have hRead :
      (parseSource "table.py"
          "def f(a, /, b=1, *, c, **d):\n    return a[b:, c < b <= 1](c=d)").toOption.isSome =
        true := by
    decide +kernel
  obtain ⟨result, hResult⟩ := Option.isSome_iff_exists.mp hRead
  exact ⟨result, ok_of_toOption hResult,
    regular_of_parseSource (ok_of_toOption hResult)⟩

end SnippetGrader
