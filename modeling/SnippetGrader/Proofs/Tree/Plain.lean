import SnippetGrader.Proofs.Tree.Grammar

/-
  Plain nodes: grammatical ones that may stand anywhere.

  A slice, and a tuple with a slice in it, can only stand
  between the brackets of a subscript. Everything else is plain
  as soon as its children are.

  Key definitions include:
    * `Node.Plain`
    * `Expr.IndexItem`, `Expr.Indexes`

  Key theorems include:
    * `Node.plain_of_children`
-/

namespace SnippetGrader

/- A grammatical node that is not only an index. -/
structure Node.Plain (node : Node) : Prop where
  everywhere : node.Everywhere Node.Grammatical
  anywhere :
    ∀ expr, node = .expr expr → expr.isIndexOnly = false

/- A node is plain if it reads back and its children are plain. -/
theorem Node.plain_of_children
    {node : Node}
    (hReads : node.ReadsBack)
    (hAnywhere :
      ∀ expr, node = .expr expr → expr.isIndexOnly = false)
    (hChildren : ∀ child ∈ node.children, child.Plain) :
    node.Plain := by
  refine ⟨⟨⟨hReads, ?_⟩, ?_⟩, hAnywhere⟩
  · intro index hIndex hOnly
    have hPlain := (hChildren _ hIndex).anywhere index rfl
    rw [hPlain] at hOnly
    cases hOnly
  · intro child hChild
    exact (hChildren child hChild).everywhere

namespace Expr

/- An expression that may stand anywhere. -/
def Plain (expr : Expr) : Prop :=
  (Node.expr expr).Plain

@[simp] theorem plain_node_iff
    {expr : Expr} :
    (Node.expr expr).Plain ↔ expr.Plain :=
  Iff.rfl

/- An expression that may be one of several indices. -/
structure IndexItem (expr : Expr) : Prop where
  everywhere : (Node.expr expr).Everywhere Node.Grammatical
  slice : expr.isIndexOnly = true → expr.isSlice = true

/- An expression that may stand between the brackets of a subscript. -/
def Indexes (expr : Expr) : Prop :=
  (Node.expr expr).Everywhere Node.Grammatical

theorem Plain.indexItem
    {expr : Expr}
    (hPlain : expr.Plain) :
    expr.IndexItem := by
  refine ⟨hPlain.everywhere, ?_⟩
  intro hOnly
  rw [hPlain.anywhere expr rfl] at hOnly
  cases hOnly

theorem Plain.isSlice_eq_false
    {expr : Expr}
    (hPlain : expr.Plain) :
    expr.isSlice = false := by
  have hAnywhere := hPlain.anywhere expr rfl
  rcases expr with ⟨span, form⟩
  cases form <;>
    first
    | rfl
    | simp [isIndexOnly] at hAnywhere

section Forms

variable {span : Span}

theorem plain_of_slots
    {form : ExprForm Expr}
    (hReads : (Node.expr (.mk span form)).ReadsBack)
    (hAnywhere : (Expr.mk span form).isIndexOnly = false)
    (hChildren :
      ∀ slot ∈ Node.exprSlots form,
        ∀ child ∈ Node.slotChildren slot.2, child.Plain) :
    (Expr.mk span form).Plain := by
  refine Node.plain_of_children hReads ?_ ?_
  · rintro expr ⟨⟩
    exact hAnywhere
  · intro child hChild
    obtain ⟨slot, hSlot, hMem⟩ := List.mem_flatMap.mp hChild
    exact hChildren slot hSlot child hMem

theorem plain_tuple
    {items : List Expr}
    (hItems : ∀ item ∈ items, item.Plain) :
    (Expr.mk span (.tuple items)).Plain := by
  refine plain_of_slots trivial ?_ ?_
  · simpa [isIndexOnly] using fun item hItem =>
      (hItems item hItem).isSlice_eq_false
  · simpa [Node.exprSlots] using hItems

/- A tuple of indices may hold slices. -/
theorem indexes_tuple
    {items : List Expr}
    (hItems : ∀ item ∈ items, item.IndexItem) :
    (Expr.mk span (.tuple items)).Indexes := by
  have hChildren :
      (Node.expr (.mk span (.tuple items))).children =
        items.map .expr := by
    simp [Node.children, Node.slots, Node.exprSlots]
  refine ⟨⟨trivial, ?_⟩, ?_⟩
  · intro index hIndex hOnly
    rw [hChildren] at hIndex
    obtain ⟨_, hItem, ⟨⟩⟩ := List.mem_map.mp hIndex
    exact (hItems index hItem).slice hOnly
  · intro child hChild
    rw [hChildren] at hChild
    obtain ⟨item, hItem, rfl⟩ := List.mem_map.mp hChild
    exact (hItems item hItem).everywhere

theorem indexItem_slice
    {lower upper step : Option Expr}
    (hBounds :
      ∀ bound ∈ [lower, upper, step],
        ∀ expr, bound = some expr → expr.Plain) :
    (Expr.mk span (.slice lower upper step)).IndexItem := by
  have hChildren :
      ∀ child ∈ (Node.expr (.mk span (.slice lower upper step))).children,
        child.Plain := by
    intro child hChild
    simp only [Node.children, Node.slots, Node.exprSlots, form_mk,
      List.flatMap_cons, List.flatMap_nil, Node.slotChildren_optionSlot,
      List.append_nil, List.mem_append, List.mem_map,
      Option.mem_toList] at hChild
    rcases hChild with ⟨expr, hBound, rfl⟩ | ⟨expr, hBound, rfl⟩ |
        ⟨expr, hBound, rfl⟩
    · exact hBounds lower (by simp) expr hBound
    · exact hBounds upper (by simp) expr hBound
    · exact hBounds step (by simp) expr hBound
  refine ⟨⟨⟨trivial, ?_⟩, ?_⟩, fun _ => rfl⟩
  · intro index hIndex hOnly
    rw [(hChildren _ hIndex).anywhere index rfl] at hOnly
    cases hOnly
  · intro child hChild
    exact (hChildren child hChild).everywhere

/- An index is the only place for what is only an index. -/
theorem plain_subscript
    {object index : Expr}
    (hObject : object.Plain)
    (hIndex : index.Indexes) :
    (Expr.mk span (.subscript object index)).Plain := by
  have hChildren :
      (Node.expr (.mk span (.subscript object index))).children =
        [.expr object, .expr index] := by
    simp [Node.children, Node.slots, Node.exprSlots]
  refine ⟨⟨⟨hObject.anywhere object rfl, ?_⟩, ?_⟩, ?_⟩
  · intro other hOther hOnly
    rw [hChildren] at hOther
    rcases List.mem_pair.mp hOther with hSame | hSame
    · cases hSame
      rw [hObject.anywhere object rfl] at hOnly
      cases hOnly
    · cases hSame
      rfl
  · intro child hChild
    rw [hChildren] at hChild
    rcases List.mem_pair.mp hChild with rfl | rfl
    · exact hObject.everywhere
    · exact hIndex
  · rintro expr ⟨⟩
    rfl

end Forms

end Expr

end SnippetGrader
