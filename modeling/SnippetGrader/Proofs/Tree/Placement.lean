import SnippetGrader.Proofs.Source.Extent
import SnippetGrader.Proofs.Tree.Grammar

/-
  Where the nodes of a tree stand.

  A node of a text stands on its lines, around its children, and
  the nodes of a list follow each other. The nodes below a node
  are those of its list in preorder, so that it covers all of
  them.

  Key definitions include:
    * `Node.WellPlaced`

  Key theorems include:
    * `Node.Everywhere.of_mem_preorder`
    * `Node.everywhere_of_preorder`
    * `Node.covers_of_mem_preorder`
-/

namespace SnippetGrader

namespace Node

------------------------------------------------------------
-- Nodes in Preorder
------------------------------------------------------------

theorem mem_preorderTo_succ
    {depth : Nat}
    {node other : Node} :
    other ∈ preorderTo (depth + 1) node ↔
      other = node ∨
        ∃ child ∈ node.children, other ∈ preorderTo depth child := by
  rw [preorderTo, List.mem_cons, List.mem_flatMap]

theorem Everywhere.of_mem_preorderTo
    {holds : Node → Prop}
    {depth : Nat}
    {node other : Node}
    (hNode : node.Everywhere holds)
    (hMem : other ∈ preorderTo depth node) :
    holds other := by
  induction depth generalizing node with
  | zero => cases hMem
  | succ depth ih =>
      rcases mem_preorderTo_succ.mp hMem with rfl | ⟨child, hChild, hBelow⟩
      · exact hNode.atNode
      · exact ih (hNode.atChild hChild) hBelow

/- What holds everywhere holds of the nodes in preorder. -/
theorem Everywhere.of_mem_preorder
    {holds : Node → Prop}
    {node other : Node}
    (hNode : node.Everywhere holds)
    (hMem : other ∈ node.preorder) :
    holds other :=
  hNode.of_mem_preorderTo hMem

theorem mem_preorderTo_self
    {depth : Nat}
    {node : Node}
    (hDepth : node.size ≤ depth) :
    node ∈ preorderTo depth node := by
  have hSize : 0 < node.size := by
    rw [size_eq_sum]
    exact Nat.add_pos_left Nat.one_pos _
  obtain ⟨more, rfl⟩ := Nat.exists_eq_add_of_lt (hSize.trans_le hDepth)
  rw [Nat.zero_add]
  exact mem_preorderTo_succ.mpr (.inl rfl)

theorem mem_preorderTo_of_child
    {depth : Nat}
    {node other child : Node}
    (hDepth : node.size ≤ depth)
    (hMem : other ∈ preorderTo depth node)
    (hChild : child ∈ other.children) :
    child ∈ preorderTo depth node := by
  induction depth generalizing node with
  | zero => cases hMem
  | succ depth ih =>
      rw [mem_preorderTo_succ] at hMem ⊢
      rcases hMem with rfl | ⟨inner, hInner, hBelow⟩
      · refine .inr ⟨child, hChild, mem_preorderTo_self ?_⟩
        have hSmaller := size_lt_of_mem_children hChild
        omega
      · refine .inr ⟨inner, hInner, ih ?_ hBelow⟩
        have hSmaller := size_lt_of_mem_children hInner
        omega

theorem mem_preorder_self
    (node : Node) :
    node ∈ node.preorder :=
  mem_preorderTo_self le_rfl

/- The list goes down to the last node. -/
theorem mem_preorder_of_child
    {node other child : Node}
    (hMem : other ∈ node.preorder)
    (hChild : child ∈ other.children) :
    child ∈ node.preorder :=
  mem_preorderTo_of_child le_rfl hMem hChild

/- What holds of the nodes in preorder holds everywhere below each. -/
theorem everywhere_of_preorder
    {holds : Node → Prop}
    {node other : Node}
    (hHolds : ∀ inner ∈ node.preorder, holds inner)
    (hMem : other ∈ node.preorder) :
    other.Everywhere holds := by
  induction hSize : other.size using Nat.strongRecOn generalizing other with
  | ind size ih =>
      refine ⟨hHolds other hMem, fun child hChild =>
        ih child.size ?_ (mem_preorder_of_child hMem hChild) rfl⟩
      have hSmaller := size_lt_of_mem_children hChild
      omega

theorem mem_preorder_trans
    {node middle other : Node}
    (hMiddle : middle ∈ node.preorder)
    (hMem : other ∈ middle.preorder) :
    other ∈ node.preorder :=
  (everywhere_of_preorder (fun _ hInner => hInner) hMiddle).of_mem_preorder
    hMem

------------------------------------------------------------
-- Placed Nodes
------------------------------------------------------------

/-
  A node that stands on the lines of a text, around its
  children. The nodes of each of its lists follow each other.
-/
structure WellPlaced (lines : Nat) (node : Node) : Prop where
  real : node.span.isSynthetic = false
  proper : node.span.first ≤ node.span.last
  starts : node.span.startLine ≤ lines
  ends : node.span.endLine ≤ lines
  covers : ∀ child ∈ node.children, node.span.Covers child.span
  ordered :
    ∀ slot ∈ node.slots, ∀ nodes, slot.2 = .nodes nodes →
      nodes.Pairwise fun node next => node.span.Precedes next.span

/- A node covers what its children cover. -/
theorem covers_of_mem_preorder
    {lines : Nat}
    {node other : Node}
    (hNode : node.Everywhere (WellPlaced lines))
    (hMem : other ∈ node.preorder) :
    node.span.Covers other.span := by
  unfold preorder at hMem
  generalize node.size = depth at hMem
  induction depth generalizing node with
  | zero => cases hMem
  | succ depth ih =>
      rcases mem_preorderTo_succ.mp hMem with rfl | ⟨child, hChild, hBelow⟩
      · exact .refl _
      · exact (hNode.atNode.covers child hChild).trans
          (ih (hNode.atChild hChild) hBelow)

end Node

end SnippetGrader
