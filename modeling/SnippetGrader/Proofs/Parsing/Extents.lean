import SnippetGrader.Proofs.Token.Order
import SnippetGrader.Proofs.Tree.Placement

/-
  Nodes that span tokens.

  A node spans the tokens from its first one, which is no mark of
  a line or a block, to its last one. Where a node spans some of
  the tokens of another one, it is covered by it, and where it
  spans only later tokens, it follows it.

  Key definitions include:
    * `OrderedTokens.stretch`
    * `OrderedTokens.Spans`, `OrderedTokens.Fills`
    * `OrderedTokens.Between`, `OrderedTokens.Row`

  Key theorems include:
    * `OrderedTokens.merge_stretch`
    * `OrderedTokens.fills_of_slots`
-/

namespace SnippetGrader

namespace OrderedTokens

variable {text : OrderedTokens}
variable {i j k l low middle high : Nat}

------------------------------------------------------------
-- Numbered Tokens
------------------------------------------------------------

/- The number of tokens. -/
def size (text : OrderedTokens) : Nat :=
  text.tokens.size

/- The token with a given number. -/
def token (text : OrderedTokens) (number : Nat) : Token :=
  text.tokens[number]?.getD ⟨.endOfFile, .point 1 1⟩

theorem token_eq
    (hIndex : i < text.tokens.size) :
    text.token i = text.tokens[i] := by
  rw [token, Array.getElem?_eq_getElem hIndex]
  rfl

theorem placed_token
    (hIndex : i < text.size) :
    (text.token i).Placed text.lines := by
  rw [token_eq hIndex]
  exact text.placed _ (Array.getElem_mem _)

theorem before_token
    (hOrder : i < j)
    (hIndex : j < text.size) :
    (text.token i).Before (text.token j) := by
  rw [token_eq hIndex, token_eq (hOrder.trans hIndex)]
  exact List.pairwise_iff_getElem.mp text.ordered i j
    (hOrder.trans hIndex) hIndex hOrder

theorem first_le_first
    (hOrder : i ≤ j)
    (hIndex : j < text.size) :
    (text.token i).span.first ≤ (text.token j).span.first := by
  rcases hOrder.eq_or_lt with rfl | hLess
  · exact le_rfl
  · exact (placed_token (hLess.trans hIndex)).proper.trans
      (before_token hLess hIndex).ends

theorem last_le_last
    (hOrder : i ≤ j)
    (hIndex : j < text.size) :
    (text.token i).span.last ≤ (text.token j).span.last := by
  rcases hOrder.eq_or_lt with rfl | hLess
  · exact le_rfl
  · exact (before_token hLess hIndex).ends.trans
      (placed_token hIndex).proper

------------------------------------------------------------
-- Spans of Tokens
------------------------------------------------------------

/- The span from the start of a token to the end of another one. -/
def stretch (text : OrderedTokens) (first last : Nat) : Span :=
  ⟨(text.token first).span.startLine, (text.token first).span.startCol,
    (text.token last).span.endLine, (text.token last).span.endCol⟩

/- A span that starts with a token that is no mark of a line or a block. -/
structure Spans
    (text : OrderedTokens)
    (first last : Nat)
    (span : Span) : Prop where
  order : first ≤ last
  inside : last < text.size
  solid : (text.token first).kind.isLayout = false
  stretch : span = text.stretch first last

theorem real_token
    (hIndex : i < text.size) :
    (text.token i).span.isSynthetic = false :=
  beq_eq_false_iff_ne.mpr
    (Nat.one_le_iff_ne_zero.mp (placed_token hIndex).line)

/- The smallest span around two stretches, the second of which ends later. -/
theorem merge_stretch
    (hStarts : i ≤ k)
    (hSecond : k ≤ l)
    (hEnds : j ≤ l)
    (hIndex : l < text.size) :
    (text.stretch i j).merge (text.stretch k l) = text.stretch i l :=
  Span.merge_eq (real_token (by omega)) (real_token (by omega))
    (first_le_first hStarts (by omega)) (last_le_last hEnds hIndex)

namespace Spans

variable {span other : Span}

theorem single
    (hIndex : i < text.size)
    (hSolid : (text.token i).kind.isLayout = false) :
    text.Spans i i (text.token i).span :=
  ⟨le_rfl, hIndex, hSolid, rfl⟩

theorem merge
    (hFirst : text.Spans i j span)
    (hSecond : text.Spans k l other)
    (hStarts : i ≤ k)
    (hEnds : j ≤ l) :
    text.Spans i l (span.merge other) := by
  refine ⟨hFirst.order.trans hEnds, hSecond.inside, hFirst.solid, ?_⟩
  rw [hFirst.stretch, hSecond.stretch]
  exact merge_stretch hStarts hSecond.order hEnds hSecond.inside

/- The last token of a node may be any one. -/
theorem mergeToken
    (hFirst : text.Spans i j span)
    (hEnds : j ≤ l)
    (hIndex : l < text.size) :
    text.Spans i l (span.merge (text.token l).span) := by
  refine ⟨hFirst.order.trans hEnds, hIndex, hFirst.solid, ?_⟩
  rw [hFirst.stretch]
  exact merge_stretch (hFirst.order.trans hEnds) le_rfl hEnds hIndex

theorem covers
    (hOuter : text.Spans i j span)
    (hInner : text.Spans k l other)
    (hStarts : i ≤ k)
    (hEnds : l ≤ j) :
    span.Covers other := by
  rw [hOuter.stretch, hInner.stretch]
  exact ⟨first_le_first hStarts (hInner.order.trans_lt hInner.inside),
    last_le_last hEnds hOuter.inside⟩

theorem precedes
    (hFirst : text.Spans i j span)
    (hSecond : text.Spans k l other)
    (hOrder : j < k) :
    span.Precedes other := by
  have hIndex : k < text.size := hSecond.order.trans_lt hSecond.inside
  rw [hFirst.stretch, hSecond.stretch]
  exact ⟨(before_token (hFirst.order.trans_lt hOrder) hIndex).starts
      hFirst.solid,
    (before_token hOrder hIndex).ends⟩

theorem real
    (hSpan : text.Spans i j span) :
    span.isSynthetic = false := by
  rw [hSpan.stretch]
  exact real_token (hSpan.order.trans_lt hSpan.inside)

theorem proper
    (hSpan : text.Spans i j span) :
    span.first ≤ span.last := by
  rw [hSpan.stretch]
  exact (placed_token (hSpan.order.trans_lt hSpan.inside)).proper.trans
    (last_le_last hSpan.order hSpan.inside)

theorem endLine_le
    (hSpan : text.Spans i j span) :
    span.endLine ≤ text.lines := by
  rw [hSpan.stretch]
  exact (placed_token hSpan.inside).lines

end Spans

------------------------------------------------------------
-- Nodes
------------------------------------------------------------

/- A node that spans tokens, with all nodes below it in place. -/
structure Fills
    (text : OrderedTokens)
    (first last : Nat)
    (node : Node) : Prop where
  spans : text.Spans first last node.span
  placed : node.Everywhere (Node.WellPlaced text.lines)

/- A node that spans some of the tokens from one number up to another. -/
def Between (text : OrderedTokens) (low high : Nat) (node : Node) : Prop :=
  ∃ first last,
    low ≤ first ∧ last < high ∧ text.Fills first last node

/- Nodes that span tokens one after the other. -/
structure Row
    (text : OrderedTokens)
    (low high : Nat)
    (nodes : List Node) : Prop where
  between : ∀ node ∈ nodes, text.Between low high node
  ordered : nodes.Pairwise fun node next => node.span.Precedes next.span

/- What a slot holds spans tokens from one number up to another. -/
def Holds (text : OrderedTokens) (low high : Nat) : Slot → Prop
  | .node node => text.Between low high node
  | .optional node => ∀ inner ∈ node, text.Between low high inner
  | .nodes nodes => text.Row low high nodes
  | .leaf _ | .leaves _ => True

theorem holds_none : text.Holds low high (.optional none) :=
  fun _ hMem => (Option.not_mem_none _ hMem).elim

theorem Fills.between
    {node : Node}
    (hNode : text.Fills i j node) :
    text.Between i (j + 1) node :=
  ⟨i, j, le_rfl, Nat.lt_succ_self j, hNode⟩

theorem Between.mono
    {node : Node}
    (hNode : text.Between i j node)
    (hLow : low ≤ i)
    (hHigh : j ≤ high) :
    text.Between low high node := by
  obtain ⟨first, last, hFirst, hLast, hFills⟩ := hNode
  exact ⟨first, last, hLow.trans hFirst, hLast.trans_le hHigh, hFills⟩

theorem Between.precedes
    {node next : Node}
    (hNode : text.Between low middle node)
    (hNext : text.Between middle high next) :
    node.span.Precedes next.span := by
  obtain ⟨_, last, _, hLast, hFills⟩ := hNode
  obtain ⟨first, _, hFirst, _, hNextFills⟩ := hNext
  exact hFills.spans.precedes hNextFills.spans (hLast.trans_le hFirst)

namespace Row

theorem nil : text.Row low high [] :=
  ⟨List.forall_mem_nil _, .nil⟩

theorem single
    {node : Node}
    (hNode : text.Between low high node) :
    text.Row low high [node] :=
  ⟨List.forall_mem_singleton.mpr hNode, List.pairwise_singleton _ _⟩

theorem mono
    {nodes : List Node}
    (hRow : text.Row i j nodes)
    (hLow : low ≤ i)
    (hHigh : j ≤ high) :
    text.Row low high nodes :=
  ⟨fun node hMem => (hRow.between node hMem).mono hLow hHigh,
    hRow.ordered⟩

theorem append
    {nodes more : List Node}
    (hNodes : text.Row low middle nodes)
    (hMore : text.Row middle high more)
    (hLow : low ≤ middle)
    (hHigh : middle ≤ high) :
    text.Row low high (nodes ++ more) := by
  refine ⟨?_, ?_⟩
  · exact List.forall_mem_append.mpr
      ⟨(hNodes.mono le_rfl hHigh).between, (hMore.mono hLow le_rfl).between⟩
  · refine List.pairwise_append.mpr
      ⟨hNodes.ordered, hMore.ordered, fun node hNode next hNext => ?_⟩
    exact (hNodes.between node hNode).precedes
      (hMore.between next hNext)

end Row

theorem Holds.mono
    {slot : Slot}
    (hSlot : text.Holds i j slot)
    (hLow : low ≤ i)
    (hHigh : j ≤ high) :
    text.Holds low high slot := by
  cases slot with
  | node inner => exact Between.mono hSlot hLow hHigh
  | optional inner =>
      exact fun child hMem => (hSlot child hMem).mono hLow hHigh
  | nodes inner => exact Row.mono hSlot hLow hHigh
  | leaf inner => trivial
  | leaves inner => trivial

theorem Holds.between
    {slot : Slot}
    (hSlot : text.Holds low high slot) :
    ∀ child ∈ Node.slotChildren slot, text.Between low high child := by
  cases slot with
  | node inner => exact List.forall_mem_singleton.mpr hSlot
  | optional inner =>
      intro child hMem
      exact hSlot child (Option.mem_toList.mp hMem)
  | nodes inner => exact Row.between hSlot
  | leaf inner => exact List.forall_mem_nil _
  | leaves inner => exact List.forall_mem_nil _

/- All slots hold what spans tokens from one number up to another. -/
def HoldsAll
    (text : OrderedTokens)
    (low high : Nat)
    (slots : List (String × Slot)) : Prop :=
  ∀ slot ∈ slots, text.Holds low high slot.2

namespace HoldsAll

theorem nil : text.HoldsAll low high [] :=
  List.forall_mem_nil _

theorem cons
    {name : String}
    {slot : Slot}
    {slots : List (String × Slot)}
    (hSlot : text.Holds low high slot)
    (hSlots : text.HoldsAll low high slots) :
    text.HoldsAll low high ((name, slot) :: slots) :=
  List.forall_mem_cons.mpr ⟨hSlot, hSlots⟩

theorem mono
    {slots : List (String × Slot)}
    (hSlots : text.HoldsAll i j slots)
    (hLow : low ≤ i)
    (hHigh : j ≤ high) :
    text.HoldsAll low high slots :=
  fun slot hMem => (hSlots slot hMem).mono hLow hHigh

end HoldsAll

/- A node is in place if what its slots hold is. -/
theorem fills_of_slots
    {node : Node}
    (hSpan : text.Spans i j node.span)
    (hSlots : text.HoldsAll i (j + 1) node.slots) :
    text.Fills i j node := by
  have hBetween :
      ∀ child ∈ node.children, text.Between i (j + 1) child := by
    intro child hChild
    obtain ⟨slot, hSlot, hMem⟩ := List.mem_flatMap.mp hChild
    exact (hSlots slot hSlot).between child hMem
  refine ⟨hSpan, ⟨⟨hSpan.real, hSpan.proper, ?_, hSpan.endLine_le, ?_, ?_⟩, ?_⟩⟩
  · exact (Prod.Lex.monotone_fst _ _ hSpan.proper).trans hSpan.endLine_le
  · intro child hChild
    obtain ⟨first, last, hFirst, hLast, hFills⟩ := hBetween child hChild
    exact hSpan.covers hFills.spans hFirst (Nat.lt_succ_iff.mp hLast)
  · intro slot hSlot nodes hNodes
    have hRow := hSlots slot hSlot
    rw [hNodes] at hRow
    exact hRow.ordered
  · intro child hChild
    obtain ⟨_, _, _, _, hFills⟩ := hBetween child hChild
    exact hFills.placed

/- A node that is in place between two numbers. -/
theorem between_of_slots
    {node : Node}
    (hSpan : text.Spans i j node.span)
    (hLow : low ≤ i)
    (hHigh : j < high)
    (hSlots : text.HoldsAll i (j + 1) node.slots) :
    text.Between low high node :=
  ⟨i, j, hLow, hHigh, fills_of_slots hSpan hSlots⟩

------------------------------------------------------------
-- Ways to Span Tokens
------------------------------------------------------------

section Ways

variable {node first last : Node}

/- A node from the start of a first one to the end of a last one. -/
theorem between_merge
    (hSpan : node.span = first.span.merge last.span)
    (hFirst : text.Fills i j first)
    (hLast : text.Fills k l last)
    (hLow : low ≤ i)
    (hOrder : j < k)
    (hHigh : l < high)
    (hSlots : text.HoldsAll i (l + 1) node.slots) :
    text.Between low high node := by
  have hFirstOrder := hFirst.spans.order
  have hLastOrder := hLast.spans.order
  refine between_of_slots ?_ hLow hHigh hSlots
  rw [hSpan]
  exact hFirst.spans.merge hLast.spans (by omega) (by omega)

/- A node from the start of a first one to the token before a number. -/
theorem between_mergeToken
    (hSpan : node.span = first.span.merge (text.token (high - 1)).span)
    (hFirst : text.Fills i j first)
    (hLow : low ≤ i)
    (hOrder : j < high)
    (hIndex : high - 1 < text.size)
    (hSlots : text.HoldsAll i high node.slots) :
    text.Between low high node := by
  refine between_of_slots (j := high - 1) ?_ hLow (by omega) ?_
  · rw [hSpan]
    exact hFirst.spans.mergeToken (by omega) hIndex
  · rw [Nat.sub_add_cancel (by omega)]
    exact hSlots

/- A node from its first token to the end of a last one. -/
theorem between_opened
    (hSpan : node.span = (text.token low).span.merge last.span)
    (hSolid : (text.token low).kind.isLayout = false)
    (hLast : text.Fills k l last)
    (hOrder : low < k)
    (hHigh : l < high)
    (hSlots : text.HoldsAll low (l + 1) node.slots) :
    text.Between low high node := by
  have hLastOrder := hLast.spans.order
  have hInside := hLast.spans.inside
  refine between_of_slots ?_ le_rfl hHigh hSlots
  rw [hSpan]
  exact (Spans.single (by omega) hSolid).merge hLast.spans (by omega)
    (by omega)

/- A node from its first token to the one before a number. -/
theorem between_enclosed
    (hSpan :
      node.span =
        (text.token low).span.merge (text.token (high - 1)).span)
    (hSolid : (text.token low).kind.isLayout = false)
    (hOrder : low < high)
    (hIndex : high - 1 < text.size)
    (hSlots : text.HoldsAll low high node.slots) :
    text.Between low high node := by
  refine between_of_slots (j := high - 1) ?_ le_rfl (by omega) ?_
  · rw [hSpan]
    exact (Spans.single (by omega) hSolid).mergeToken (by omega) hIndex
  · rw [Nat.sub_add_cancel (by omega)]
    exact hSlots

end Ways

end OrderedTokens

end SnippetGrader
