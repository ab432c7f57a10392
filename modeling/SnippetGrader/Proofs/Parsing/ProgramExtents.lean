import SnippetGrader.Parsing.Program
import SnippetGrader.Proofs.Parsing.Programs
import SnippetGrader.Proofs.Parsing.StatementExtents

/-
  Programs that are read are in place.

  Key theorems include:
    * `OrderedTokens.Row.enclosed`
    * `takes_program`
    * `wellPlaced_of_parseSource`
-/

namespace SnippetGrader

open SnippetGrader.Parser

variable {text : OrderedTokens}

------------------------------------------------------------
-- Ends of Rows
------------------------------------------------------------

namespace OrderedTokens

variable {low high : Nat}

theorem lines_pos
    (text : OrderedTokens) :
    1 ≤ text.lines := by
  obtain ⟨last, hLast, _⟩ := text.ends
  have hPlaced := text.placed last (Array.mem_of_back? hLast)
  exact hPlaced.line.trans
    ((Prod.Lex.monotone_fst _ _ hPlaced.proper).trans hPlaced.lines)

theorem Between.wellPlaced
    {node : Node}
    (hNode : text.Between low high node) :
    node.Everywhere (Node.WellPlaced text.lines) := by
  obtain ⟨_, _, _, _, hFills⟩ := hNode
  exact hFills.placed

/- The nodes of a row stand between the first one and the last one. -/
theorem Row.enclosed
    {nodes : List Node}
    (hRow : text.Row low high nodes)
    {first last node : Node}
    (hFirst : nodes.head? = some first)
    (hLast : nodes.getLast? = some last)
    (hNode : node ∈ nodes) :
    first.span.first ≤ node.span.first ∧
      node.span.last ≤ last.span.last := by
  refine ⟨?_, ?_⟩
  · obtain ⟨rest, rfl⟩ := List.head?_eq_some_iff.mp hFirst
    rcases List.mem_cons.mp hNode with rfl | hLater
    · exact le_rfl
    · exact ((List.pairwise_cons.mp hRow.ordered).1 node hLater).first.le
  · obtain ⟨before, rfl⟩ := List.getLast?_eq_some_iff.mp hLast
    rcases List.mem_append.mp hNode with hEarlier | hHere
    · have hProper :=
        (hRow.between last (by simp)).wellPlaced.atNode.proper
      exact ((List.pairwise_append.mp hRow.ordered).2.2 node hEarlier last
        (List.mem_singleton_self last)).last.trans hProper
    · rw [List.mem_singleton.mp hHere]

end OrderedTokens

------------------------------------------------------------
-- Programs
------------------------------------------------------------

/- A program without statements is in place wherever it stands. -/
theorem wellPlaced_empty
    {lines : Nat}
    {span : Span}
    (hReal : span.isSynthetic = false)
    (hProper : span.first ≤ span.last)
    (hLines : span.endLine ≤ lines) :
    (Node.program ⟨[], span⟩).Everywhere (Node.WellPlaced lines) := by
  refine
    .of_leaf ⟨hReal, hProper, ?_, hLines, List.forall_mem_nil _, ?_⟩ rfl
  · exact (Prod.Lex.monotone_fst _ _ hProper).trans hLines
  · intro slot hSlot nodes hNodes
    rw [List.mem_singleton.mp hSlot] at hNodes
    cases hNodes
    exact .nil

/- Statements in a row are in place in a program around them. -/
theorem wellPlaced_program
    {low high : Nat}
    {body : List Stmt}
    (hBody : text.Row low high (body.map .stmt))
    {first last : Stmt}
    (hFirst : body.head? = some first)
    (hLast : body.getLast? = some last) :
    (Node.program ⟨body, first.span.merge last.span⟩).Everywhere
      (Node.WellPlaced text.lines) := by
  have hHead : (body.map Node.stmt).head? = some (.stmt first) := by
    rw [List.head?_map, hFirst]
    rfl
  have hTail : (body.map Node.stmt).getLast? = some (.stmt last) := by
    rw [List.getLast?_map, hLast]
    rfl
  have hEnclosed {node : Node} (hNode : node ∈ body.map Node.stmt) :=
    hBody.enclosed hHead hTail hNode
  have hPlaced {node : Node} (hNode : node ∈ body.map Node.stmt) :=
    (hBody.between node hNode).wellPlaced
  have hFirstMem := List.mem_of_head? hHead
  have hLastMem := List.mem_of_getLast? hTail
  have hFirstHere := (hPlaced hFirstMem).atNode
  have hLastHere := (hPlaced hLastMem).atNode
  have hMerge :
      first.span.merge last.span =
        ⟨first.span.startLine, first.span.startCol,
          last.span.endLine, last.span.endCol⟩ :=
    Span.merge_eq hFirstHere.real hLastHere.real
      (hEnclosed hLastMem).1 (hEnclosed hFirstMem).2
  rw [hMerge]
  have hChildren {child : Node} {span : Span}
      (hChild : child ∈ (Node.program ⟨body, span⟩).children) :
      child ∈ body.map Node.stmt := by
    simpa [Node.children, Node.slots] using hChild
  refine ⟨⟨hFirstHere.real, ?_, hFirstHere.starts, hLastHere.ends,
    ?_, ?_⟩, ?_⟩
  · exact (hEnclosed hLastMem).1.trans hLastHere.proper
  · intro child hChild
    exact ⟨(hEnclosed (hChildren hChild)).1,
      (hEnclosed (hChildren hChild)).2⟩
  · intro slot hSlot nodes hNodes
    rw [List.mem_singleton.mp hSlot] at hNodes
    cases hNodes
    exact hBody.ordered
  · exact fun child hChild => hPlaced (hChildren hChild)

theorem takes_program
    {start : Nat} :
    Takes text start program fun result _ =>
      (Node.program result).Everywhere (Node.WellPlaced text.lines) := by
  refine .inside fun hInside => takes_currentSpan.bind ?_
  rintro _ here _ ⟨rfl, rfl⟩
  refine (StmtGrammar.takes_statementsUntil StmtGrammar.placed_top _ rfl
    here).bind fun body index _ hBody => ?_
  split
  · rename_i first last hFirst hLast
    exact .pure (wellPlaced_program hBody hFirst hLast)
  · rename_i hNone
    rcases body with _ | ⟨stmt, rest⟩
    · have hPlaced := OrderedTokens.placed_token hInside
      exact .pure (wellPlaced_empty (OrderedTokens.real_token hInside)
        hPlaced.proper hPlaced.lines)
    · exact (hNone stmt _ rfl
        (List.getLast?_eq_some_getLast (List.cons_ne_nil stmt rest))).elim

/- What is read of the tokens of a text is in place. -/
theorem wellPlaced_parseTokens
    (file : SourceFile)
    (text : OrderedTokens) :
    (Node.program (parseTokens file text.tokens).program).Everywhere
      (Node.WellPlaced text.lines) := by
  have hStart :
      text.At 0 { file := file, tokens := text.tokens } := by
    refine ⟨rfl, rfl, Array.size_pos_iff.mpr fun hNone => ?_⟩
    obtain ⟨last, hLast, _⟩ := text.ends
    rw [hNone] at hLast
    cases hLast
  have hTook := takes_program _ hStart
  unfold parseTokens
  cases hRun : program { file := file, tokens := text.tokens } with
  | ok result after =>
      rw [hRun] at hTook
      obtain ⟨_, _, _, hPlaced⟩ := hTook
      exact hPlaced
  | error failure after =>
      exact wellPlaced_empty rfl le_rfl text.lines_pos

theorem everywhere_wellPlaced_of_parseSource
    {name text : String}
    {result : Program}
    (hRead : parseSource name text = .ok result) :
    (Node.program result).Everywhere
      (Node.WellPlaced (SourceFile.lineCount ⟨name, text⟩)) := by
  obtain ⟨_, rfl⟩ := (parseSource_eq_ok_iff ..).mp hRead
  exact wellPlaced_parseTokens ⟨name, text⟩ (.ofFile ⟨name, text⟩)

/-
  Every node of a program that was read stands on the lines of
  the text, around its children, and after the node before it in
  a list. The program stands around all of its nodes.
-/
theorem wellPlaced_of_parseSource
    {name text : String}
    {result : Program}
    (hRead : parseSource name text = .ok result) :
    ∀ node ∈ (Node.program result).preorder,
      node.WellPlaced (SourceFile.lineCount ⟨name, text⟩) ∧
        result.span.Covers node.span := by
  have hPlaced := everywhere_wellPlaced_of_parseSource hRead
  exact fun node hMem =>
    ⟨hPlaced.of_mem_preorder hMem, Node.covers_of_mem_preorder hPlaced hMem⟩

/- Blocks, brackets that are left out of an expression, and names. -/
theorem wellPlaced_of_parseSource_blocks :
    ∃ result,
      parseSource "walk.py"
          "import a.b as c\nfor x, *y in (f(z, k=1) + 2), [3]:\n  if not x < y:\n    x[1:] = -x\n  else: pass\nprint(x)" =
        .ok result ∧
        (Node.program result).preorder.length = 35 ∧
          ∀ node ∈ (Node.program result).preorder,
            node.WellPlaced 6 ∧ result.span.Covers node.span := by
  have hRead :
      (parseSource "walk.py"
          "import a.b as c\nfor x, *y in (f(z, k=1) + 2), [3]:\n  if not x < y:\n    x[1:] = -x\n  else: pass\nprint(x)").toOption.any
        (fun result => (Node.program result).preorder.length = 35) =
          true := by
    decide +kernel
  obtain ⟨result, hResult, hNodes⟩ :=
    (Option.any_eq_true _ _).mp hRead
  exact ⟨result, ok_of_toOption hResult, of_decide_eq_true hNodes,
    wellPlaced_of_parseSource (ok_of_toOption hResult)⟩

end SnippetGrader
