import SnippetGrader.Proofs.Comparison.Trail
import SnippetGrader.Proofs.Parsing.ProgramExtents

/-
  The lines of differences.

  A difference is reported on a line that a node of its snippet
  starts on. If it is found in a call, it is on one of the lines
  of the call, and so never where a default of its callee is
  declared.

  Key definitions include:
    * `Program.HasLine`, `Program.HasCall`

  Key theorems include:
    * `Program.encloses`
    * `Comparison.trailed_programs`
    * `compare_anchored`
-/

namespace SnippetGrader

open SnippetGrader.Comparison

------------------------------------------------------------
-- Lines of Programs
------------------------------------------------------------

namespace Program

/-
  Whether a line is the first line of some node. Only a program
  without statements has no such line.
-/
def HasLine (program : Program) : Option Nat → Prop
  | none => program.body = []
  | some line =>
      ∃ node ∈ (Node.program program).preorder, node.span.startLine = line

/- Whether a node is a call in a program. -/
structure HasCall (program : Program) (node : Node) : Prop where
  mem : node ∈ (Node.program program).preorder
  isCall : (callParts? node).isSome

end Program

theorem Node.startLine_of_line?
    {node : Node}
    {line : Nat}
    (hLine : node.line? = some line) :
    node.span.startLine = line := by
  unfold line? at hLine
  split at hLine
  · cases hLine
  · split at hLine
    · cases hLine
    · exact Option.some.inj hLine

section Programs

variable {program : Program}
variable {number : Nat}

/- Every node of a program is anchored in it. -/
theorem Program.anchored
    (program : Program) :
    (Node.program program).Everywhere
      (Node.Anchored program.HasLine program.HasCall) := by
  refine Node.everywhere_of_preorder (fun node hMem => ?_)
    (Node.mem_preorder_self _)
  refine ⟨fun line hLine => ?_, fun parts hParts => ?_⟩
  · exact ⟨node, hMem, Node.startLine_of_line? hLine⟩
  · exact ⟨hMem, Option.isSome_of_eq_some hParts⟩

theorem Node.children_program
    (program : Program) :
    (Node.program program).children = program.body.map .stmt := by
  simp [children, slots, stmtsSlot, slotChildren]

theorem Program.anchored_body
    (program : Program) :
    ∀ node ∈ program.body.map Node.stmt,
      node.Everywhere
        (Node.Anchored program.HasLine program.HasCall) := by
  rw [← Node.children_program]
  exact fun _ hChild => program.anchored.atChild hChild

/- A call that is in place stands around all that is in it. -/
theorem Program.encloses
    (hProgram :
      (Node.program program).Everywhere (Node.WellPlaced number))
    {call : Node}
    (hCall : program.HasCall call) :
    call.Encloses program.HasCall := by
  have hPlaced : call.Everywhere (Node.WellPlaced number) :=
    Node.everywhere_of_preorder
      (fun _ hMem => hProgram.of_mem_preorder hMem) hCall.mem
  refine ⟨?_, Node.everywhere_of_preorder (fun node hNode => ?_)
    (Node.mem_preorder_self call)⟩
  · obtain ⟨parts, hParts⟩ := Option.isSome_iff_exists.mp hCall.isCall
    obtain ⟨span, rfl⟩ := node_of_callParts hParts
    simp [Node.line?, hPlaced.atNode.real]
  · have hMem := Node.mem_preorder_trans hCall.mem hNode
    have hCovers := Node.covers_of_mem_preorder hPlaced hNode
    have hProper := (hProgram.of_mem_preorder hMem).proper
    refine ⟨fun line hLine => ?_, fun parts hParts => ?_⟩
    · obtain rfl := Node.startLine_of_line? hLine
      exact ⟨Prod.Lex.monotone_fst _ _ hCovers.first,
        Prod.Lex.monotone_fst _ _ (hProper.trans hCovers.last)⟩
    · exact ⟨hMem, Option.isSome_of_eq_some hParts⟩

/- The first statement, if there is one, anchors all that comes later. -/
theorem Program.hasLine_head
    (hProgram :
      (Node.program program).Everywhere (Node.WellPlaced number)) :
    program.HasLine
      (Place.lineOf (program.body.map Node.stmt).head? none) := by
  obtain ⟨body, span⟩ := program
  cases body with
  | nil => rfl
  | cons stmt rest =>
      have hChild :
          Node.stmt stmt ∈ (Node.program ⟨stmt :: rest, span⟩).children := by
        simp [Node.children_program]
      have hReal := (hProgram.atChild hChild).atNode.real
      have hLine : (Node.stmt stmt).line? = some stmt.span.startLine := by
        rw [Node.line?, hReal]
        · rfl
        · exact nofun
      change HasLine _ ((Node.stmt stmt).line?.or none)
      rw [hLine]
      exact ⟨.stmt stmt,
        Node.mem_preorder_of_child (Node.mem_preorder_self _) hChild, rfl⟩

end Programs

------------------------------------------------------------
-- Comparisons of Programs
------------------------------------------------------------

namespace Comparison

variable {σ τ : Type}

theorem eq_of_mem_head?_pairUp
    {α : Type}
    {lefts rights : List α}
    {pair : Option α × Option α}
    (hPair : pair ∈ (pairUp lefts rights).head?) :
    pair = (lefts.head?, rights.head?) := by
  cases lefts <;> cases rights <;>
    simp_all [pairUp]

/-
  Programs themselves stand on no line. The comparison starts at
  no line, too, but it enters a pair of statements before it can
  end.
-/
theorem trailed_programs
    (resolvers : Resolvers σ τ)
    {submission solution : Program}
    {number other : Nat}
    (hSubmission :
      (Node.program submission).Everywhere (Node.WellPlaced number))
    (hSolution :
      (Node.program solution).Everywhere (Node.WellPlaced other))
    (depth : Nat) :
    Trailed submission.HasLine solution.HasLine submission.HasCall
      (toDepth resolvers (depth + 1) (some (.program submission))
        (some (.program solution)) {})
      (trailToDepth resolvers (depth + 1) (some (.program submission))
        (some (.program solution)) {}) := by
  refine trailed_leaving ?_ (List.forall_mem_nil _)
  have hInner :
      TrailedOn submission.HasLine solution.HasLine submission.HasCall
        solution.HasCall (toDepth resolvers depth)
        (trailToDepth resolvers depth) :=
    trailed_toDepth resolvers (fun _ => Program.encloses hSubmission) depth
  -- Both are programs, and their only slot has the same name.
  let bodies :=
    pairUp (submission.body.map Node.stmt) (solution.body.map Node.stmt)
  change
    Trailed _ _ _
      (do
        items (toDepth resolvers depth) bodies {}
        return ())
      (do
        items (trailToDepth resolvers depth) bodies {}
        return ())
  refine Trailed.andThen ?_ trailed_return
  refine trailed_items hInner
    (fun _ => anchoredSide_of_mem_pairUp submission.anchored_body
      solution.anchored_body) fun pair hPair => ?_
  rw [eq_of_mem_head?_pairUp hPair]
  exact ⟨Program.hasLine_head hSubmission, Program.hasLine_head hSolution⟩

end Comparison

/-
  A difference between two programs that were read is on the first
  line of a node of the submission, and of a node of the solution.
  On either side it has no line only if there are no statements.
  In every call of the submission that the difference is found in,
  it is on one of the lines of the call, wherever the defaults of
  its callee are declared.
-/
theorem compare_anchored
    {σ τ : Type}
    (resolvers : Resolvers σ τ)
    {name text solutionName solutionText : String}
    {submission solution : Program}
    (hSubmission : parseSource name text = .ok submission)
    (hSolution : parseSource solutionName solutionText = .ok solution)
    (states : σ × τ) :
    let compared := Comparison.run resolvers submission solution states
    let trailed :=
      Comparison.runOnTrail resolvers submission solution states
    trailed.1 = compared.1 ∧
      ∀ difference,
        compared.1 = .ok (some difference) →
          difference.Anchored submission.HasLine solution.HasLine
            submission.HasCall trailed.2 := by
  have hEnds :=
    Comparison.trailed_programs resolvers
      (everywhere_wellPlaced_of_parseSource hSubmission)
      (everywhere_wellPlaced_of_parseSource hSolution)
      submission.size states.1 states.2
  unfold Comparison.run Comparison.runOnTrail
  dsimp only
  generalize toDepth resolvers _ _ _ _ _ = result at hEnds ⊢
  generalize trailToDepth resolvers _ _ _ _ _ = trailing at hEnds ⊢
  cases hEnds with
  | finished after rest => exact ⟨rfl, by simp⟩
  | failed error trail after rest => exact ⟨rfl, by simp⟩
  | stopped hAnchored after rest =>
      refine ⟨rfl, ?_⟩
      rintro _ ⟨⟩
      exact hAnchored

/- A default that is declared far below stands against a value. -/
theorem compare_anchored_default :
    let resolver :=
      Resolver.ofTable
        [("f", .ok
          ⟨[⟨"x", .positionalOrKeyword, none⟩,
            ⟨"y", .positionalOrKeyword,
              some (.mk ⟨90, 1, 90, 2⟩ (.int 0))⟩]⟩)]
    ∃ submission solution difference,
      parseSource "submission.py" "a = 1\nprint(a,\n  f(2\n  ))" =
          .ok submission ∧
        parseSource "solution.py" "a = 1\n\nprint(a, f(\n  y=3, x=2))" =
            .ok solution ∧
          (Comparison.run ⟨resolver, resolver⟩ submission solution
              ((), ())).1 = .ok (some difference) ∧
            difference.line = some 3 ∧
              difference.solutionLine = some 4 ∧
                let trail :=
                  (Comparison.runOnTrail ⟨resolver, resolver⟩ submission
                    solution ((), ())).2
                trail.map (·.span) = [⟨2, 1, 4, 4⟩, ⟨3, 3, 4, 3⟩] ∧
                  difference.Anchored submission.HasLine
                    solution.HasLine submission.HasCall trail := by
  intro resolver
  have hRun :
      (parseSource "submission.py"
          "a = 1\nprint(a,\n  f(2\n  ))").toOption.any
          (fun submission =>
            (parseSource "solution.py"
                "a = 1\n\nprint(a, f(\n  y=3, x=2))").toOption.any
              fun solution =>
                (Comparison.run ⟨resolver, resolver⟩ submission
                  solution ((), ())).1.toOption.any fun found =>
                    found.any fun difference =>
                      difference.line = some 3 &&
                        difference.solutionLine = some 4 &&
                        (Comparison.runOnTrail ⟨resolver, resolver⟩
                          submission solution ((), ())).2.map (·.span) =
                            [⟨2, 1, 4, 4⟩, ⟨3, 3, 4, 3⟩]) =
        true := by
    decide +kernel
  simp only [Option.any_eq_true, Bool.and_eq_true,
    decide_eq_true_eq] at hRun
  obtain ⟨submission, hSubmission, solution, hSolution, _, hFound,
    difference, rfl, ⟨hLine, hSolutionLine⟩, hTrail⟩ := hRun
  have hCompared := ok_of_toOption hFound
  exact ⟨submission, solution, difference, ok_of_toOption hSubmission,
    ok_of_toOption hSolution, hCompared, hLine, hSolutionLine, hTrail,
    (compare_anchored ⟨resolver, resolver⟩
      (ok_of_toOption hSubmission) (ok_of_toOption hSolution)
      ((), ())).2 difference hCompared⟩

end SnippetGrader
