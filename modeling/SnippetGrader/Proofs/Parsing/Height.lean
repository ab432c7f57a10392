import SnippetGrader.Proofs.Parsing.RoundTrip

/-
  How high the trees are that are read.

  The levels that reading counts are those of its own nesting:
  operands that a loop collects to the left of an operator or a
  trailer stay on one level, however many there are. So there
  are accepted texts whose trees are of any height.

  Key definitions include:
    * `Node.HasChain`
    * `Expr.accessed`

  Key theorems include:
    * `Node.hasChain_erased_iff`
    * `exists_parseSource_hasChain`
    * `height_grows_with_text`
    * `height_not_bounded`
-/

namespace SnippetGrader

------------------------------------------------------------
-- Chains of Nodes
------------------------------------------------------------

namespace Node

/- A chain of nodes from a node downwards, each below the one before. -/
inductive HasChain : (length : Nat) → Node → Prop
  | single
      (node : Node) :
      HasChain 1 node
  | link
      {length : Nat}
      {node child : Node}
      (mem : child ∈ node.children)
      (chain : HasChain length child) :
      HasChain (length + 1) node

theorem HasChain.erased
    {length : Nat}
    {node : Node}
    (hChain : node.HasChain length) :
    node.erased.HasChain length := by
  induction hChain with
  | single node => exact .single _
  | link hMem _ ih =>
      refine .link ?_ ih
      rw [children_erased]
      exact List.mem_map_of_mem hMem

/- Chains do not depend on where the nodes stand in a text. -/
theorem hasChain_erased_iff
    {length : Nat}
    {node : Node} :
    node.erased.HasChain length ↔ node.HasChain length := by
  constructor
  · intro hChain
    generalize hNode : node.erased = other at hChain
    induction hChain generalizing node with
    | single _ => exact .single node
    | link hMem _ ih =>
        subst hNode
        rw [children_erased, List.mem_map] at hMem
        obtain ⟨child, hChild, hErased⟩ := hMem
        exact .link hChild (ih hErased)
  · exact HasChain.erased

end Node

------------------------------------------------------------
-- Trailers
------------------------------------------------------------

namespace Expr

/- The expression `x.a.a`, and so on, with a number of attributes. -/
def accessed : (count : Nat) → Expr
  | 0 => .synthetic (.name "x")
  | count + 1 => .synthetic (.attribute (accessed count) ⟨"a", .synthetic⟩)

theorem isPlain_accessed
    (count : Nat) :
    (accessed count).IsPlain := by
  cases count <;> exact ⟨rfl, rfl⟩

theorem legible_accessed
    (count : Nat) :
    (accessed count).Legible := by
  induction count with
  | zero =>
      refine .intro ?_ nofun
      change IsName "x"
      decide
  | succ count ih =>
      have hName : IsName "a" := by decide
      have hInt : (accessed count).isInt = false := by
        cases count <;> rfl
      refine .intro ⟨isPlain_accessed count, hInt, hName⟩ ?_
      intro operand hMem
      cases List.mem_singleton.mp hMem
      exact ih

/- Every attribute is read on the same level. -/
theorem nesting_accessed
    (count : Nat) :
    (accessed count).nesting = 1 := by
  have hFlat (strength : Nat) (hStrength : strength ≤ Strength.primary) :
      (accessed count).nestingAt strength = 0 := by
    induction count generalizing strength with
    | zero =>
        have hAtom : ¬ Strength.atom < strength :=
          Nat.not_lt.mpr (hStrength.trans (by decide))
        simp [accessed, synthetic, nestingAt, ExprForm.nesting,
          ExprForm.strength, hAtom]
    | succ count ih =>
        simp [accessed, synthetic, nestingAt, ExprForm.nesting,
          ExprForm.strength, Nat.not_lt.mpr hStrength, ih]
  rw [nesting, hFlat 0 (Nat.zero_le _)]

theorem hasChain_accessed
    (count : Nat) :
    (Node.expr (accessed count)).HasChain (count + 1) := by
  induction count with
  | zero => exact .single _
  | succ count ih => exact .link List.mem_cons_self ih

/- The text is two characters longer for each attribute. -/
theorem length_source_accessed
    (count : Nat) :
    (accessed count).source.length = 2 * count + 1 := by
  have hText (strength : Nat) (hStrength : strength ≤ Strength.primary) :
      ((accessed count).textAt strength).length = 2 * count + 1 := by
    induction count generalizing strength with
    | zero =>
        have hAtom : ¬ Strength.atom < strength :=
          Nat.not_lt.mpr (hStrength.trans (by decide))
        simp only [accessed, synthetic, textAt, ExprForm.text,
          ExprForm.strength, hAtom, ↓reduceIte]
        rfl
    | succ count ih =>
        have hDot : ".".length = 1 := rfl
        have hName : "a".length = 1 := rfl
        simp only [accessed, synthetic, textAt, ExprForm.text,
          ExprForm.strength, Nat.not_lt.mpr hStrength, ↓reduceIte,
          String.length_append, ih _ le_rfl]
        omega
  exact hText 0 (Nat.zero_le _)

/- Every node has one child, so there is no longer chain. -/
theorem length_le_of_hasChain_accessed
    {count length : Nat}
    (hChain : (Node.expr (accessed count)).HasChain length) :
    length ≤ count + 1 := by
  induction count generalizing length with
  | zero =>
      cases hChain with
      | single _ => exact le_rfl
      | link hMem _ => exact absurd hMem List.not_mem_nil
  | succ count ih =>
      cases hChain with
      | single _ => exact Nat.le_add_left 1 _
      | link hMem hChain =>
          cases List.mem_singleton.mp hMem
          exact Nat.succ_le_succ (ih hChain)

end Expr

/- Programs of any height are accepted, and no limit is reached. -/
theorem exists_parseSource_hasChain
    (name : String)
    (count : Nat) :
    ∃ result,
      parseSource name (Expr.accessed count).source = .ok result ∧
        ∀ length,
          (Node.program result).HasChain length ↔
            (Node.program (Expr.accessed count).asProgram).HasChain
              length := by
  have hNesting : (Expr.accessed count).nesting ≤ maxExprDepth := by
    rw [Expr.nesting_accessed]
    decide
  obtain ⟨result, hRead, hBody⟩ :=
    (Expr.legible_accessed count).parseSource_body
      (Expr.isPlain_accessed count) hNesting name
  refine ⟨result, hRead, fun length => ?_⟩
  have hErased :
      (Node.program result).erased =
        (Node.program (Expr.accessed count).asProgram).erased := by
    change Node.program ⟨_, _⟩ = Node.program ⟨_, _⟩
    rw [hBody]
    rfl
  rw [← Node.hasChain_erased_iff, hErased, Node.hasChain_erased_iff]

/- A program with one expression is two nodes higher than it. -/
theorem hasChain_asProgram
    (count : Nat) :
    let program := Node.program (Expr.accessed count).asProgram
    program.HasChain (count + 3) ∧
      ∀ length, program.HasChain length → length ≤ count + 3 := by
  refine
    ⟨.link List.mem_cons_self
      (.link List.mem_cons_self (Expr.hasChain_accessed count)), ?_⟩
  intro length hChain
  cases hChain with
  | single _ => exact Nat.le_add_left 1 _
  | link hMem hChain =>
      cases List.mem_singleton.mp hMem
      cases hChain with
      | single _ => exact Nat.le_add_left 2 _
      | link hMem hChain =>
          cases List.mem_singleton.mp hMem
          have hLength := Expr.length_le_of_hasChain_accessed hChain
          omega

/-
  The trees that are read grow with the text: one of odd length
  may be read as a tree whose longest chain of nodes is longer
  than half of it.
-/
theorem height_grows_with_text
    (name : String)
    (count : Nat) :
    ∃ text result,
      text.length = 2 * count + 1 ∧
        parseSource name text = .ok result ∧
          (Node.program result).HasChain (count + 3) ∧
            ∀ length, (Node.program result).HasChain length →
              length ≤ count + 3 := by
  obtain ⟨result, hRead, hChains⟩ := exists_parseSource_hasChain name count
  obtain ⟨hLongest, hLonger⟩ := hasChain_asProgram count
  exact
    ⟨_, result, Expr.length_source_accessed count, hRead,
      (hChains _).mpr hLongest,
      fun length hChain => hLonger length ((hChains length).mp hChain)⟩

/- No height bounds the trees of all accepted texts. -/
theorem height_not_bounded :
    ¬ ∃ height, ∀ name text result,
      parseSource name text = .ok result →
        ∀ length, (Node.program result).HasChain length →
          length ≤ height := by
  rintro ⟨height, hBounded⟩
  obtain ⟨result, hRead, hChains⟩ :=
    exists_parseSource_hasChain "chain.py" height
  have hLength :=
    hBounded _ _ result hRead _
      ((hChains _).mpr (hasChain_asProgram height).1)
  omega

end SnippetGrader
