import SnippetGrader.Proofs.Comparison.Steps
import SnippetGrader.Proofs.Number.Parts
import SnippetGrader.Proofs.Parsing.Programs
import SnippetGrader.Proofs.Tree.Erasure

/-
  Comparing without resolving.

  If no callee is found on either side, then calls are compared
  like all other nodes, and a comparison decides whether two
  programs are the same but for their positions. It cannot fail:
  every step either agrees or shows a difference.

  Key definitions include:
    * `Resolver.FindsNothing`
    * `Comparison.Decides`

  Key theorems include:
    * `Comparison.decides_toDepth`
    * `unresolved_comparison_decides_equality`
-/

namespace SnippetGrader

/- A resolver that finds no callee, whatever its state is. -/
def Resolver.FindsNothing
    {σ : Type}
    (resolver : Resolver σ) :
    Prop :=
  ∀ callee state, ∃ text after,
    resolver callee state = (.error (.notResolvable text), after)

------------------------------------------------------------
-- Leaves
------------------------------------------------------------

namespace Leaf

/- A leaf that is read from a text: no float has a sign. -/
def IsUnsigned : Leaf → Prop
  | .float value => Number.Unsigned value
  | _ => True

theorem beq_iff_eq
    {left right : Leaf}
    (hLeft : left.IsUnsigned)
    (hRight : right.IsUnsigned) :
    (left == right) = true ↔ left = right := by
  cases left <;> cases right
  case float.float left right =>
      constructor
      · intro hEqual
        rw [Number.eq_of_beq hLeft hRight hEqual]
      · intro hSame
        cases hSame
        exact Number.beq_self hLeft.1
  all_goals simp [BEq.beq, Leaf.beq]

theorem list_beq_iff_eq
    {left right : List Leaf}
    (hLeft : ∀ leaf ∈ left, leaf.IsUnsigned)
    (hRight : ∀ leaf ∈ right, leaf.IsUnsigned) :
    (left == right) = true ↔ left = right := by
  induction left generalizing right with
  | nil => cases right <;> simp
  | cons first rest ih =>
      cases right with
      | nil => simp
      | cons other others =>
          rw [List.forall_mem_cons] at hLeft hRight
          rw [List.cons_beq_cons, Bool.and_eq_true,
            beq_iff_eq hLeft.1 hRight.1, ih hLeft.2 hRight.2,
            List.cons.injEq]

end Leaf

/- A slot all of whose leaves are read from a text. -/
def Slot.IsUnsigned : Slot → Prop
  | .leaf value => value.IsUnsigned
  | .leaves values => ∀ value ∈ values, value.IsUnsigned
  | _ => True

/- Only the slot of a float may hold a leaf that is signed. -/
theorem Node.isUnsigned_slots
    {node : Node}
    (hReads : node.ReadsBack) :
    ∀ slot ∈ node.slots, slot.2.IsUnsigned := by
  rw [← List.forall_iff_forall_mem]
  cases node with
  | program root => exact trivial
  | stmt inner =>
      obtain ⟨span, form⟩ := inner
      cases form <;> repeat' constructor
  | expr inner =>
      obtain ⟨span, form⟩ := inner
      cases form
      case float value => exact hReads
      case compare left rest =>
          refine ⟨trivial, fun leaf hLeaf => ?_, trivial⟩
          obtain ⟨step, -, rfl⟩ := List.mem_map.mp hLeaf
          trivial
      all_goals repeat' constructor
  | keyword argument =>
      obtain ⟨_ | name, value, span⟩ := argument <;> repeat' constructor
  | param declared => repeat' constructor
  | imported name =>
      obtain ⟨source, _ | asName, span⟩ := name <;> repeat' constructor

namespace Comparison

variable {σ τ : Type}

------------------------------------------------------------
-- Deciding Steps
------------------------------------------------------------

/-
  A step that agrees if two things are the same, shows a
  difference if they are not, and never fails.
-/
def Decides (step : Comparing σ τ Unit) (same : Prop) : Prop :=
  ∀ states,
    match step states with
    | .ok _ _ => same
    | .error (.mismatch _) _ => ¬ same
    | .error (.failure _) _ => False

theorem decides_return
    {same : Prop}
    (hSame : same) :
    Decides (return () : Comparing σ τ Unit) same :=
  fun _ => hSame

theorem decides_throw
    {same : Prop}
    {difference : Mismatch}
    (hDifferent : ¬ same) :
    Decides (throw (.mismatch difference) : Comparing σ τ Unit) same :=
  fun _ => hDifferent

theorem decides_ite
    (condition : Bool)
    (difference : Mismatch) :
    Decides
      (if condition then return ()
        else throw (.mismatch difference) : Comparing σ τ Unit)
      (condition = true) := by
  cases condition with
  | true => exact decides_return rfl
  | false => exact decides_throw Bool.false_ne_true

theorem Decides.congr
    {step : Comparing σ τ Unit}
    {same other : Prop}
    (hDecides : Decides step same)
    (hIff : same ↔ other) :
    Decides step other :=
  propext hIff ▸ hDecides

/- The second of two steps matters only if the first one agrees. -/
theorem Decides.andThen
    {first next : Comparing σ τ Unit}
    {same later : Prop}
    (hFirst : Decides first same)
    (hNext : same → Decides next later) :
    Decides
      (do
        first
        next)
      (same ∧ later) := by
  intro states
  change
    match EStateM.bind first (fun _ => next) states with
    | .ok _ _ => same ∧ later
    | .error (.mismatch _) _ => ¬ (same ∧ later)
    | .error (.failure _) _ => False
  have hHere := hFirst states
  unfold EStateM.bind
  cases hResult : first states with
  | error divergence after =>
      rw [hResult] at hHere
      cases divergence with
      | mismatch difference => exact fun hBoth => hHere hBoth.1
      | failure error => exact hHere
  | ok value after =>
      rw [hResult] at hHere
      have hThere := hNext hHere after
      dsimp only
      cases hLater : next after with
      | error divergence last =>
          rw [hLater] at hThere
          cases divergence with
          | mismatch difference => exact fun hBoth => hThere hBoth.2
          | failure error => exact hThere
      | ok value last =>
          rw [hLater] at hThere
          exact ⟨hHere, hThere⟩

------------------------------------------------------------
-- Lists and Slots
------------------------------------------------------------

/-
  A rule that decides whether two nodes are the same without
  positions, if each of them has a property.
-/
def DecidesOn
    (inner : Rule σ τ)
    (first second : Node → Prop) :
    Prop :=
  ∀ left right place,
    (∀ node ∈ left, first node) → (∀ node ∈ right, second node) →
      Decides (inner left right place)
        (left.map Node.erased = right.map Node.erased)

variable {inner : Rule σ τ}
variable {first second : Node → Prop}

theorem decides_items
    (hInner : DecidesOn inner first second)
    {lefts rights : List Node}
    (hLefts : ∀ node ∈ lefts, first node)
    (hRights : ∀ node ∈ rights, second node)
    (place : Place) :
    Decides (items inner (pairUp lefts rights) place)
      (lefts.map Node.erased = rights.map Node.erased) := by
  -- An item without a partner is a difference, and ends the walk.
  have hSurplus
      {left right : Option Node}
      (hDifferent : left.map Node.erased ≠ right.map Node.erased)
      (hLeft : ∀ node ∈ left, first node)
      (hRight : ∀ node ∈ right, second node)
      (rest : List (Option Node × Option Node))
      (place : Place) :
      Decides (items inner ((left, right) :: rest) place) False := by
    have hHere := hInner left right place hLeft hRight
    have hThere :
        left.map Node.erased = right.map Node.erased →
          Decides (items inner rest (place.enter left right)) True :=
      fun hSame => absurd hSame hDifferent
    exact (hHere.andThen hThere).congr (by simp [hDifferent])
  induction lefts generalizing rights place with
  | nil =>
      cases rights with
      | nil => exact decides_return rfl
      | cons right rights =>
          rw [List.forall_mem_cons] at hRights
          exact
            (hSurplus (by simp) (by simp) (by simpa using hRights.1)
              _ place).congr (by simp)
  | cons left lefts ih =>
      cases rights with
      | nil =>
          rw [List.forall_mem_cons] at hLefts
          exact
            (hSurplus (by simp) (by simpa using hLefts.1) (by simp)
              _ place).congr (by simp)
      | cons right rights =>
          rw [List.forall_mem_cons] at hLefts hRights
          have hHere :=
            hInner left right place (by simpa using hLefts.1)
              (by simpa using hRights.1)
          have hThere :=
            ih hLefts.2 hRights.2 (place.enter left right)
          refine (hHere.andThen fun _ => hThere).congr ?_
          simp

/- What two slots have to satisfy so that their comparison is decided. -/
theorem decides_slot
    (hInner : DecidesOn inner first second)
    (left right : Node)
    (place : Place)
    {leftSlot rightSlot : Slot}
    (hLeft : ∀ node ∈ Node.slotChildren leftSlot, first node)
    (hRight : ∀ node ∈ Node.slotChildren rightSlot, second node)
    (hLeftLeaves : leftSlot.IsUnsigned)
    (hRightLeaves : rightSlot.IsUnsigned) :
    Decides (slot inner left right place leftSlot rightSlot)
      (leftSlot.erased = rightSlot.erased) := by
  cases leftSlot <;> cases rightSlot
  case node.node a b =>
      refine (hInner a b place ?_ ?_).congr (by simp [Slot.erased])
      · simpa [Node.slotChildren] using hLeft
      · simpa [Node.slotChildren] using hRight
  case optional.optional a b =>
      refine (hInner a b place ?_ ?_).congr (by simp [Slot.erased])
      · simpa [Node.slotChildren] using hLeft
      · simpa [Node.slotChildren] using hRight
  case nodes.nodes a b =>
      exact (decides_items hInner hLeft hRight place).congr (by simp)
  case leaf.leaf a b =>
      refine (decides_ite (a == b) _).congr ?_
      simp [Leaf.beq_iff_eq hLeftLeaves hRightLeaves]
  case leaves.leaves a b =>
      refine (decides_ite (a == b) _).congr ?_
      simp [Leaf.list_beq_iff_eq hLeftLeaves hRightLeaves]
  all_goals exact decides_throw (by simp [Slot.erased])

theorem decides_slots
    (hInner : DecidesOn inner first second)
    (left right : Node)
    (place : Place)
    {leftSlots rightSlots : List (String × Slot)}
    (hNames : leftSlots.map (·.1) = rightSlots.map (·.1))
    (hLeft :
      ∀ slot ∈ leftSlots,
        slot.2.IsUnsigned ∧ ∀ node ∈ Node.slotChildren slot.2, first node)
    (hRight :
      ∀ slot ∈ rightSlots,
        slot.2.IsUnsigned ∧ ∀ node ∈ Node.slotChildren slot.2, second node) :
    Decides (slots inner left right place (leftSlots.zip rightSlots))
      (leftSlots.map (fun slot => (slot.1, slot.2.erased)) =
        rightSlots.map fun slot => (slot.1, slot.2.erased)) := by
  induction leftSlots generalizing rightSlots with
  | nil =>
      cases rightSlots with
      | nil => exact decides_return rfl
      | cons _ _ => cases hNames
  | cons leftSlot leftSlots ih =>
      cases rightSlots with
      | nil => cases hNames
      | cons rightSlot rightSlots =>
          rw [List.map_cons, List.map_cons, List.cons.injEq] at hNames
          rw [List.forall_mem_cons] at hLeft hRight
          have hHere :=
            decides_slot hInner left right place hLeft.1.2 hRight.1.2
              hLeft.1.1 hRight.1.1
          have hThere := ih hNames.2 hLeft.2 hRight.2
          simp only [List.zip_cons_cons, slots, hNames.1,
            beq_self_eq_true, if_true]
          refine (hHere.andThen fun _ => hThere).congr ?_
          simp [hNames.1]

/- Nodes of one kind are decided by their slots. -/
theorem decides_bySlots
    {left right : Node}
    (hKind : left.kind = right.kind)
    (hLeftReads : left.ReadsBack)
    (hRightReads : right.ReadsBack)
    (hInner :
      DecidesOn inner (· ∈ left.children) (· ∈ right.children))
    (place : Place) :
    Decides (bySlots inner left right place)
      (left.erased = right.erased) := by
  have hChildren {node : Node} {slot : String × Slot}
      (hSlot : slot ∈ node.slots) :
      ∀ child ∈ Node.slotChildren slot.2, child ∈ node.children :=
    fun child hChild => List.mem_flatMap.mpr ⟨slot, hSlot, hChild⟩
  refine
    (decides_slots hInner left right place
      (Node.slotNames_eq_of_kind_eq hKind)
      (fun slot hSlot =>
        ⟨Node.isUnsigned_slots hLeftReads slot hSlot, hChildren hSlot⟩)
      (fun slot hSlot =>
        ⟨Node.isUnsigned_slots hRightReads slot hSlot,
          hChildren hSlot⟩)).congr ?_
  rw [Node.erased_eq_iff, Node.slots_erased, Node.slots_erased]
  simp [hKind]

------------------------------------------------------------
-- Nodes
------------------------------------------------------------

/- A call whose callee is not found has no normal form. -/
theorem normalize_of_findsNothing
    {resolver : Resolver σ}
    (hNothing : resolver.FindsNothing)
    (parts : CallParts)
    (state : σ) :
    ∃ text after,
      normalize resolver parts.callee parts.args parts.keywords state =
        (.error (.notResolvable text), after) := by
  unfold normalize
  split
  · exact ⟨_, _, rfl⟩
  · obtain ⟨text, after, hAnswer⟩ := hNothing parts.callee state
    exact ⟨text, after, by rw [hAnswer]; rfl⟩

variable {resolvers : Resolvers σ τ}

/- Calls whose callees are not found are compared like other nodes. -/
theorem decides_call
    (hSubmission : resolvers.submission.FindsNothing)
    (hSolution : resolvers.solution.FindsNothing)
    {left right : Node}
    {same : Prop}
    (hSlots : ∀ place, Decides (bySlots inner left right place) same)
    (leftParts rightParts : CallParts)
    (place : Place) :
    Decides (call resolvers inner left right leftParts rightParts place)
      same := by
  rintro ⟨firstState, secondState⟩
  obtain ⟨leftText, leftAfter, hLeft⟩ :=
    normalize_of_findsNothing hSubmission leftParts firstState
  obtain ⟨rightText, rightAfter, hRight⟩ :=
    normalize_of_findsNothing hSolution rightParts secondState
  have hCall :
      call resolvers inner left right leftParts rightParts place
          (firstState, secondState) =
        bySlots inner left right (place.inside left.text)
          (leftAfter, rightAfter) := by
    simp only [call, bind, EStateM.bind, normalizeBoth, hLeft, hRight,
      normalizedCall]
  rw [hCall]
  exact hSlots _ _

theorem decides_node
    (hSubmission : resolvers.submission.FindsNothing)
    (hSolution : resolvers.solution.FindsNothing)
    {left right : Node}
    (hLeftReads : left.ReadsBack)
    (hRightReads : right.ReadsBack)
    (hInner :
      DecidesOn inner (· ∈ left.children) (· ∈ right.children))
    (place : Place) :
    Decides (bothNodes resolvers inner left right place)
      (left.erased = right.erased) := by
  unfold bothNodes
  by_cases hKind : left.kind = right.kind
  · have hSlots := decides_bySlots hKind hLeftReads hRightReads hInner
    simp only [hKind, beq_self_eq_true, if_true]
    split
    · exact decides_call hSubmission hSolution hSlots _ _ place
    · exact hSlots place
  · simp only [beq_iff_eq, hKind, if_false]
    refine decides_throw ?_
    rw [Node.erased_eq_iff]
    exact fun hSame => hKind hSame.1

/-
  A comparison to a depth beyond the size of the submission
  decides whether two grammatical nodes are the same without
  positions. The induction is on the depth, which exceeds the
  size of every node that is reached.
-/
theorem decides_toDepth
    (hSubmission : resolvers.submission.FindsNothing)
    (hSolution : resolvers.solution.FindsNothing)
    {depth : Nat}
    (hDepth : 0 < depth) :
    DecidesOn (toDepth resolvers depth)
      (fun node =>
        node.size < depth ∧ node.Everywhere Node.Grammatical)
      (fun node => node.Everywhere Node.Grammatical) := by
  induction depth with
  | zero => omega
  | succ depth ih =>
      intro left right place hLeft hRight
      cases left with
      | none =>
          cases right with
          | none => exact decides_return rfl
          | some right => exact decides_throw (by simp)
      | some left =>
          cases right with
          | none => exact decides_throw (by simp)
          | some right =>
              obtain ⟨hSize, hLeftAll⟩ := hLeft left rfl
              have hRightAll := hRight right rfl
              have hPos : 0 < left.size := by
                rw [Node.size_eq_sum]
                omega
              refine
                (decides_node hSubmission hSolution
                  hLeftAll.atNode.readsBack
                  hRightAll.atNode.readsBack ?_ _).congr (by simp)
              intro a b inside hA hB
              refine ih (by omega) a b inside ?_ ?_
              · intro node hNode
                have hChild := hA node hNode
                have hLess := Node.size_lt_of_mem_children hChild
                exact ⟨by omega, hLeftAll.atChild hChild⟩
              · intro node hNode
                exact hRightAll.atChild (hB node hNode)

end Comparison

------------------------------------------------------------
-- Programs
------------------------------------------------------------

theorem Comparison.run_of_decides
    {σ τ : Type}
    {resolvers : Resolvers σ τ}
    {submission solution : Program}
    {same : Prop}
    (hDecides :
      Decides
        (toDepth resolvers (submission.size + 1)
          (some (.program submission)) (some (.program solution)) {})
        same)
    (states : σ × τ) :
    ((run resolvers submission solution states).1 = .ok none ↔ same) ∧
      (¬ same →
        ∃ difference,
          (run resolvers submission solution states).1 =
            .ok (some difference)) := by
  have hResult := hDecides states
  unfold run
  split <;> rename_i hRun <;> rw [hRun] at hResult
  · exact ⟨by simpa using hResult, fun hDifferent => absurd hResult hDifferent⟩
  · exact ⟨by simpa using hResult, fun _ => ⟨_, rfl⟩⟩
  · exact hResult.elim

/-
  Without resolution, programs that were read from texts are
  accepted iff they are the same but for their positions, and
  otherwise a difference is reported. The slots of a node leave
  nothing out but positions.
-/
theorem unresolved_comparison_decides_equality
    {σ τ : Type}
    (resolvers : Resolvers σ τ)
    (hSubmission : resolvers.submission.FindsNothing)
    (hSolution : resolvers.solution.FindsNothing)
    {leftName leftText rightName rightText : String}
    {submission solution : Program}
    (hLeft : parseSource leftName leftText = .ok submission)
    (hRight : parseSource rightName rightText = .ok solution)
    (states : σ × τ) :
    ((Comparison.run resolvers submission solution states).1 =
          .ok none ↔
        submission.erased = solution.erased) ∧
      (submission.erased ≠ solution.erased →
        ∃ difference,
          (Comparison.run resolvers submission solution states).1 =
            .ok (some difference)) ∧
      ∀ left right : Node,
        left.erased = right.erased ↔
          left.kind = right.kind ∧
            (left.slots.map fun slot => (slot.1, slot.2.erased)) =
              right.slots.map fun slot => (slot.1, slot.2.erased) := by
  have hDecides :
      Comparison.Decides
        (Comparison.toDepth resolvers (submission.size + 1)
          (some (.program submission)) (some (.program solution)) {})
        (submission.erased = solution.erased) := by
    refine
      (Comparison.decides_toDepth hSubmission hSolution
        (Nat.succ_pos submission.size) (some (.program submission))
        (some (.program solution)) {} ?_ ?_).congr
        (by simp [Node.erased])
    · rintro node ⟨⟩
      exact ⟨Nat.lt_succ_self _, grammatical_of_parseSource hLeft⟩
    · rintro node ⟨⟩
      exact grammatical_of_parseSource hRight
  obtain ⟨hAccepted, hReported⟩ :=
    Comparison.run_of_decides hDecides states
  refine ⟨hAccepted, hReported, ?_⟩
  intro left right
  rw [Node.erased_eq_iff, Node.slots_erased, Node.slots_erased]

/- Spaces, brackets and other spellings of numbers make no difference. -/
theorem unresolved_comparison_of_respelled :
    let resolver := Resolver.ofTable []
    ∃ submission solution,
      parseSource "submission.py" "def f(x=1.50): return (g( x, *y ))" =
          .ok submission ∧
        parseSource "solution.py" "def f(x = 1.5):\n    return g(x, *y)" =
            .ok solution ∧
          (Comparison.run ⟨resolver, resolver⟩ submission solution
              ((), ())).1 = .ok none ∧
            submission.erased = solution.erased := by
  intro resolver
  have hNothing : resolver.FindsNothing :=
    fun callee state => ⟨callee.source, state, rfl⟩
  have hRun :
      (parseSource "submission.py"
            "def f(x=1.50): return (g( x, *y ))").toOption.any
          (fun submission =>
            (parseSource "solution.py"
                "def f(x = 1.5):\n    return g(x, *y)").toOption.any
              fun solution =>
                decide
                  ((Comparison.run ⟨resolver, resolver⟩ submission
                    solution ((), ())).1.toOption = some none)) =
        true := by
    decide +kernel
  simp only [Option.any_eq_true, decide_eq_true_eq] at hRun
  obtain ⟨submission, hSubmission, solution, hSolution, hSame⟩ := hRun
  have hLeft := ok_of_toOption hSubmission
  have hRight := ok_of_toOption hSolution
  have hAccepted := ok_of_toOption hSame
  refine ⟨submission, solution, hLeft, hRight, hAccepted, ?_⟩
  exact
    (unresolved_comparison_decides_equality ⟨resolver, resolver⟩
      hNothing hNothing hLeft hRight ((), ())).1.mp hAccepted

end SnippetGrader
