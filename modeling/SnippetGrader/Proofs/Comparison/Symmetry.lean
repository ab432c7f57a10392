import SnippetGrader.Proofs.Comparison.Invariance
import SnippetGrader.Proofs.Number.Parts
import SnippetGrader.Proofs.Parsing.Programs

/-
  Comparing two programs in the other order.

  If the sides are exchanged, a comparison stops at the same
  place with the same difference, seen from the other side. It
  asks each resolver the same callees in the same order. Only
  calls that cannot be compared are reported by the side that
  they are on, and so they are only known to be rejected.

  Key definitions include:
    * `MismatchKind.mirrored?`, `Mismatch.Mirrors`
    * `Comparison.Mirrored`

  Key theorems include:
    * `Comparison.mirrored_toDepth`
    * `compare_mirrored`
-/

namespace SnippetGrader

open SnippetGrader.Comparison

------------------------------------------------------------
-- Mirrored Differences
------------------------------------------------------------

/- The kind of a difference seen from the other side. -/
def MismatchKind.mirrored? : MismatchKind → Option MismatchKind
  | .missing => some .unexpected
  | .unexpected => some .missing
  | .wrongValue => some .wrongValue
  | .wrongType => some .wrongType
  | .malformedCall _ => none

/- The same difference seen from two sides, inside whatever call. -/
structure Mismatch.Mirrors (first second : Mismatch) : Prop where
  kind : first.kind.mirrored? = some second.kind
  submission : second.submission = first.solution
  solution : second.solution = first.submission
  line : second.line = first.solutionLine
  solutionLine : second.solutionLine = first.line

/- The resolvers with their sides exchanged. -/
def Resolvers.swap
    {σ τ : Type}
    (resolvers : Resolvers σ τ) :
    Resolvers τ σ :=
  ⟨resolvers.solution, resolvers.submission⟩

namespace Comparison

/- A comparison that ends at a call that cannot be compared. -/
def IsRejection : Divergence → Prop
  | .mismatch difference => difference.kind.mirrored? = none
  | .failure _ => True

/- Comparisons that end in mirrored differences, or are both rejected. -/
inductive DivergesAlike : Divergence → Divergence → Prop
  | mismatch
      {first second : Mismatch}
      (mirrors : first.Mirrors second) :
      DivergesAlike (.mismatch first) (.mismatch second)
  | rejection
      {first second : Divergence}
      (left : IsRejection first)
      (right : IsRejection second) :
      DivergesAlike first second

variable {σ τ : Type}

/- Outcomes that mirror each other, down to the resolvers' states. -/
inductive EndsAlike :
    EStateM.Result Divergence (σ × τ) Unit →
    EStateM.Result Divergence (τ × σ) Unit →
    Prop
  | finished
      (after : σ × τ) :
      EndsAlike (.ok () after) (.ok () after.swap)
  | stopped
      {first second : Divergence}
      (alike : DivergesAlike first second)
      (after : σ × τ) :
      EndsAlike (.error first after) (.error second after.swap)

/- Steps that mirror each other in whatever states they start. -/
def Mirrored (step : Comparing σ τ Unit) (other : Comparing τ σ Unit) :
    Prop :=
  ∀ states, EndsAlike (step states) (other states.swap)

theorem mirrored_return :
    Mirrored (return () : Comparing σ τ Unit) (return ()) :=
  fun states => .finished states

theorem mirrored_throw
    {first second : Divergence}
    (hAlike : DivergesAlike first second) :
    Mirrored (throw first : Comparing σ τ Unit) (throw second) :=
  fun states => .stopped hAlike states

theorem Mirrored.andThen
    {first next : Comparing σ τ Unit}
    {other later : Comparing τ σ Unit}
    (hFirst : Mirrored first other)
    (hNext : Mirrored next later) :
    Mirrored
      (do
        first
        next)
      (do
        other
        later) := by
  intro states
  have hHere := hFirst states
  change EndsAlike (EStateM.bind first (fun _ => next) states)
    (EStateM.bind other (fun _ => later) states.swap)
  unfold EStateM.bind
  generalize first states = result at hHere
  generalize other states.swap = mirror at hHere
  cases hHere with
  | finished after => exact hNext after
  | stopped hAlike after => exact .stopped hAlike after

/- Steps that branch alike mirror each other if both branches do. -/
theorem mirrored_ite
    {condition mirror : Bool}
    (hSame : condition = mirror)
    {first next : Comparing σ τ Unit}
    {other later : Comparing τ σ Unit}
    (hTrue : Mirrored first other)
    (hFalse : condition = false → Mirrored next later) :
    Mirrored (if condition then first else next)
      (if mirror then other else later) := by
  subst hSame
  cases condition with
  | true => exact hTrue
  | false => exact hFalse rfl

------------------------------------------------------------
-- Places
------------------------------------------------------------

/- The same place seen from two sides, inside whatever call. -/
structure PlacesAlike (place other : Place) : Prop where
  line : other.line = place.solutionLine
  solutionLine : other.solutionLine = place.line

section Places

variable {place other : Place}

theorem PlacesAlike.enter
    (hPlaces : PlacesAlike place other)
    (left right : Option Node) :
    PlacesAlike (place.enter left right) (other.enter right left) := by
  refine ⟨?_, ?_⟩
  · simp only [Place.enter, hPlaces.line]
  · simp only [Place.enter, hPlaces.solutionLine]

theorem PlacesAlike.inside
    (hPlaces : PlacesAlike place other)
    (left right : String) :
    PlacesAlike (place.inside left) (other.inside right) :=
  ⟨hPlaces.line, hPlaces.solutionLine⟩

theorem PlacesAlike.atParams
    (hPlaces : PlacesAlike place other)
    (left right : Option NormalizedParam) :
    PlacesAlike (place.atParams left right)
      (other.atParams right left) :=
  hPlaces.enter _ _

theorem PlacesAlike.mismatch
    (hPlaces : PlacesAlike place other)
    {kind mirror : MismatchKind}
    (hKind : kind.mirrored? = some mirror)
    (submission solution : Option Rendered) :
    DivergesAlike (place.mismatch kind submission solution)
      (other.mismatch mirror solution submission) :=
  .mismatch ⟨hKind, rfl, rfl, hPlaces.line, hPlaces.solutionLine⟩

/- Two nodes differ alike in either order. -/
theorem PlacesAlike.difference
    (hPlaces : PlacesAlike place other)
    (left right : Node) :
    DivergesAlike (place.difference left right)
      (other.difference right left) := by
  refine hPlaces.mismatch ?_ _ _
  unfold Rendered.difference
  rw [Bool.beq_comm (a := (Rendered.ofNode right).description)]
  split <;> rfl

end Places

------------------------------------------------------------
-- Lists and Slots
------------------------------------------------------------

theorem pairUp_swap
    {α : Type}
    (lefts rights : List α) :
    pairUp rights lefts = (pairUp lefts rights).map Prod.swap := by
  induction lefts generalizing rights with
  | nil => cases rights <;> simp [pairUp]
  | cons left lefts ih =>
      cases rights with
      | nil => simp [pairUp]
      | cons right rights => simp [pairUp, ih rights]

theorem of_mem_pairUp
    {α : Type}
    {lefts rights : List α}
    {pair : Option α × Option α}
    (hPair : pair ∈ pairUp lefts rights) :
    (∀ left ∈ pair.1, left ∈ lefts) ∧
      ∀ right ∈ pair.2, right ∈ rights := by
  induction lefts generalizing rights with
  | nil =>
      cases rights with
      | nil => cases hPair
      | cons right rights =>
          simp only [pairUp, List.mem_map] at hPair
          obtain ⟨found, hFound, rfl⟩ := hPair
          exact ⟨by simp, by simpa using hFound⟩
  | cons left lefts ih =>
      cases rights with
      | nil =>
          simp only [pairUp, List.mem_map] at hPair
          obtain ⟨found, hFound, rfl⟩ := hPair
          exact ⟨by simpa using hFound, by simp⟩
      | cons right rights =>
          rcases List.mem_cons.mp hPair with rfl | hLater
          · simp
          · obtain ⟨hLeft, hRight⟩ := ih hLater
            exact
              ⟨fun a ha => List.mem_cons_of_mem _ (hLeft a ha),
                fun a ha => List.mem_cons_of_mem _ (hRight a ha)⟩

/- Leaves are compared alike in either order. -/
theorem leaf_beq_comm (left right : Leaf) :
    (left == right) = (right == left) := by
  cases left <;> cases right
  case float.float left right => exact Number.beq_comm left right
  all_goals
    simp only [BEq.beq, Leaf.beq, decide_eq_decide]
    try exact eq_comm

theorem leaves_beq_comm (left right : List Leaf) :
    (left == right) = (right == left) := by
  induction left generalizing right with
  | nil => cases right <;> rfl
  | cons first rest ih =>
      cases right with
      | nil => rfl
      | cons other others =>
          rw [List.cons_beq_cons, List.cons_beq_cons,
            leaf_beq_comm, ih]

/-
  Rules that mirror each other on all nodes with a property, from
  whatever places that are alike.
-/
def MirroredOn
    (inner : Rule σ τ)
    (other : Rule τ σ)
    (first second : Node → Prop) :
    Prop :=
  ∀ left right place mirror,
    PlacesAlike place mirror →
      (∀ node ∈ left, first node) → (∀ node ∈ right, second node) →
        Mirrored (inner left right place) (other right left mirror)

variable {inner : Rule σ τ}
variable {other : Rule τ σ}
variable {first second : Node → Prop}
variable {place mirror : Place}

theorem mirrored_items
    (hInner : MirroredOn inner other first second)
    {pairs : List (Option Node × Option Node)}
    (hPairs :
      ∀ pair ∈ pairs,
        (∀ node ∈ pair.1, first node) ∧ ∀ node ∈ pair.2, second node)
    (hPlaces : PlacesAlike place mirror) :
    Mirrored (items inner pairs place)
      (items other (pairs.map Prod.swap) mirror) := by
  induction pairs generalizing place mirror with
  | nil => exact mirrored_return
  | cons pair rest ih =>
      obtain ⟨left, right⟩ := pair
      rw [List.forall_mem_cons] at hPairs
      exact (hInner left right place mirror hPlaces hPairs.1.1
        hPairs.1.2).andThen (ih hPairs.2 (hPlaces.enter left right))

theorem mirrored_slot
    (hInner : MirroredOn inner other first second)
    (left right : Node)
    {leftSlot rightSlot : Slot}
    (hLeft : ∀ node ∈ Node.slotChildren leftSlot, first node)
    (hRight : ∀ node ∈ Node.slotChildren rightSlot, second node)
    (hPlaces : PlacesAlike place mirror) :
    Mirrored (slot inner left right place leftSlot rightSlot)
      (slot other right left mirror rightSlot leftSlot) := by
  have hDifferent :
      Mirrored (throw (place.difference left right) : Comparing σ τ Unit)
        (throw (mirror.difference right left)) :=
    mirrored_throw (hPlaces.difference left right)
  cases leftSlot <;> cases rightSlot
  case node.node a b =>
      refine hInner a b place mirror hPlaces ?_ ?_
      · simpa [Node.slotChildren] using hLeft
      · simpa [Node.slotChildren] using hRight
  case optional.optional a b =>
      refine hInner a b place mirror hPlaces ?_ ?_
      · simpa [Node.slotChildren] using hLeft
      · simpa [Node.slotChildren] using hRight
  case nodes.nodes a b =>
      simp only [slot]
      rw [pairUp_swap a b]
      refine mirrored_items hInner ?_ hPlaces
      intro pair hPair
      obtain ⟨hFirst, hSecond⟩ := of_mem_pairUp hPair
      exact ⟨fun node hNode => hLeft node (hFirst node hNode),
        fun node hNode => hRight node (hSecond node hNode)⟩
  case leaf.leaf a b =>
      exact mirrored_ite (leaf_beq_comm a b) mirrored_return fun _ => hDifferent
  case leaves.leaves a b =>
      exact mirrored_ite (leaves_beq_comm a b) mirrored_return fun _ => hDifferent
  all_goals exact hDifferent

theorem mirrored_slots
    (hInner : MirroredOn inner other first second)
    (left right : Node)
    {pairs : List ((String × Slot) × (String × Slot))}
    (hPairs :
      ∀ pair ∈ pairs,
        (∀ node ∈ Node.slotChildren pair.1.2, first node) ∧
          ∀ node ∈ Node.slotChildren pair.2.2, second node)
    (hPlaces : PlacesAlike place mirror) :
    Mirrored (slots inner left right place pairs)
      (slots other right left mirror (pairs.map Prod.swap)) := by
  induction pairs with
  | nil => exact mirrored_return
  | cons pair rest ih =>
      obtain ⟨⟨leftName, leftSlot⟩, ⟨rightName, rightSlot⟩⟩ := pair
      rw [List.forall_mem_cons] at hPairs
      refine mirrored_ite (Bool.beq_comm (a := leftName)) ?_ fun _ =>
        mirrored_throw (hPlaces.difference left right)
      exact (mirrored_slot hInner left right hPairs.1.1 hPairs.1.2
        hPlaces).andThen (ih hPairs.2)

/- Two nodes are compared alike in either order, slot by slot. -/
theorem mirrored_bySlots
    {left right : Node}
    (hInner :
      MirroredOn inner other (· ∈ left.children) (· ∈ right.children))
    (hPlaces : PlacesAlike place mirror) :
    Mirrored (bySlots inner left right place)
      (bySlots other right left mirror) := by
  unfold bySlots
  rw [← List.zip_swap left.slots]
  refine mirrored_slots hInner left right ?_ hPlaces
  intro pair hPair
  obtain ⟨hLeft, hRight⟩ := List.of_mem_zip hPair
  exact
    ⟨fun node hNode => List.mem_flatMap.mpr ⟨_, hLeft, hNode⟩,
      fun node hNode => List.mem_flatMap.mpr ⟨_, hRight, hNode⟩⟩

------------------------------------------------------------
-- Calls
------------------------------------------------------------

/- Written parameters whose values have a property. -/
def WrittenParams
    (first : Node → Prop)
    (params : List NormalizedParam) :
    Prop :=
  ∀ param ∈ params, param.fromDefault = false → first (.expr param.value)

theorem mirrored_param
    (hInner : MirroredOn inner other first second)
    {left right : Option NormalizedParam}
    (hLeft : WrittenParams first left.toList)
    (hRight : WrittenParams second right.toList)
    (hPlaces : PlacesAlike place mirror) :
    Mirrored (param inner place left right)
      (param other mirror right left) := by
  have hHere := hPlaces.atParams left right
  cases left with
  | none =>
      cases right with
      | none => exact mirrored_return
      | some right => exact mirrored_throw (hHere.mismatch rfl _ _)
  | some left =>
      cases right with
      | none => exact mirrored_throw (hHere.mismatch rfl _ _)
      | some right =>
          refine mirrored_ite (congrArg not (Bool.beq_comm (a := left.name)))
            (mirrored_throw (hHere.mismatch rfl _ _)) fun _ => ?_
          refine mirrored_ite (Bool.beq_comm (a := left.value.source))
            mirrored_return fun _ => ?_
          refine mirrored_ite (Bool.or_comm _ _)
            (mirrored_throw (hHere.difference _ _)) fun hWritten => ?_
          rw [Bool.or_eq_false_iff] at hWritten
          refine hInner _ _ place mirror hPlaces ?_ ?_
          · rintro node ⟨⟩
            exact hLeft left (by simp) hWritten.1
          · rintro node ⟨⟩
            exact hRight right (by simp) hWritten.2

/- Parameters are compared alike in either order. -/
theorem mirrored_params
    (hInner : MirroredOn inner other first second)
    {pairs : List (Option NormalizedParam × Option NormalizedParam)}
    (hPairs :
      ∀ pair ∈ pairs,
        WrittenParams first pair.1.toList ∧
          WrittenParams second pair.2.toList)
    (hPlaces : PlacesAlike place mirror) :
    Mirrored (params inner place pairs)
      (params other mirror (pairs.map Prod.swap)) := by
  induction pairs with
  | nil => exact mirrored_return
  | cons pair rest ih =>
      rw [List.forall_mem_cons] at hPairs
      exact (mirrored_param hInner hPairs.1.1 hPairs.1.2
        hPlaces).andThen (ih hPairs.2)

theorem mirrored_boundCall
    (hInner : MirroredOn inner other first second)
    {leftCallee rightCallee : Expr}
    (hLeftCallee : first (.expr leftCallee))
    (hRightCallee : second (.expr rightCallee))
    {left right : NormalizedCall}
    (hLeft : WrittenParams first left.params)
    (hRight : WrittenParams second right.params)
    (hPlaces : PlacesAlike place mirror) :
    Mirrored (boundCall inner leftCallee rightCallee left right place)
      (boundCall other rightCallee leftCallee right left mirror) := by
  have hInside := hPlaces.inside left.text right.text
  have hCallees :=
    hInner (some (.expr leftCallee)) (some (.expr rightCallee)) _ _
      hInside (by simpa using hLeftCallee) (by simpa using hRightCallee)
  refine hCallees.andThen ?_
  rw [pairUp_swap left.params]
  refine mirrored_params hInner ?_ hInside
  intro pair hPair
  obtain ⟨hFirst, hSecond⟩ := of_mem_pairUp hPair
  exact
    ⟨fun param hParam => hLeft param (hFirst param (by simpa using hParam)),
      fun param hParam => hRight param (hSecond param (by simpa using hParam))⟩

/- What came of normalizing a call, with written values that are small. -/
def SmallParams
    (node : Node)
    (result : Except NormalizeError NormalizedCall) :
    Prop :=
  ∀ call, result = .ok call →
    WrittenParams (·.size < node.size) call.params

/- Rules that mirror each other below two nodes. -/
def MirroredBelow
    (inner : Rule σ τ)
    (other : Rule τ σ)
    (left right : Node) :
    Prop :=
  MirroredOn inner other (·.size < left.size) (·.size < right.size)

variable {left right : Node}

theorem MirroredBelow.bySlots
    (hInner : MirroredBelow inner other left right)
    (hPlaces : PlacesAlike place mirror) :
    Mirrored (Comparison.bySlots inner left right place)
      (Comparison.bySlots other right left mirror) := by
  refine mirrored_bySlots ?_ hPlaces
  intro a b inside outside hPlaces hLeft hRight
  refine hInner a b inside outside hPlaces ?_ ?_
  · intro node hNode
    exact Node.size_lt_of_mem_children (hLeft node hNode)
  · intro node hNode
    exact Node.size_lt_of_mem_children (hRight node hNode)

/-
  Two calls are compared alike in either order, whatever came of
  normalizing them. Calls that have a fault are rejected on both
  sides, though not always for the same reason.
-/
theorem mirrored_normalizedCall
    (hInner : MirroredBelow inner other left right)
    {leftParts rightParts : CallParts}
    (hLeft : callParts? left = some leftParts)
    (hRight : callParts? right = some rightParts)
    {submission solution : Except NormalizeError NormalizedCall}
    (hSubmission : SmallParams left submission)
    (hSolution : SmallParams right solution)
    (hPlaces : PlacesAlike place mirror) :
    Mirrored
      (normalizedCall inner left right leftParts rightParts place
        submission solution)
      (normalizedCall other right left rightParts leftParts mirror
        solution submission) := by
  have hRejected {first second : Divergence}
      (hFirst : IsRejection first)
      (hSecond : IsRejection second) :
      Mirrored (throw first : Comparing σ τ Unit) (throw second) :=
    mirrored_throw (.rejection hFirst hSecond)
  have hSlots :
      Mirrored (bySlots inner left right (place.inside left.text))
        (bySlots other right left (mirror.inside right.text)) :=
    hInner.bySlots (hPlaces.inside _ _)
  rcases submission with (callee | fault | detail) | leftCall <;>
    rcases solution with (other | fault' | detail') | rightCall
  case ok.ok =>
      refine mirrored_ite (Bool.and_comm _ _) hSlots fun _ => ?_
      refine mirrored_boundCall hInner ?_ ?_ (hSubmission _ rfl)
        (hSolution _ rfl) hPlaces
      · exact Node.size_lt_of_mem_children (callee_mem_children hLeft)
      · exact Node.size_lt_of_mem_children (callee_mem_children hRight)
  all_goals
    first
    | exact hSlots
    | exact hRejected trivial trivial
    | exact hRejected rfl trivial
    | exact hRejected trivial rfl
    | exact hRejected rfl rfl

theorem normalizeWith_of_normalize
    {ρ : Type}
    {resolver : Resolver ρ}
    {parts : CallParts}
    {state : ρ}
    {call : NormalizedCall}
    (hCall :
      (normalize resolver parts.callee parts.args parts.keywords
        state).1 = .ok call) :
    ∃ signature,
      normalizeWith signature parts.callee parts.args parts.keywords =
        .ok call := by
  unfold normalize at hCall
  split at hCall
  · cases hCall
  · split at hCall
    · cases hCall
    · split at hCall
      · rename_i signature _ _ _ found hFound
        cases hCall
        exact ⟨signature, hFound⟩
      · cases hCall

/- What is written in a call is smaller than the call. -/
theorem smallParams_normalize
    {ρ : Type}
    (resolver : Resolver ρ)
    {node : Node}
    {parts : CallParts}
    (hParts : callParts? node = some parts)
    (state : ρ) :
    SmallParams node
      (normalize resolver parts.callee parts.args parts.keywords
        state).1 := by
  intro call hCall
  obtain ⟨signature, hNormal⟩ := normalizeWith_of_normalize hCall
  have hSize := size_of_callParts hParts
  have hNamed := sum_namedKeywords_le parts.keywords
  refine written_of_normalizeWith
    (⟨?_, ?_, fun _ => size_tuple_lt hParts,
        fun _ => size_dict_lt hParts⟩ :
      HoldsOfArguments (fun value => value.size < node.size) _ _)
    hNormal
  · intro arg hArg
    have hLess :=
      List.le_sum_of_mem (List.mem_map_of_mem (f := Expr.size) hArg)
    rw [Expr.sizeAll_eq_sum] at hSize
    omega
  · intro entry hEntry
    have hLess :=
      List.le_sum_of_mem
        (List.mem_map_of_mem (f := fun entry : String × Expr =>
          1 + entry.2.size) hEntry)
    omega

------------------------------------------------------------
-- Nodes
------------------------------------------------------------

theorem mirrored_call
    (resolvers : Resolvers σ τ)
    (hInner : MirroredBelow inner other left right)
    {leftParts rightParts : CallParts}
    (hLeft : callParts? left = some leftParts)
    (hRight : callParts? right = some rightParts)
    (hPlaces : PlacesAlike place mirror) :
    Mirrored
      (call resolvers inner left right leftParts rightParts place)
      (call resolvers.swap other right left rightParts leftParts
        mirror) := by
  rintro ⟨firstState, secondState⟩
  exact mirrored_normalizedCall hInner hLeft hRight
    (smallParams_normalize resolvers.submission hLeft firstState)
    (smallParams_normalize resolvers.solution hRight secondState)
    hPlaces _

theorem mirrored_bothNodes
    (resolvers : Resolvers σ τ)
    (hInner : MirroredBelow inner other left right)
    (hPlaces : PlacesAlike place mirror) :
    Mirrored (bothNodes resolvers inner left right place)
      (bothNodes resolvers.swap other right left mirror) := by
  refine mirrored_ite (Bool.beq_comm (a := left.kind)) ?_ fun _ =>
    mirrored_throw (hPlaces.difference left right)
  cases hLeft : callParts? left with
  | none =>
      cases callParts? right <;> exact hInner.bySlots hPlaces
  | some leftParts =>
      cases hRight : callParts? right with
      | none => exact hInner.bySlots hPlaces
      | some rightParts =>
          exact mirrored_call resolvers hInner hLeft hRight hPlaces

/-
  Comparisons in either order, each to a depth that the sizes on
  its own left side do not reach, mirror each other. The
  induction is on the first depth. The second one falls with it,
  because the nodes on both sides get smaller.
-/
theorem mirrored_toDepth
    (resolvers : Resolvers σ τ)
    {depth height : Nat}
    (hDepth : 0 < depth)
    (hHeight : 0 < height) :
    MirroredOn (toDepth resolvers depth) (toDepth resolvers.swap height)
      (·.size < depth) (·.size < height) := by
  induction depth generalizing height with
  | zero => omega
  | succ depth ih =>
      obtain ⟨height, rfl⟩ := Nat.exists_eq_succ_of_ne_zero hHeight.ne'
      intro left right place mirror hPlaces hLeft hRight
      have hEnter := hPlaces.enter left right
      cases left with
      | none =>
          cases right with
          | none => exact mirrored_return
          | some right => exact mirrored_throw (hEnter.mismatch rfl _ _)
      | some left =>
          cases right with
          | none => exact mirrored_throw (hEnter.mismatch rfl _ _)
          | some right =>
              have hLeftSize := hLeft left rfl
              have hRightSize := hRight right rfl
              have hLeftPos := left.size_eq_sum
              have hRightPos := right.size_eq_sum
              refine mirrored_bothNodes resolvers ?_ hEnter
              intro a b inside outside hInside hA hB
              refine ih (by omega) (by omega) a b inside outside hInside
                ?_ ?_
              · intro node hNode
                have hSmaller := hA node hNode
                omega
              · intro node hNode
                have hSmaller := hB node hNode
                omega

end Comparison

------------------------------------------------------------
-- Programs
------------------------------------------------------------

/-
  If the sides of a comparison are exchanged, it accepts the same
  programs, and a difference between what the two sides have is
  found as the same difference, seen from the other side. Each
  resolver ends in the state that it ends in before.
-/
theorem compare_mirrored
    {σ τ : Type}
    (resolvers : Resolvers σ τ)
    (submission solution : Program)
    (states : σ × τ) :
    let compared := Comparison.run resolvers submission solution states
    let exchanged :=
      Comparison.run resolvers.swap solution submission states.swap
    (compared.1 = .ok none ↔ exchanged.1 = .ok none) ∧
      (∀ difference,
        compared.1 = .ok (some difference) →
          difference.kind.mirrored? ≠ none →
            ∃ other,
              exchanged.1 = .ok (some other) ∧
                difference.Mirrors other) ∧
        exchanged.2 = compared.2.swap := by
  have hEnds :=
    Comparison.mirrored_toDepth resolvers
      (Nat.succ_pos submission.size) (Nat.succ_pos solution.size)
      (some (.program submission)) (some (.program solution)) {} {}
      ⟨rfl, rfl⟩
      (by rintro node ⟨⟩; exact Nat.lt_succ_self _)
      (by rintro node ⟨⟩; exact Nat.lt_succ_self _) states
  unfold Comparison.run
  dsimp only
  generalize toDepth resolvers _ _ _ _ states = result at hEnds ⊢
  generalize toDepth resolvers.swap _ _ _ _ states.swap = mirror
    at hEnds ⊢
  cases hEnds with
  | finished after =>
      refine ⟨Iff.rfl, ?_, rfl⟩
      rintro difference ⟨⟩
  | stopped hAlike after =>
      cases hAlike with
      | mismatch hMirrors =>
          refine ⟨by simp, ?_, rfl⟩
          rintro _ ⟨⟩ -
          exact ⟨_, rfl, hMirrors⟩
      | rejection hFirst hSecond =>
          rename_i first second
          refine ⟨?_, ?_, ?_⟩
          · cases first <;> cases second <;> simp
          · rintro difference hDifference hKind
            cases first with
            | mismatch found =>
                cases hDifference
                exact absurd hFirst hKind
            | failure error => cases hDifference
          · cases first <;> cases second <;> rfl

/- A surplus argument on one side is a missing one on the other. -/
theorem compare_mirrored_surplus :
    let resolver :=
      Resolver.ofTable
        [("f", .ok ⟨[⟨"x", .positionalOrKeyword, none⟩]⟩)]
    ∃ submission solution difference other,
      parseSource "submission.py" "f(1)\ng(f(2), 3)" = .ok submission ∧
        parseSource "solution.py" "f(x=1)\n\ng(f(x=2))" =
            .ok solution ∧
          (Comparison.run ⟨resolver, resolver⟩ submission solution
              ((), ())).1 = .ok (some difference) ∧
            difference.kind = .unexpected ∧
              difference.line = some 2 ∧
                (Comparison.run ⟨resolver, resolver⟩ solution
                    submission ((), ())).1 = .ok (some other) ∧
                  difference.Mirrors other := by
  intro resolver
  have hRun :
      (parseSource "submission.py" "f(1)\ng(f(2), 3)").toOption.any
          (fun submission =>
            (parseSource "solution.py"
                "f(x=1)\n\ng(f(x=2))").toOption.any
              fun solution =>
                (Comparison.run ⟨resolver, resolver⟩ submission
                  solution ((), ())).1.toOption.any fun found =>
                    found.any fun difference =>
                      difference.kind == .unexpected &&
                        difference.line == some 2) =
        true := by
    decide +kernel
  simp only [Option.any_eq_true, Bool.and_eq_true, beq_iff_eq] at hRun
  obtain ⟨submission, hSubmission, solution, hSolution, _, hFound,
    difference, rfl, hKind, hLine⟩ := hRun
  have hCompared := ok_of_toOption hFound
  obtain ⟨other, hOther, hMirrors⟩ :=
    (compare_mirrored ⟨resolver, resolver⟩ submission solution
      ((), ())).2.1 difference hCompared (by rw [hKind]; nofun)
  exact ⟨submission, solution, difference, other,
    ok_of_toOption hSubmission, ok_of_toOption hSolution, hCompared,
    hKind, hLine, hOther, hMirrors⟩

end SnippetGrader
