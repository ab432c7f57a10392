import SnippetGrader.Proofs.Comparison.Positions
import SnippetGrader.Proofs.Comparison.Symmetry

/-
  The calls around a difference.

  A comparison can keep a trail of the calls of the submission
  that it ends inside. The trail is kept beside the state of the
  first resolver, which does not see it, and so the comparison
  runs as it does without one. Whatever lines the nodes on each
  side may start on, a difference is reported on one of these
  lines, and on a line of each call on its trail.

  Key definitions include:
    * `Comparison.trailToDepth`
    * `Node.Anchored`, `Mismatch.Anchored`
    * `Comparison.Trailed`

  Key theorems include:
    * `Comparison.normalize_onTrail`
    * `Comparison.trailed_toDepth`
-/

namespace SnippetGrader

open SnippetGrader.Comparison

variable {σ τ : Type}

------------------------------------------------------------
-- Trails
------------------------------------------------------------

/- A resolver that leaves a trail of nodes as it is. -/
def Resolver.onTrail (resolver : Resolver σ) :
    Resolver (σ × List Node) :=
  fun callee (state, trail) =>
    let (answer, after) := resolver callee state
    (answer, (after, trail))

/- Resolvers of which the first leaves a trail as it is. -/
def Resolvers.onTrail (resolvers : Resolvers σ τ) :
    Resolvers (σ × List Node) τ :=
  ⟨resolvers.submission.onTrail, resolvers.solution⟩

namespace Comparison

/- The node on the side of the submission, if it is a call. -/
def callOn (left : Option Node) : List Node :=
  left.toList.filter fun node => (callParts? node).isSome

/- A step of a comparison that puts a call on the trail if it ends there. -/
def leaving
    (left : Option Node)
    (step : Comparing (σ × List Node) τ Unit) :
    Comparing (σ × List Node) τ Unit :=
  fun states =>
    match step states with
    | .ok () after => .ok () after
    | .error divergence ((state, trail), other) =>
        .error divergence ((state, callOn left ++ trail), other)

/- Compares two nodes down to a depth, and keeps a trail. -/
def trailToDepth (resolvers : Resolvers σ τ) :
    (depth : Nat) → Rule (σ × List Node) τ
  | 0, _, _, _ => throw (.failure .unfinished)
  | depth + 1, left, right, place =>
      leaving left
        (node resolvers.onTrail (trailToDepth resolvers depth)
          left right place)

/-
  Compares two programs. The calls of the submission that the
  first difference stands in come with the answer, the outermost
  call first.
-/
def runOnTrail
    (resolvers : Resolvers σ τ)
    (submission solution : Program)
    (states : σ × τ) :
    Except CompareError (Option Mismatch) × List Node :=
  match
    trailToDepth resolvers (submission.size + 1)
      (some (.program submission)) (some (.program solution)) {}
      ((states.1, []), states.2)
  with
  | .ok _ after => (.ok none, after.1.2)
  | .error (.mismatch difference) after =>
      (.ok (some difference), after.1.2)
  | .error (.failure error) after => (.error error, after.1.2)

end Comparison

------------------------------------------------------------
-- Anchored Nodes
------------------------------------------------------------

/- Whether a line is given, and is one of the lines of a span. -/
def Span.HasLine (span : Span) : Option Nat → Prop
  | none => False
  | some line => span.startLine ≤ line ∧ line ≤ span.endLine

variable {lines others : Option Nat → Prop}
variable {calls partners : Node → Prop}

/- A node whose line is allowed, and which is allowed if it is a call. -/
structure Node.Anchored
    (lines : Option Nat → Prop)
    (calls : Node → Prop)
    (node : Node) : Prop where
  line : ∀ line, node.line? = some line → lines (some line)
  call : ∀ parts, callParts? node = some parts → calls node

/- A call on a line of its own, around everything in it. -/
structure Node.Encloses
    (calls : Node → Prop)
    (call : Node) : Prop where
  line : call.line? ≠ none
  inside : call.Everywhere (Node.Anchored call.span.HasLine calls)

/- A place on lines that are allowed. -/
structure Place.Anchored
    (lines others : Option Nat → Prop)
    (place : Place) : Prop where
  line : lines place.line
  solutionLine : others place.solutionLine

/-
  A difference on lines that are allowed, and on a line of each
  call on a trail.
-/
structure Mismatch.Anchored
    (lines others : Option Nat → Prop)
    (calls : Node → Prop)
    (trail : List Node)
    (difference : Mismatch) : Prop where
  line : lines difference.line
  solutionLine : others difference.solutionLine
  around : ∀ call ∈ trail, calls call ∧ call.span.HasLine difference.line

/- What is in no text is anchored, unless it is a call. -/
theorem Node.anchored_of_synthetic
    {form : ExprForm Expr}
    (hForm : callParts? (.expr (.synthetic form)) = none) :
    Node.Anchored lines calls (.expr (.synthetic form)) := by
  refine ⟨fun line hLine => ?_, fun parts hParts => ?_⟩
  · cases hLine
  · rw [hForm] at hParts
    cases hParts

------------------------------------------------------------
-- Anchored Places
------------------------------------------------------------

/- What stands on one side, anchored down to its last node. -/
def AnchoredSide
    (lines : Option Nat → Prop)
    (calls : Node → Prop)
    (side : Option Node) :
    Prop :=
  ∀ node ∈ side, node.Everywhere (Node.Anchored lines calls)

theorem anchoredSide_some
    {node : Node}
    (hNode : node.Everywhere (Node.Anchored lines calls)) :
    AnchoredSide lines calls (some node) := by
  rintro _ ⟨⟩
  exact hNode

/- The written parameters among some have anchored values. -/
abbrev AnchoredParams
    (lines : Option Nat → Prop)
    (calls : Node → Prop)
    (params : List NormalizedParam) :
    Prop :=
  WrittenParams (Node.Everywhere (Node.Anchored lines calls)) params

section Places

variable {place : Place}

theorem Place.anchored_lineOf
    {side : Option Node}
    {line : Option Nat}
    (hSide : AnchoredSide lines calls side)
    (hLine : lines line) :
    lines (Place.lineOf side line) := by
  cases side with
  | none => exact hLine
  | some node =>
      change lines (node.line?.or line)
      cases hNode : node.line? with
      | none => exact hLine
      | some number => exact (hSide node rfl).atNode.line number hNode

theorem Place.Anchored.enter
    (hPlace : place.Anchored lines others)
    {left right : Option Node}
    (hLeft : AnchoredSide lines calls left)
    (hRight : AnchoredSide others partners right) :
    (place.enter left right).Anchored lines others :=
  ⟨anchored_lineOf hLeft hPlace.line,
    anchored_lineOf hRight hPlace.solutionLine⟩

theorem Place.Anchored.inside
    (hPlace : place.Anchored lines others)
    (call : String) :
    (place.inside call).Anchored lines others :=
  ⟨hPlace.line, hPlace.solutionLine⟩

theorem AnchoredParams.side
    {param : Option NormalizedParam}
    (hParam : AnchoredParams lines calls param.toList) :
    AnchoredSide lines calls
      ((param.filter fun param => !param.fromDefault).map
        fun param => .expr param.value) := by
  intro node hNode
  obtain ⟨found, hFound, rfl⟩ := Option.map_eq_some_iff.mp hNode
  obtain ⟨rfl, hDefault⟩ := Option.filter_eq_some_iff.mp hFound
  exact hParam found (by simp) (by simpa using hDefault)

/- A default anchors nothing, wherever its callee is declared. -/
theorem Place.Anchored.atParams
    (hPlace : place.Anchored lines others)
    {left right : Option NormalizedParam}
    (hLeft : AnchoredParams lines calls left.toList)
    (hRight : AnchoredParams others partners right.toList) :
    (place.atParams left right).Anchored lines others :=
  hPlace.enter hLeft.side hRight.side

end Places

namespace Comparison

------------------------------------------------------------
-- Steps with a Trail
------------------------------------------------------------

/-
  The same outcome without a trail and with one. If the outcome is
  a difference, it is anchored.
-/
inductive EndsOnTrail
    (lines others : Option Nat → Prop)
    (calls : Node → Prop) :
    EStateM.Result Divergence (σ × τ) Unit →
    EStateM.Result Divergence ((σ × List Node) × τ) Unit →
    Prop
  | finished
      (state : σ)
      (other : τ) :
      EndsOnTrail lines others calls (.ok () (state, other))
        (.ok () ((state, []), other))
  | stopped
      {difference : Mismatch}
      {trail : List Node}
      (anchored : difference.Anchored lines others calls trail)
      (state : σ)
      (other : τ) :
      EndsOnTrail lines others calls
        (.error (.mismatch difference) (state, other))
        (.error (.mismatch difference) ((state, trail), other))
  | failed
      (error : CompareError)
      (trail : List Node)
      (state : σ)
      (other : τ) :
      EndsOnTrail lines others calls
        (.error (.failure error) (state, other))
        (.error (.failure error) ((state, trail), other))

/- Steps with the same outcome, without a trail and with one. -/
def Trailed
    (lines others : Option Nat → Prop)
    (calls : Node → Prop)
    (step : Comparing σ τ Unit)
    (other : Comparing (σ × List Node) τ Unit) :
    Prop :=
  ∀ state rest,
    EndsOnTrail lines others calls (step (state, rest))
      (other ((state, []), rest))

theorem trailed_return :
    Trailed lines others calls (return () : Comparing σ τ Unit)
      (return ()) :=
  fun state rest => .finished state rest

theorem trailed_mismatch
    {place : Place}
    (hPlace : place.Anchored lines others)
    (kind : MismatchKind)
    (submission solution : Option Rendered) :
    Trailed lines others calls
      (throw (place.mismatch kind submission solution) :
        Comparing σ τ Unit)
      (throw (place.mismatch kind submission solution)) := by
  refine fun state rest => .stopped ⟨hPlace.line, hPlace.solutionLine, ?_⟩ _ _
  exact List.forall_mem_nil _

theorem trailed_failure
    (error : CompareError) :
    Trailed lines others calls
      (throw (.failure error) : Comparing σ τ Unit)
      (throw (.failure error)) :=
  fun state rest => .failed error [] state rest

theorem Trailed.andThen
    {first next : Comparing σ τ Unit}
    {other later : Comparing (σ × List Node) τ Unit}
    (hFirst : Trailed lines others calls first other)
    (hNext : Trailed lines others calls next later) :
    Trailed lines others calls
      (do
        first
        next)
      (do
        other
        later) := by
  intro state rest
  have hHere := hFirst state rest
  change EndsOnTrail lines others calls
    (EStateM.bind first (fun _ => next) (state, rest))
    (EStateM.bind other (fun _ => later) ((state, []), rest))
  unfold EStateM.bind
  generalize first (state, rest) = result at hHere
  generalize other ((state, []), rest) = trailing at hHere
  cases hHere with
  | finished after rest => exact hNext after rest
  | stopped hAnchored after rest => exact .stopped hAnchored after rest
  | failed error trail after rest => exact .failed error trail after rest

theorem trailed_ite
    {condition : Bool}
    {first next : Comparing σ τ Unit}
    {other later : Comparing (σ × List Node) τ Unit}
    (hTrue : Trailed lines others calls first other)
    (hFalse :
      condition = false → Trailed lines others calls next later) :
    Trailed lines others calls (if condition then first else next)
      (if condition then other else later) := by
  cases condition with
  | true => exact hTrue
  | false => exact hFalse rfl

/-
  A step inside a call ends on a line of the call. The nodes in
  the call are anchored to its lines, too, and so the step is
  known to end on one of them.
-/
theorem trailed_leaving
    {left : Option Node}
    {step : Comparing σ τ Unit}
    {other : Comparing (σ × List Node) τ Unit}
    (hStep : Trailed lines others calls step other)
    (hCall :
      ∀ call ∈ callOn left,
        calls call ∧
          Trailed call.span.HasLine (fun _ => True) calls step other) :
    Trailed lines others calls step (leaving left other) := by
  intro state rest
  have hHere := hStep state rest
  have hInside (call : Node) (hMem : call ∈ callOn left) :=
    (hCall call hMem).2 state rest
  unfold leaving
  generalize step (state, rest) = result at hHere hInside ⊢
  generalize other ((state, []), rest) = trailing at hHere hInside ⊢
  cases hHere with
  | finished after rest => exact .finished after rest
  | failed error trail after rest => exact .failed error _ after rest
  | stopped hAnchored after rest =>
      refine .stopped ⟨hAnchored.line, hAnchored.solutionLine, ?_⟩ _ _
      intro call hMem
      rcases List.mem_append.mp hMem with hHere | hBelow
      · cases hInside call hHere with
        | stopped hOwn => exact ⟨(hCall call hHere).1, hOwn.line⟩
      · exact hAnchored.around call hBelow

------------------------------------------------------------
-- Lists and Slots
------------------------------------------------------------

/- Rules that end alike on all anchored nodes. -/
def TrailedOn
    (lines others : Option Nat → Prop)
    (calls partners : Node → Prop)
    (inner : Rule σ τ)
    (other : Rule (σ × List Node) τ) :
    Prop :=
  ∀ left right place,
    AnchoredSide lines calls left →
      AnchoredSide others partners right →
        (place.enter left right).Anchored lines others →
          Trailed lines others calls (inner left right place)
            (other left right place)

variable {inner : Rule σ τ}
variable {other : Rule (σ × List Node) τ}
variable {place : Place}

theorem TrailedOn.below
    (hInner : TrailedOn lines others calls partners inner other)
    (hPlace : place.Anchored lines others)
    {left right : Option Node}
    (hLeft : AnchoredSide lines calls left)
    (hRight : AnchoredSide others partners right) :
    Trailed lines others calls (inner left right place)
      (other left right place) :=
  hInner left right place hLeft hRight (hPlace.enter hLeft hRight)

theorem anchoredSide_of_mem_pairUp
    {lefts rights : List Node}
    (hLeft :
      ∀ node ∈ lefts, node.Everywhere (Node.Anchored lines calls))
    (hRight :
      ∀ node ∈ rights, node.Everywhere (Node.Anchored others partners))
    {pair : Option Node × Option Node}
    (hPair : pair ∈ pairUp lefts rights) :
    AnchoredSide lines calls pair.1 ∧
      AnchoredSide others partners pair.2 := by
  obtain ⟨hFirst, hSecond⟩ := of_mem_pairUp hPair
  exact ⟨fun node hNode => hLeft node (hFirst node hNode),
    fun node hNode => hRight node (hSecond node hNode)⟩

/-
  The lines of a pair are carried on to the next, and so it is
  enough if the place of the first pair is anchored.
-/
theorem trailed_items
    (hInner : TrailedOn lines others calls partners inner other)
    {pairs : List (Option Node × Option Node)}
    (hPairs :
      ∀ pair ∈ pairs,
        AnchoredSide lines calls pair.1 ∧
          AnchoredSide others partners pair.2)
    (hFirst :
      ∀ pair ∈ pairs.head?,
        (place.enter pair.1 pair.2).Anchored lines others) :
    Trailed lines others calls (items inner pairs place)
      (items other pairs place) := by
  induction pairs generalizing place with
  | nil => exact trailed_return
  | cons pair rest ih =>
      obtain ⟨left, right⟩ := pair
      rw [List.forall_mem_cons] at hPairs
      have hHere := hFirst (left, right) rfl
      refine (hInner left right place hPairs.1.1 hPairs.1.2 hHere).andThen
        (ih hPairs.2 fun pair hPair => ?_)
      have hNext := hPairs.2 pair (List.mem_of_head? hPair)
      exact hHere.enter hNext.1 hNext.2

theorem trailed_slot
    (hInner : TrailedOn lines others calls partners inner other)
    (left right : Node)
    {leftSlot rightSlot : Slot}
    (hLeft :
      ∀ node ∈ Node.slotChildren leftSlot,
        node.Everywhere (Node.Anchored lines calls))
    (hRight :
      ∀ node ∈ Node.slotChildren rightSlot,
        node.Everywhere (Node.Anchored others partners))
    (hPlace : place.Anchored lines others) :
    Trailed lines others calls
      (slot inner left right place leftSlot rightSlot)
      (slot other left right place leftSlot rightSlot) := by
  have hDifferent :
      Trailed lines others calls
        (throw (place.difference left right) : Comparing σ τ Unit)
        (throw (place.difference left right)) :=
    trailed_mismatch hPlace _ _ _
  cases leftSlot <;> cases rightSlot
  case node.node a b =>
      exact hInner.below hPlace
        (anchoredSide_some (hLeft a (List.mem_singleton_self a)))
        (anchoredSide_some (hRight b (List.mem_singleton_self b)))
  case optional.optional a b =>
      refine hInner.below hPlace ?_ ?_
      · exact fun node hNode => hLeft node (Option.mem_toList.mpr hNode)
      · exact fun node hNode => hRight node (Option.mem_toList.mpr hNode)
  case nodes.nodes a b =>
      refine trailed_items hInner
        (fun _ => anchoredSide_of_mem_pairUp hLeft hRight)
        fun pair hPair => ?_
      obtain ⟨hFirst, hSecond⟩ :=
        anchoredSide_of_mem_pairUp hLeft hRight (List.mem_of_head? hPair)
      exact hPlace.enter hFirst hSecond
  case leaf.leaf a b =>
      exact trailed_ite trailed_return fun _ => hDifferent
  case leaves.leaves a b =>
      exact trailed_ite trailed_return fun _ => hDifferent
  all_goals exact hDifferent

theorem trailed_slots
    (hInner : TrailedOn lines others calls partners inner other)
    (left right : Node)
    {pairs : List ((String × Slot) × (String × Slot))}
    (hPairs :
      ∀ pair ∈ pairs,
        (∀ node ∈ Node.slotChildren pair.1.2,
            node.Everywhere (Node.Anchored lines calls)) ∧
          ∀ node ∈ Node.slotChildren pair.2.2,
            node.Everywhere (Node.Anchored others partners))
    (hPlace : place.Anchored lines others) :
    Trailed lines others calls (slots inner left right place pairs)
      (slots other left right place pairs) := by
  induction pairs with
  | nil => exact trailed_return
  | cons pair rest ih =>
      obtain ⟨⟨leftName, leftSlot⟩, ⟨rightName, rightSlot⟩⟩ := pair
      rw [List.forall_mem_cons] at hPairs
      refine trailed_ite ?_ fun _ => trailed_mismatch hPlace _ _ _
      exact (trailed_slot hInner left right hPairs.1.1 hPairs.1.2
        hPlace).andThen (ih hPairs.2)

variable {left right : Node}

theorem trailed_bySlots
    (hInner : TrailedOn lines others calls partners inner other)
    (hLeft : left.Everywhere (Node.Anchored lines calls))
    (hRight : right.Everywhere (Node.Anchored others partners))
    (hPlace : place.Anchored lines others) :
    Trailed lines others calls (bySlots inner left right place)
      (bySlots other left right place) := by
  refine trailed_slots hInner left right (fun pair hPair => ?_) hPlace
  obtain ⟨hFirst, hSecond⟩ := List.of_mem_zip hPair
  exact
    ⟨fun node hNode =>
        hLeft.atChild (List.mem_flatMap.mpr ⟨_, hFirst, hNode⟩),
      fun node hNode =>
        hRight.atChild (List.mem_flatMap.mpr ⟨_, hSecond, hNode⟩)⟩

------------------------------------------------------------
-- Calls
------------------------------------------------------------

theorem trailed_param
    (hInner : TrailedOn lines others calls partners inner other)
    {left right : Option NormalizedParam}
    (hLeft : AnchoredParams lines calls left.toList)
    (hRight : AnchoredParams others partners right.toList)
    (hPlace : place.Anchored lines others) :
    Trailed lines others calls (param inner place left right)
      (param other place left right) := by
  have hHere := hPlace.atParams hLeft hRight
  cases left with
  | none =>
      cases right with
      | none => exact trailed_return
      | some right => exact trailed_mismatch hHere _ _ _
  | some left =>
      cases right with
      | none => exact trailed_mismatch hHere _ _ _
      | some right =>
          refine trailed_ite (trailed_mismatch hHere _ _ _) fun _ => ?_
          refine trailed_ite trailed_return fun _ => ?_
          refine trailed_ite (trailed_mismatch hHere _ _ _)
            fun hWritten => ?_
          rw [Bool.or_eq_false_iff] at hWritten
          exact hInner.below hPlace
            (anchoredSide_some (hLeft left (by simp) hWritten.1))
            (anchoredSide_some (hRight right (by simp) hWritten.2))

theorem trailed_params
    (hInner : TrailedOn lines others calls partners inner other)
    {pairs : List (Option NormalizedParam × Option NormalizedParam)}
    (hPairs :
      ∀ pair ∈ pairs,
        AnchoredParams lines calls pair.1.toList ∧
          AnchoredParams others partners pair.2.toList)
    (hPlace : place.Anchored lines others) :
    Trailed lines others calls (params inner place pairs)
      (params other place pairs) := by
  induction pairs with
  | nil => exact trailed_return
  | cons pair rest ih =>
      rw [List.forall_mem_cons] at hPairs
      exact (trailed_param hInner hPairs.1.1 hPairs.1.2 hPlace).andThen
        (ih hPairs.2)

theorem trailed_boundCall
    (hInner : TrailedOn lines others calls partners inner other)
    {leftCallee rightCallee : Expr}
    (hLeftCallee :
      (Node.expr leftCallee).Everywhere (Node.Anchored lines calls))
    (hRightCallee :
      (Node.expr rightCallee).Everywhere (Node.Anchored others partners))
    {left right : NormalizedCall}
    (hLeft : AnchoredParams lines calls left.params)
    (hRight : AnchoredParams others partners right.params)
    (hPlace : place.Anchored lines others) :
    Trailed lines others calls
      (boundCall inner leftCallee rightCallee left right place)
      (boundCall other leftCallee rightCallee left right place) := by
  have hInside := hPlace.inside left.text
  refine (hInner.below hInside (anchoredSide_some hLeftCallee)
    (anchoredSide_some hRightCallee)).andThen ?_
  refine trailed_params hInner (fun pair hPair => ?_) hInside
  obtain ⟨hFirst, hSecond⟩ := of_mem_pairUp hPair
  exact
    ⟨fun param hParam => hLeft param (hFirst param (by simpa using hParam)),
      fun param hParam => hRight param (hSecond param (by simpa using hParam))⟩

/- The values that are written in a call are anchored in its normal form. -/
theorem anchoredParams_normalize
    {ρ : Type}
    (resolver : Resolver ρ)
    {node : Node}
    (hNode : node.Everywhere (Node.Anchored lines calls))
    {parts : CallParts}
    (hParts : callParts? node = some parts)
    (state : ρ)
    {call : NormalizedCall}
    (hCall :
      (normalize resolver parts.callee parts.args parts.keywords
        state).1 = .ok call) :
    AnchoredParams lines calls call.params := by
  obtain ⟨signature, hNormal⟩ := normalizeWith_of_normalize hCall
  have hArguments :=
    hNode.arguments (fun _ => Node.anchored_of_synthetic) hParts
  exact written_of_normalizeWith hArguments hNormal

theorem trailed_normalizedCall
    (hInner : TrailedOn lines others calls partners inner other)
    (hLeft : left.Everywhere (Node.Anchored lines calls))
    (hRight : right.Everywhere (Node.Anchored others partners))
    {leftParts rightParts : CallParts}
    (hLeftParts : callParts? left = some leftParts)
    (hRightParts : callParts? right = some rightParts)
    {submission solution : Except NormalizeError NormalizedCall}
    (hSubmission :
      ∀ call, submission = .ok call →
        AnchoredParams lines calls call.params)
    (hSolution :
      ∀ call, solution = .ok call →
        AnchoredParams others partners call.params)
    (hPlace : place.Anchored lines others) :
    Trailed lines others calls
      (normalizedCall inner left right leftParts rightParts place
        submission solution)
      (normalizedCall other left right leftParts rightParts place
        submission solution) := by
  have hSlots :
      Trailed lines others calls
        (bySlots inner left right (place.inside left.text))
        (bySlots other left right (place.inside left.text)) :=
    trailed_bySlots hInner hLeft hRight (hPlace.inside _)
  have hRejected :
      Place.Anchored lines others { place with parent := none } :=
    ⟨hPlace.line, hPlace.solutionLine⟩
  rcases submission with (callee | fault | detail) | leftCall <;>
    rcases solution with (other | fault' | detail') | rightCall
  case ok.ok =>
      refine trailed_ite hSlots fun _ => ?_
      exact trailed_boundCall hInner
        (hLeft.atChild (callee_mem_children hLeftParts))
        (hRight.atChild (callee_mem_children hRightParts))
        (hSubmission _ rfl) (hSolution _ rfl) hPlace
  all_goals
    first
    | exact hSlots
    | exact trailed_failure _
    | exact trailed_mismatch hRejected _ _ _

/- A resolver answers beside a trail what it answers without one. -/
theorem normalize_onTrail
    (resolver : Resolver σ)
    (callee : Expr)
    (args : List Expr)
    (keywords : List (KeywordArg Expr))
    (state : σ)
    (trail : List Node) :
    normalize resolver.onTrail callee args keywords (state, trail) =
      (normalize resolver callee args keywords state).map id (·, trail) := by
  unfold normalize
  split
  · rfl
  · simp only [Resolver.onTrail]
    generalize resolver callee state = answer
    obtain ⟨fault | signature, after⟩ := answer
    · rfl
    · dsimp only
      split <;> rfl

theorem trailed_call
    (resolvers : Resolvers σ τ)
    (hInner : TrailedOn lines others calls partners inner other)
    (hLeft : left.Everywhere (Node.Anchored lines calls))
    (hRight : right.Everywhere (Node.Anchored others partners))
    {leftParts rightParts : CallParts}
    (hLeftParts : callParts? left = some leftParts)
    (hRightParts : callParts? right = some rightParts)
    (hPlace : place.Anchored lines others) :
    Trailed lines others calls
      (call resolvers inner left right leftParts rightParts place)
      (call resolvers.onTrail other left right leftParts rightParts
        place) := by
  intro state rest
  have hHere :=
    trailed_normalizedCall hInner hLeft hRight hLeftParts hRightParts
      (fun _ =>
        anchoredParams_normalize resolvers.submission hLeft hLeftParts state)
      (fun _ =>
        anchoredParams_normalize resolvers.solution hRight hRightParts rest)
      hPlace
  change EndsOnTrail lines others calls _
    (normalizedCall other left right leftParts rightParts place
      (normalize resolvers.submission.onTrail leftParts.callee
        leftParts.args leftParts.keywords (state, [])).1 _
      ((normalize resolvers.submission.onTrail leftParts.callee
        leftParts.args leftParts.keywords (state, [])).2, _))
  rw [normalize_onTrail]
  exact hHere _ _

------------------------------------------------------------
-- Nodes
------------------------------------------------------------

theorem trailed_bothNodes
    (resolvers : Resolvers σ τ)
    (hInner : TrailedOn lines others calls partners inner other)
    (hLeft : left.Everywhere (Node.Anchored lines calls))
    (hRight : right.Everywhere (Node.Anchored others partners))
    (hPlace : place.Anchored lines others) :
    Trailed lines others calls (bothNodes resolvers inner left right place)
      (bothNodes resolvers.onTrail other left right place) := by
  have hSlots := trailed_bySlots hInner hLeft hRight hPlace
  refine trailed_ite ?_ fun _ => trailed_mismatch hPlace _ _ _
  cases hLeftParts : callParts? left with
  | none => cases callParts? right <;> exact hSlots
  | some leftParts =>
      cases hRightParts : callParts? right with
      | none => exact hSlots
      | some rightParts =>
          exact trailed_call resolvers hInner hLeft hRight hLeftParts
            hRightParts hPlace

theorem trailed_node
    (resolvers : Resolvers σ τ)
    (hInner : TrailedOn lines others calls partners inner other) :
    TrailedOn lines others calls partners (node resolvers inner)
      (node resolvers.onTrail other) := by
  intro left right place hLeft hRight hPlace
  cases left with
  | none =>
      cases right with
      | none => exact trailed_return
      | some right => exact trailed_mismatch hPlace _ _ _
  | some left =>
      cases right with
      | none => exact trailed_mismatch hPlace _ _ _
      | some right =>
          exact trailed_bothNodes resolvers hInner (hLeft left rfl)
            (hRight right rfl) hPlace

theorem mem_callOn
    {side : Option Node}
    {call : Node} :
    call ∈ callOn side ↔
      side = some call ∧ ∃ parts, callParts? call = some parts := by
  simp [callOn, Option.isSome_iff_exists]

/- Everything is anchored to no line in particular. -/
theorem anchored_anywhere
    (side : Option Node) :
    AnchoredSide (fun _ => True) (fun _ => True) side :=
  fun node _ =>
    Node.everywhere_of_forall
      (fun _ => ⟨fun _ _ => trivial, fun _ _ => trivial⟩) node

/-
  A comparison has the same outcome with a trail and without one,
  and if it is a difference, it is anchored. The induction is on
  the depth, for all lines at once. In a call it is used twice:
  for the lines around the call, and for those of the call.
-/
theorem trailed_toDepth
    (resolvers : Resolvers σ τ)
    (hCalls : ∀ call, calls call → call.Encloses calls)
    (depth : Nat) :
    TrailedOn lines others calls partners (toDepth resolvers depth)
      (trailToDepth resolvers depth) := by
  induction depth generalizing lines others partners with
  | zero => exact fun left right place _ _ _ => trailed_failure .unfinished
  | succ depth ih =>
      intro left right place hLeft hRight hPlace
      refine trailed_leaving
        (trailed_node resolvers ih left right place hLeft hRight hPlace)
        fun call hCall => ?_
      obtain ⟨rfl, parts, hParts⟩ := mem_callOn.mp hCall
      have hAllowed := (hLeft call rfl).atNode.call parts hParts
      have hEncloses := hCalls call hAllowed
      refine ⟨hAllowed, trailed_node resolvers ih (some call) right place
        (anchoredSide_some hEncloses.inside) (anchored_anywhere right)
        ⟨?_, trivial⟩⟩
      change call.span.HasLine (call.line?.or place.line)
      obtain ⟨line, hLine⟩ := Option.ne_none_iff_exists'.mp hEncloses.line
      rw [hLine]
      exact hEncloses.inside.atNode.line line hLine

end Comparison

end SnippetGrader
