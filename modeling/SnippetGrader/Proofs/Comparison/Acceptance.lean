import SnippetGrader.Grading.Comparison
import SnippetGrader.Proofs.Tree.Children

/-
  What an accepted pair of nodes has in common.

  A pair is accepted if a comparison of it ends without a
  difference. One step of a comparison accepts two nodes either
  because they have the same shape and their children are
  accepted pairwise, or because they are calls whose arguments
  are bound and whose parameters are accepted pairwise.

  Key definitions include:
    * `Node.SameShape`
    * `Resolver.Answers`, `CallParts.Normalizes`
    * `Comparison.Accepts`

  Key theorems include:
    * `Comparison.accepts_node_cases`
-/

namespace SnippetGrader

------------------------------------------------------------
-- Shapes
------------------------------------------------------------

/- Whether two slots agree in all but the nodes that they hold. -/
def Slot.sameShape : Slot → Slot → Bool
  | .node _, .node _ => true
  | .optional left, .optional right => left.isSome == right.isSome
  | .nodes left, .nodes right => left.length == right.length
  | .leaf left, .leaf right => left == right
  | .leaves left, .leaves right => left == right
  | _, _ => false

/-
  Nodes of one kind with equal leaves, and with as many children
  in each slot.
-/
def Node.SameShape (left right : Node) : Prop :=
  left.kind = right.kind ∧
    List.Forall₂
      (fun (a b : String × Slot) =>
        a.1 = b.1 ∧ a.2.sameShape b.2 = true)
      left.slots right.slots

/- Slots of one shape hold as many nodes. -/
theorem Slot.length_slotChildren_eq
    {left right : Slot}
    (hShape : left.sameShape right = true) :
    (Node.slotChildren left).length =
      (Node.slotChildren right).length := by
  cases left <;> cases right <;>
    simp_all [Slot.sameShape, Node.slotChildren]
  case optional.optional left right =>
      cases left <;> cases right <;> simp_all

------------------------------------------------------------
-- Answers of Resolvers
------------------------------------------------------------

/- The answers of a resolver depend on the callee alone. -/
def Resolver.Answers
    {σ : Type}
    (resolver : Resolver σ)
    (answer : Expr → Except ResolveError Signature) :
    Prop :=
  ∀ callee state, (resolver callee state).1 = answer callee

namespace Comparison

/-
  A call that unpacks nothing, whose callee is answered by a
  signature that its arguments fit, has a normal form.
-/
def CallParts.Normalizes
    (parts : CallParts)
    (answer : Expr → Except ResolveError Signature)
    (call : NormalizedCall) :
    Prop :=
  hasUnpacking parts.args parts.keywords = false ∧
    ∃ signature,
      answer parts.callee = .ok signature ∧
        normalizeWith signature parts.callee parts.args
          parts.keywords = .ok call

theorem normalizes_of_normalize_ok
    {σ : Type}
    {resolver : Resolver σ}
    {answer : Expr → Except ResolveError Signature}
    (hAnswers : resolver.Answers answer)
    {parts : CallParts}
    {state after : σ}
    {call : NormalizedCall}
    (hNormal :
      normalize resolver parts.callee parts.args
        parts.keywords state = (.ok call, after)) :
    parts.Normalizes answer call := by
  unfold normalize at hNormal
  have hAnswer := hAnswers parts.callee state
  split at hNormal
  · simp at hNormal
  · rename_i hUnpacking
    refine ⟨by simpa using hUnpacking, ?_⟩
    cases hResolved : resolver parts.callee state with
    | mk result next =>
        rw [hResolved] at hNormal hAnswer
        cases result with
        | error fault => simp at hNormal
        | ok signature =>
            refine ⟨signature, hAnswer.symm, ?_⟩
            cases hBound :
                normalizeWith signature parts.callee
                  parts.args parts.keywords with
            | error fault => simp [hBound] at hNormal
            | ok bound =>
                simp only [hBound, Prod.mk.injEq,
                  Except.ok.injEq] at hNormal
                rw [hNormal.1]

------------------------------------------------------------
-- Sequences of Steps
------------------------------------------------------------

variable {σ τ : Type}

/- A step and what follows it are both accepted, or neither is. -/
theorem bind_eq_ok
    {α β : Type}
    {first : Comparing σ τ α}
    {next : α → Comparing σ τ β}
    {states after : σ × τ}
    {value : β}
    (hOk : (first >>= next) states = .ok value after) :
    ∃ middle between,
      first states = .ok middle between ∧
        next middle between = .ok value after := by
  change EStateM.bind first next states = .ok value after at hOk
  unfold EStateM.bind at hOk
  cases hFirst : first states with
  | ok middle between =>
      rw [hFirst] at hOk
      exact ⟨middle, between, rfl, hOk⟩
  | error divergence between => simp [hFirst] at hOk

/- No step that throws is accepted. -/
theorem throw_ne_ok
    {α : Type}
    {divergence : Divergence}
    {states after : σ × τ}
    {value : α} :
    (throw divergence : Comparing σ τ α) states ≠
      .ok value after := by
  intro hOk
  cases hOk

/- A rule accepts a pair if it ends without a difference somewhere. -/
def Accepts
    (rule : Rule σ τ)
    (left right : Option Node) :
    Prop :=
  ∃ place before after, rule left right place before = .ok () after

/- A rule that never accepts a node against an absent one. -/
def Strict (rule : Rule σ τ) : Prop :=
  (∀ node, ¬ Accepts rule none (some node)) ∧
    (∀ node, ¬ Accepts rule (some node) none)

------------------------------------------------------------
-- Lists and Slots
------------------------------------------------------------

theorem accepts_of_items_ok
    {inner : Rule σ τ}
    {pairs : List (Option Node × Option Node)}
    {place : Place}
    {before after : σ × τ}
    (hOk : items inner pairs place before = .ok () after) :
    ∀ pair ∈ pairs, Accepts inner pair.1 pair.2 := by
  induction pairs generalizing place before with
  | nil =>
      intro pair hPair
      cases hPair
  | cons first rest ih =>
      obtain ⟨left, right⟩ := first
      obtain ⟨_, between, hFirst, hRest⟩ := bind_eq_ok hOk
      intro pair hPair
      rcases List.mem_cons.mp hPair with rfl | hLater
      · exact ⟨place, before, between, hFirst⟩
      · exact ih hRest pair hLater

/-
  Lists whose items are accepted by position are equally long,
  because an item without a partner is never accepted.
-/
theorem zip_of_accepts_pairUp
    {inner : Rule σ τ}
    (hStrict : Strict inner)
    {lefts rights : List Node}
    (hPairs :
      ∀ pair ∈ pairUp lefts rights,
        Accepts inner pair.1 pair.2) :
    lefts.length = rights.length ∧
      ∀ a b, (a, b) ∈ lefts.zip rights →
        Accepts inner (some a) (some b) := by
  induction lefts generalizing rights with
  | nil =>
      cases rights with
      | nil => simp
      | cons right rights =>
          have hFirst := hPairs (none, some right) (by simp [pairUp])
          exact absurd hFirst (hStrict.1 right)
  | cons left lefts ih =>
      cases rights with
      | nil =>
          have hFirst := hPairs (some left, none) (by simp [pairUp])
          exact absurd hFirst (hStrict.2 left)
      | cons right rights =>
          have hFirst :=
            hPairs (some left, some right) (by simp [pairUp])
          have hLater :
              ∀ pair ∈ pairUp lefts rights,
                Accepts inner pair.1 pair.2 := by
            intro pair hPair
            exact hPairs pair (List.mem_cons_of_mem _ hPair)
          obtain ⟨hLength, hRest⟩ := ih hLater
          refine ⟨by simp [hLength], ?_⟩
          intro a b hMem
          rcases List.mem_cons.mp hMem with hHead | hTail
          · cases hHead
            exact hFirst
          · exact hRest a b hTail

theorem sameShape_of_slot_ok
    {inner : Rule σ τ}
    (hStrict : Strict inner)
    {left right : Node}
    {place : Place}
    {leftSlot rightSlot : Slot}
    {before after : σ × τ}
    (hOk :
      slot inner left right place leftSlot rightSlot before =
        .ok () after) :
    leftSlot.sameShape rightSlot = true ∧
      ∀ a b,
        (a, b) ∈
          (Node.slotChildren leftSlot).zip
            (Node.slotChildren rightSlot) →
        Accepts inner (some a) (some b) := by
  unfold slot at hOk
  split at hOk
  case h_1 a b =>
      refine ⟨rfl, ?_⟩
      intro a' b' hMem
      simp only [Node.slotChildren, List.zip_cons_cons,
        List.zip_nil_right, List.mem_singleton,
        Prod.mk.injEq] at hMem
      obtain ⟨rfl, rfl⟩ := hMem
      exact ⟨place, before, after, hOk⟩
  case h_2 a b =>
      have hAccepts : Accepts inner a b :=
        ⟨place, before, after, hOk⟩
      cases a with
      | none =>
          cases b with
          | none => simp [Slot.sameShape, Node.slotChildren]
          | some b => exact absurd hAccepts (hStrict.1 b)
      | some a =>
          cases b with
          | none => exact absurd hAccepts (hStrict.2 a)
          | some b =>
              simpa [Slot.sameShape, Node.slotChildren]
                using hAccepts
  case h_3 a b =>
      obtain ⟨hLength, hZip⟩ :=
        zip_of_accepts_pairUp hStrict
          (accepts_of_items_ok hOk)
      exact ⟨by simp [Slot.sameShape, hLength], hZip⟩
  case h_4 a b =>
      split at hOk
      · rename_i hEq
        exact ⟨hEq, by simp [Node.slotChildren]⟩
      · exact absurd hOk throw_ne_ok
  case h_5 a b =>
      split at hOk
      · rename_i hEq
        exact ⟨hEq, by simp [Node.slotChildren]⟩
      · exact absurd hOk throw_ne_ok
  case h_6 => exact absurd hOk throw_ne_ok

theorem sameShape_of_slots_ok
    {inner : Rule σ τ}
    (hStrict : Strict inner)
    {left right : Node}
    {place : Place}
    {leftSlots rightSlots : List (String × Slot)}
    (hLength : leftSlots.length = rightSlots.length)
    {before after : σ × τ}
    (hOk :
      slots inner left right place
        (leftSlots.zip rightSlots) before = .ok () after) :
    List.Forall₂
        (fun (a b : String × Slot) =>
          a.1 = b.1 ∧ a.2.sameShape b.2 = true)
        leftSlots rightSlots ∧
      ∀ a b,
        (a, b) ∈
          (leftSlots.flatMap fun slot =>
              Node.slotChildren slot.2).zip
            (rightSlots.flatMap fun slot =>
              Node.slotChildren slot.2) →
        Accepts inner (some a) (some b) := by
  induction leftSlots generalizing rightSlots before with
  | nil =>
      cases rightSlots with
      | nil => simp
      | cons _ _ => simp at hLength
  | cons leftSlot leftSlots ih =>
      cases rightSlots with
      | nil => simp at hLength
      | cons rightSlot rightSlots =>
          rw [List.zip_cons_cons] at hOk
          unfold slots at hOk
          split at hOk
          · rename_i hName
            obtain ⟨_, between, hSlot, hSlots⟩ :=
              bind_eq_ok hOk
            obtain ⟨hShape, hChildren⟩ :=
              sameShape_of_slot_ok hStrict hSlot
            obtain ⟨hShapes, hLater⟩ :=
              ih (by simpa using hLength) hSlots
            refine ⟨.cons ⟨by simpa using hName, hShape⟩ hShapes, ?_⟩
            intro a b hMem
            rw [List.flatMap_cons, List.flatMap_cons,
              List.zip_append
                (Slot.length_slotChildren_eq hShape)] at hMem
            rcases List.mem_append.mp hMem with hHere | hThere
            · exact hChildren a b hHere
            · exact hLater a b hThere
          · exact absurd hOk throw_ne_ok

/- Nodes of one kind that are accepted slot by slot have one shape. -/
theorem sameShape_of_bySlots_ok
    {inner : Rule σ τ}
    (hStrict : Strict inner)
    {left right : Node}
    (hKind : left.kind = right.kind)
    {place : Place}
    {before after : σ × τ}
    (hOk :
      bySlots inner left right place before = .ok () after) :
    left.SameShape right ∧
      ∀ a b, (a, b) ∈ left.children.zip right.children →
        Accepts inner (some a) (some b) := by
  have hLength : left.slots.length = right.slots.length := by
    simpa using
      congrArg List.length (Node.slotNames_eq_of_kind_eq hKind)
  obtain ⟨hShapes, hChildren⟩ :=
    sameShape_of_slots_ok hStrict hLength hOk
  exact ⟨⟨hKind, hShapes⟩, hChildren⟩

------------------------------------------------------------
-- Parameters
------------------------------------------------------------

/-
  What an accepted pair of parameters has in common: a name, and
  values of one text or accepted values that were both written.
-/
def ParamsAccepted
    (inner : Rule σ τ)
    (left right : NormalizedParam) :
    Prop :=
  left.name = right.name ∧
    (left.value.source = right.value.source ∨
      left.fromDefault = false ∧
        right.fromDefault = false ∧
          Accepts inner (some (.expr left.value))
            (some (.expr right.value)))

theorem paramsAccepted_of_param_ok
    {inner : Rule σ τ}
    {place : Place}
    {left right : NormalizedParam}
    {before after : σ × τ}
    (hOk :
      param inner place (some left) (some right) before =
        .ok () after) :
    ParamsAccepted inner left right := by
  simp only [param] at hOk
  by_cases hName : left.name = right.name
  · refine ⟨hName, ?_⟩
    by_cases hText : left.value.source = right.value.source
    · exact Or.inl hText
    · by_cases hDefault :
          (left.fromDefault || right.fromDefault) = true
      · simp only [hName, bne_self_eq_false,
          Bool.false_eq_true, if_false, beq_iff_eq, hText,
          hDefault, if_true] at hOk
        exact absurd hOk throw_ne_ok
      · simp only [hName, bne_self_eq_false,
          Bool.false_eq_true, if_false, beq_iff_eq, hText,
          hDefault] at hOk
        simp only [Bool.or_eq_true, not_or,
          Bool.not_eq_true] at hDefault
        exact Or.inr
          ⟨hDefault.1, hDefault.2, place, before, after, hOk⟩
  · simp only [bne_iff_ne, ne_eq, hName, not_false_eq_true,
      if_true] at hOk
    exact absurd hOk throw_ne_ok

theorem paramsAccepted_of_params_ok
    {inner : Rule σ τ}
    {place : Place}
    {lefts rights : List NormalizedParam}
    {before after : σ × τ}
    (hOk :
      params inner place (pairUp lefts rights) before =
        .ok () after) :
    List.Forall₂ (ParamsAccepted inner) lefts rights := by
  induction lefts generalizing rights before with
  | nil =>
      cases rights with
      | nil => exact .nil
      | cons right rights =>
          obtain ⟨_, _, hFirst, _⟩ := bind_eq_ok hOk
          exact absurd hFirst throw_ne_ok
  | cons left lefts ih =>
      cases rights with
      | nil =>
          obtain ⟨_, _, hFirst, _⟩ := bind_eq_ok hOk
          exact absurd hFirst throw_ne_ok
      | cons right rights =>
          obtain ⟨_, _, hFirst, hRest⟩ := bind_eq_ok hOk
          exact .cons (paramsAccepted_of_param_ok hFirst) (ih hRest)

------------------------------------------------------------
-- One Step
------------------------------------------------------------

/-
  Two calls with normal forms whose callees and parameters are
  accepted pairwise.
-/
structure CallsAccepted
    (inner : Rule σ τ)
    (first second : Expr → Except ResolveError Signature)
    (left right : Node) where
  leftParts : CallParts
  rightParts : CallParts
  leftCall : NormalizedCall
  rightCall : NormalizedCall
  leftIsCall : callParts? left = some leftParts
  rightIsCall : callParts? right = some rightParts
  leftNormal : leftParts.Normalizes first leftCall
  rightNormal : rightParts.Normalizes second rightCall
  callees :
    Accepts inner (some (.expr leftParts.callee))
      (some (.expr rightParts.callee))
  params :
    List.Forall₂ (ParamsAccepted inner)
      leftCall.params rightCall.params

/-
  A step accepts two calls for the same reasons as other nodes,
  unless both have a normal form.
-/
theorem callsAccepted_of_call_ok
    {resolvers : Resolvers σ τ}
    {first second : Expr → Except ResolveError Signature}
    (hFirst : resolvers.submission.Answers first)
    (hSecond : resolvers.solution.Answers second)
    {inner : Rule σ τ}
    {left right : Node}
    {leftParts rightParts : CallParts}
    (hLeft : callParts? left = some leftParts)
    (hRight : callParts? right = some rightParts)
    {place : Place}
    {before after : σ × τ}
    (hOk :
      call resolvers inner left right leftParts rightParts
        place before = .ok () after) :
    (∃ place before,
        bySlots inner left right place before = .ok () after) ∨
      Nonempty (CallsAccepted inner first second left right) := by
  obtain ⟨⟨submission, solution⟩, between, hBoth, hRest⟩ :=
    bind_eq_ok hOk
  obtain ⟨firstState, secondState⟩ := before
  cases hSubmission :
      normalize resolvers.submission leftParts.callee
        leftParts.args leftParts.keywords firstState with
  | mk leftResult firstNext =>
  cases hSolution :
      normalize resolvers.solution rightParts.callee
        rightParts.args rightParts.keywords secondState with
  | mk rightResult secondNext =>
  simp only [normalizeBoth, hSubmission, hSolution,
    EStateM.Result.ok.injEq, Prod.mk.injEq] at hBoth
  obtain ⟨⟨rfl, rfl⟩, rfl⟩ := hBoth
  rcases leftResult with (_ | _ | _) | leftCall <;>
    rcases rightResult with (_ | _ | _) | rightCall <;>
    simp only [normalizedCall] at hRest
  -- Only two normal forms, or a callee that has none, get further.
  case ok.ok =>
      by_cases hEmpty :
          (leftCall.isEmpty && rightCall.isEmpty) = true
      · simp only [hEmpty, if_true] at hRest
        exact Or.inl ⟨_, _, hRest⟩
      · simp only [hEmpty] at hRest
        obtain ⟨_, _, hCallee, hParams⟩ := bind_eq_ok hRest
        exact Or.inr
          ⟨{ leftParts := leftParts
             rightParts := rightParts
             leftCall := leftCall
             rightCall := rightCall
             leftIsCall := hLeft
             rightIsCall := hRight
             leftNormal :=
               normalizes_of_normalize_ok hFirst hSubmission
             rightNormal :=
               normalizes_of_normalize_ok hSecond hSolution
             callees := ⟨_, _, _, hCallee⟩
             params := paramsAccepted_of_params_ok hParams }⟩
  case error.notResolvable.error.notResolvable =>
      exact Or.inl ⟨_, _, hRest⟩
  case error.notResolvable.ok => exact Or.inl ⟨_, _, hRest⟩
  case ok.error.notResolvable => exact Or.inl ⟨_, _, hRest⟩
  all_goals exact absurd hRest throw_ne_ok

/- Two nodes are accepted by shape or as calls. -/
theorem accepts_node_cases
    {resolvers : Resolvers σ τ}
    {first second : Expr → Except ResolveError Signature}
    (hFirst : resolvers.submission.Answers first)
    (hSecond : resolvers.solution.Answers second)
    {inner : Rule σ τ}
    (hStrict : Strict inner)
    {left right : Node}
    (hAccepts : Accepts (node resolvers inner) (some left) (some right)) :
    (left.SameShape right ∧
        ∀ a b, (a, b) ∈ left.children.zip right.children →
          Accepts inner (some a) (some b)) ∨
      Nonempty (CallsAccepted inner first second left right) := by
  obtain ⟨place, before, after, hOk⟩ := hAccepts
  simp only [node, bothNodes] at hOk
  by_cases hKind : left.kind = right.kind
  · simp only [hKind, beq_self_eq_true, if_true] at hOk
    cases hLeft : callParts? left with
    | none =>
        simp only [hLeft] at hOk
        exact Or.inl (sameShape_of_bySlots_ok hStrict hKind hOk)
    | some leftParts =>
        cases hRight : callParts? right with
        | none =>
            simp only [hLeft, hRight] at hOk
            exact Or.inl
              (sameShape_of_bySlots_ok hStrict hKind hOk)
        | some rightParts =>
            simp only [hLeft, hRight] at hOk
            rcases callsAccepted_of_call_ok hFirst hSecond
                hLeft hRight hOk with hSlots | hCalls
            · obtain ⟨_, _, hSlots⟩ := hSlots
              exact Or.inl
                (sameShape_of_bySlots_ok hStrict hKind hSlots)
            · exact Or.inr hCalls
  · simp only [beq_iff_eq, hKind, if_false] at hOk
    exact absurd hOk throw_ne_ok

/- A comparison to any depth pairs no node with an absent one. -/
theorem strict_toDepth
    (resolvers : Resolvers σ τ)
    (depth : Nat) :
    Strict (toDepth resolvers depth) := by
  cases depth with
  | zero =>
      constructor <;>
        · rintro node ⟨_, _, _, hOk⟩
          exact throw_ne_ok hOk
  | succ depth =>
      constructor <;>
        · rintro node ⟨_, _, _, hOk⟩
          exact throw_ne_ok hOk

end Comparison

end SnippetGrader
