import SnippetGrader.Proofs.Comparison.Reflexivity

/-
  Calls that a comparison looks at.

  A program is compared with itself through the calls that the
  comparison comes to. It does not come to a call inside an
  argument of another one that has a normal form, because
  arguments of one text are taken to be the same. So a call
  whose arguments do not fit is reported exactly if it is
  exposed.

  Key definitions include:
    * `Comparison.CallParts.Malformed`, `Comparison.CallParts.Stranded`
    * `Node.LooksInto`, `Node.Exposes`

  Key theorems include:
    * `Walk.any_isFault_ofNode_iff`
    * `compare_self_accepts_iff`
-/

namespace SnippetGrader

open SnippetGrader.Comparison

variable {σ : Type}
variable {resolver : Resolver σ}
variable {answer : Expr → Except ResolveError Signature}

------------------------------------------------------------
-- Faulty Calls
------------------------------------------------------------

namespace Comparison.CallParts

/- A call whose arguments do not fit the signature of its callee. -/
def Malformed
    (parts : CallParts)
    (answer : Expr → Except ResolveError Signature) :
    Prop :=
  hasUnpacking parts.args parts.keywords = false ∧
    ∃ signature fault,
      answer parts.callee = .ok signature ∧
        signature.bind parts.args (namedKeywords parts.keywords) =
          .error fault

/- A call of a callee around which the snippet cannot be run. -/
def Stranded
    (parts : CallParts)
    (answer : Expr → Except ResolveError Signature) :
    Prop :=
  hasUnpacking parts.args parts.keywords = false ∧
    ∃ detail, answer parts.callee = .error (.environment detail)

end Comparison.CallParts

/- A call that ends a comparison. -/
def Node.Faulty
    (node : Node)
    (answer : Expr → Except ResolveError Signature) :
    Prop :=
  ∃ parts,
    callParts? node = some parts ∧
      (parts.Malformed answer ∨ parts.Stranded answer)

/- A walk ends at a call that is malformed or stranded. -/
theorem isFault_normalizing_iff
    (hAnswers : resolver.Answers answer)
    (parts : CallParts)
    (state : σ) :
    (Walk.normalizing resolver parts state).1.isFault = true ↔
      parts.Malformed answer ∨ parts.Stranded answer := by
  have hAnswer := hAnswers parts.callee state
  unfold Walk.normalizing normalize CallParts.Malformed
    CallParts.Stranded
  cases hasUnpacking parts.args parts.keywords with
  | true => simp [Normalized.isFault]
  | false =>
      rw [← hAnswer]
      rcases resolver parts.callee state with
        ⟨(callee | detail) | signature, after⟩
      · simp [Normalized.isFault, NormalizeError.ofResolve]
      · simp [Normalized.isFault, NormalizeError.ofResolve]
      · simp only [normalizeWith, Bool.false_eq_true, if_false]
        cases hBind :
            signature.bind parts.args
              (namedKeywords parts.keywords) with
        | ok bound => simp [Normalized.isFault, hBind]
        | error fault => simp [Normalized.isFault, hBind]

------------------------------------------------------------
-- Exposed Nodes
------------------------------------------------------------

/-
  The nodes below a node that a comparison looks into: the
  callee of a call, and everything below any node but a call
  with a normal form that has parameters.
-/
inductive Node.LooksInto
    (answer : Expr → Except ResolveError Signature)
    (node : Node) :
    Node → Prop
  | callee
      {parts : CallParts}
      (isCall : callParts? node = some parts) :
      LooksInto answer node (.expr parts.callee)
  | child
      {child : Node}
      (below : child ∈ node.children)
      (unbound :
        ∀ parts call,
          callParts? node = some parts →
            parts.Normalizes answer call →
              call.isEmpty = true) :
      LooksInto answer node child

theorem Node.LooksInto.of_not_call
    {node child : Node}
    (hBelow : child ∈ node.children)
    (hCall : callParts? node = none) :
    node.LooksInto answer child := by
  refine .child hBelow fun parts _ hParts => ?_
  rw [hCall] at hParts
  cases hParts

/- A node that a comparison of another one comes to. -/
def Node.Exposes
    (answer : Expr → Except ResolveError Signature) :
    Node → Node → Prop :=
  Relation.ReflTransGen (Node.LooksInto answer)

/- Some exposed call ends a comparison. -/
def Node.ExposesFault
    (answer : Expr → Except ResolveError Signature)
    (node : Node) :
    Prop :=
  ∃ call, node.Exposes answer call ∧ call.Faulty answer

theorem Node.LooksInto.mem_children
    {node child : Node}
    (hInto : node.LooksInto answer child) :
    child ∈ node.children := by
  cases hInto with
  | callee hCall => exact callee_mem_children hCall
  | child hBelow _ => exact hBelow

theorem Node.exposesFault_iff
    (node : Node) :
    node.ExposesFault answer ↔
      node.Faulty answer ∨
        ∃ child,
          node.LooksInto answer child ∧
            child.ExposesFault answer := by
  constructor
  · rintro ⟨call, hExposes, hFaulty⟩
    rcases hExposes.cases_head with rfl | ⟨child, hInto, hBelow⟩
    · exact Or.inl hFaulty
    · exact Or.inr ⟨child, hInto, call, hBelow, hFaulty⟩
  · rintro (hFaulty | ⟨child, hInto, call, hBelow, hFaulty⟩)
    · exact ⟨node, .refl, hFaulty⟩
    · exact ⟨call, .head hInto hBelow, hFaulty⟩

------------------------------------------------------------
-- Walks over Exposed Nodes
------------------------------------------------------------

namespace Walk

/- A walk after another one meets the faults of both. -/
theorem any_isFault_andThen
    (first second : Walk σ)
    (state : σ) :
    (first.andThen second state).1.any Normalized.isFault =
      ((first state).1.any Normalized.isFault ||
        (second (first state).2).1.any Normalized.isFault) := by
  unfold andThen
  cases hFirst : (first state).1.any Normalized.isFault with
  | true => simp [hFirst]
  | false => simp [hFirst, List.any_append]

/- The faults of a walk over several nodes are those of each. -/
theorem any_isFault_overAll_iff
    {walk : Node → Walk σ}
    {Fails : Node → Prop}
    {nodes : List Node}
    (hNodes :
      ∀ node ∈ nodes, ∀ state,
        (walk node state).1.any Normalized.isFault = true ↔
          Fails node)
    (state : σ) :
    (overAll walk nodes state).1.any Normalized.isFault = true ↔
      ∃ node ∈ nodes, Fails node := by
  induction nodes generalizing state with
  | nil => simp [overAll, idle]
  | cons node rest ih =>
      have hRest :=
        ih (fun other hOther =>
          hNodes other (List.mem_cons_of_mem _ hOther))
      rw [overAll, any_isFault_andThen, Bool.or_eq_true,
        hNodes node List.mem_cons_self, hRest,
        List.exists_mem_cons_iff]

/- A walk finds the normal form of a call that has one. -/
theorem normalizing_of_normalizes
    (hAnswers : resolver.Answers answer)
    {parts : CallParts}
    {call : NormalizedCall}
    (hNormal : parts.Normalizes answer call)
    (state : σ) :
    (normalizing resolver parts state).1 = .ok call := by
  obtain ⟨hUnpacking, signature, hSignature, hBound⟩ := hNormal
  have hAnswer := hAnswers parts.callee state
  rw [hSignature] at hAnswer
  unfold normalizing normalize
  rw [hUnpacking]
  generalize resolver parts.callee state = found at hAnswer
  obtain ⟨result, after⟩ := found
  cases hAnswer
  simp [hBound]

/- What a walk meets below a call is what the call looks into. -/
theorem any_isFault_belowCall_iff
    (hAnswers : resolver.Answers answer)
    {walk : Node → Walk σ}
    {Fails : Node → Prop}
    {node : Node}
    {parts : CallParts}
    (hParts : callParts? node = some parts)
    (hChildren :
      ∀ child ∈ node.children, ∀ state,
        (walk child state).1.any Normalized.isFault = true ↔
          Fails child)
    (state after : σ) :
    (belowCall walk node parts
        (normalizing resolver parts state).1 after).1.any
          Normalized.isFault = true ↔
      ∃ child, node.LooksInto answer child ∧ Fails child := by
  have hOpen
      (hUnbound :
        ∀ call, parts.Normalizes answer call → call.isEmpty = true) :
      (overAll walk node.children after).1.any
          Normalized.isFault = true ↔
        ∃ child, node.LooksInto answer child ∧ Fails child := by
    rw [any_isFault_overAll_iff hChildren]
    constructor
    · rintro ⟨child, hChild, hFails⟩
      refine ⟨child, .child hChild ?_, hFails⟩
      intro other call hOther hNormal
      rw [hParts] at hOther
      cases hOther
      exact hUnbound call hNormal
    · rintro ⟨child, hInto, hFails⟩
      exact ⟨child, hInto.mem_children, hFails⟩
  cases hResult : (normalizing resolver parts state).1 with
  | error fault =>
      refine hOpen ?_
      intro call hNormal
      rw [normalizing_of_normalizes hAnswers hNormal] at hResult
      cases hResult
  | ok found =>
      have hFound : parts.Normalizes answer found :=
        normalizes_of_normalize_ok hAnswers
          (Prod.ext hResult rfl :
            normalizing resolver parts state = (.ok found, _))
      cases hEmpty : found.isEmpty with
      | true =>
          simp only [belowCall, hEmpty, if_true]
          refine hOpen ?_
          intro call hNormal
          rw [normalizing_of_normalizes hAnswers hNormal] at hResult
          cases hResult
          exact hEmpty
      | false =>
          simp only [belowCall, hEmpty, Bool.false_eq_true, if_false]
          rw [hChildren _ (callee_mem_children hParts)]
          constructor
          · intro hFails
            exact ⟨_, .callee hParts, hFails⟩
          · rintro ⟨child, hInto, hFails⟩
            cases hInto with
            | callee hCall =>
                rw [hParts] at hCall
                cases hCall
                exact hFails
            | child _ hUnbound =>
                rw [hUnbound parts found hParts hFound] at hEmpty
                cases hEmpty

/- A walk over a node meets a fault if the node exposes one. -/
theorem any_isFault_ofNode_iff
    (hAnswers : resolver.Answers answer)
    {depth : Nat}
    {node : Node}
    (hDepth : node.size < depth)
    (state : σ) :
    (ofNode resolver depth node state).1.any Normalized.isFault =
        true ↔
      node.ExposesFault answer := by
  induction depth generalizing node state with
  | zero => omega
  | succ depth ih =>
      have hChildren :
          ∀ child ∈ node.children, ∀ state,
            (ofNode resolver depth child state).1.any
                Normalized.isFault = true ↔
              child.ExposesFault answer := by
        intro child hChild
        have hSmaller := Node.size_lt_of_mem_children hChild
        exact ih (by omega)
      rw [Node.exposesFault_iff, ofNode, step]
      cases hParts : callParts? node with
      | none =>
          have hNone : ¬ node.Faulty answer := by
            rintro ⟨parts, hSome, -⟩
            rw [hParts] at hSome
            cases hSome
          simp only [hNone, false_or]
          rw [any_isFault_overAll_iff hChildren]
          constructor
          · rintro ⟨child, hChild, hFails⟩
            refine ⟨child, .child hChild ?_, hFails⟩
            intro parts call hSome
            rw [hParts] at hSome
            cases hSome
          · rintro ⟨child, hInto, hFails⟩
            exact ⟨child, hInto.mem_children, hFails⟩
      | some parts =>
          have hFaulty :
              node.Faulty answer ↔
                (normalizing resolver parts state).1.isFault =
                  true := by
            rw [isFault_normalizing_iff hAnswers]
            constructor
            · rintro ⟨other, hSome, hFault⟩
              rw [hParts] at hSome
              cases hSome
              exact hFault
            · intro hFault
              exact ⟨parts, hParts, hFault⟩
          simp only [any_isFault_andThen, Bool.or_eq_true,
            List.any_cons, List.any_nil, Bool.or_false]
          rw [hFaulty,
            any_isFault_belowCall_iff hAnswers hParts hChildren]

end Walk

------------------------------------------------------------
-- Programs
------------------------------------------------------------

/- A program is accepted as itself if the walk over it meets no fault. -/
theorem Comparison.run_self_eq_none_iff
    (resolver : Resolver σ)
    (start : σ)
    {program : Program}
    (hReads : (Node.program program).Everywhere Node.Grammatical) :
    (run ⟨resolver, resolver⟩ program program (start, start)).1 =
        .ok none ↔
      (Walk.ofProgram resolver program start).1.any
        Normalized.isFault = false := by
  have hSize : (Node.program program).size = program.size := rfl
  have hTracks :=
    tracks_toDepth resolver (Nat.lt_succ_self _) hReads {} start
  rw [hSize] at hTracks
  unfold Walk.ofProgram run
  generalize Walk.ofNode resolver (program.size + 1)
    (.program program) start = walked at hTracks ⊢
  generalize toDepth ⟨resolver, resolver⟩ (program.size + 1)
    (some (.program program)) (some (.program program)) {}
    (start, start) = result at hTracks ⊢
  cases hTracks with
  | finished hClean => simp [hClean]
  | malformed hClean hKind => simp [Normalized.isFault]
  | environment hClean => simp [Normalized.isFault]

/-
  A program that was read is accepted as itself exactly if no
  exposed call is malformed, and no callee of an exposed call
  fails for what is around it.
-/
theorem compare_self_accepts_iff
    (hAnswers : resolver.Answers answer)
    {name text : String}
    {program : Program}
    (hRead : parseSource name text = .ok program)
    (start : σ) :
    (Comparison.run ⟨resolver, resolver⟩ program program
        (start, start)).1 = .ok none ↔
      ∀ call parts,
        (Node.program program).Exposes answer call →
          callParts? call = some parts →
            ¬ parts.Malformed answer ∧ ¬ parts.Stranded answer := by
  have hSize : (Node.program program).size = program.size := rfl
  have hWalk :=
    Walk.any_isFault_ofNode_iff hAnswers
      (Nat.lt_succ_self (Node.program program).size) start
  rw [run_self_eq_none_iff resolver start
      (grammatical_of_parseSource hRead),
    Walk.ofProgram, ← hSize, ← Bool.not_eq_true, hWalk]
  constructor
  · intro hNone call parts hExposes hParts
    constructor
    · intro hMalformed
      exact hNone ⟨call, hExposes, parts, hParts, Or.inl hMalformed⟩
    · intro hStranded
      exact hNone ⟨call, hExposes, parts, hParts, Or.inr hStranded⟩
  · rintro hAll ⟨call, hExposes, parts, hParts, hFault⟩
    obtain ⟨hMalformed, hStranded⟩ := hAll call parts hExposes hParts
    exact hFault.elim hMalformed hStranded

/- The names of two callees, if a program is one call inside another. -/
def nestedCallees? (program : Program) : Option (String × String) :=
  match program.body with
  | [.mk _ (.expr (.mk _ (.call (.mk _ (.name outer))
      [.mk _ (.call (.mk _ (.name inner)) [] [])] [])))] =>
      some (outer, inner)
  | _ => none

theorem body_of_nestedCallees?
    {program : Program}
    {outer inner : String}
    (hNested : nestedCallees? program = some (outer, inner)) :
    ∃ stmtSpan outerSpan outerName innerSpan innerName,
      program.body =
        [.mk stmtSpan (.expr (.mk outerSpan
          (.call (.mk outerName (.name outer))
            [.mk innerSpan (.call (.mk innerName (.name inner)) [] [])]
            [])))] := by
  unfold nestedCallees? at hNested
  split at hNested
  · rename_i hBody
    cases hNested
    exact ⟨_, _, _, _, _, hBody⟩
  · cases hNested

/- A malformed call in an argument of an unknown callee is reported. -/
theorem compare_self_rejects_exposed :
    let resolver :=
      Resolver.ofTable
        [("g", .ok ⟨[⟨"y", .positionalOrKeyword, none⟩]⟩)]
    ∃ program,
      parseSource "snippet.py" "h(g())" = .ok program ∧
        (Comparison.run ⟨resolver, resolver⟩ program program
          ((), ())).1 ≠ .ok none := by
  intro resolver
  have hShape :
      (parseSource "snippet.py" "h(g())").toOption.bind nestedCallees? =
        some ("h", "g") := by
    decide +kernel
  obtain ⟨program, hRead, hNested⟩ := Option.bind_eq_some_iff.mp hShape
  obtain ⟨_, _, _, innerSpan, innerName, hBody⟩ :=
    body_of_nestedCallees? hNested
  obtain ⟨body, span⟩ := program
  subst hBody
  have hParsed := ok_of_toOption hRead
  have hPure :
      resolver.Answers fun callee => (resolver callee ()).1 :=
    fun _ _ => rfl
  refine ⟨_, hParsed, fun hNone => ?_⟩
  have hAll := (compare_self_accepts_iff hPure hParsed ()).mp hNone
  let inner : Expr :=
    .mk innerSpan (.call (.mk innerName (.name "g")) [] [])
  refine (hAll (.expr inner) _ ?_ rfl).1
    ⟨rfl, _, .missing "y", rfl, rfl⟩
  refine .head (.of_not_call List.mem_cons_self rfl) ?_
  refine .head (.of_not_call List.mem_cons_self rfl) ?_
  refine .head
    (.child (List.mem_cons_of_mem _ List.mem_cons_self) ?_) .refl
  intro _ _ hParts hNormal
  cases hParts
  obtain ⟨-, signature, hKnown, -⟩ := hNormal
  cases hKnown

/-
  A malformed call is not reported inside an argument of a call
  that has a normal form.
-/
theorem compare_self_overlooks_argument :
    let resolver :=
      Resolver.ofTable
        [("f", .ok ⟨[⟨"x", .positionalOrKeyword, none⟩]⟩),
          ("g", .ok ⟨[⟨"y", .positionalOrKeyword, none⟩]⟩)]
    let isMalformed (parts : CallParts) :=
      match (resolver parts.callee ()).1 with
      | .ok signature =>
          !hasUnpacking parts.args parts.keywords &&
            !(signature.bind parts.args
              (namedKeywords parts.keywords)).isOk
      | .error _ => false
    (parseSource "snippet.py" "f(g())").toOption.any
        (fun program =>
          match
            program.body,
            (Comparison.run ⟨resolver, resolver⟩ program program
              ((), ())).1
          with
          | [.mk _ (.expr (.mk _ (.call _ [inner] [])))], .ok none =>
              (callParts? (.expr inner)).any isMalformed
          | _, _ => false) =
      true := by
  decide +kernel

end SnippetGrader
