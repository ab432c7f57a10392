import SnippetGrader.Grading.Grade
import SnippetGrader.Proofs.Comparison.Steps
import SnippetGrader.Proofs.Parsing.Programs

/-
  Comparing a program with itself.

  Two resolvers that start in the same state are asked the same
  callees in the same order, and so they stay in the same state.
  What one of them is asked is given by a walk over the program
  alone. The comparison ends early only where the walk does: at
  a call whose arguments do not fit, or a callee around which
  the snippet cannot be run.

  Key definitions include:
    * `Walk`, `Walk.ofNode`, `Walk.ofProgram`
    * `Comparison.Tracks`

  Key theorems include:
    * `Comparison.tracks_toDepth`
    * `compare_self`
-/

namespace SnippetGrader

open SnippetGrader.Comparison

------------------------------------------------------------
-- Walks
------------------------------------------------------------

/- What came of normalizing a call. -/
abbrev Normalized := Except NormalizeError NormalizedCall

/- Whether a walk ends at a call. -/
def Normalized.isFault : Normalized → Bool
  | .error (.binding _) => true
  | .error (.environment _) => true
  | _ => false

/- What came of all the calls that a walk normalized, in order. -/
abbrev Walk (σ : Type) := σ → List Normalized × σ

namespace Walk

variable {σ : Type}

/- A walk on which nothing is normalized. -/
def idle : Walk σ := fun state => ([], state)

/- A second walk after a first one, unless that ended early. -/
def andThen (first second : Walk σ) : Walk σ := fun state =>
  let (results, after) := first state
  if results.any Normalized.isFault then (results, after)
  else
    let (more, last) := second after
    (results ++ more, last)

/- Walks over several nodes. -/
def overAll (walk : Node → Walk σ) : List Node → Walk σ
  | [] => idle
  | node :: rest => (walk node).andThen (overAll walk rest)

/- Normalizes one call. -/
def normalizing (resolver : Resolver σ) (parts : CallParts) :
    σ → Normalized × σ :=
  normalize resolver parts.callee parts.args parts.keywords

/-
  The rest of the walk after a call. The arguments of a call
  with a normal form are not walked over.
-/
def belowCall
    (walk : Node → Walk σ)
    (node : Node)
    (parts : CallParts) :
    Normalized → Walk σ
  | .ok call =>
      if call.isEmpty then overAll walk node.children
      else walk (.expr parts.callee)
  | .error _ => overAll walk node.children

/- The walk over a node, given the walk over the nodes below it. -/
def step (resolver : Resolver σ) (walk : Node → Walk σ) (node : Node) :
    Walk σ :=
  match callParts? node with
  | none => overAll walk node.children
  | some parts => fun state =>
      let (result, after) := normalizing resolver parts state
      andThen (fun _ => ([result], after))
        (belowCall walk node parts result) state

/- The walk over a node, down to a depth. -/
def ofNode (resolver : Resolver σ) : (depth : Nat) → Node → Walk σ
  | 0, _ => idle
  | depth + 1, node => step resolver (ofNode resolver depth) node

/- The walk over a program. -/
def ofProgram (resolver : Resolver σ) (program : Program) : Walk σ :=
  ofNode resolver (program.size + 1) (.program program)

end Walk

------------------------------------------------------------
-- Lock Step
------------------------------------------------------------

namespace Comparison

variable {σ : Type}

/-
  A comparison ends like a walk: without a difference if the
  walk met no fault, and otherwise by its only fault, which is
  the last thing that it met. Both sides are left in the state
  that the walk ends in.
-/
inductive Tracks :
    List Normalized × σ →
    EStateM.Result Divergence (σ × σ) Unit →
    Prop
  | finished
      {results : List Normalized}
      {after : σ}
      (clean : results.any Normalized.isFault = false) :
      Tracks (results, after) (.ok () (after, after))
  | malformed
      {results : List Normalized}
      {after : σ}
      {fault : BindError}
      {difference : Mismatch}
      (clean : results.any Normalized.isFault = false)
      (kind : difference.kind = .malformedCall fault) :
      Tracks (results ++ [.error (.binding fault)], after)
        (.error (.mismatch difference) (after, after))
  | environment
      {results : List Normalized}
      {after : σ}
      {detail : String}
      (clean : results.any Normalized.isFault = false) :
      Tracks (results ++ [.error (.environment detail)], after)
        (.error (.failure (.environment detail)) (after, after))

theorem tracks_idle
    (state : σ) :
    Tracks (Walk.idle state)
      ((return () : Comparing σ σ Unit) (state, state)) :=
  .finished rfl

/- Earlier calls without a fault change nothing. -/
theorem Tracks.after
    {earlier results : List Normalized}
    {last : σ}
    {result : EStateM.Result Divergence (σ × σ) Unit}
    (hTracks : Tracks (results, last) result)
    (hEarlier : earlier.any Normalized.isFault = false) :
    Tracks (earlier ++ results, last) result := by
  have hClean
      {later : List Normalized}
      (hLater : later.any Normalized.isFault = false) :
      (earlier ++ later).any Normalized.isFault = false := by
    rw [List.any_append, hEarlier, hLater, Bool.or_false]
  cases hTracks with
  | finished hLater => exact .finished (hClean hLater)
  | malformed hLater hKind =>
      rw [← List.append_assoc]
      exact .malformed (hClean hLater) hKind
  | environment hLater =>
      rw [← List.append_assoc]
      exact .environment (hClean hLater)

/- Two comparisons in order track two walks in order. -/
theorem tracks_bind
    {first second : Walk σ}
    {step next : Comparing σ σ Unit}
    {state : σ}
    (hFirst : Tracks (first state) (step (state, state)))
    (hSecond :
      ∀ after, Tracks (second after) (next (after, after))) :
    Tracks (first.andThen second state)
      ((do step; next : Comparing σ σ Unit) (state, state)) := by
  have hRun :
      (do step; next : Comparing σ σ Unit) (state, state) =
        match step (state, state) with
        | .ok _ after => next after
        | .error divergence after => .error divergence after := by
    change EStateM.bind step (fun _ => next) (state, state) = _
    unfold EStateM.bind
    cases step (state, state) <;> rfl
  rw [hRun]
  unfold Walk.andThen
  generalize first state = walked at hFirst
  generalize step (state, state) = result at hFirst
  cases hFirst with
  | finished hClean =>
      simp only [hClean, Bool.false_eq_true, if_false]
      exact (hSecond _).after hClean
  | malformed hClean hKind =>
      simp only [List.any_append, List.any_cons, Normalized.isFault,
        Bool.true_or, Bool.or_true, if_true]
      exact .malformed hClean hKind
  | environment hClean =>
      simp only [List.any_append, List.any_cons, Normalized.isFault,
        Bool.true_or, Bool.or_true, if_true]
      exact .environment hClean

/- A rule that compares nodes with themselves like a walk. -/
def TracksBelow
    (walk : Node → Walk σ)
    (inner : Rule σ σ)
    (nodes : List Node) :
    Prop :=
  ∀ node ∈ nodes, ∀ place state,
    Tracks (walk node state)
      (inner (some node) (some node) place (state, state))

theorem tracks_inOrder
    {walk : Node → Walk σ}
    {inner : Rule σ σ}
    {nodes : List Node}
    (hBelow : TracksBelow walk inner nodes)
    {steps : List (Comparing σ σ Unit)}
    (hSteps : Pairs inner (nodes.zip nodes) steps)
    (state : σ) :
    Tracks (Walk.overAll walk nodes state)
      (inOrder steps (state, state)) := by
  induction nodes generalizing steps state with
  | nil =>
      cases hSteps
      exact tracks_idle state
  | cons node rest ih =>
      cases hSteps with
      | cons hStep hLater =>
          obtain ⟨place, rfl⟩ := hStep
          refine tracks_bind
            (hBelow node List.mem_cons_self place state) ?_
          intro after
          refine ih ?_ hLater after
          intro other hOther
          exact hBelow other (List.mem_cons_of_mem _ hOther)

/- A node and itself are compared like the walk over its children. -/
theorem tracks_bySlots
    {walk : Node → Walk σ}
    {inner : Rule σ σ}
    (hAbsent : ∀ place, inner none none place = return ())
    {node : Node}
    (hReads : node.ReadsBack)
    (hBelow : TracksBelow walk inner node.children)
    (place : Place)
    (state : σ) :
    Tracks (Walk.overAll walk node.children state)
      (bySlots inner node node place (state, state)) := by
  obtain ⟨steps, hSteps, hBySlots⟩ :=
    bySlots_eq_inOrder hAbsent (Node.sameShape_self hReads) place
  rw [hBySlots]
  exact tracks_inOrder hBelow hSteps state

------------------------------------------------------------
-- Calls
------------------------------------------------------------

/- Parameters of one text are not looked into. -/
theorem params_self
    (inner : Rule σ σ)
    (place : Place)
    (params : List NormalizedParam) :
    Comparison.params inner place (pairUp params params) =
      return () := by
  induction params with
  | nil => rfl
  | cons first rest ih =>
      simp [pairUp, Comparison.params, param, ih]

/- A call without a fault is followed by what is below it. -/
theorem tracks_record
    {result : Normalized}
    (hResult : result.isFault = false)
    {below : Walk σ}
    {after : σ}
    {outcome : EStateM.Result Divergence (σ × σ) Unit}
    (hBelow : Tracks (below after) outcome)
    (state : σ) :
    Tracks (Walk.andThen (fun _ => ([result], after)) below state)
      outcome := by
  have hClean : [result].any Normalized.isFault = false := by
    rw [List.any_cons, hResult, List.any_nil, Bool.or_false]
  unfold Walk.andThen
  simp only [hClean, Bool.false_eq_true, if_false]
  exact hBelow.after hClean

theorem tracks_normalizedCall
    {walk : Node → Walk σ}
    {inner : Rule σ σ}
    (hAbsent : ∀ place, inner none none place = return ())
    {node : Node}
    {parts : CallParts}
    (hParts : callParts? node = some parts)
    (hReads : node.ReadsBack)
    (hBelow : TracksBelow walk inner node.children)
    (place : Place)
    (result : Normalized)
    (state after : σ) :
    Tracks
      (Walk.andThen (fun _ => ([result], after))
        (Walk.belowCall walk node parts result) state)
      (normalizedCall inner node node parts parts place result
        result (after, after)) := by
  have hSlots := tracks_bySlots hAbsent hReads hBelow
  rcases result with (callee | fault | detail) | call
  · exact tracks_record rfl (hSlots _ after) state
  · have hEnd :
        Tracks ([] ++ [.error (.binding fault)], after)
          (normalizedCall inner node node parts parts place
            (.error (.binding fault)) (.error (.binding fault))
            (after, after)) :=
      .malformed rfl rfl
    exact hEnd
  · have hEnd :
        Tracks ([] ++ [.error (.environment detail)], after)
          (normalizedCall inner node node parts parts place
            (.error (.environment detail))
            (.error (.environment detail)) (after, after)) :=
      .environment rfl
    exact hEnd
  · refine tracks_record rfl ?_ state
    simp only [Walk.belowCall, normalizedCall, Bool.and_self]
    cases call.isEmpty with
    | true => exact hSlots _ after
    | false =>
        simp only [Bool.false_eq_true, if_false, boundCall,
          params_self, bind_pure_unit]
        exact hBelow _ (callee_mem_children hParts) _ after

------------------------------------------------------------
-- Nodes
------------------------------------------------------------

/- One step of a comparison tracks one step of a walk. -/
theorem tracks_node
    (resolver : Resolver σ)
    {walk : Node → Walk σ}
    {inner : Rule σ σ}
    (hAbsent : ∀ place, inner none none place = return ())
    {node : Node}
    (hReads : node.ReadsBack)
    (hBelow : TracksBelow walk inner node.children)
    (place : Place)
    (state : σ) :
    Tracks (Walk.step resolver walk node state)
      (Comparison.node ⟨resolver, resolver⟩ inner (some node)
        (some node) place (state, state)) := by
  simp only [Comparison.node, bothNodes, beq_self_eq_true, if_true,
    Walk.step]
  cases hParts : callParts? node with
  | none => exact tracks_bySlots hAbsent hReads hBelow _ state
  | some parts =>
      exact tracks_normalizedCall hAbsent hParts hReads hBelow _
        (Walk.normalizing resolver parts state).1 state
        (Walk.normalizing resolver parts state).2

/-
  A comparison of a node with itself, down to a depth that its
  size does not reach, tracks the walk over the node.
-/
theorem tracks_toDepth
    (resolver : Resolver σ)
    {depth : Nat}
    {node : Node}
    (hDepth : node.size < depth)
    (hReads : node.Everywhere Node.Grammatical)
    (place : Place)
    (state : σ) :
    Tracks (Walk.ofNode resolver depth node state)
      (toDepth ⟨resolver, resolver⟩ depth (some node) (some node)
        place (state, state)) := by
  induction depth generalizing node place state with
  | zero => omega
  | succ depth ih =>
      refine tracks_node resolver ?_ hReads.atNode.readsBack ?_
        place state
      · -- There is depth left for an absent pair.
        intro place
        have hSize := node.size_eq_sum
        cases depth with
        | zero => omega
        | succ below => rfl
      · intro child hChild place state
        have hSmaller := Node.size_lt_of_mem_children hChild
        exact ih (by omega) (hReads.atChild hChild) place state

/- What a comparison of a program with itself can answer. -/
theorem run_self
    (resolver : Resolver σ)
    (start : σ)
    {program : Program}
    (hReads : (Node.program program).Everywhere Node.Grammatical) :
    let walked := Walk.ofProgram resolver program start
    let compared :=
      run ⟨resolver, resolver⟩ program program (start, start)
    compared.2 = (walked.2, walked.2) ∧
      (compared.1 = .ok none ∨
        (∃ difference fault,
          compared.1 = .ok (some difference) ∧
            difference.kind = .malformedCall fault) ∨
        ∃ detail, compared.1 = .error (.environment detail)) ∧
      ((∀ result ∈ walked.1, result.isFault = false) →
        compared.1 = .ok none) := by
  have hTracks :=
    tracks_toDepth resolver (Nat.lt_succ_self _) hReads {} start
  have hSize : (Node.program program).size = program.size := rfl
  rw [hSize] at hTracks
  dsimp only
  unfold Walk.ofProgram run
  generalize Walk.ofNode resolver (program.size + 1)
    (.program program) start = walked at hTracks ⊢
  generalize toDepth ⟨resolver, resolver⟩ (program.size + 1)
    (some (.program program)) (some (.program program)) {}
    (start, start) = result at hTracks ⊢
  cases hTracks with
  | finished hClean => exact ⟨rfl, Or.inl rfl, fun _ => rfl⟩
  | malformed hClean hKind =>
      refine ⟨rfl, Or.inr (Or.inl ⟨_, _, rfl, hKind⟩), ?_⟩
      intro hAll
      have hLast := hAll _ (List.mem_append_right _ List.mem_cons_self)
      cases hLast
  | environment hClean =>
      refine ⟨rfl, Or.inr (Or.inr ⟨_, rfl⟩), ?_⟩
      intro hAll
      have hLast := hAll _ (List.mem_append_right _ List.mem_cons_self)
      cases hLast

end Comparison

------------------------------------------------------------
-- Grading
------------------------------------------------------------

/- Reading the snippet of a side, by what came of its text. -/
theorem parseSide_cases
    (side : Side)
    (text : String) :
    (∃ program,
        parseSource side.fileName text = .ok program ∧
          parseSide side text = .ok program) ∨
      ∃ outcome,
        parseSide side text = .error outcome ∧
          ((∃ fault, outcome = .invalidSource side fault) ∨
            ∃ detail, outcome = .failure detail) := by
  unfold parseSide
  cases parseSource side.fileName text with
  | ok program => exact Or.inl ⟨program, rfl, rfl⟩
  | error faults =>
      right
      dsimp only
      cases faults.first? with
      | some fault => exact ⟨_, rfl, Or.inl ⟨fault, rfl⟩⟩
      | none => exact ⟨_, rfl, Or.inr ⟨_, rfl⟩⟩

/-
  A text paired with itself is read on both sides, or rejected
  on the side of the submission.
-/
theorem parsePair_self
    (text : String) :
    (∃ program,
        parseSource Side.submission.fileName text = .ok program ∧
          parsePair text text = .ok (program, program)) ∨
      ∃ outcome,
        parsePair text text = .error outcome ∧
          (outcome = .emptySubmission ∨
            (∃ fault, outcome = .invalidSource .submission fault) ∨
            ∃ detail, outcome = .failure detail) := by
  unfold parsePair
  cases hBlank : Text.isBlankText text with
  | true => exact Or.inr ⟨.emptySubmission, rfl, Or.inl rfl⟩
  | false =>
      rcases parseSide_cases .submission text with hLeft | hLeft
      · obtain ⟨program, hRead, hLeft⟩ := hLeft
        have hRight : parseSide .solution text = .ok program := by
          have hOther :=
            parseSource_renamed hRead Side.solution.fileName
          unfold parseSide
          rw [hOther]
        rw [hLeft, hRight]
        cases hEmpty : program.body.isEmpty with
        | true =>
            refine Or.inr ⟨.emptySubmission, ?_, Or.inl rfl⟩
            simp only [Bool.false_eq_true, if_false, bind,
              Except.bind, hEmpty, if_true]
            rfl
        | false =>
            refine Or.inl ⟨program, hRead, ?_⟩
            simp only [Bool.false_eq_true, if_false, bind,
              Except.bind, hEmpty]
            rfl
      · obtain ⟨outcome, hLeft, hOutcome⟩ := hLeft
        refine Or.inr ⟨outcome, ?_, Or.inr hOutcome⟩
        rw [hLeft]
        rfl

/- What a text that is graded against itself can come to. -/
theorem gradeCode_self
    (text : String)
    (options : GradeOptions) :
    gradeCode text text options = .correct ∨
      (∃ difference fault,
        gradeCode text text options = .mismatch difference ∧
          difference.kind = .malformedCall fault) ∨
      gradeCode text text options = .emptySubmission ∨
      (∃ fault,
        gradeCode text text options =
          .invalidSource .submission fault) ∨
      ∃ detail, gradeCode text text options = .failure detail := by
  unfold gradeCode
  rcases parsePair_self text with hPair | hPair
  · obtain ⟨program, hRead, hPair⟩ := hPair
    rw [hPair]
    obtain ⟨-, hAnswer, -⟩ :=
      Comparison.run_self Resolver.live
        (Resolver.unasked options.limits program)
        (grammatical_of_parseSource hRead)
    simp only [comparePrograms]
    generalize Comparison.run ⟨.live, .live⟩ program program
      (Resolver.unasked options.limits program,
        Resolver.unasked options.limits program) =
      compared at hAnswer
    obtain ⟨answer, left, right⟩ := compared
    rcases hAnswer with rfl | ⟨difference, fault, rfl, hKind⟩ |
        ⟨detail, rfl⟩
    · dsimp only
      split
      · exact Or.inr (Or.inr (Or.inr (Or.inr ⟨_, rfl⟩)))
      · exact Or.inl rfl
    · exact Or.inr (Or.inl ⟨difference, fault, rfl, hKind⟩)
    · exact Or.inr (Or.inr (Or.inr (Or.inr ⟨_, rfl⟩)))
  · obtain ⟨outcome, hPair, hOutcome⟩ := hPair
    rw [hPair]
    rcases hOutcome with rfl | ⟨fault, rfl⟩ | ⟨detail, rfl⟩
    · exact Or.inr (Or.inr (Or.inl rfl))
    · exact Or.inr (Or.inr (Or.inr (Or.inl ⟨fault, rfl⟩)))
    · exact Or.inr (Or.inr (Or.inr (Or.inr ⟨detail, rfl⟩)))

/-
  A program that was read never differs from itself, whatever
  resolver is asked on both sides from one state on. All that
  can be reported is a call whose arguments do not fit, or a
  snippet that cannot be run, and neither is if every call that
  is normalized has a normal form or no known callee. A text is
  never graded against itself as another one.
-/
theorem compare_self :
    (∀ (σ : Type) (resolver : Resolver σ) (start : σ)
        (name text : String) (program : Program),
        parseSource name text = .ok program →
          let walked := Walk.ofProgram resolver program start
          let compared :=
            Comparison.run ⟨resolver, resolver⟩ program program
              (start, start)
          compared.2 = (walked.2, walked.2) ∧
            (compared.1 = .ok none ∨
              (∃ difference fault,
                compared.1 = .ok (some difference) ∧
                  difference.kind = .malformedCall fault) ∨
              ∃ detail, compared.1 = .error (.environment detail)) ∧
            ((∀ result ∈ walked.1,
                (∃ call, result = .ok call) ∨
                  ∃ callee, result = .error (.notResolvable callee)) →
              compared.1 = .ok none)) ∧
      ∀ (text : String) (options : GradeOptions),
        gradeCode text text options ≠ .emptySolution ∧
          (∀ fault,
            gradeCode text text options ≠
              .invalidSource .solution fault) ∧
          ∀ difference,
            gradeCode text text options = .mismatch difference →
              ∃ fault, difference.kind = .malformedCall fault := by
  constructor
  · intro σ resolver start name text program hRead
    obtain ⟨hStates, hAnswer, hNone⟩ :=
      Comparison.run_self resolver start
        (grammatical_of_parseSource hRead)
    refine ⟨hStates, hAnswer, fun hAll => hNone ?_⟩
    intro result hMem
    rcases hAll result hMem with ⟨call, rfl⟩ | ⟨callee, rfl⟩
    · rfl
    · rfl
  · intro text options
    rcases gradeCode_self text options with
      hGrade | ⟨difference, fault, hGrade, hKind⟩ | hGrade |
        ⟨fault, hGrade⟩ | ⟨detail, hGrade⟩
    all_goals
      rw [hGrade]
      refine ⟨by rintro ⟨⟩, by rintro _ ⟨⟩, ?_⟩
      rintro _ ⟨⟩
    exact ⟨fault, hKind⟩

/- A call with a normal form inside a call of an unknown callee. -/
theorem compare_self_nested :
    let resolver :=
      Resolver.ofTable
        [("f", .ok ⟨[⟨"x", .positionalOrKeyword, none⟩]⟩)]
    ∃ program,
      parseSource "snippet.py" "g(f(1))" = .ok program ∧
        (Walk.ofProgram resolver program ()).1.length = 2 ∧
          (Comparison.run ⟨resolver, resolver⟩ program program
            ((), ())).1 = .ok none := by
  intro resolver
  have hWalk :
      (parseSource "snippet.py" "g(f(1))").toOption.any
          (fun program =>
            let results := (Walk.ofProgram resolver program ()).1
            results.length == 2 && !results.any Normalized.isFault) =
        true := by
    decide +kernel
  cases hRead : parseSource "snippet.py" "g(f(1))" with
  | error faults =>
      rw [hRead] at hWalk
      cases hWalk
  | ok program =>
      rw [hRead] at hWalk
      simp only [Except.toOption, Option.any_some, Bool.and_eq_true,
        beq_iff_eq, Bool.not_eq_true', List.any_eq_false] at hWalk
      refine ⟨program, rfl, hWalk.1, ?_⟩
      refine
        (compare_self.1 Unit resolver () "snippet.py" "g(f(1))"
          program hRead).2.2 ?_
      intro result hMem
      have hResult := hWalk.2 result hMem
      rcases result with (callee | fault | detail) | call
      · exact Or.inr ⟨callee, rfl⟩
      · exact absurd rfl hResult
      · exact absurd rfl hResult
      · exact Or.inl ⟨call, rfl⟩

end SnippetGrader
