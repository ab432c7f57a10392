import SnippetGrader.Proofs.Evaluation.Rules

/-
  Runs under limits that allow more.

  The limits of a run are only ever asked whether to stop. So a
  run that ends by itself is repeated step by step by a run that
  may use more, and a run that is stopped has printed the start
  of what the other prints.

  Key definitions include:
    * `Limits.Within`
    * `Settled`, `Prolongs`

  Key theorems include:
    * `Evaluator.agrees_of_le`
    * `limits_only_cut_short`
-/

namespace SnippetGrader

------------------------------------------------------------
-- Limits and States
------------------------------------------------------------

/- Limits that allow no more than others. -/
structure Limits.Within (tight loose : Limits) : Prop where
  gas : tight.gasLimit ≤ loose.gasLimit
  depth : tight.maxCallDepth ≤ loose.maxCallDepth

namespace Interpreter

/- The same state under other limits. -/
def under (interpreter : Interpreter) (limits : Limits) : Interpreter :=
  { interpreter with limits }

/- A state in which at least as much was printed as in another. -/
def Extends (later earlier : Interpreter) : Prop :=
  ∃ printed, later.output = earlier.output ++ printed

theorem Extends.of_output_eq
    {later earlier : Interpreter}
    (hOutput : later.output = earlier.output) :
    later.Extends earlier :=
  ⟨"", by simp [hOutput]⟩

theorem Extends.trans
    {first second third : Interpreter}
    (hLater : third.Extends second)
    (hEarlier : second.Extends first) :
    third.Extends first := by
  obtain ⟨more, hMore⟩ := hLater
  obtain ⟨some, hSome⟩ := hEarlier
  exact ⟨some ++ more, by rw [hMore, hSome, String.append_assoc]⟩

end Interpreter

/- An error that says that a run may go on no further. -/
def EvalError.isCut : EvalError → Bool
  | gasExhausted _ | recursionLimit _ | unfinished => true
  | _ => false

namespace Eval

variable {α β : Type}

/- The state in which a step ends. -/
def after : EStateM.Result EvalError Interpreter α → Interpreter
  | .ok _ state => state
  | .error _ state => state

/- A step that keeps what was printed before it. -/
def Prints (action : Eval α) : Prop :=
  ∀ state, (after (action state)).Extends state

/-
  What a run that may use more makes of a result: the same, or,
  if the run was cut short, anything that extends its output.
-/
inductive Prolonged (loose : Limits) :
    EStateM.Result EvalError Interpreter α →
      EStateM.Result EvalError Interpreter α → Prop
  | ok
      (value : α)
      (state : Interpreter)
      (hLimits : state.limits.Within loose) :
      Prolonged loose (.ok value state) (.ok value (state.under loose))
  | error
      (fault : EvalError)
      (state : Interpreter)
      (hLimits : state.limits.Within loose) :
      Prolonged loose (.error fault state) (.error fault (state.under loose))
  | cut
      {fault : EvalError}
      {state : Interpreter}
      {result : EStateM.Result EvalError Interpreter α}
      (hCut : fault.isCut = true)
      (hOutput : (after result).Extends state) :
      Prolonged loose (.error fault state) result

/- Two steps of which the second may use more than the first. -/
structure Loosens (tight loose : Eval α) : Prop where
  prints : Prints loose
  prolongs :
    ∀ (limits : Limits) (state : Interpreter),
      state.limits.Within limits →
        Prolonged limits (tight state) (loose (state.under limits))

namespace Loosens

theorem changing
    (update : Store → Nat → Nat → α × Store) :
    Loosens (changing update) (changing update) where
  prints _ := .of_output_eq rfl
  prolongs _ state hWithin :=
    .ok _ (after (Eval.changing update state)) hWithin

theorem write
    (text : String) :
    Loosens (write text) (write text) where
  prints _ := ⟨text, rfl⟩
  prolongs _ state hWithin :=
    .ok () { state with output := state.output ++ text } hWithin

theorem throw
    (fault : EvalError) :
    Loosens (throw fault : Eval α) (throw fault) where
  prints _ := .of_output_eq rfl
  prolongs _ state hWithin := .error fault state hWithin

theorem bind
    {tight loose : Eval α}
    {next after : α → Eval β}
    (hFirst : Loosens tight loose)
    (hNext : ∀ value, Loosens (next value) (after value)) :
    Loosens (tight >>= next) (loose >>= after) := by
  have hPrints : Prints (loose >>= after) := by
    intro state
    have hBefore := hFirst.prints state
    change (Eval.after (EStateM.bind loose after state)).Extends state
    unfold EStateM.bind
    cases hResult : loose state with
    | error fault middle =>
        rw [hResult] at hBefore
        exact hBefore
    | ok value middle =>
        rw [hResult] at hBefore
        exact ((hNext value).prints middle).trans hBefore
  refine ⟨hPrints, ?_⟩
  intro limits state hWithin
  have hBefore := hFirst.prolongs limits state hWithin
  change Prolonged limits (EStateM.bind tight next state)
    (EStateM.bind loose after (state.under limits))
  unfold EStateM.bind
  generalize tight state = left at hBefore
  generalize loose (state.under limits) = right at hBefore
  cases hBefore with
  | ok value middle hMiddle =>
      exact (hNext value).prolongs limits middle hMiddle
  | error fault middle hMiddle => exact .error fault middle hMiddle
  | cut hCut hOutput =>
      refine .cut hCut ?_
      cases right with
      | error fault last => exact hOutput
      | ok value middle =>
          exact ((hNext value).prints middle).trans hOutput

theorem charge
    (units : Nat) :
    Loosens (charge units) (charge units) where
  prints state := by
    unfold Eval.charge
    dsimp only
    split <;> exact .of_output_eq rfl
  prolongs limits state hWithin := by
    have hGas := hWithin.gas
    unfold Eval.charge
    dsimp only [Interpreter.under]
    split
    · refine .cut rfl ?_
      split <;> exact .of_output_eq rfl
    · rw [if_neg (by omega)]
      exact .ok () { state with gas := _ } hWithin

theorem inScope
    {tight loose : Eval α}
    (hBody : Loosens tight loose)
    (scope : Nat) :
    Loosens (inScope scope tight) (inScope scope loose) where
  prints state := by
    have hInner := hBody.prints { state with scope }
    unfold Eval.inScope
    dsimp only
    generalize loose { state with scope } = result at hInner
    cases result <;> exact hInner
  prolongs limits state hWithin := by
    have hInner := hBody.prolongs limits { state with scope } hWithin
    unfold Eval.inScope
    dsimp only [Interpreter.under] at hInner ⊢
    generalize tight { state with scope } = left at hInner
    generalize loose { state with limits, scope } = right at hInner
    cases hInner with
    | ok value last hLast =>
        exact .ok value { last with scope := state.scope } hLast
    | error fault last hLast =>
        exact .error fault { last with scope := state.scope } hLast
    | cut hCut hOutput =>
        refine .cut hCut ?_
        cases right <;> exact hOutput

theorem inCall
    {tight loose : Eval α}
    (hBody : Loosens tight loose)
    (scope : Nat) :
    Loosens (inCall scope tight) (inCall scope loose) := by
  have hInside := hBody.inScope scope
  have hPrints : Prints (Eval.inCall scope loose) := by
    intro state
    have hInner := hInside.prints { state with depth := state.depth + 1 }
    unfold Eval.inCall
    dsimp only
    split
    · exact .of_output_eq rfl
    · generalize Eval.inScope scope loose
        { state with depth := state.depth + 1 } = result at hInner
      cases result <;> exact hInner
  refine ⟨hPrints, ?_⟩
  intro limits state hWithin
  have hDepth := hWithin.depth
  by_cases hTight : state.depth ≥ state.limits.maxCallDepth
  · have hStopped :
        Eval.inCall scope tight state =
          .error (.recursionLimit state.limits.maxCallDepth) state :=
      if_pos hTight
    rw [hStopped]
    exact .cut rfl (hPrints (state.under limits))
  · have hLoose : ¬ state.depth ≥ limits.maxCallDepth := by omega
    have hInner :=
      hInside.prolongs limits { state with depth := state.depth + 1 } hWithin
    unfold Eval.inCall
    dsimp only [Interpreter.under] at hInner ⊢
    rw [if_neg hTight, if_neg hLoose]
    generalize Eval.inScope scope tight
      { state with depth := state.depth + 1 } = left at hInner
    generalize Eval.inScope scope loose
      { state with limits, depth := state.depth + 1 } = right at hInner
    cases hInner with
    | ok value last hLast =>
        exact .ok value { last with depth := state.depth } hLast
    | error fault last hLast =>
        exact .error fault { last with depth := state.depth } hLast
    | cut hCut hOutput =>
        refine .cut hCut ?_
        cases right <;> exact hOutput

end Loosens

/- Steps of which the second may use more, as a relation that all code keeps. -/
def loosening : LevelCongruence where
  Relates := Loosens
  relates_pure value := Loosens.changing fun store _ _ => (value, store)
  relates_bind := Loosens.bind
  relates_throw _ := Loosens.throw _
  relates_reading read :=
    Loosens.changing fun store builtins scope =>
      (read store builtins scope, store)
  relates_withHeap _ := Loosens.changing (onlyHeap _)
  relates_write := Loosens.write
  relates_charge := Loosens.charge
  relates_define name value :=
    Loosens.changing fun store _ scope =>
      ((), { store with scopes := store.scopes.define scope name value })
  relates_setClassAttr address name value :=
    Loosens.changing
      (onlyHeap fun heap => ((), heap.setClassAttr address name value))
  relates_openScope parent bindings :=
    Loosens.changing fun store _ _ =>
      let (scope, scopes) :=
        store.scopes.add { bindings, parent := some parent }
      (scope, { store with scopes })
  relates_inScope scope _ _ hBody := hBody.inScope scope
  relates_inCall scope _ _ hBody := hBody.inCall scope
  relates_addClass name bases attrs :=
    Loosens.changing (onlyHeap (·.addClass name bases attrs))
  relates_unfinished := Loosens.throw _

end Eval

------------------------------------------------------------
-- Evaluators with More Levels
------------------------------------------------------------

namespace Evaluator

open Eval Congruence StmtCongruence LevelCongruence

theorem loosens_whileLoop
    {inner other : Evaluator}
    (hInner : loosening.Agrees inner other)
    (test : Expr)
    (body orelse : List Stmt)
    {fuel more : Nat}
    (hFuel : fuel ≤ more) :
    Loosens (inner.whileLoop test body orelse fuel)
      (other.whileLoop test body orelse more) := by
  induction fuel generalizing more with
  | zero =>
      have hPrints := (relates_whileLoop hInner test body orelse more).prints
      exact
        ⟨hPrints, fun limits state _ => .cut rfl (hPrints (state.under limits))⟩
  | succ fuel ih =>
      obtain ⟨more, rfl⟩ := Nat.exists_eq_add_one_of_ne_zero (by omega : more ≠ 0)
      have hBlock := relates_block hInner.stmt
      have hRest := ih (Nat.le_of_succ_le_succ hFuel)
      refine (hInner.expr test).bind ?_
      intro value
      refine loosening.relates_bind (relates_isTruthy value) ?_
      rintro (_ | _)
      · exact hBlock orelse
      · refine (hBlock body).bind ?_
        rintro (_ | value | _ | _)
        · exact hRest
        · exact loosening.relates_pure _
        · exact loosening.relates_pure _
        · exact hRest

/- An evaluator with more levels does the same or goes on longer. -/
theorem agrees_of_le
    {n m : Nat}
    (hLevels : n ≤ m) :
    loosening.Agrees (levels n) (levels m) := by
  induction n generalizing m with
  | zero =>
      -- Without levels nothing is run, and all that is left to know is what the other prints.
      have hOther := @agrees_levels loosening m
      have hCut {α : Type} {action : Eval α} (hAction : Loosens action action) :
          Loosens (throw .unfinished) action :=
        ⟨hAction.prints, fun limits state _ =>
          .cut rfl (hAction.prints (state.under limits))⟩
      exact
        ⟨fun expr => hCut (hOther.expr expr),
          fun stmt => hCut (hOther.stmt stmt),
          fun callee args keywords => hCut (hOther.call callee args keywords)⟩
  | succ n ih =>
      obtain ⟨m, rfl⟩ := Nat.exists_eq_add_one_of_ne_zero (by omega : m ≠ 0)
      have hInner := ih (Nat.le_of_succ_le_succ hLevels)
      exact agrees_succ hInner fun test body orelse =>
        loosens_whileLoop hInner test body orelse hLevels

end Evaluator

------------------------------------------------------------
-- Programs
------------------------------------------------------------

/- The error that a result reports. -/
def faultOf {α : Type} : Except EvalError α → Option EvalError
  | .ok _ => none
  | .error fault => some fault

/- The end of a run that was not cut short. -/
def Settled (fault : Option EvalError) : Prop :=
  ∀ cause ∈ fault, cause.isCut = false

/-
  What a run that may use more has in common with another: all
  but the limits, if that run was not cut short, and in any case
  what it printed.
-/
structure Prolongs
    {α : Type}
    (loose : Limits)
    (fault : α → Option EvalError)
    (short long : α × Interpreter) :
    Prop where
  same : Settled (fault short.1) → long = (short.1, short.2.under loose)
  output : long.2.Extends short.2

namespace Interpreter

open Eval

theorem levelCount_mono
    (interpreter : Interpreter)
    {loose : Limits}
    (hLimits : interpreter.limits.Within loose) :
    interpreter.levelCount ≤ (interpreter.under loose).levelCount := by
  have hGas := hLimits.gas
  unfold levelCount under
  dsimp only
  gcongr

theorem prolongs_run
    {α : Type}
    (interpreter : Interpreter)
    {loose : Limits}
    (hLimits : interpreter.limits.Within loose)
    (action : Evaluator → Eval α)
    (hAction :
      ∀ {n m : Nat}, n ≤ m →
        Loosens (action (.levels n)) (action (.levels m))) :
    Prolongs loose faultOf (interpreter.run action)
      ((interpreter.under loose).run action) := by
  have hRuns :=
    (hAction (interpreter.levelCount_mono hLimits)).prolongs
      loose interpreter hLimits
  unfold run
  generalize action (.levels interpreter.levelCount) interpreter = short
    at hRuns
  generalize action (.levels (interpreter.under loose).levelCount)
    (interpreter.under loose) = long at hRuns
  cases hRuns with
  | ok value state hState =>
      exact ⟨fun _ => rfl, .of_output_eq rfl⟩
  | error fault state hState =>
      exact ⟨fun _ => rfl, .of_output_eq rfl⟩
  | @cut fault state _ hCut hOutput =>
      refine ⟨fun hSettled => ?_, ?_⟩
      · have hUncut := hSettled fault rfl
        rw [hCut] at hUncut
        contradiction
      · cases long <;> exact hOutput

theorem execPartial_eq
    (interpreter : Interpreter)
    (program : Program) :
    interpreter.execPartial program =
      let (result, last) :=
        interpreter.run (execStatements · program.body)
      (faultOf result, last) := by
  unfold execPartial
  rcases interpreter.run (execStatements · program.body) with ⟨_ | _, last⟩
  · rfl
  · rfl

theorem prolongs_execPartial
    (interpreter : Interpreter)
    {loose : Limits}
    (hLimits : interpreter.limits.Within loose)
    (program : Program) :
    Prolongs loose id (interpreter.execPartial program)
      ((interpreter.under loose).execPartial program) := by
  have hRun :=
    interpreter.prolongs_run hLimits (execStatements · program.body)
      fun hLevels =>
        relates_execStatements (Evaluator.agrees_of_le hLevels) program.body
  rw [execPartial_eq, execPartial_eq]
  refine ⟨fun hSettled => ?_, hRun.output⟩
  rw [hRun.same hSettled]

theorem prolongs_lastValue
    (interpreter : Interpreter)
    {loose : Limits}
    (hLimits : interpreter.limits.Within loose)
    (program : Program) :
    Prolongs loose faultOf (interpreter.lastValue program)
      ((interpreter.under loose).lastValue program) :=
  interpreter.prolongs_run hLimits (evalStatements · program.body)
    fun hLevels =>
      relates_evalStatements (Evaluator.agrees_of_le hLevels) program.body

end Interpreter

/-
  A run that ends by itself under some limits has printed, under
  all others, the start of what it prints under those.
-/
theorem Settled.extends_of_prolongs
    {α : Type}
    {fault : α → Option EvalError}
    {run : Limits → α × Interpreter}
    (hRun :
      ∀ {tight loose : Limits}, tight.Within loose →
        Prolongs loose fault (run tight) (run loose))
    {settling : Limits}
    (hSettled : Settled (fault (run settling).1))
    (other : Limits) :
    (run settling).2.Extends (run other).2 := by
  -- Limits that allow what either of the two allows.
  let joint : Limits :=
    { gasLimit := max other.gasLimit settling.gasLimit
      maxCallDepth := max other.maxCallDepth settling.maxCallDepth }
  have hOther : other.Within joint := ⟨le_max_left _ _, le_max_left _ _⟩
  have hSettling : settling.Within joint :=
    ⟨le_max_right _ _, le_max_right _ _⟩
  have hSame := (hRun hSettling).same hSettled
  have hOutput := (hRun hOther).output
  rw [hSame] at hOutput
  exact hOutput

/-
  Limits only cut a run short. A run that ends by itself ends in
  the same way, in the same state and at the same cost, under all
  limits that allow more. What a run printed before it was cut
  short is the start of what it prints under those, and of what
  it prints under any limits under which it ends by itself.
-/
theorem limits_only_cut_short
    (tight loose : Limits)
    (store : Store)
    (program : Program) :
    let executed (limits : Limits) :=
      (Interpreter.fresh limits store).execPartial program
    let valued (limits : Limits) :=
      (Interpreter.fresh limits store).lastValue program
    (tight.Within loose →
        Prolongs loose id (executed tight) (executed loose) ∧
          Prolongs loose faultOf (valued tight) (valued loose)) ∧
      (Settled (executed loose).1 →
          (executed loose).2.Extends (executed tight).2) ∧
        (Settled (faultOf (valued loose).1) →
          (valued loose).2.Extends (valued tight).2) := by
  intro executed valued
  have hExecuted {tight loose : Limits} (hLimits : tight.Within loose) :
      Prolongs loose id (executed tight) (executed loose) :=
    (Interpreter.fresh tight store).prolongs_execPartial hLimits program
  have hValued {tight loose : Limits} (hLimits : tight.Within loose) :
      Prolongs loose faultOf (valued tight) (valued loose) :=
    (Interpreter.fresh tight store).prolongs_lastValue hLimits program
  refine ⟨fun hLimits => ⟨hExecuted hLimits, hValued hLimits⟩, ?_, ?_⟩
  · exact fun hSettled => hSettled.extends_of_prolongs hExecuted tight
  · exact fun hSettled => hSettled.extends_of_prolongs hValued tight

/- Two lines are printed, of which little gas allows only the first. -/
theorem limits_only_cut_short_printing :
    ∃ program,
      parseSource "<string>" "print(1)\nprint(2)" = .ok program ∧
        let executed (limits : Limits) :=
          (Interpreter.fresh limits {}).execPartial program
        (executed ⟨6, 64⟩).1 = some (.gasExhausted 6) ∧
          (executed ⟨6, 64⟩).2.output = "1\n" ∧
            Settled (executed {}).1 ∧
              Prolongs {} id (executed ⟨6, 64⟩) (executed {}) ∧
                (executed {}).2.Extends (executed ⟨6, 64⟩).2 := by
  have hRuns :
      (parseSource "<string>" "print(1)\nprint(2)").toOption.any
          (fun program =>
            let executed (limits : Limits) :=
              (Interpreter.fresh limits {}).execPartial program
            (executed ⟨6, 64⟩).1 == some (.gasExhausted 6) &&
              (executed ⟨6, 64⟩).2.output == "1\n" &&
                (executed {}).1 == none) =
        true := by
    decide +kernel
  cases hRead : parseSource "<string>" "print(1)\nprint(2)" with
  | error faults =>
      rw [hRead] at hRuns
      cases hRuns
  | ok program =>
      rw [hRead] at hRuns
      simp only [Except.toOption, Option.any_some, Bool.and_eq_true,
        beq_iff_eq] at hRuns
      obtain ⟨⟨hShort, hOutput⟩, hLong⟩ := hRuns
      have hSettled :
          Settled ((Interpreter.fresh {} {}).execPartial program).1 := by
        rw [hLong]
        rintro cause ⟨⟩
      have hLimits := limits_only_cut_short ⟨6, 64⟩ {} {} program
      exact
        ⟨program, rfl, hShort, hOutput, hSettled,
          (hLimits.1 ⟨by decide, by decide⟩).1, hLimits.2.1 hSettled⟩

end SnippetGrader
