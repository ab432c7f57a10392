import SnippetGrader.Proofs.Parsing.Productions
import SnippetGrader.Proofs.Source.FaultCounts

/-
  Nesting is the same before and after every production.

  Whether or not a production fails, the place where it ends
  differs from the one where it starts in the next token and in
  the faults that it adds. So no statement that fails leaves a
  level behind. On the way no place is nested more deeply than
  the limits allow. And the faults that were found before matter
  to what follows only in that they fill the list.

  Key definitions include:
    * `Cursor.LeadsTo`
    * `Parser.Passes`
    * `Parser.Alongside`

  Key theorems include:
    * `Parser.Composed.leadsTo`
    * `Parser.Passes.bounded`
    * `Parser.Composed.alongside`
    * `nesting_restored`
-/

namespace SnippetGrader

open SnippetGrader.Parser

------------------------------------------------------------
-- Later Places
------------------------------------------------------------

namespace Cursor

/- A place at any token, nested as before and with faults added. -/
def LeadsTo (cursor after : Cursor) : Prop :=
  ∃ (index : Nat) (found : List Diagnostic),
    after =
      { cursor with
        index := index
        errors := found.foldl Diagnostics.push cursor.errors }

variable {cursor middle after : Cursor}

theorem LeadsTo.refl
    (cursor : Cursor) :
    cursor.LeadsTo cursor :=
  ⟨cursor.index, [], rfl⟩

theorem LeadsTo.trans
    (hMiddle : cursor.LeadsTo middle)
    (hAfter : middle.LeadsTo after) :
    cursor.LeadsTo after := by
  obtain ⟨_, found, rfl⟩ := hMiddle
  obtain ⟨index, added, rfl⟩ := hAfter
  exact ⟨index, found ++ added, by rw [List.foldl_append]⟩

theorem LeadsTo.depth
    (hAfter : cursor.LeadsTo after)
    (nesting : Nesting) :
    nesting.depth after = nesting.depth cursor := by
  obtain ⟨index, found, rfl⟩ := hAfter
  cases nesting <;> rfl

/- What happens one level deeper is the same one level up. -/
theorem LeadsTo.leave
    {nesting : Nesting}
    (hAfter : (nesting.enter cursor).LeadsTo after) :
    cursor.LeadsTo (nesting.leave after) := by
  obtain ⟨index, found, rfl⟩ := hAfter
  refine ⟨index, found, ?_⟩
  cases nesting <;> rfl

end Cursor

namespace Parser

variable {α β : Type}

/- The place where a result was found. -/
def endOf : EStateM.Result Failure Cursor α → Cursor
  | .ok _ after | .error _ after => after

/- The value of a result, or why there is none. -/
def outcome : EStateM.Result Failure Cursor α → Except Failure α
  | .ok value _ => .ok value
  | .error failure _ => .error failure

theorem run_guarded
    (nesting : Nesting)
    (refused parser : Parser α)
    (cursor : Cursor) :
    nesting.guarded refused parser cursor =
      if nesting.depth cursor ≥ nesting.limit then refused cursor
      else nesting.inside parser cursor := by
  change
    (if nesting.depth cursor ≥ nesting.limit then refused
      else nesting.inside parser) cursor = _
  split <;> rfl

theorem endOf_inside
    (nesting : Nesting)
    (parser : Parser α)
    (cursor : Cursor) :
    endOf (nesting.inside parser cursor) =
      nesting.leave (endOf (parser (nesting.enter cursor))) := by
  unfold Nesting.inside
  cases parser (nesting.enter cursor) <;> rfl

theorem endOf_attempt
    (parser : Parser α)
    (cursor : Cursor) :
    endOf (attempt parser cursor) = endOf (parser cursor) := by
  unfold attempt
  cases parser cursor with
  | ok value after => rfl
  | error failure after => cases failure <;> rfl

/- A parser that is put together from steps restores the nesting. -/
theorem Composed.leadsTo
    {parser : Parser α}
    (hParser : Composed parser)
    (cursor : Cursor) :
    cursor.LeadsTo (endOf (parser cursor)) := by
  induction hParser generalizing cursor with
  | pure value => exact .refl cursor
  | throw failure => exact .refl cursor
  | step step hStep =>
      obtain ⟨index, hIndex⟩ := hStep.moves cursor
      exact ⟨index, [], hIndex⟩
  | report fault => exact ⟨cursor.index, [fault cursor.file], rfl⟩
  | full => exact .refl cursor
  | @bind α β parser next hFirst hNext ihFirst ihNext =>
      have hMiddle := ihFirst cursor
      rw [run_bind]
      cases hRun : parser cursor with
      | error failure middle =>
          rw [hRun] at hMiddle
          exact hMiddle
      | ok value middle =>
          rw [hRun] at hMiddle
          exact hMiddle.trans (ihNext value middle)
  | guarded nesting hRefused hParser ihRefused ihParser =>
      rw [run_guarded]
      split
      · exact ihRefused cursor
      · rw [endOf_inside]
        exact (ihParser _).leave
  | attempt hParser ih =>
      rw [endOf_attempt]
      exact ih cursor
  | remaining family hFamily ih => exact ih cursor.remaining cursor

------------------------------------------------------------
-- Places on the Way
------------------------------------------------------------

/-
  The places that a parser passes through from a given one on:
  those where its steps start and end, whether it goes on from
  them, goes deeper or fails.
-/
inductive Passes : {α : Type} → Parser α → Cursor → Cursor → Prop
  | start {α : Type} (parser : Parser α) (cursor : Cursor) :
      Passes parser cursor cursor
  | finish {α : Type} {parser : Parser α} (hParser : Composed parser)
      (cursor : Cursor) :
      Passes parser cursor (endOf (parser cursor))
  | first {α β : Type} {parser : Parser α} {next : α → Parser β}
      {cursor place : Cursor}
      (hPlace : Passes parser cursor place) :
      Passes (parser >>= next) cursor place
  | second {α β : Type} {parser : Parser α} {next : α → Parser β}
      {cursor middle place : Cursor} {value : α}
      (hParser : Composed parser)
      (hRun : parser cursor = .ok value middle)
      (hPlace : Passes (next value) middle place) :
      Passes (parser >>= next) cursor place
  | refused {α : Type} {nesting : Nesting} {refused parser : Parser α}
      {cursor place : Cursor}
      (hDeep : nesting.depth cursor ≥ nesting.limit)
      (hPlace : Passes refused cursor place) :
      Passes (nesting.guarded refused parser) cursor place
  | inside {α : Type} {nesting : Nesting} {refused parser : Parser α}
      {cursor place : Cursor}
      (hRoom : ¬ nesting.depth cursor ≥ nesting.limit)
      (hPlace : Passes parser (nesting.enter cursor) place) :
      Passes (nesting.guarded refused parser) cursor place
  | attempt {α : Type} {parser : Parser α} {cursor place : Cursor}
      (hPlace : Passes parser cursor place) :
      Passes (attempt parser) cursor place
  | remaining {α : Type} {family : Nat → Parser α}
      {cursor place : Cursor}
      (hPlace : Passes (family cursor.remaining) cursor place) :
      Passes (fun cursor => family cursor.remaining cursor) cursor place

/- One level more is within the limit if there was room for it. -/
theorem depth_enter_le
    {nesting : Nesting}
    {cursor : Cursor}
    (hRoom : ¬ nesting.depth cursor ≥ nesting.limit)
    (counted : Nesting) :
    counted.depth (nesting.enter cursor) ≤
      max (counted.depth cursor) counted.limit := by
  cases nesting <;> cases counted <;>
    simp only [Nesting.enter, Nesting.depth, Nesting.limit] at hRoom ⊢ <;>
    omega

/- No place on the way is nested beyond the limit. -/
theorem Passes.bounded
    {parser : Parser α}
    {cursor place : Cursor}
    (hPlace : Passes parser cursor place)
    (nesting : Nesting) :
    nesting.depth place ≤ max (nesting.depth cursor) nesting.limit := by
  induction hPlace with
  | start parser cursor => exact Nat.le_max_left _ _
  | finish hParser cursor =>
      rw [(hParser.leadsTo cursor).depth]
      exact Nat.le_max_left _ _
  | first hPlace ih => exact ih
  | @second _ _ _ _ cursor _ _ _ hParser hRun hPlace ih =>
      -- What comes first ends as deeply nested as it starts.
      have hMiddle := hParser.leadsTo cursor
      rw [hRun] at hMiddle
      rwa [← hMiddle.depth]
  | refused hDeep hPlace ih => exact ih
  | inside hRoom hPlace ih =>
      exact ih.trans (max_le (depth_enter_le hRoom nesting)
        (Nat.le_max_right _ _))
  | attempt hPlace ih => exact ih
  | remaining hPlace ih => exact ih

end Parser

------------------------------------------------------------
-- Faults Found Before
------------------------------------------------------------

namespace Cursor

/- A place where some faults have been found. -/
def recording (cursor : Cursor) (found : List Diagnostic) : Cursor :=
  { cursor with errors := .recorded found }

/- A place where some faults have been found first. -/
def RecordsFrom (cursor : Cursor) (found : List Diagnostic) : Prop :=
  ∃ added, cursor.errors = .recorded (found ++ added)

variable {cursor after : Cursor}
variable {found : List Diagnostic}

theorem report_recording
    (cursor : Cursor)
    (found : List Diagnostic)
    (fault : Diagnostic) :
    (cursor.recording found).report fault =
      cursor.recording (found ++ [fault]) := by
  rw [report, recording, Diagnostics.recorded_push, recording]

theorem RecordsFrom.leadsTo
    (hFound : cursor.RecordsFrom found)
    (hAfter : cursor.LeadsTo after) :
    after.RecordsFrom found := by
  obtain ⟨added, hErrors⟩ := hFound
  obtain ⟨index, more, rfl⟩ := hAfter
  refine ⟨added ++ more, ?_⟩
  dsimp only
  rw [hErrors, Diagnostics.recorded_foldl_push, List.append_assoc]

end Cursor

namespace Parser

/-
  Two results from places that differ in the faults found before.
  They are the same, with the same faults added, or they parted
  when the first list was full.
-/
inductive Alongside (before : List Diagnostic) :
    EStateM.Result Failure Cursor α →
      EStateM.Result Failure Cursor α → Prop
  | ok (value : α) (cursor : Cursor) (found : List Diagnostic) :
      Alongside before
        (.ok value (cursor.recording (before ++ found)))
        (.ok value (cursor.recording found))
  | error (failure : Failure) (cursor : Cursor)
      (found : List Diagnostic) :
      Alongside before
        (.error failure (cursor.recording (before ++ found)))
        (.error failure (cursor.recording found))
  | parted {result other : EStateM.Result Failure Cursor α}
      (found : List Diagnostic)
      (hFull : maxErrors ≤ (before ++ found).length)
      (hResult : (endOf result).RecordsFrom (before ++ found))
      (hOther : (endOf other).RecordsFrom found) :
      Alongside before result other

variable {before : List Diagnostic}

/- What is read next forgets no fault. -/
theorem recordsFrom_next
    {next : α → Parser β}
    (hNext : ∀ value, Composed (next value))
    {found : List Diagnostic}
    {result : EStateM.Result Failure Cursor α}
    (hResult : (endOf result).RecordsFrom found) :
    (endOf
      (match result with
        | .ok value after => next value after
        | .error failure after => .error failure after)).RecordsFrom
      found := by
  cases result with
  | ok value after => exact hResult.leadsTo ((hNext value).leadsTo after)
  | error failure after => exact hResult

/- Going deeper and coming back up does not touch the faults. -/
theorem Alongside.inside
    {nesting : Nesting}
    {parser : Parser α}
    {cursor : Cursor}
    {found : List Diagnostic}
    (hResults :
      Alongside before
        (parser ((nesting.enter cursor).recording (before ++ found)))
        (parser ((nesting.enter cursor).recording found))) :
    Alongside before
      (nesting.inside parser (cursor.recording (before ++ found)))
      (nesting.inside parser (cursor.recording found)) := by
  have hEnter (found : List Diagnostic) :
      nesting.enter (cursor.recording found) =
        (nesting.enter cursor).recording found := by
    cases nesting <;> rfl
  have hLeave (cursor : Cursor) (found : List Diagnostic) :
      nesting.leave (cursor.recording found) =
        (nesting.leave cursor).recording found := by
    cases nesting <;> rfl
  have hKept {cursor : Cursor} {found : List Diagnostic}
      (hFound : cursor.RecordsFrom found) :
      (nesting.leave cursor).RecordsFrom found := by
    cases nesting <;> exact hFound
  unfold Nesting.inside
  rw [hEnter, hEnter]
  generalize parser ((nesting.enter cursor).recording (before ++ found)) =
    result at *
  generalize parser ((nesting.enter cursor).recording found) = other at *
  cases hResults with
  | ok value after added =>
      simp only [hLeave]
      exact .ok value (nesting.leave after) added
  | error failure after added =>
      simp only [hLeave]
      exact .error failure (nesting.leave after) added
  | parted added hFull hResult hOther =>
      refine .parted added hFull ?_ ?_
      · cases result <;> exact hKept hResult
      · cases other <;> exact hKept hOther

/-
  A parser does the same and adds the same faults whatever was
  found before, until the list is full.
-/
theorem Composed.alongside
    {parser : Parser α}
    (hParser : Composed parser)
    (before found : List Diagnostic)
    (cursor : Cursor) :
    Alongside before (parser (cursor.recording (before ++ found)))
      (parser (cursor.recording found)) := by
  induction hParser generalizing cursor found with
  | pure value => exact .ok value cursor found
  | throw failure => exact .error failure cursor found
  | @step α step hStep =>
      have hRun (found : List Diagnostic) :
          (modifyGet step : Parser α) (cursor.recording found) =
            .ok (step cursor).1 ((step cursor).2.recording found) := by
        change EStateM.Result.ok (step _).1 (step _).2 = _
        rw [Cursor.recording, hStep.blind]
        rfl
      rw [hRun, hRun]
      exact .ok _ _ found
  | report fault =>
      have hRun (found : List Diagnostic) :
          (modify fun cursor => cursor.report (fault cursor.file) :
              Parser Unit) (cursor.recording found) =
            .ok () (cursor.recording (found ++ [fault cursor.file])) :=
        congrArg (EStateM.Result.ok ())
          (cursor.report_recording found (fault cursor.file))
      rw [hRun, hRun, List.append_assoc]
      exact .ok () cursor _
  | full =>
      have hRun (found : List Diagnostic) :
          tooManyErrors (cursor.recording found) =
            EStateM.Result.ok (decide (maxErrors ≤ found.length))
              (cursor.recording found) := rfl
      rw [hRun, hRun]
      -- Only here does it matter how many faults were found before.
      by_cases hFull : maxErrors ≤ (before ++ found).length
      · exact .parted found hFull ⟨[], by rw [List.append_nil]; rfl⟩
          ⟨[], by rw [List.append_nil]; rfl⟩
      · have hRoom : ¬ maxErrors ≤ found.length := by
          rw [List.length_append] at hFull
          omega
        rw [decide_eq_false hFull, decide_eq_false hRoom]
        exact .ok false cursor found
  | @bind α β parser next hFirst hNext ihFirst ihNext =>
      have hMiddle := ihFirst found cursor
      rw [run_bind, run_bind]
      generalize parser (cursor.recording (before ++ found)) = result at *
      generalize parser (cursor.recording found) = other at *
      cases hMiddle with
      | ok value middle added => exact ihNext value added middle
      | error failure middle added => exact .error failure middle added
      | parted added hFull hResult hOther =>
          exact .parted added hFull (recordsFrom_next hNext hResult)
            (recordsFrom_next hNext hOther)
  | guarded nesting hRefused hParser ihRefused ihParser =>
      have hDepth (found : List Diagnostic) :
          nesting.depth (cursor.recording found) = nesting.depth cursor := by
        cases nesting <;> rfl
      rw [run_guarded, run_guarded, hDepth, hDepth]
      split
      · exact ihRefused found cursor
      · exact (ihParser found (nesting.enter cursor)).inside
  | @attempt α parser hParser ih =>
      have hResults := ih found cursor
      unfold Parser.attempt
      generalize parser (cursor.recording (before ++ found)) = result at *
      generalize parser (cursor.recording found) = other at *
      cases hResults with
      | ok value after added => exact .ok (some value) after added
      | error failure after added =>
          cases failure with
          | reported => exact .ok none after added
          | stalled => exact .error .stalled after added
      | parted added hFull hResult hOther =>
          refine .parted added hFull ?_ ?_
          · cases result with
            | ok value after => exact hResult
            | error failure after => cases failure <;> exact hResult
          · cases other with
            | ok value after => exact hOther
            | error failure after => cases failure <;> exact hOther
  | remaining family hFamily ih =>
      exact ih cursor.remaining found cursor

/- The faults stored are those found before and after, up to the cap. -/
theorem Alongside.stored
    {result other : EStateM.Result Failure Cursor α}
    (hResults : Alongside before result other) :
    (endOf result).errors.stored =
      (before ++ (endOf other).errors.stored).take maxErrors := by
  cases hResults with
  | ok value cursor found => exact (Diagnostics.take_append_take _ _).symm
  | error failure cursor found => exact (Diagnostics.take_append_take _ _).symm
  | parted found hFull hResult hOther =>
      obtain ⟨added, hResult⟩ := hResult
      obtain ⟨more, hOther⟩ := hOther
      rw [hResult, hOther, Diagnostics.recorded, Diagnostics.recorded]
      dsimp only
      rw [Diagnostics.take_append_take, ← List.append_assoc,
        List.take_append_of_le_length hFull,
        List.take_append_of_le_length hFull]

/- Results that parted have a full list. -/
theorem Alongside.outcome
    {result other : EStateM.Result Failure Cursor α}
    (hResults : Alongside before result other)
    (hRoom : (endOf result).errors.isFull = false) :
    Parser.outcome result = Parser.outcome other := by
  cases hResults with
  | ok value cursor found => rfl
  | error failure cursor found => rfl
  | parted found hFull hResult hOther =>
      obtain ⟨added, hResult⟩ := hResult
      rw [hResult, Diagnostics.isFull, Diagnostics.recorded,
        decide_eq_false_iff_not] at hRoom
      dsimp only at hRoom
      rw [List.length_append] at hRoom
      omega

end Parser

------------------------------------------------------------
-- Productions
------------------------------------------------------------

/-
  Every production ends as deeply nested as it starts, whether
  it fails or not and whatever faults it adds, and on the way it
  is nested no more deeply than the limits allow, or than it was
  at the start. So what is tried later, from any token on, finds
  the nesting that the production found. It stores just the
  faults, up to the cap, that it finds where no fault has been
  found before, and with room for more it has the same outcome.
-/
theorem nesting_restored
    {α : Type}
    {production : Parser α}
    (hProduction : Production production)
    (cursor : Cursor) :
    let after := endOf (production cursor)
    Composed production ∧
    after.exprDepth = cursor.exprDepth ∧
    after.blockDepth = cursor.blockDepth ∧
    (∀ place,
      Passes production cursor place →
        place.exprDepth ≤ max cursor.exprDepth maxExprDepth ∧
        place.blockDepth ≤ max cursor.blockDepth maxBlockDepth) ∧
    (cursor.errors.Capped →
      ∀ (β : Type) (later : Parser β) (index : Nat),
        Production later →
          let there := { after with index := index }
          let alone := { cursor with index := index, errors := {} }
          (endOf (later there)).errors.stored =
            (after.errors.stored ++
              (endOf (later alone)).errors.stored).take maxErrors ∧
          ((endOf (later there)).errors.isFull = false →
            outcome (later there) = outcome (later alone))) := by
  intro after
  have hAfter := hProduction.composed.leadsTo cursor
  refine ⟨hProduction.composed, hAfter.depth .expression,
    hAfter.depth .block, fun place hPlace => ?_, ?_⟩
  · exact ⟨hPlace.bounded .expression, hPlace.bounded .block⟩
  · intro hCapped β later index hLater there alone
    obtain ⟨before, hBefore⟩ := hCapped.exists_recorded
    obtain ⟨last, added, hEnd⟩ := hAfter
    rw [hBefore, Diagnostics.recorded_foldl_push] at hEnd
    have hErrors : after.errors = .recorded (before ++ added) :=
      congrArg Cursor.errors hEnd
    have hThere :
        there =
          { cursor with index := index }.recording
            ((before ++ added) ++ []) := by
      rw [List.append_nil]
      exact congrArg (fun place => { place with index := index }) hEnd
    have hResults :=
      hLater.composed.alongside (before ++ added) []
        { cursor with index := index }
    rw [← hThere] at hResults
    refine ⟨?_, hResults.outcome⟩
    rw [hResults.stored, hErrors]
    exact (Diagnostics.take_recorded_append _ _).symm

/- A statement of too many brackets, and a statement after it. -/
theorem nesting_restored_brackets :
    let opening : Token := ⟨.mark .openParen, .point 1 1⟩
    let rest : List Token :=
      [⟨.newline, .point 1 2⟩, ⟨.mark .openParen, .point 2 1⟩,
        ⟨.name "a", .point 2 2⟩, ⟨.mark .closeParen, .point 2 3⟩,
        ⟨.newline, .point 2 4⟩, ⟨.endOfFile, .point 3 1⟩]
    let tokens := (List.replicate 65 opening ++ rest).toArray
    let cursor : Cursor := { file := ⟨"a.py", ""⟩, tokens := tokens }
    let after := endOf (StmtGrammar.top.statements cursor)
    let last :=
      endOf (StmtGrammar.top.statements { after with index := 66 })
    Production StmtGrammar.top.statements ∧
      after.errors.stored.map (·.code) = [.nestingLimit] ∧
      after.exprDepth = 0 ∧
      after.blockDepth = 0 ∧
      last.errors.stored = after.errors.stored ∧
      last.index = 70 := by
  -- The later places stay spelled out, so that nothing is parsed twice.
  intro opening rest tokens cursor
  have hStatements : Production StmtGrammar.top.statements :=
    .statement .statements
  obtain ⟨-, hExpr, hBlock, -, hLater⟩ :=
    nesting_restored hStatements cursor
  obtain ⟨hLast, -⟩ := hLater rfl _ _ 66 hStatements
  obtain ⟨hCodes, hAlone, hIndex⟩ :
      let after := endOf (StmtGrammar.top.statements cursor)
      let last :=
        endOf (StmtGrammar.top.statements { after with index := 66 })
      let alone :=
        endOf (StmtGrammar.top.statements
          { cursor with index := 66, errors := {} })
      after.errors.stored.map (·.code) = [.nestingLimit] ∧
        alone.errors.stored = [] ∧
        last.index = 70 := by
    decide +kernel
  rw [hAlone, List.append_nil, List.take_of_length_le] at hLast
  · exact ⟨hStatements, hCodes, hExpr, hBlock, hLast, hIndex⟩
  · rw [← List.length_map, hCodes]
    decide

end SnippetGrader
