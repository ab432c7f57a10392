import SnippetGrader.Parsing.Cursor
import SnippetGrader.Proofs.Parsing.Yields

/-
  What parsers are put together from.

  There are few steps: to look at a token, to move on, to report
  a fault, and to fail. A parser is a sequence of them, goes one
  level deeper where there is room, passes over the faults of
  another one, or repeats one as often as tokens are left. What
  holds of the steps and is kept by each of these ways holds of
  every rule of the grammar.

  Key definitions include:
    * `Nesting`, `Nesting.guarded`
    * `Parser.Composed`

  Key theorems include:
    * `Parser.Composed.ite`, `Parser.composed_loop`
    * `Parser.composed_nested`
-/

namespace SnippetGrader

------------------------------------------------------------
-- Nesting
------------------------------------------------------------

/- What a place may be nested in. -/
inductive Nesting where
  | expression
  | block

namespace Nesting

/- The greatest number of levels. -/
def limit : Nesting → Nat
  | .expression => maxExprDepth
  | .block => maxBlockDepth

/- The number of levels that a place is nested in. -/
def depth : Nesting → Cursor → Nat
  | .expression, cursor => cursor.exprDepth
  | .block, cursor => cursor.blockDepth

/- The place one level deeper. -/
def enter : Nesting → Cursor → Cursor
  | .expression, cursor => { cursor with exprDepth := cursor.exprDepth + 1 }
  | .block, cursor => { cursor with blockDepth := cursor.blockDepth + 1 }

/- The place one level up. -/
def leave : Nesting → Cursor → Cursor
  | .expression, cursor => { cursor with exprDepth := cursor.exprDepth - 1 }
  | .block, cursor => { cursor with blockDepth := cursor.blockDepth - 1 }

variable {α : Type}

/- Runs a parser one level deeper, and comes back up. -/
def inside (nesting : Nesting) (parser : Parser α) : Parser α := fun cursor =>
  match parser (nesting.enter cursor) with
  | .ok value after => .ok value (nesting.leave after)
  | .error failure after => .error failure (nesting.leave after)

/- Runs a parser one level deeper if the limit allows it. -/
def guarded
    (nesting : Nesting)
    (refused parser : Parser α) :
    Parser α := do
  if nesting.depth (← get) ≥ nesting.limit then refused
  else nesting.inside parser

end Nesting

namespace Parser

variable {α β σ : Type}

------------------------------------------------------------
-- Composition
------------------------------------------------------------

/-
  A step that moves to another token at most, and for which the
  faults that were found before do not matter.
-/
structure Moving (step : Cursor → α × Cursor) : Prop where
  moves :
    ∀ cursor, ∃ index, (step cursor).2 = { cursor with index := index }
  blind :
    ∀ cursor errors,
      step { cursor with errors := errors } =
        ((step cursor).1, { (step cursor).2 with errors := errors })

/- Parsers that are put together from steps. -/
inductive Composed : {α : Type} → Parser α → Prop
  | pure {α : Type} (value : α) : Composed (Pure.pure value)
  | throw {α : Type} (failure : Failure) :
      Composed (MonadExcept.throw failure : Parser α)
  | step {α : Type} (step : Cursor → α × Cursor) (hStep : Moving step) :
      Composed (modifyGet step)
  | report (fault : SourceFile → Diagnostic) :
      Composed (modify fun cursor => cursor.report (fault cursor.file))
  | full : Composed tooManyErrors
  | bind {α β : Type} {parser : Parser α} {next : α → Parser β}
      (hFirst : Composed parser) (hNext : ∀ value, Composed (next value)) :
      Composed (parser >>= next)
  | guarded {α : Type} (nesting : Nesting) {refused parser : Parser α}
      (hRefused : Composed refused) (hParser : Composed parser) :
      Composed (nesting.guarded refused parser)
  | attempt {α : Type} {parser : Parser α} (hParser : Composed parser) :
      Composed (attempt parser)
  | remaining {α : Type} (family : Nat → Parser α)
      (hFamily : ∀ count, Composed (family count)) :
      Composed fun cursor => family cursor.remaining cursor

namespace Composed

variable {parser other : Parser α}

theorem ite
    {condition : Prop}
    [Decidable condition]
    (hYes : Composed parser)
    (hNo : Composed other) :
    Composed (if condition then parser else other) := by
  split
  · exact hYes
  · exact hNo

/- What follows both branches of a choice. -/
theorem iteBind
    {condition : Prop}
    [Decidable condition]
    {next : α → Parser β}
    (hYes : Composed parser)
    (hNo : Composed other)
    (hNext : ∀ value, Composed (next value)) :
    Composed
      (if condition then parser >>= next else other >>= next) :=
  .ite (hYes.bind hNext) (hNo.bind hNext)

/- A step that is made only on a condition. -/
theorem guardBind
    {condition : Prop}
    [Decidable condition]
    {step : Parser Unit}
    {next : Unit → Parser α}
    (hStep : Composed step)
    (hNext : Composed (next ())) :
    Composed (if condition then step >>= next else next ()) :=
  .ite (hStep.bind fun _ => hNext) hNext

theorem map
    (hParser : Composed parser)
    (change : α → β) :
    Composed (change <$> parser) := by
  rw [map_eq_pure_bind]
  exact hParser.bind fun _ => .pure _

theorem discard
    (hParser : Composed parser) :
    Composed (Functor.discard parser) :=
  hParser.map _

/- A step that only looks at the place, but not at its faults. -/
theorem look
    {sight : Cursor → α}
    (hSight :
      ∀ cursor errors,
        sight { cursor with errors := errors } = sight cursor) :
    Composed (do return sight (← get)) :=
  .step (fun cursor => (sight cursor, cursor))
    ⟨fun cursor => ⟨cursor.index, rfl⟩,
      fun cursor errors => congrArg (·, _) (hSight cursor errors)⟩

end Composed

------------------------------------------------------------
-- Steps
------------------------------------------------------------

theorem composed_peek : Composed peek :=
  .look fun _ _ => rfl

theorem composed_peekAhead
    (offset : Nat) :
    Composed (peekAhead offset) :=
  .look fun _ _ => rfl

theorem composed_currentSpan : Composed currentSpan :=
  .look fun _ _ => rfl

theorem composed_previousSpan : Composed Parser.previousSpan :=
  .look fun _ _ => rfl

theorem composed_advance : Composed advance := by
  refine .step _ ⟨fun cursor => ?_, fun cursor errors => ?_⟩
  · rw [Cursor.next]
    split
    · exact ⟨cursor.index + 1, rfl⟩
    · exact ⟨cursor.index, rfl⟩
  · unfold Cursor.next
    dsimp only
    split <;> rfl

theorem composed_synchronize : Composed synchronize :=
  .step _ ⟨fun _ => ⟨_, rfl⟩, fun _ _ => rfl⟩

theorem composed_check
    (kind : TokenKind) :
    Composed (check kind) :=
  Composed.bind composed_peek fun _ => .pure _

theorem composed_eat
    (kind : TokenKind) :
    Composed (eat kind) :=
  (composed_check kind).bind fun _ =>
    .ite
      (Composed.bind (Composed.discard composed_advance) fun _ => .pure _)
      (.pure _)

theorem composed_atEnd : Composed atEnd :=
  composed_check .endOfFile

------------------------------------------------------------
-- Reports
------------------------------------------------------------

theorem composed_reportAt
    (code : ErrorCode)
    (message : String)
    (span : Span) :
    Composed (reportAt code message span) :=
  .report fun file => Diagnostic.make file code message span

theorem composed_reportSubject
    (code : ErrorCode)
    (message : String)
    (span : Span)
    (subject : String) :
    Composed (reportSubject code message span subject) :=
  .report fun file =>
    { Diagnostic.make file code message span with subject := some subject }

theorem composed_refuseAt
    (code : ErrorCode)
    (message : String)
    (span : Span) :
    Composed (refuseAt code message span : Parser α) :=
  (composed_reportAt code message span).bind fun _ => .throw .reported

theorem composed_refuse
    (code : ErrorCode)
    (message : String) :
    Composed (refuse code message : Parser α) :=
  (Composed.bind composed_currentSpan fun span =>
    composed_reportAt code message span).bind fun _ => .throw .reported

------------------------------------------------------------
-- Expected Tokens
------------------------------------------------------------

theorem composed_expect
    (kind : TokenKind) :
    Composed (expect kind) :=
  (composed_check kind).bind fun _ =>
    .ite composed_advance
      (Composed.bind composed_peek fun _ => composed_refuse _ _)

theorem composed_expectClosing
    (closing : Mark)
    (openedAt : Span) :
    Composed (expectClosing closing openedAt) := by
  refine (composed_check _).bind fun _ => .ite composed_advance ?_
  refine Composed.bind composed_peek fun kind => ?_
  split <;> exact composed_refuse _ _

theorem composed_expectName : Composed expectName := by
  refine Composed.bind composed_peek fun kind => ?_
  split
  · exact Composed.bind composed_advance fun _ => .pure _
  · exact composed_refuse _ _

theorem composed_expectNewline : Composed expectNewline :=
  (composed_eat _).bind fun _ =>
    .ite (.pure _) (Composed.bind composed_atEnd fun _ =>
      .ite (.pure _) (Composed.bind composed_peek fun _ => composed_refuse _ _))

------------------------------------------------------------
-- Nesting and Repetition
------------------------------------------------------------

theorem composed_nested
    {parser : Parser α}
    (hParser : Composed parser) :
    Composed (nested parser) :=
  .guarded .expression (composed_refuse _ _) hParser

theorem composed_loopFor
    {step : σ → Parser (Step σ α)}
    (hStep : ∀ state, Composed (step state))
    (fuel : Nat)
    (state : σ) :
    Composed (loopFor step fuel state) := by
  induction fuel generalizing state with
  | zero => exact .throw .stalled
  | succ fuel ih =>
      refine (hStep state).bind fun outcome => ?_
      cases outcome with
      | again next => exact ih next
      | done value => exact .pure value

theorem composed_loop
    {step : σ → Parser (Step σ α)}
    (hStep : ∀ state, Composed (step state))
    (state : σ) :
    Composed (loop state step) :=
  .remaining (fun count => loopFor step (count + 1) state)
    fun count => composed_loopFor hStep (count + 1) state

/- A step for each of several values. -/
theorem composed_forM
    {action : α → Parser Unit}
    (hAction : ∀ value, Composed (action value))
    {values : List α} :
    Composed (values.forM action) := by
  induction values with
  | nil => exact .pure ()
  | cons value rest ih => exact (hAction value).bind fun _ => ih

/- A round that goes on after a comma. -/
theorem composed_commaRound
    {round : Parser α}
    (hRound : Composed round) :
    Composed
      (do
        let next ← round
        if ← eat (.mark .comma) then return .again next
        return .done next : Parser (Step α α)) :=
  hRound.bind fun _ =>
    (composed_eat _).bind fun _ => .ite (.pure _) (.pure _)

variable {item : Parser α}

theorem composed_moreItems
    (hItem : Composed item)
    (isEnd : TokenKind → Bool)
    (first : List α) :
    Composed (moreItems isEnd item first) := by
  refine composed_loop (fun items => ?_) first
  refine (composed_eat _).bind fun _ => .ite (.pure _) ?_
  refine Composed.bind composed_peek fun _ => .ite (.pure _) ?_
  exact hItem.bind fun _ => .pure _

theorem composed_itemsUntil
    (hItem : Composed item)
    (closing : Mark) :
    Composed (itemsUntil closing item) := by
  refine composed_loop (fun items => ?_) []
  refine (composed_check _).bind fun _ => .ite (.pure _) ?_
  refine hItem.bind fun _ => ?_
  exact (composed_eat _).bind fun _ => .ite (.pure _) (.pure _)

end Parser

end SnippetGrader
