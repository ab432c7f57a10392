import SnippetGrader.Parsing.Cursor
import SnippetGrader.Proofs.Source.Renaming
import SnippetGrader.Proofs.Token.Literals

/-
  What a parser yields.

  A parser keeps the tokens that it reads from and forgets no
  fault. What it yields has a given property unless it reports
  a fault on the way. The name of the file matters only to the
  reports.

  Key definitions include:
    * `Cursor.inFile`
    * `Parser.Yields`

  Key theorems include:
    * `Parser.Yields.bind`
    * `Parser.Yields.loop`
-/

namespace SnippetGrader

------------------------------------------------------------
-- Names of Files
------------------------------------------------------------

/- A place in a file of another name. -/
def Cursor.inFile (name : String) (cursor : Cursor) : Cursor :=
  { cursor with
    file := cursor.file.renamed name
    errors := cursor.errors.inFile name }

namespace Parser

variable {α β σ : Type}

/- A result in a file of another name. -/
def resultInFile (name : String) :
    EStateM.Result Failure Cursor α → EStateM.Result Failure Cursor α
  | .ok value cursor => .ok value (cursor.inFile name)
  | .error failure cursor => .error failure (cursor.inFile name)

end Parser

------------------------------------------------------------
-- Kept Tokens
------------------------------------------------------------

/- A place among tokens that could have been read from a text. -/
def Cursor.ReadsBack (cursor : Cursor) : Prop :=
  ∀ token ∈ cursor.tokens, token.kind.ReadsBack

/- A later place among the same tokens, with at least as many faults. -/
structure Cursor.Follows (after before : Cursor) : Prop where
  tokens : after.tokens = before.tokens
  faults : before.errors.total ≤ after.errors.total

namespace Cursor

theorem Follows.refl
    (cursor : Cursor) :
    cursor.Follows cursor :=
  ⟨rfl, Nat.le_refl _⟩

theorem Follows.trans
    {first second third : Cursor}
    (hLater : third.Follows second)
    (hEarlier : second.Follows first) :
    third.Follows first :=
  ⟨hLater.tokens.trans hEarlier.tokens,
    Nat.le_trans hEarlier.faults hLater.faults⟩

theorem Follows.readsBack
    {after before : Cursor}
    (hFollows : after.Follows before)
    (hReads : before.ReadsBack) :
    after.ReadsBack := by
  rw [ReadsBack, hFollows.tokens]
  exact hReads

theorem ReadsBack.current
    {cursor : Cursor}
    (hReads : cursor.ReadsBack) :
    cursor.current.kind.ReadsBack := by
  unfold Cursor.current
  cases hHere : cursor.tokens[cursor.index]? with
  | some token =>
      exact hReads token (Array.mem_of_getElem? hHere)
  | none =>
      cases hLast : cursor.tokens.back? with
      | some token => exact hReads token (Array.mem_of_back? hLast)
      | none => trivial

theorem ReadsBack.ahead
    {cursor : Cursor}
    (hReads : cursor.ReadsBack)
    (offset : Nat) :
    (cursor.ahead offset).ReadsBack := by
  unfold Cursor.ahead
  cases hThere : cursor.tokens[cursor.index + offset]? with
  | some token => exact hReads token (Array.mem_of_getElem? hThere)
  | none => trivial

end Cursor

namespace Parser

variable {α β σ : Type}

------------------------------------------------------------
-- What a Parser Yields
------------------------------------------------------------

/- The second of two parsers goes on where the first one ends. -/
theorem run_bind
    (parser : Parser α)
    (next : α → Parser β)
    (cursor : Cursor) :
    (parser >>= next) cursor =
      match parser cursor with
      | .ok value after => next value after
      | .error failure after => .error failure after := by
  change EStateM.bind parser next cursor = _
  unfold EStateM.bind
  cases parser cursor <;> rfl

/- A round of a loop ends it, or goes on with one round less to come. -/
theorem run_loopFor
    {σ : Type}
    (step : σ → Parser (Step σ α))
    (fuel : Nat)
    (state : σ)
    (cursor : Cursor) :
    loopFor step (fuel + 1) state cursor =
      match step state cursor with
      | .ok (.again next) after => loopFor step fuel next after
      | .ok (.done value) after => .ok value after
      | .error failure after => .error failure after := by
  change (step state >>= _) cursor = _
  rw [run_bind]
  cases step state cursor with
  | error failure after => rfl
  | ok outcome after => cases outcome <;> rfl

/- What a result has, given the place before it. -/
def Kept (holds : α → Prop) (before : Cursor) :
    EStateM.Result Failure Cursor α → Prop
  | .ok value after =>
      after.Follows before ∧
        (after.errors.total = before.errors.total → holds value)
  | .error _ after => after.Follows before

/-
  A parser that does not look at the name of the file, and that
  yields values with a property unless it reports a fault.
-/
structure Yields (parser : Parser α) (holds : α → Prop) : Prop where
  inFile :
    ∀ name cursor,
      parser (cursor.inFile name) = resultInFile name (parser cursor)
  keeps :
    ∀ cursor, cursor.ReadsBack → Kept holds cursor (parser cursor)

namespace Yields

variable {parser : Parser α}
variable {holds post : α → Prop}

theorem mono
    (hParser : Yields parser holds)
    (hPost : ∀ value, holds value → post value) :
    Yields parser post := by
  refine ⟨hParser.inFile, ?_⟩
  intro cursor hReads
  have hKept := hParser.keeps cursor hReads
  cases hRun : parser cursor with
  | ok value after =>
      rw [hRun] at hKept
      exact ⟨hKept.1, fun hSame => hPost value (hKept.2 hSame)⟩
  | error failure after =>
      rw [hRun] at hKept
      exact hKept

/- Nothing need be known of what a parser yields. -/
theorem any
    (hParser : Yields parser holds) :
    Yields parser fun _ => True :=
  hParser.mono fun _ _ => trivial

theorem pure
    {value : α}
    (hValue : holds value) :
    Yields (Pure.pure value) holds :=
  ⟨fun _ _ => rfl,
    fun cursor _ => ⟨Cursor.Follows.refl cursor, fun _ => hValue⟩⟩

theorem throw
    (failure : Failure) :
    Yields (MonadExcept.throw failure : Parser α) holds :=
  ⟨fun _ _ => rfl, fun cursor _ => Cursor.Follows.refl cursor⟩

/- What the second of two parsers yields may rest on the first value. -/
theorem bind
    {next : α → Parser β}
    {post : β → Prop}
    (hFirst : Yields parser holds)
    (hNext :
      ∀ value,
        Yields (next value) fun result => holds value → post result) :
    Yields (parser >>= next) post := by
  constructor
  · intro name cursor
    rw [run_bind, run_bind, hFirst.inFile]
    cases parser cursor with
    | ok value after => exact (hNext value).inFile name after
    | error failure after => rfl
  · intro cursor hReads
    rw [run_bind]
    have hKept := hFirst.keeps cursor hReads
    cases hRun : parser cursor with
    | error failure after =>
        rw [hRun] at hKept
        exact hKept
    | ok value after =>
        rw [hRun] at hKept
        have hLater :=
          (hNext value).keeps after (hKept.1.readsBack hReads)
        simp only
        cases hRest : next value after with
        | error failure last =>
            rw [hRest] at hLater
            exact hLater.trans hKept.1
        | ok result last =>
            rw [hRest] at hLater
            refine ⟨hLater.1.trans hKept.1, ?_⟩
            intro hSame
            -- Without a new fault in the end there was none before.
            have hEarlier := hKept.1.faults
            have hLast := hLater.1.faults
            exact hLater.2 (by omega) (hKept.2 (by omega))

theorem ite
    {condition : Prop}
    [Decidable condition]
    {other : Parser α}
    (hYes : condition → Yields parser holds)
    (hNo : ¬ condition → Yields other holds) :
    Yields (if condition then parser else other) holds := by
  by_cases hCondition : condition
  · rw [if_pos hCondition]
    exact hYes hCondition
  · rw [if_neg hCondition]
    exact hNo hCondition

/- Two ways to a value, and what follows both. -/
theorem iteBind
    {condition : Prop}
    [Decidable condition]
    {other : Parser α}
    {next : α → Parser β}
    {post : β → Prop}
    (hYes : condition → Yields parser holds)
    (hNo : ¬ condition → Yields other holds)
    (hNext :
      ∀ value,
        Yields (next value) fun result => holds value → post result) :
    Yields (if condition then parser >>= next else other >>= next)
      post :=
  .ite (fun hCondition => (hYes hCondition).bind hNext)
    fun hCondition => (hNo hCondition).bind hNext

/- A step that may be left out, and what follows it. -/
theorem guardBind
    {condition : Prop}
    [Decidable condition]
    {step : Parser Unit}
    {next : Unit → Parser β}
    {post : β → Prop}
    (hStep : Yields step fun _ => True)
    (hNext : Yields (next ()) post) :
    Yields (if condition then step >>= next else next ()) post :=
  .ite (fun _ => hStep.bind fun _ => hNext.mono fun _ hPost _ => hPost)
    fun _ => hNext

/- What follows a report need promise nothing. -/
theorem afterReport
    {report : Parser Unit}
    {next : Unit → Parser β}
    {post : β → Prop}
    (hReport : Yields report fun _ => False)
    (hNext : ∀ value, Yields (next value) fun _ => True) :
    Yields (report >>= next) post :=
  hReport.bind fun value =>
    (hNext value).mono fun _ _ hNever => hNever.elim

theorem map
    {change : α → β}
    {post : β → Prop}
    (hParser : Yields parser fun value => post (change value)) :
    Yields (change <$> parser) post := by
  have hBind :
      (change <$> parser) =
        (parser >>= fun value => Pure.pure (change value)) := by
    exact map_eq_pure_bind change parser
  rw [hBind]
  exact hParser.bind fun value => .pure fun hValue => hValue

theorem discard
    (hParser : Yields parser holds) :
    Yields (Functor.discard parser) fun _ => True :=
  hParser.any.map

end Yields

------------------------------------------------------------
-- Steps
------------------------------------------------------------

section Steps

variable {holds : α → Prop}

theorem yields_peek : Yields peek TokenKind.ReadsBack :=
  ⟨fun _ _ => rfl,
    fun cursor hReads =>
      ⟨Cursor.Follows.refl cursor, fun _ => hReads.current⟩⟩

theorem yields_peekAhead
    (offset : Nat) :
    Yields (peekAhead offset) TokenKind.ReadsBack :=
  ⟨fun _ _ => rfl,
    fun cursor hReads =>
      ⟨Cursor.Follows.refl cursor, fun _ => hReads.ahead offset⟩⟩

theorem yields_currentSpan :
    Yields currentSpan fun _ => True :=
  ⟨fun _ _ => rfl,
    fun cursor _ => ⟨Cursor.Follows.refl cursor, fun _ => trivial⟩⟩

theorem yields_previousSpan :
    Yields Parser.previousSpan fun _ => True :=
  ⟨fun _ _ => rfl,
    fun cursor _ => ⟨Cursor.Follows.refl cursor, fun _ => trivial⟩⟩

theorem yields_tooManyErrors :
    Yields tooManyErrors fun _ => True :=
  ⟨fun _ _ => rfl,
    fun cursor _ => ⟨Cursor.Follows.refl cursor, fun _ => trivial⟩⟩

theorem follows_next
    (cursor : Cursor) :
    cursor.next.Follows cursor := by
  unfold Cursor.next
  split
  · exact ⟨rfl, Nat.le_refl _⟩
  · exact Cursor.Follows.refl cursor

theorem yields_advance : Yields advance fun _ => True := by
  constructor
  · intro name cursor
    have hNext :
        (cursor.inFile name).next = cursor.next.inFile name := by
      by_cases hMore : cursor.index < cursor.tokens.size <;>
        simp [Cursor.next, Cursor.inFile, hMore]
    change EStateM.Result.ok _ (cursor.inFile name).next = _
    rw [hNext]
    rfl
  · intro cursor _
    exact ⟨follows_next cursor, fun _ => trivial⟩

theorem yields_check
    (kind : TokenKind) :
    Yields (check kind) fun _ => True :=
  Yields.bind yields_peek fun _ => .pure fun _ => trivial

theorem yields_eat
    (kind : TokenKind) :
    Yields (eat kind) fun _ => True := by
  refine (yields_check kind).bind fun found => ?_
  cases found with
  | true =>
      exact Yields.bind (Yields.discard yields_advance) fun _ =>
        .pure fun _ _ => trivial
  | false => exact .pure fun _ => trivial

theorem yields_atEnd : Yields atEnd fun _ => True :=
  yields_check .endOfFile

------------------------------------------------------------
-- Reports
------------------------------------------------------------

/- After a report, nothing is promised. -/
theorem yields_reportAt
    (code : ErrorCode)
    (message : String)
    (span : Span)
    {holds : Unit → Prop} :
    Yields (reportAt code message span) holds := by
  constructor
  · intro name cursor
    simp only [reportAt, modify, modifyGet, MonadStateOf.modifyGet,
      EStateM.modifyGet, resultInFile, Cursor.report, Cursor.inFile,
      Diagnostics.inFile_push, Diagnostic.make_renamed]
  · intro cursor _
    refine ⟨⟨rfl, Nat.le_succ _⟩, ?_⟩
    intro hSame
    exact absurd hSame (Nat.succ_ne_self _)

theorem yields_reportSubject
    (code : ErrorCode)
    (message : String)
    (span : Span)
    (subject : String)
    {holds : Unit → Prop} :
    Yields (reportSubject code message span subject) holds := by
  constructor
  · intro name cursor
    simp only [reportSubject, modify, modifyGet,
      MonadStateOf.modifyGet, EStateM.modifyGet, resultInFile,
      Cursor.report, Cursor.inFile, Diagnostics.inFile_push]
    rfl
  · intro cursor _
    refine ⟨⟨rfl, Nat.le_succ _⟩, ?_⟩
    intro hSame
    exact absurd hSame (Nat.succ_ne_self _)

theorem yields_giveUp : Yields (giveUp : Parser α) holds :=
  .throw .reported

theorem yields_report
    (code : ErrorCode)
    (message : String)
    {holds : Unit → Prop} :
    Yields (report code message) holds :=
  Yields.bind yields_currentSpan fun span => yields_reportAt code message span

theorem yields_refuse
    (code : ErrorCode)
    (message : String) :
    Yields (refuse code message : Parser α) holds := by
  have hReport : Yields (report code message) fun _ => True :=
    yields_report code message
  exact hReport.bind fun _ => yields_giveUp

theorem yields_refuseAt
    (code : ErrorCode)
    (message : String)
    (span : Span) :
    Yields (refuseAt code message span : Parser α) holds := by
  have hReport : Yields (reportAt code message span) fun _ => True :=
    yields_reportAt code message span
  exact hReport.bind fun _ => yields_giveUp

------------------------------------------------------------
-- Expected Tokens
------------------------------------------------------------

theorem yields_expect
    (kind : TokenKind) :
    Yields (expect kind) fun _ => True := by
  refine (yields_check kind).bind fun found => ?_
  cases found with
  | true => exact Yields.mono yields_advance fun _ _ _ => trivial
  | false => exact Yields.bind yields_peek fun _ => yields_refuse _ _

theorem yields_expectClosing
    (closing : Mark)
    (openedAt : Span) :
    Yields (expectClosing closing openedAt) fun _ => True := by
  refine (yields_check _).bind fun found => ?_
  cases found with
  | true => exact Yields.mono yields_advance fun _ _ _ => trivial
  | false =>
      refine Yields.bind yields_peek fun kind => ?_
      cases kind <;> exact yields_refuse _ _

theorem yields_expectName :
    Yields expectName fun ident => IsName ident.name := by
  refine Yields.bind yields_peek fun kind => ?_
  cases kind with
  | name id =>
      exact Yields.bind yields_advance fun token =>
        .pure fun _ hName => hName
  | _ => exact yields_refuse _ _

theorem yields_expectNewline :
    Yields expectNewline fun _ => True := by
  refine (yields_eat _).bind fun eaten => ?_
  cases eaten with
  | true => exact .pure fun _ => trivial
  | false =>
      refine Yields.bind yields_atEnd fun ended => ?_
      cases ended with
      | true => exact .pure fun _ _ => trivial
      | false => exact Yields.bind yields_peek fun _ => yields_refuse _ _

end Steps

------------------------------------------------------------
-- Nesting
------------------------------------------------------------

section Nesting

variable {parser : Parser α}
variable {holds : α → Prop}

/- A choice that does not look at the name of the file. -/
theorem yields_get
    {choose : Cursor → Parser α}
    (hChoose : ∀ cursor, Yields (choose cursor) holds)
    (hName :
      ∀ name cursor, choose (cursor.inFile name) = choose cursor) :
    Yields (get >>= choose) holds := by
  constructor
  · intro name cursor
    change choose (cursor.inFile name) (cursor.inFile name) = _
    rw [hName]
    exact (hChoose cursor).inFile name cursor
  · intro cursor
    exact (hChoose cursor).keeps cursor

/- A cursor with another nesting. -/
def withDepths (depths : Nat × Nat → Nat × Nat) (cursor : Cursor) : Cursor :=
  { cursor with
    exprDepth := (depths (cursor.exprDepth, cursor.blockDepth)).1
    blockDepth := (depths (cursor.exprDepth, cursor.blockDepth)).2 }

/- Nesting that is changed before a parser and changed back after it. -/
theorem yields_within
    (hParser : Yields parser holds)
    (enter leave : Nat × Nat → Nat × Nat) :
    Yields
      (fun cursor =>
        match parser (withDepths enter cursor) with
        | .ok value after => .ok value (withDepths leave after)
        | .error failure after => .error failure (withDepths leave after))
      holds := by
  constructor
  · intro name cursor
    have hRun := hParser.inFile name (withDepths enter cursor)
    have hEnter :
        withDepths enter (cursor.inFile name) =
          (withDepths enter cursor).inFile name := rfl
    simp only [hEnter, hRun]
    cases parser (withDepths enter cursor) <;> rfl
  · intro cursor hReads
    have hKept := hParser.keeps (withDepths enter cursor) hReads
    cases hRun : parser (withDepths enter cursor) with
    | ok value after =>
        rw [hRun] at hKept
        exact ⟨⟨hKept.1.tokens, hKept.1.faults⟩, hKept.2⟩
    | error failure after =>
        rw [hRun] at hKept
        exact ⟨hKept.tokens, hKept.faults⟩

theorem yields_nested
    (hParser : Yields parser holds) :
    Yields (nested parser) holds := by
  refine yields_get (fun cursor => ?_) fun _ _ => rfl
  refine .ite (fun _ => ?_) fun _ => ?_
  · exact yields_refuse _ _
  · exact yields_within hParser
      (fun depths => (depths.1 + 1, depths.2))
      (fun depths => (depths.1 - 1, depths.2))

theorem yields_inBlock
    (hParser : Yields parser holds) :
    Yields (inBlock parser) holds :=
  yields_within hParser
    (fun depths => (depths.1, depths.2 + 1))
    (fun depths => (depths.1, depths.2 - 1))

/- A fault that is passed over leaves nothing. -/
theorem yields_attempt
    (hParser : Yields parser holds) :
    Yields (attempt parser) fun found =>
      ∀ value, found = some value → holds value := by
  constructor
  · intro name cursor
    simp only [attempt, hParser.inFile]
    cases parser cursor with
    | ok value after => rfl
    | error failure after => cases failure <;> rfl
  · intro cursor hReads
    have hKept := hParser.keeps cursor hReads
    simp only [attempt]
    cases hRun : parser cursor with
    | ok value after =>
        rw [hRun] at hKept
        refine ⟨hKept.1, ?_⟩
        rintro hSame _ ⟨⟩
        exact hKept.2 hSame
    | error failure after =>
        rw [hRun] at hKept
        cases failure with
        | reported =>
            refine ⟨hKept, ?_⟩
            rintro _ _ ⟨⟩
        | stalled => exact hKept

theorem yields_synchronize :
    Yields synchronize fun _ => True :=
  ⟨fun _ _ => rfl,
    fun _ _ => ⟨⟨rfl, Nat.le_refl _⟩, fun _ => trivial⟩⟩

end Nesting

------------------------------------------------------------
-- Repetition
------------------------------------------------------------

section Repetition

variable {step : σ → Parser (Step σ α)}
variable {invariant : σ → Prop}
variable {holds : α → Prop}

/- What a round of a loop must keep. -/
def RoundKeeps
    (invariant : σ → Prop)
    (holds : α → Prop)
    (state : σ) :
    Step σ α → Prop
  | .again next => invariant state → invariant next
  | .done value => invariant state → holds value

theorem yields_loopFor
    (hStep :
      ∀ state,
        Yields (step state) (RoundKeeps invariant holds state))
    (fuel : Nat)
    (state : σ) :
    Yields (loopFor step fuel state) fun value =>
      invariant state → holds value := by
  induction fuel generalizing state with
  | zero => exact .throw .stalled
  | succ fuel ih =>
      refine (hStep state).bind fun outcome => ?_
      cases outcome with
      | again next =>
          exact (ih next).mono fun value hValue hRound hHere =>
            hValue (hRound hHere)
      | done value => exact .pure fun hRound => hRound

/- The number of rounds may depend on the place. -/
theorem yields_remaining
    {family : Nat → Parser α}
    (hFamily : ∀ count, Yields (family count) holds) :
    Yields (fun cursor => family cursor.remaining cursor) holds :=
  ⟨fun name cursor => (hFamily cursor.remaining).inFile name cursor,
    fun cursor => (hFamily cursor.remaining).keeps cursor⟩

/- A loop keeps what each of its rounds keeps. -/
theorem yields_loop
    (invariant : σ → Prop)
    (holds : α → Prop)
    {start : σ}
    (hStart : invariant start)
    (hStep :
      ∀ state,
        Yields (step state) (RoundKeeps invariant holds state)) :
    Yields (loop start step) holds := by
  have hRounds (count : Nat) :
      Yields (loopFor step (count + 1) start) holds :=
    (yields_loopFor hStep (count + 1) start).mono fun _ hValue =>
      hValue hStart
  exact yields_remaining hRounds

theorem yields_moreItems
    {item : Parser α}
    (hItem : Yields item holds)
    (isEnd : TokenKind → Bool)
    (first : List α) :
    Yields (moreItems isEnd item first) fun items =>
      (∀ value ∈ first, holds value) →
        first.length ≤ items.length ∧ ∀ value ∈ items, holds value := by
  let invariant := fun items : List α =>
    (∀ value ∈ first, holds value) →
      first.length ≤ items.length ∧ ∀ value ∈ items, holds value
  have hStart : invariant first := fun hFirst =>
    ⟨Nat.le_refl _, hFirst⟩
  refine yields_loop invariant _ hStart fun items => ?_
  refine (yields_eat _).bind fun eaten => .ite (fun _ => ?_) fun _ => ?_
  · exact .pure fun _ hItems => hItems
  refine Yields.bind yields_peek fun kind => .ite (fun _ => ?_) fun _ => ?_
  · exact .pure fun _ _ hItems => hItems
  refine hItem.bind fun value => .pure ?_
  intro hValue _ _ hItems hFirst
  obtain ⟨hLength, hAll⟩ := hItems hFirst
  refine ⟨?_, ?_⟩
  · rw [List.length_append]
    omega
  · exact List.forall_mem_append.mpr
      ⟨hAll, by simpa using hValue⟩

theorem yields_itemsUntil
    {item : Parser α}
    (hItem : Yields item holds)
    (closing : Mark) :
    Yields (itemsUntil closing item) fun items =>
      ∀ value ∈ items, holds value := by
  let invariant := fun items : List α => ∀ value ∈ items, holds value
  have hStart : invariant [] := fun _ hMem => nomatch hMem
  refine yields_loop invariant _ hStart fun items => ?_
  refine (yields_check _).bind fun ended => .ite (fun _ => ?_) fun _ => ?_
  · exact .pure fun _ hItems => hItems
  refine hItem.bind fun value => ?_
  have hMore :
      holds value → invariant items → invariant (items ++ [value]) :=
    fun hValue hItems =>
      List.forall_mem_append.mpr ⟨hItems, by simpa using hValue⟩
  refine (yields_eat _).bind fun eaten => .ite (fun _ => ?_) fun _ => ?_
  · exact .pure fun _ hValue _ => hMore hValue
  · exact .pure fun _ hValue _ => hMore hValue

end Repetition

end Parser

end SnippetGrader
