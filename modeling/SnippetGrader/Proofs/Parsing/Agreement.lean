import SnippetGrader.Parsing.Cursor
import SnippetGrader.Proofs.Parsing.Yields
import SnippetGrader.Proofs.Tree.Erasure

/-
  Parsers on tokens of the same kinds.

  Where tokens stand matters only to the spans of what is read
  and to the reports. Two parsers agree if from places that
  differ in nothing else they get to such places, with the same
  value once its positions are erased, or both of them fail.

  Key definitions include:
    * `Cursor.Alike`
    * `Parser.Agrees`

  Key theorems include:
    * `Parser.Agrees.bind`
    * `Parser.Agrees.loop`
-/

namespace SnippetGrader

------------------------------------------------------------
-- Places
------------------------------------------------------------

namespace Cursor

/- The kinds of the tokens. -/
def kinds (cursor : Cursor) : List TokenKind :=
  cursor.tokens.toList.map (·.kind)

/-
  The same place among tokens of the same kinds, with as many
  faults and as deeply nested.
-/
structure Alike (cursor other : Cursor) : Prop where
  kinds : cursor.kinds = other.kinds
  index : cursor.index = other.index
  stored : cursor.errors.stored.length = other.errors.stored.length
  total : cursor.errors.total = other.errors.total
  exprDepth : cursor.exprDepth = other.exprDepth
  blockDepth : cursor.blockDepth = other.blockDepth

variable {cursor other : Cursor}

theorem kind_getElem?
    (cursor : Cursor)
    (index : Nat) :
    cursor.tokens[index]?.map (·.kind) = cursor.kinds[index]? := by
  simp [kinds]

theorem Alike.size
    (hAlike : cursor.Alike other) :
    cursor.tokens.size = other.tokens.size := by
  simpa [Cursor.kinds] using congrArg List.length hAlike.kinds

theorem Alike.remaining
    (hAlike : cursor.Alike other) :
    cursor.remaining = other.remaining := by
  rw [Cursor.remaining, Cursor.remaining, hAlike.size, hAlike.index]

theorem Alike.current
    (hAlike : cursor.Alike other) :
    cursor.current.kind = other.current.kind := by
  have hKind (cursor : Cursor) :
      cursor.current.kind =
        (cursor.kinds[cursor.index]?.or cursor.kinds.getLast?).getD
          .endOfFile := by
    have hLast :
        cursor.tokens.back?.map (·.kind) = cursor.kinds.getLast? := by
      simp [Cursor.kinds, ← Array.getLast?_toList]
    rw [← hLast, ← kind_getElem?, Cursor.current]
    cases cursor.tokens[cursor.index]? with
    | some token => rfl
    | none => cases cursor.tokens.back? <;> rfl
  rw [hKind, hKind, hAlike.kinds, hAlike.index]

theorem Alike.ahead
    (hAlike : cursor.Alike other)
    (offset : Nat) :
    cursor.ahead offset = other.ahead offset := by
  rw [Cursor.ahead, Cursor.ahead, kind_getElem?, kind_getElem?,
    hAlike.kinds, hAlike.index]

theorem Alike.isFull
    (hAlike : cursor.Alike other) :
    cursor.errors.isFull = other.errors.isFull := by
  rw [Diagnostics.isFull, Diagnostics.isFull, hAlike.total]

theorem Alike.next
    (hAlike : cursor.Alike other) :
    cursor.next.Alike other.next := by
  unfold Cursor.next
  rw [hAlike.size, hAlike.index]
  split
  · exact ⟨hAlike.kinds, rfl, hAlike.stored, hAlike.total,
      hAlike.exprDepth, hAlike.blockDepth⟩
  · exact hAlike

theorem Alike.report
    (hAlike : cursor.Alike other)
    (fault fault' : Diagnostic) :
    (cursor.report fault).Alike (other.report fault') := by
  refine ⟨hAlike.kinds, hAlike.index, ?_,
    congrArg (· + 1) hAlike.total, hAlike.exprDepth,
    hAlike.blockDepth⟩
  have hLength (faults : Diagnostics) (fault : Diagnostic) :
      (faults.push fault).stored.length =
        if faults.stored.length < maxErrors
        then faults.stored.length + 1
        else faults.stored.length := by
    simp only [Diagnostics.push]
    split <;> simp
  rw [Cursor.report, Cursor.report, hLength, hLength, hAlike.stored]

end Cursor

namespace Parser

variable {α β γ δ σ τ : Type}

/- The tokens up to the next line are told apart by their kinds. -/
theorem tokensToNextLine_eq
    {tokens others : List Token}
    (hKinds : tokens.map (·.kind) = others.map (·.kind))
    (depth : Nat) :
    tokensToNextLine depth tokens = tokensToNextLine depth others := by
  induction tokens generalizing others depth with
  | nil =>
      rw [List.map_nil, eq_comm, List.map_eq_nil_iff] at hKinds
      rw [hKinds]
  | cons token rest ih =>
      cases others with
      | nil => simp at hKinds
      | cons other others =>
          obtain ⟨hKind, hRest⟩ := List.cons.inj hKinds
          simp only [tokensToNextLine, hKind, ih hRest]

------------------------------------------------------------
-- Agreement
------------------------------------------------------------

/- Results at like places, whose values are the same once erased. -/
inductive ResultsAgree
    (erase : α → β) :
    EStateM.Result Failure Cursor α →
      EStateM.Result Failure Cursor α → Prop
  | ok
      {value value' : α}
      {after after' : Cursor}
      (hValue : erase value = erase value')
      (hAfter : after.Alike after') :
      ResultsAgree erase (.ok value after) (.ok value' after')
  | error
      {failure : Failure}
      {after after' : Cursor}
      (hAfter : after.Alike after') :
      ResultsAgree erase (.error failure after) (.error failure after')

/- Parsers that get from like places to like results. -/
structure Agrees
    (erase : α → β)
    (parser parser' : Parser α) : Prop where
  results :
    ∀ {cursor cursor' : Cursor},
      cursor.Alike cursor' →
        ResultsAgree erase (parser cursor) (parser' cursor')

namespace Agrees

variable {erase : α → β}
variable {parser parser' other other' : Parser α}

theorem pure
    {value value' : α}
    (hValue : erase value = erase value') :
    Agrees erase (Pure.pure value) (Pure.pure value') :=
  ⟨fun hAlike => .ok hValue hAlike⟩

theorem throw
    (failure : Failure) :
    Agrees erase (MonadExcept.throw failure : Parser α)
      (MonadExcept.throw failure) :=
  ⟨fun hAlike => .error hAlike⟩

/- The second of two parsers may rest on what the first one reads. -/
theorem bind
    {next next' : α → Parser γ}
    {later : γ → δ}
    (hFirst : Agrees erase parser parser')
    (hNext :
      ∀ value value', erase value = erase value' →
        Agrees later (next value) (next' value')) :
    Agrees later (parser >>= next) (parser' >>= next') := by
  refine ⟨fun {cursor cursor'} hAlike => ?_⟩
  rw [run_bind, run_bind]
  have hResults := hFirst.results hAlike
  generalize parser cursor = result at *
  generalize parser' cursor' = result' at *
  cases hResults with
  | ok hValue hAfter => exact (hNext _ _ hValue).results hAfter
  | error hAfter => exact .error hAfter

/- What is read first may be the same value. -/
theorem bindSame
    {next next' : α → Parser γ}
    {later : γ → δ}
    (hFirst : Agrees id parser parser')
    (hNext : ∀ value, Agrees later (next value) (next' value)) :
    Agrees later (parser >>= next) (parser' >>= next') := by
  refine hFirst.bind fun value value' hValue => ?_
  rw [show value = value' from hValue]
  exact hNext value'

theorem ite
    {condition : Prop}
    [Decidable condition]
    (hYes : Agrees erase parser parser')
    (hNo : Agrees erase other other') :
    Agrees erase (if condition then parser else other)
      (if condition then parser' else other') := by
  split
  · exact hYes
  · exact hNo

/- What follows both branches of a choice. -/
theorem iteBind
    {condition : Prop}
    [Decidable condition]
    {next next' : α → Parser γ}
    {later : γ → δ}
    (hYes : Agrees erase parser parser')
    (hNo : Agrees erase other other')
    (hNext :
      ∀ value value', erase value = erase value' →
        Agrees later (next value) (next' value')) :
    Agrees later
      (if condition then parser >>= next else other >>= next)
      (if condition then parser' >>= next' else other' >>= next') :=
  .ite (hYes.bind hNext) (hNo.bind hNext)

/- A step that is made only on a condition. -/
theorem guardBind
    {condition : Prop}
    [Decidable condition]
    {step step' : Parser Unit}
    {next next' : Unit → Parser γ}
    {later : γ → δ}
    (hStep : Agrees id step step')
    (hNext : Agrees later (next ()) (next' ())) :
    Agrees later (if condition then step >>= next else next ())
      (if condition then step' >>= next' else next' ()) :=
  .ite (hStep.bindSame fun _ => hNext) hNext

theorem map
    {change : α → γ}
    {later : γ → δ}
    (hParser : Agrees erase parser parser')
    (hChange :
      ∀ value value', erase value = erase value' →
        later (change value) = later (change value')) :
    Agrees later (change <$> parser) (change <$> parser') := by
  rw [map_eq_pure_bind, map_eq_pure_bind]
  exact hParser.bind fun value value' hValue =>
    .pure (hChange value value' hValue)

theorem optional
    (hParser : Agrees erase parser parser') :
    Agrees (Option.map erase) (some <$> parser) (some <$> parser') :=
  hParser.map fun _ _ hValue => congrArg some hValue

theorem discard
    (hParser : Agrees erase parser parser') :
    Agrees id (Functor.discard parser) (Functor.discard parser') :=
  hParser.map fun _ _ _ => rfl

end Agrees

------------------------------------------------------------
-- Steps
------------------------------------------------------------

/- What is forgotten of a value that nothing depends on. -/
def forget (_ : α) : Unit := ()

section Steps

variable {erase : α → β}

theorem agrees_peek : Agrees id peek peek :=
  ⟨fun hAlike => .ok hAlike.current hAlike⟩

theorem agrees_peekAhead
    (offset : Nat) :
    Agrees id (peekAhead offset) (peekAhead offset) :=
  ⟨fun hAlike => .ok (hAlike.ahead offset) hAlike⟩

theorem agrees_currentSpan : Agrees forget currentSpan currentSpan :=
  ⟨fun hAlike => .ok rfl hAlike⟩

theorem agrees_previousSpan :
    Agrees forget Parser.previousSpan Parser.previousSpan :=
  ⟨fun hAlike => .ok rfl hAlike⟩

theorem agrees_tooManyErrors : Agrees id tooManyErrors tooManyErrors :=
  ⟨fun hAlike => .ok hAlike.isFull hAlike⟩

theorem agrees_advance : Agrees Token.kind advance advance :=
  ⟨fun hAlike => .ok hAlike.current hAlike.next⟩

theorem agrees_check
    (kind : TokenKind) :
    Agrees id (check kind) (check kind) :=
  Agrees.bindSame agrees_peek fun _ => .pure rfl

theorem agrees_eat
    (kind : TokenKind) :
    Agrees id (eat kind) (eat kind) :=
  (agrees_check kind).bindSame fun _ =>
    .ite
      (Agrees.bindSame (Agrees.discard agrees_advance) fun _ => .pure rfl)
      (.pure rfl)

theorem agrees_atEnd : Agrees id atEnd atEnd :=
  agrees_check .endOfFile

------------------------------------------------------------
-- Reports
------------------------------------------------------------

/- Only the number of reports matters. -/
theorem agrees_reportAt
    (code code' : ErrorCode)
    (message message' : String)
    (span span' : Span) :
    Agrees id (reportAt code message span) (reportAt code' message' span') :=
  ⟨fun hAlike => .ok rfl (hAlike.report _ _)⟩

theorem agrees_reportSubject
    (code : ErrorCode)
    (message : String)
    (span span' : Span)
    (subject : String) :
    Agrees id (reportSubject code message span subject)
      (reportSubject code message span' subject) :=
  ⟨fun hAlike => .ok rfl (hAlike.report _ _)⟩

theorem agrees_giveUp : Agrees erase giveUp giveUp :=
  .throw .reported

theorem agrees_refuse
    (code : ErrorCode)
    (message message' : String) :
    Agrees erase (refuse code message : Parser α) (refuse code message') :=
  (Agrees.bind agrees_currentSpan fun span span' _ =>
    agrees_reportAt code code message message' span span').bindSame
      fun _ => agrees_giveUp

theorem agrees_refuseAt
    (code : ErrorCode)
    (message : String)
    (span span' : Span) :
    Agrees erase (refuseAt code message span : Parser α)
      (refuseAt code message span') :=
  (agrees_reportAt code code message message span span').bindSame
    fun _ => agrees_giveUp

------------------------------------------------------------
-- Expected Tokens
------------------------------------------------------------

theorem agrees_expect
    (kind : TokenKind) :
    Agrees Token.kind (expect kind) (expect kind) :=
  (agrees_check kind).bindSame fun _ =>
    .ite agrees_advance
      (Agrees.bindSame agrees_peek fun _ => agrees_refuse _ _ _)

theorem agrees_expectClosing
    (closing : Mark)
    (openedAt openedAt' : Span) :
    Agrees Token.kind (expectClosing closing openedAt)
      (expectClosing closing openedAt') := by
  refine (agrees_check _).bindSame fun _ => .ite agrees_advance ?_
  refine Agrees.bindSame agrees_peek fun kind => ?_
  cases kind <;> exact agrees_refuse _ _ _

theorem agrees_expectName :
    Agrees Ident.erased expectName expectName := by
  refine Agrees.bindSame agrees_peek fun kind => ?_
  cases kind with
  | name id => exact Agrees.bind agrees_advance fun _ _ _ => .pure rfl
  | _ => exact agrees_refuse _ _ _

theorem agrees_expectNewline :
    Agrees id expectNewline expectNewline := by
  refine (agrees_eat _).bindSame fun _ => .ite (.pure rfl) ?_
  refine Agrees.bindSame agrees_atEnd fun _ => .ite (.pure rfl) ?_
  exact Agrees.bindSame agrees_peek fun _ => agrees_refuse _ _ _

end Steps

------------------------------------------------------------
-- Nesting
------------------------------------------------------------

section Nesting

variable {erase : α → β}
variable {parser parser' : Parser α}

/- Nesting that is changed before a parser and changed back after it. -/
theorem agrees_within
    (hParser : Agrees erase parser parser')
    (enter leave : Nat × Nat → Nat × Nat) :
    Agrees erase
      (fun cursor =>
        match parser (withDepths enter cursor) with
        | .ok value after => .ok value (withDepths leave after)
        | .error failure after => .error failure (withDepths leave after))
      (fun cursor =>
        match parser' (withDepths enter cursor) with
        | .ok value after => .ok value (withDepths leave after)
        | .error failure after =>
            .error failure (withDepths leave after)) := by
  have hDepths (depths : Nat × Nat → Nat × Nat) {cursor other : Cursor}
      (hAlike : cursor.Alike other) :
      (withDepths depths cursor).Alike (withDepths depths other) := by
    refine ⟨hAlike.kinds, hAlike.index, hAlike.stored, hAlike.total,
      ?_, ?_⟩
    · simp only [withDepths, hAlike.exprDepth, hAlike.blockDepth]
    · simp only [withDepths, hAlike.exprDepth, hAlike.blockDepth]
  refine ⟨fun {cursor cursor'} hAlike => ?_⟩
  have hResults := hParser.results (hDepths enter hAlike)
  generalize parser (withDepths enter cursor) = result at *
  generalize parser' (withDepths enter cursor') = result' at *
  cases hResults with
  | ok hValue hAfter => exact .ok hValue (hDepths leave hAfter)
  | error hAfter => exact .error (hDepths leave hAfter)

/- A choice by how deeply a place is nested. -/
theorem agrees_get
    {choose choose' : Cursor → Parser α}
    (hChoose :
      ∀ cursor cursor', cursor.Alike cursor' →
        Agrees erase (choose cursor) (choose' cursor')) :
    Agrees erase (get >>= choose) (get >>= choose') :=
  ⟨fun hAlike => (hChoose _ _ hAlike).results hAlike⟩

/- A choice by how many tokens are left. -/
theorem agrees_remaining
    (family : Nat → Parser α)
    (hFamily : ∀ count, Agrees erase (family count) (family count)) :
    Agrees erase (fun cursor => family cursor.remaining cursor)
      (fun cursor => family cursor.remaining cursor) := by
  refine ⟨fun hAlike => ?_⟩
  rw [hAlike.remaining]
  exact (hFamily _).results hAlike

theorem agrees_nested
    (hParser : Agrees erase parser parser') :
    Agrees erase (nested parser) (nested parser') := by
  refine agrees_get fun cursor cursor' hAlike => ?_
  rw [hAlike.exprDepth]
  refine .ite (agrees_refuse _ _ _) ?_
  exact agrees_within hParser
    (fun depths => (depths.1 + 1, depths.2))
    (fun depths => (depths.1 - 1, depths.2))

theorem agrees_inBlock
    (hParser : Agrees erase parser parser') :
    Agrees erase (inBlock parser) (inBlock parser') :=
  agrees_within hParser
    (fun depths => (depths.1, depths.2 + 1))
    (fun depths => (depths.1, depths.2 - 1))

theorem agrees_attempt
    (hParser : Agrees erase parser parser') :
    Agrees (Option.map erase) (attempt parser) (attempt parser') := by
  refine ⟨fun {cursor cursor'} hAlike => ?_⟩
  have hResults := hParser.results hAlike
  unfold attempt
  generalize parser cursor = result at *
  generalize parser' cursor' = result' at *
  cases hResults with
  | ok hValue hAfter => exact .ok (congrArg some hValue) hAfter
  | @error failure _ _ hAfter =>
      cases failure with
      | reported => exact .ok rfl hAfter
      | stalled => exact .error hAfter

theorem agrees_synchronize : Agrees id synchronize synchronize := by
  refine ⟨fun {cursor cursor'} hAlike => .ok rfl ?_⟩
  refine ⟨hAlike.kinds, ?_, hAlike.stored, hAlike.total,
    hAlike.exprDepth, hAlike.blockDepth⟩
  have hKinds := congrArg (List.drop cursor.index) hAlike.kinds
  rw [Cursor.kinds, Cursor.kinds, ← List.map_drop, ← List.map_drop]
    at hKinds
  dsimp only
  rw [tokensToNextLine_eq hKinds, hAlike.index]

end Nesting

------------------------------------------------------------
-- Repetition
------------------------------------------------------------

/- What is left of the outcome of a round. -/
def Step.erased
    (eraseState : σ → τ)
    (erase : α → β) :
    Step σ α → Step τ β
  | .again state => .again (eraseState state)
  | .done value => .done (erase value)

section Repetition

variable {eraseState : σ → τ}
variable {erase : α → β}
variable {step step' : σ → Parser (Step σ α)}

theorem agrees_loopFor
    (hStep :
      ∀ state state', eraseState state = eraseState state' →
        Agrees (Step.erased eraseState erase) (step state) (step' state'))
    (fuel : Nat)
    {state state' : σ}
    (hState : eraseState state = eraseState state') :
    Agrees erase (loopFor step fuel state) (loopFor step' fuel state') := by
  induction fuel generalizing state state' with
  | zero => exact .throw .stalled
  | succ fuel ih =>
      refine (hStep state state' hState).bind fun outcome outcome' hSame => ?_
      cases outcome with
      | again next =>
          cases outcome' with
          | again next' => exact ih (Step.again.inj hSame)
          | done => cases hSame
      | done value =>
          cases outcome' with
          | again => cases hSame
          | done value' => exact .pure (Step.done.inj hSame)

/- Rounds that agree make loops that do. -/
theorem Agrees.loop
    {start start' : σ}
    (hStart : eraseState start = eraseState start')
    (hStep :
      ∀ state state', eraseState state = eraseState state' →
        Agrees (Step.erased eraseState erase) (step state)
          (step' state')) :
    Agrees erase (Parser.loop start step) (Parser.loop start' step') := by
  refine ⟨fun {cursor cursor'} hAlike => ?_⟩
  unfold Parser.loop
  rw [hAlike.remaining]
  exact (agrees_loopFor hStep _ hStart).results hAlike

/- What a loop gives may be its last state. -/
theorem Agrees.loopSame
    {start start' : σ}
    {round round' : σ → Parser (Step σ σ)}
    (hStart : eraseState start = eraseState start')
    (hRound :
      ∀ state state', eraseState state = eraseState state' →
        Agrees (Step.erased eraseState eraseState) (round state)
          (round' state')) :
    Agrees eraseState (Parser.loop start round)
      (Parser.loop start' round') :=
  .loop hStart hRound

/- A round goes on after a comma. -/
theorem agrees_commaRound
    {round round' : Parser α}
    (hRound : Agrees erase round round') :
    Agrees (Step.erased erase erase)
      (do
        let next ← round
        if ← eat (.mark .comma) then return .again next
        return .done next)
      (do
        let next ← round'
        if ← eat (.mark .comma) then return .again next
        return .done next) :=
  hRound.bind fun _ _ hNext =>
    (agrees_eat _).bindSame fun _ =>
      .ite (.pure (congrArg Step.again hNext))
        (.pure (congrArg Step.done hNext))

variable {item item' : Parser α}

theorem agrees_moreItems
    (hItem : Agrees erase item item')
    (isEnd : TokenKind → Bool)
    {first first' : List α}
    (hFirst : first.map erase = first'.map erase) :
    Agrees (List.map erase) (moreItems isEnd item first)
      (moreItems isEnd item' first') := by
  refine .loopSame hFirst fun items items' hItems => ?_
  have hDone :
      Agrees (Step.erased (List.map erase) (List.map erase))
        (return .done items) (return .done items') :=
    .pure (congrArg Step.done hItems)
  refine (agrees_eat _).bindSame fun _ => .ite hDone ?_
  refine Agrees.bindSame agrees_peek fun _ => .ite hDone ?_
  refine hItem.bind fun value value' hValue => .pure ?_
  simp [Step.erased, hItems, hValue]

theorem agrees_itemsUntil
    (hItem : Agrees erase item item')
    (closing : Mark) :
    Agrees (List.map erase) (itemsUntil closing item)
      (itemsUntil closing item') := by
  have hStart : ([] : List α).map erase = [].map erase := rfl
  refine .loopSame hStart fun items items' hItems => ?_
  refine (agrees_check _).bindSame fun _ =>
    .ite (.pure (congrArg Step.done hItems)) ?_
  refine hItem.bind fun value value' hValue => ?_
  have hMore :
      (items ++ [value]).map erase = (items' ++ [value']).map erase := by
    simp [hItems, hValue]
  exact (agrees_eat _).bindSame fun _ =>
    .ite (.pure (congrArg Step.again hMore))
      (.pure (congrArg Step.done hMore))

end Repetition

end Parser

end SnippetGrader
