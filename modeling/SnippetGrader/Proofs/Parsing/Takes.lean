import SnippetGrader.Parsing.Cursor
import SnippetGrader.Proofs.Parsing.Extents
import SnippetGrader.Proofs.Parsing.Yields

/-
  Which tokens a parser takes.

  A parser that starts at a token of a text ends at the same or a
  later one, whether or not it fails. It never moves past the
  end of the text. What it yields is described by the numbers of
  the tokens at which it starts and ends.

  Key definitions include:
    * `OrderedTokens.At`
    * `Parser.Takes`

  Key theorems include:
    * `Parser.Takes.bind`
    * `Parser.takes_loop`, `Parser.takes_moreItems`
    * `Parser.takes_advance`, `Parser.takes_synchronize`
-/

namespace SnippetGrader

------------------------------------------------------------
-- Places among Tokens
------------------------------------------------------------

namespace OrderedTokens

variable {text : OrderedTokens}
variable {start : Nat}
variable {cursor : Cursor}

/- A place at the token with a given number. -/
structure At
    (text : OrderedTokens)
    (number : Nat)
    (cursor : Cursor) : Prop where
  tokens : cursor.tokens = text.tokens
  index : cursor.index = number
  inside : number < text.size

theorem At.getElem?
    (hHere : text.At start cursor) :
    cursor.tokens[cursor.index]? = some (text.token start) := by
  rw [hHere.tokens, hHere.index, token_eq hHere.inside]
  exact Array.getElem?_eq_getElem hHere.inside

theorem At.current
    (hHere : text.At start cursor) :
    cursor.current = text.token start := by
  rw [Cursor.current, hHere.getElem?]
  rfl

/- The token after one that does not end the text. -/
theorem inside_succ
    (hIndex : start < text.size)
    (hMore : (text.token start).kind ≠ .endOfFile) :
    start + 1 < text.size := by
  obtain ⟨last, hLast, hEnd⟩ := text.ends
  refine lt_of_le_of_ne hIndex fun hSize => hMore ?_
  rw [Array.back?, ← size, ← hSize, Nat.add_sub_cancel] at hLast
  rw [token, hLast]
  exact hEnd

theorem At.next
    (hHere : text.At start cursor)
    (hMore : (text.token start).kind ≠ .endOfFile) :
    text.At (start + 1) cursor.next := by
  have hInside : cursor.index < cursor.tokens.size := by
    rw [hHere.index, hHere.tokens]
    exact hHere.inside
  rw [Cursor.next, if_pos hInside]
  exact ⟨hHere.tokens, congrArg (· + 1) hHere.index,
    inside_succ hHere.inside hMore⟩

end OrderedTokens

namespace TokenKind

/- Kinds that are found to be equal are both marks of lines or neither. -/
theorem isLayout_of_beq
    {kind other : TokenKind}
    (hSame : (kind == other) = true) :
    kind.isLayout = other.isLayout := by
  cases kind <;> cases other <;> first | rfl | cases hSame

theorem ne_endOfFile_of_beq
    {kind other : TokenKind}
    (hSame : (kind == other) = true)
    (hOther : (TokenKind.endOfFile == other) = false) :
    kind ≠ .endOfFile := by
  rintro rfl
  rw [hOther] at hSame
  cases hSame

theorem ne_endOfFile_of_solid
    {kind : TokenKind}
    (hSolid : kind.isLayout = false) :
    kind ≠ .endOfFile := by
  rintro rfl
  cases hSolid

end TokenKind

namespace Parser

variable {α β σ : Type}
variable {text : OrderedTokens}
variable {start : Nat}

------------------------------------------------------------
-- Taken Tokens
------------------------------------------------------------

/- What holds of a result, and of the number of the token after it. -/
def Took
    (text : OrderedTokens)
    (start : Nat)
    (post : α → Nat → Prop) :
    EStateM.Result Failure Cursor α → Prop
  | .ok value after =>
      ∃ index, start ≤ index ∧ text.At index after ∧ post value index
  | .error _ after => ∃ index, start ≤ index ∧ text.At index after

/- What a parser yields that starts at a given token. -/
def Takes
    (text : OrderedTokens)
    (start : Nat)
    (parser : Parser α)
    (post : α → Nat → Prop) : Prop :=
  ∀ cursor, text.At start cursor → Took text start post (parser cursor)

namespace Takes

variable {parser : Parser α}
variable {holds post : α → Nat → Prop}

theorem mono
    (hParser : Takes text start parser holds)
    (hPost :
      ∀ value index, start ≤ index → holds value index → post value index) :
    Takes text start parser post := by
  intro cursor hHere
  have hTook := hParser cursor hHere
  cases hRun : parser cursor with
  | ok value after =>
      rw [hRun] at hTook
      obtain ⟨index, hLater, hAfter, hValue⟩ := hTook
      exact ⟨index, hLater, hAfter, hPost value index hLater hValue⟩
  | error failure after =>
      rw [hRun] at hTook
      exact hTook

/- A parser starts at a token. -/
theorem inside
    (hParser : start < text.size → Takes text start parser post) :
    Takes text start parser post :=
  fun cursor hHere => hParser hHere.inside cursor hHere

theorem pure
    {value : α}
    (hValue : post value start) :
    Takes text start (Pure.pure value) post :=
  fun _ hHere => ⟨start, le_rfl, hHere, hValue⟩

theorem throw
    (failure : Failure) :
    Takes text start (MonadExcept.throw failure : Parser α) post :=
  fun _ hHere => ⟨start, le_rfl, hHere⟩

/- The second of two parsers starts where the first one ends. -/
theorem bind
    {next : α → Parser β}
    {post : β → Nat → Prop}
    (hFirst : Takes text start parser holds)
    (hNext :
      ∀ value index, start ≤ index → holds value index →
        Takes text index (next value) post) :
    Takes text start (parser >>= next) post := by
  intro cursor hHere
  rw [run_bind]
  have hTook := hFirst cursor hHere
  cases hRun : parser cursor with
  | error failure after =>
      rw [hRun] at hTook
      exact hTook
  | ok value after =>
      rw [hRun] at hTook
      obtain ⟨middle, hMiddle, hAfter, hValue⟩ := hTook
      have hRest := hNext value middle hMiddle hValue after hAfter
      simp only
      cases hLast : next value after with
      | error failure last =>
          rw [hLast] at hRest
          obtain ⟨index, hLater, hEnd⟩ := hRest
          exact ⟨index, hMiddle.trans hLater, hEnd⟩
      | ok result last =>
          rw [hLast] at hRest
          obtain ⟨index, hLater, hEnd, hResult⟩ := hRest
          exact ⟨index, hMiddle.trans hLater, hEnd, hResult⟩

theorem ite
    {condition : Prop}
    [Decidable condition]
    {other : Parser α}
    (hYes : condition → Takes text start parser post)
    (hNo : ¬ condition → Takes text start other post) :
    Takes text start (if condition then parser else other) post := by
  by_cases hCondition : condition
  · rw [if_pos hCondition]
    exact hYes hCondition
  · rw [if_neg hCondition]
    exact hNo hCondition

/- Two ways to a value, and what follows both. -/
theorem iteBind
    {condition : Prop}
    [Decidable condition]
    {other : Parser α}
    {next : α → Parser β}
    {post : β → Nat → Prop}
    (hYes : condition → Takes text start parser holds)
    (hNo : ¬ condition → Takes text start other holds)
    (hNext :
      ∀ value index, start ≤ index → holds value index →
        Takes text index (next value) post) :
    Takes text start
      (if condition then parser >>= next else other >>= next) post :=
  .ite (fun hCondition => (hYes hCondition).bind hNext)
    fun hCondition => (hNo hCondition).bind hNext

theorem map
    {change : α → β}
    {post : β → Nat → Prop}
    (hParser :
      Takes text start parser fun value => post (change value)) :
    Takes text start (change <$> parser) post := by
  rw [map_eq_pure_bind]
  exact hParser.bind fun _ _ _ hValue => .pure hValue

theorem discard
    (hParser : Takes text start parser holds) :
    Takes text start (Functor.discard parser) fun _ index =>
      ∃ value, holds value index :=
  (hParser.mono fun value _ _ hValue => ⟨value, hValue⟩).map

end Takes

------------------------------------------------------------
-- Looking Ahead
------------------------------------------------------------

variable {post : α → Nat → Prop}

/- What a parser yields that only looks at the place. -/
theorem takes_look
    {look : Cursor → α}
    (hLook : ∀ cursor, text.At start cursor → post (look cursor) start) :
    Takes text start (do return look (← get)) post :=
  fun cursor hHere => ⟨start, le_rfl, hHere, hLook cursor hHere⟩

/- A choice by the place. -/
theorem takes_get
    {choose : Cursor → Parser α}
    (hChoose : ∀ cursor, Takes text start (choose cursor) post) :
    Takes text start (get >>= choose) post :=
  fun cursor hHere => hChoose cursor cursor hHere

theorem takes_peek :
    Takes text start peek fun kind index =>
      index = start ∧ kind = (text.token start).kind :=
  takes_look fun _ hHere => ⟨rfl, congrArg Token.kind hHere.current⟩

theorem takes_peekAhead
    (offset : Nat) :
    Takes text start (peekAhead offset) fun kind index =>
      index = start ∧ kind = (text.token (start + offset)).kind := by
  refine takes_look fun cursor hHere => ⟨rfl, ?_⟩
  rw [Cursor.ahead, hHere.tokens, hHere.index, OrderedTokens.token]
  cases text.tokens[start + offset]? <;> rfl

theorem takes_currentSpan :
    Takes text start currentSpan fun span index =>
      index = start ∧ span = (text.token start).span :=
  takes_look fun _ hHere => ⟨rfl, congrArg Token.span hHere.current⟩

/- The span of the token before the place. -/
theorem takes_previousSpan
    (hStart : 0 < start) :
    Takes text start Parser.previousSpan fun span index =>
      index = start ∧ start - 1 < text.size ∧
        span = (text.token (start - 1)).span := by
  refine takes_look fun cursor hHere => ⟨rfl, ?_, ?_⟩
  · exact (Nat.sub_le start 1).trans_lt hHere.inside
  · obtain ⟨before, rfl⟩ := Nat.exists_eq_add_of_lt hStart
    have hIndex : cursor.index = before + 1 := by
      rw [hHere.index, Nat.zero_add]
    rw [Cursor.previousSpan, hIndex, hHere.tokens]
    simp only [OrderedTokens.token, Nat.zero_add, Nat.add_sub_cancel]
    cases text.tokens[before]? <;> rfl

theorem takes_check
    (kind : TokenKind) :
    Takes text start (check kind) fun found index =>
      index = start ∧ found = ((text.token start).kind == kind) := by
  refine Takes.bind takes_peek ?_
  rintro _ _ _ ⟨rfl, rfl⟩
  exact .pure ⟨rfl, rfl⟩

theorem takes_tooManyErrors :
    Takes text start tooManyErrors fun _ index => index = start :=
  takes_look fun _ _ => rfl

------------------------------------------------------------
-- Taking Tokens
------------------------------------------------------------

theorem takes_advance
    (hMore : (text.token start).kind ≠ .endOfFile) :
    Takes text start advance fun token index =>
      index = start + 1 ∧ token = text.token start :=
  fun _ hHere =>
    ⟨start + 1, Nat.le_succ start, hHere.next hMore, rfl, hHere.current⟩

/- A token of a kind that does not end the text is eaten. -/
theorem takes_eat
    {kind : TokenKind}
    (hKind : (TokenKind.endOfFile == kind) = false) :
    Takes text start (eat kind) fun found index =>
      found = true → index = start + 1 := by
  refine (takes_check kind).bind ?_
  rintro _ _ _ ⟨rfl, rfl⟩
  refine .ite (fun hFound => ?_) fun _ => .pure nofun
  refine (takes_advance
    (TokenKind.ne_endOfFile_of_beq hFound hKind)).discard.bind ?_
  rintro _ _ _ ⟨_, rfl, _⟩
  exact .pure fun _ => rfl

------------------------------------------------------------
-- Reports
------------------------------------------------------------

theorem takes_reportAt
    (code : ErrorCode)
    (message : String)
    (span : Span) :
    Takes text start (reportAt code message span) fun _ index =>
      index = start :=
  fun _ hHere =>
    ⟨start, le_rfl, ⟨hHere.tokens, hHere.index, hHere.inside⟩, rfl⟩

theorem takes_reportSubject
    (code : ErrorCode)
    (message : String)
    (span : Span)
    (subject : String) :
    Takes text start (reportSubject code message span subject)
      fun _ index => index = start :=
  fun _ hHere =>
    ⟨start, le_rfl, ⟨hHere.tokens, hHere.index, hHere.inside⟩, rfl⟩

theorem takes_refuseAt
    (code : ErrorCode)
    (message : String)
    (span : Span) :
    Takes text start (refuseAt code message span : Parser α) post :=
  (takes_reportAt code message span).bind fun _ _ _ _ => .throw _

theorem takes_refuse
    (code : ErrorCode)
    (message : String) :
    Takes text start (refuse code message : Parser α) post := by
  have hReport :
      Takes text start (report code message) fun _ _ => True :=
    Takes.bind takes_currentSpan fun _ _ _ _ =>
      (takes_reportAt code message _).mono fun _ _ _ _ => trivial
  exact hReport.bind fun _ _ _ _ => .throw _

/- Nothing follows a fault. -/
theorem takes_refuseThen
    (code : ErrorCode)
    (message : String)
    (next : α → Parser β)
    {post : β → Nat → Prop} :
    Takes text start (refuse code message >>= next) post := by
  have hRefused :
      Takes text start (refuse code message : Parser α) fun _ _ =>
        False :=
    takes_refuse code message
  exact hRefused.bind fun _ _ _ hNever => hNever.elim

------------------------------------------------------------
-- Expected Tokens
------------------------------------------------------------

theorem takes_expect
    {kind : TokenKind}
    (hKind : (TokenKind.endOfFile == kind) = false) :
    Takes text start (expect kind) fun token index =>
      index = start + 1 ∧ token = text.token start := by
  refine (takes_check kind).bind ?_
  rintro _ _ _ ⟨rfl, rfl⟩
  refine .ite (fun hFound => ?_) fun _ => ?_
  · exact takes_advance (TokenKind.ne_endOfFile_of_beq hFound hKind)
  · refine Takes.bind takes_peek fun _ _ _ _ => ?_
    exact takes_refuse _ _

theorem takes_expectClosing
    (closing : Mark)
    (openedAt : Span) :
    Takes text start (expectClosing closing openedAt)
      fun token index => index = start + 1 ∧ token = text.token start := by
  refine (takes_check _).bind ?_
  rintro _ _ _ ⟨rfl, rfl⟩
  refine .ite (fun hFound => ?_) fun _ => ?_
  · exact takes_advance (TokenKind.ne_endOfFile_of_beq hFound rfl)
  · refine Takes.bind takes_peek fun _ _ _ _ => ?_
    split
    · exact takes_refuse _ _
    · exact takes_refuse _ _
    · exact takes_refuse _ _

/- A name spans its token. -/
theorem takes_expectName :
    Takes text start expectName fun ident index =>
      index = start + 1 ∧ text.Spans start start ident.span := by
  refine Takes.bind takes_peek ?_
  rintro _ here _ ⟨rfl, rfl⟩
  refine .inside fun hInside => ?_
  split
  · rename_i id hName
    have hSolid : (text.token here).kind.isLayout = false := by
      rw [hName]
      rfl
    refine (takes_advance
      (TokenKind.ne_endOfFile_of_solid hSolid)).bind ?_
    rintro _ _ _ ⟨rfl, rfl⟩
    exact .pure ⟨rfl, .single hInside hSolid⟩
  · exact takes_refuse _ _

theorem takes_expectNewline :
    Takes text start expectNewline fun _ _ => True := by
  refine (takes_eat rfl).bind fun _ _ _ _ =>
    .ite (fun _ => .pure trivial) fun _ => ?_
  refine (takes_check _).bind fun _ _ _ _ =>
    .ite (fun _ => .pure trivial) fun _ => ?_
  refine Takes.bind takes_peek fun _ _ _ _ => ?_
  exact takes_refuse _ _

------------------------------------------------------------
-- Nesting
------------------------------------------------------------

section Nesting

variable {parser : Parser α}

/- Nesting does not change the place. -/
theorem takes_within
    (hParser : Takes text start parser post)
    (enter leave : Nat × Nat → Nat × Nat) :
    Takes text start
      (fun cursor =>
        match parser (withDepths enter cursor) with
        | .ok value after => .ok value (withDepths leave after)
        | .error failure after => .error failure (withDepths leave after))
      post := by
  intro cursor hHere
  have hTook :=
    hParser (withDepths enter cursor)
      ⟨hHere.tokens, hHere.index, hHere.inside⟩
  simp only
  cases hRun : parser (withDepths enter cursor) with
  | ok value after =>
      rw [hRun] at hTook
      obtain ⟨index, hLater, hAfter, hValue⟩ := hTook
      exact ⟨index, hLater,
        ⟨hAfter.tokens, hAfter.index, hAfter.inside⟩, hValue⟩
  | error failure after =>
      rw [hRun] at hTook
      obtain ⟨index, hLater, hAfter⟩ := hTook
      exact ⟨index, hLater,
        ⟨hAfter.tokens, hAfter.index, hAfter.inside⟩⟩

theorem takes_nested
    (hParser : Takes text start parser post) :
    Takes text start (nested parser) post :=
  takes_get fun _ => .ite (fun _ => takes_refuse _ _) fun _ =>
    takes_within hParser
      (fun depths => (depths.1 + 1, depths.2))
      (fun depths => (depths.1 - 1, depths.2))

theorem takes_inBlock
    (hParser : Takes text start parser post) :
    Takes text start (inBlock parser) post :=
  takes_within hParser
    (fun depths => (depths.1, depths.2 + 1))
    (fun depths => (depths.1, depths.2 - 1))

/- A parser that fails may have taken tokens, too. -/
theorem takes_attempt
    (hParser : Takes text start parser post) :
    Takes text start (attempt parser) fun found index =>
      ∀ value, found = some value → post value index := by
  intro cursor hHere
  have hTook := hParser cursor hHere
  simp only [attempt]
  cases hRun : parser cursor with
  | ok value after =>
      rw [hRun] at hTook
      obtain ⟨index, hLater, hAfter, hValue⟩ := hTook
      refine ⟨index, hLater, hAfter, ?_⟩
      rintro _ ⟨⟩
      exact hValue
  | error failure after =>
      rw [hRun] at hTook
      cases failure with
      | reported =>
          obtain ⟨index, hLater, hAfter⟩ := hTook
          exact ⟨index, hLater, hAfter, by simp⟩
      | stalled => exact hTook

end Nesting

------------------------------------------------------------
-- Repetition
------------------------------------------------------------

section Repetition

variable {step : σ → Parser (Step σ α)}
variable {invariant : σ → Nat → Prop}

/- What a round of a loop leaves. -/
def RoundTakes
    (invariant : σ → Nat → Prop)
    (post : α → Nat → Prop) :
    Step σ α → Nat → Prop
  | .again state, index => invariant state index
  | .done value, index => post value index

theorem takes_loopFor
    (hStep :
      ∀ state index, start ≤ index → invariant state index →
        Takes text index (step state) (RoundTakes invariant post))
    (fuel : Nat)
    {state : σ}
    {here : Nat}
    (hLater : start ≤ here)
    (hState : invariant state here) :
    Takes text here (loopFor step fuel state) post := by
  induction fuel generalizing state here with
  | zero => exact .throw .stalled
  | succ fuel ih =>
      refine (hStep state here hLater hState).bind
        fun outcome index hIndex hOutcome => ?_
      cases outcome with
      | again next => exact ih (hLater.trans hIndex) hOutcome
      | done value => exact .pure hOutcome

/- The number of rounds or of levels may depend on the place. -/
theorem takes_remaining
    {family : Nat → Parser α}
    (hFamily : ∀ count, Takes text start (family count) post) :
    Takes text start (fun cursor => family cursor.remaining cursor)
      post :=
  fun cursor hHere => hFamily cursor.remaining cursor hHere

/- A loop keeps what each of its rounds keeps. -/
theorem takes_loop
    (invariant : σ → Nat → Prop)
    (post : α → Nat → Prop)
    {state : σ}
    (hState : invariant state start)
    (hStep :
      ∀ state index, start ≤ index → invariant state index →
        Takes text index (step state) (RoundTakes invariant post)) :
    Takes text start (loop state step) post := by
  have hRounds (count : Nat) :
      Takes text start (loopFor step (count + 1) state) post :=
    takes_loopFor hStep (count + 1) le_rfl hState
  exact takes_remaining hRounds

/- What a list of items has is kept by each item after a comma. -/
theorem takes_moreItems
    {isEnd : TokenKind → Bool}
    {item : Parser α}
    {first : List α}
    (invariant : List α → Nat → Prop)
    (hFirst : invariant first start)
    (hMono :
      ∀ items index later, index ≤ later →
        invariant items index → invariant items later)
    (hItem :
      ∀ items index, start ≤ index → invariant items index →
        Takes text index item fun value later =>
          invariant (items ++ [value]) later) :
    Takes text start (moreItems isEnd item first) invariant := by
  refine takes_loop invariant invariant hFirst fun items here hHere hItems => ?_
  refine (takes_eat rfl).bind fun _ comma hComma _ => ?_
  have hMore := hMono items here comma hComma hItems
  refine .ite (fun _ => .pure hMore) fun _ => ?_
  refine Takes.bind takes_peek ?_
  rintro _ _ _ ⟨rfl, rfl⟩
  refine .ite (fun _ => .pure hMore) fun _ => ?_
  exact (hItem items _ (hHere.trans hComma) hMore).bind
    fun _ _ _ hValue => .pure hValue

theorem takes_itemsUntil
    {closing : Mark}
    {item : Parser α}
    (invariant : List α → Nat → Prop)
    (hFirst : invariant [] start)
    (hMono :
      ∀ items index later, index ≤ later →
        invariant items index → invariant items later)
    (hItem :
      ∀ items index, start ≤ index → invariant items index →
        Takes text index item fun value later =>
          invariant (items ++ [value]) later) :
    Takes text start (itemsUntil closing item) invariant := by
  refine takes_loop invariant invariant hFirst fun items here hHere hItems => ?_
  refine (takes_check _).bind ?_
  rintro _ _ _ ⟨rfl, rfl⟩
  refine .ite (fun _ => .pure hItems) fun _ => ?_
  refine (hItem items _ hHere hItems).bind fun value after _ hValue => ?_
  refine (takes_eat rfl).bind fun _ comma hComma _ => ?_
  have hMore := hMono _ after comma hComma hValue
  exact .ite (fun _ => .pure hMore) fun _ => .pure hMore

/- Reports leave the place as it is. -/
theorem takes_forM
    {check : α → Parser Unit}
    (hCheck :
      ∀ value, Takes text start (check value) fun _ index => index = start)
    (values : List α) :
    Takes text start (values.forM check) fun _ index => index = start := by
  induction values with
  | nil => exact .pure rfl
  | cons value values ih =>
      change Takes text start (check value >>= fun _ => values.forM check) _
      refine (hCheck value).bind ?_
      rintro _ _ _ rfl
      exact ih

end Repetition

------------------------------------------------------------
-- Recovery
------------------------------------------------------------

/- The next line starts no later than at the end of the text. -/
theorem tokensToNextLine_lt
    {tokens : List Token}
    {last : Token}
    (hLast : tokens.getLast? = some last)
    (hEnd : last.kind = .endOfFile)
    (depth : Nat) :
    tokensToNextLine depth tokens < tokens.length := by
  induction tokens generalizing depth with
  | nil => cases hLast
  | cons token rest ih =>
      rcases rest with _ | ⟨next, rest⟩
      · have hToken : token.kind = .endOfFile := by
          cases hLast
          exact hEnd
        rw [tokensToNextLine, hToken]
        exact Nat.one_pos
      · have hRest := ih (by simpa using hLast)
        have hHere := hRest depth
        have hOpened := hRest (depth + 1)
        have hClosed := hRest (depth - 1)
        rw [List.length_cons, tokensToNextLine]
        split
        · omega
        · split <;> omega
        · omega
        · split <;> omega
        · omega

theorem takes_synchronize :
    Takes text start synchronize fun _ _ => True := by
  intro cursor hHere
  obtain ⟨last, hLast, hEnd⟩ := text.ends
  have hInside : start < text.tokens.size := hHere.inside
  have hMore :
      (text.tokens.toList.drop start).getLast? = some last := by
    rw [List.getLast?_drop, Array.length_toList,
      if_neg (Nat.not_le.mpr hInside)]
    simpa using hLast
  have hLess := tokensToNextLine_lt hMore hEnd 0
  rw [List.length_drop, Array.length_toList] at hLess
  refine ⟨start + tokensToNextLine 0 (text.tokens.toList.drop start),
    Nat.le_add_right start _, ⟨hHere.tokens, ?_, ?_⟩, trivial⟩
  · rw [← hHere.index, ← hHere.tokens]
  · exact Nat.add_lt_of_lt_sub' hLess

end Parser

end SnippetGrader
