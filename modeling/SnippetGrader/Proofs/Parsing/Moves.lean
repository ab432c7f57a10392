import SnippetGrader.Parsing.Cursor
import SnippetGrader.Parsing.Statement
import SnippetGrader.Proofs.Parsing.Takes

/-
  How a parser moves over tokens.

  A parser that starts inside of some tokens ends inside of them,
  at the same token or at a later one, whether or not it fails.
  Nothing is asked of the tokens but that the last of them ends
  the text. A round of a loop that goes on has moved, so that a
  loop never runs out of rounds. Every fault that is reported has
  a span that is made of those of tokens.

  Key definitions include:
    * `TokenStream`, `TokenStream.At`
    * `Parser.Moves`

  Key theorems include:
    * `Parser.Moves.bind`
    * `Parser.moves_loop`, `Parser.moves_moreItems`
    * `Parser.moves_advance`, `Parser.moves_synchronize`
-/

namespace SnippetGrader

------------------------------------------------------------
-- Streams
------------------------------------------------------------

/-
  Tokens of a file, the last of which ends the text. The spans
  of tokens have a property that merging keeps, and the faults
  that have been found have one that reports at such spans keep.
  Whether a parser may run out of levels is left open.
-/
structure TokenStream where
  file : SourceFile
  tokens : Array Token
  ends : ∃ last, tokens.back? = some last ∧ last.kind = .endOfFile
  sound : Span → Prop
  starts : sound (.point 1 1)
  spans : ∀ token ∈ tokens, sound token.span
  merges :
    ∀ first last, sound first → sound last → sound (first.merge last)
  allows : Diagnostics → Prop
  reports :
    ∀ faults code message span subject,
      allows faults →
        sound span →
          allows
            (faults.push
              { Diagnostic.make file code message span with
                subject := subject })
  mayStall : Prop

namespace TokenStream

variable {stream : TokenStream}
variable {start : Nat}
variable {cursor : Cursor}

/- The number of tokens. -/
def size (stream : TokenStream) : Nat :=
  stream.tokens.size

/- The kind of the token with a given number. -/
def kind (stream : TokenStream) (number : Nat) : TokenKind :=
  (stream.tokens[number]?.map (·.kind)).getD .endOfFile

/- A place at the token with a given number. -/
structure At
    (stream : TokenStream)
    (number : Nat)
    (cursor : Cursor) : Prop where
  file : cursor.file = stream.file
  tokens : cursor.tokens = stream.tokens
  index : cursor.index = number
  inside : number < stream.size
  errors : stream.allows cursor.errors

theorem At.current
    (hHere : stream.At start cursor) :
    cursor.current.kind = stream.kind start ∧
      stream.sound cursor.current.span := by
  have hToken := Array.getElem?_eq_getElem hHere.inside
  rw [Cursor.current, hHere.tokens, hHere.index, kind, hToken]
  exact ⟨rfl, stream.spans _ (Array.getElem_mem hHere.inside)⟩

/- The token before the place has a sound span, if there is one. -/
theorem At.previousSpan
    (hHere : stream.At start cursor) :
    stream.sound cursor.previousSpan := by
  unfold Cursor.previousSpan
  split
  · exact stream.starts
  · rename_i before _
    rw [hHere.tokens]
    cases hBefore : stream.tokens[before]? with
    | none => exact stream.starts
    | some token => exact stream.spans _ (Array.mem_of_getElem? hBefore)

/- The token after one that does not end the text. -/
theorem inside_succ
    (hInside : start < stream.size)
    (hMore : stream.kind start ≠ .endOfFile) :
    start + 1 < stream.size := by
  obtain ⟨last, hLast, hEnd⟩ := stream.ends
  refine lt_of_le_of_ne hInside fun hSize => hMore ?_
  rw [Array.back?, ← size, ← hSize, Nat.add_sub_cancel] at hLast
  rw [kind, hLast]
  exact hEnd

theorem At.next
    (hHere : stream.At start cursor)
    (hMore : stream.kind start ≠ .endOfFile) :
    stream.At (start + 1) cursor.next := by
  have hInside : cursor.index < cursor.tokens.size := by
    rw [hHere.index, hHere.tokens]
    exact hHere.inside
  rw [Cursor.next, if_pos hInside]
  exact ⟨hHere.file, hHere.tokens, congrArg (· + 1) hHere.index,
    inside_succ hHere.inside hMore, hHere.errors⟩

/- A report that is allowed leaves the place as it is. -/
theorem At.report
    (hHere : stream.At start cursor)
    {fault : Diagnostic}
    (hFaults : stream.allows (cursor.errors.push fault)) :
    stream.At start (cursor.report fault) :=
  ⟨hHere.file, hHere.tokens, hHere.index, hHere.inside, hFaults⟩

end TokenStream

namespace Parser

variable {α β σ : Type}
variable {stream : TokenStream}
variable {start : Nat}

------------------------------------------------------------
-- Moving
------------------------------------------------------------

/- What holds of a result, and of the number of the token after it. -/
def Moved
    (stream : TokenStream)
    (start : Nat)
    (post : α → Nat → Prop) :
    EStateM.Result Failure Cursor α → Prop
  | .ok value after =>
      ∃ index, start ≤ index ∧ stream.At index after ∧ post value index
  | .error failure after =>
      (failure = .stalled → stream.mayStall) ∧
        ∃ index, start ≤ index ∧ stream.At index after

/- What a parser does that starts at a given token. -/
def Moves
    (stream : TokenStream)
    (start : Nat)
    (parser : Parser α)
    (post : α → Nat → Prop) : Prop :=
  ∀ cursor, stream.At start cursor → Moved stream start post (parser cursor)

namespace Moves

variable {parser : Parser α}
variable {holds post : α → Nat → Prop}

theorem mono
    (hParser : Moves stream start parser holds)
    (hPost :
      ∀ value index, start ≤ index → holds value index → post value index) :
    Moves stream start parser post := by
  intro cursor hHere
  have hMoved := hParser cursor hHere
  cases hRun : parser cursor with
  | ok value after =>
      rw [hRun] at hMoved
      obtain ⟨index, hLater, hAfter, hValue⟩ := hMoved
      exact ⟨index, hLater, hAfter, hPost value index hLater hValue⟩
  | error failure after =>
      rw [hRun] at hMoved
      exact hMoved

/- A parser starts inside of the tokens. -/
theorem inside
    (hParser : start < stream.size → Moves stream start parser post) :
    Moves stream start parser post :=
  fun cursor hHere => hParser hHere.inside cursor hHere

theorem pure
    {value : α}
    (hValue : post value start) :
    Moves stream start (Pure.pure value) post :=
  fun _ hHere => ⟨start, le_rfl, hHere, hValue⟩

theorem throw
    {failure : Failure}
    (hFailure : failure = .stalled → stream.mayStall) :
    Moves stream start (MonadExcept.throw failure : Parser α) post :=
  fun _ hHere => ⟨hFailure, start, le_rfl, hHere⟩

/- The second of two parsers starts where the first one ends. -/
theorem bind
    {next : α → Parser β}
    {post : β → Nat → Prop}
    (hFirst : Moves stream start parser holds)
    (hNext :
      ∀ value index, start ≤ index → holds value index →
        Moves stream index (next value) post) :
    Moves stream start (parser >>= next) post := by
  intro cursor hHere
  rw [run_bind]
  have hMoved := hFirst cursor hHere
  cases hRun : parser cursor with
  | error failure after =>
      rw [hRun] at hMoved
      exact hMoved
  | ok value after =>
      rw [hRun] at hMoved
      obtain ⟨middle, hMiddle, hAfter, hValue⟩ := hMoved
      have hRest := hNext value middle hMiddle hValue after hAfter
      simp only
      cases hLast : next value after with
      | error failure last =>
          rw [hLast] at hRest
          obtain ⟨hFailure, index, hLater, hEnd⟩ := hRest
          exact ⟨hFailure, index, hMiddle.trans hLater, hEnd⟩
      | ok result last =>
          rw [hLast] at hRest
          obtain ⟨index, hLater, hEnd, hResult⟩ := hRest
          exact ⟨index, hMiddle.trans hLater, hEnd, hResult⟩

theorem ite
    {condition : Prop}
    [Decidable condition]
    {other : Parser α}
    (hYes : condition → Moves stream start parser post)
    (hNo : ¬ condition → Moves stream start other post) :
    Moves stream start (if condition then parser else other) post := by
  by_cases hCondition : condition
  · rw [if_pos hCondition]
    exact hYes hCondition
  · rw [if_neg hCondition]
    exact hNo hCondition

/- Two ways to a value, and what follows both. -/
theorem iteBind
    {condition : Prop}
    [Decidable condition]
    {other : Parser α}
    {next : α → Parser β}
    {post : β → Nat → Prop}
    (hYes : condition → Moves stream start parser holds)
    (hNo : ¬ condition → Moves stream start other holds)
    (hNext :
      ∀ value index, start ≤ index → holds value index →
        Moves stream index (next value) post) :
    Moves stream start
      (if condition then parser >>= next else other >>= next) post :=
  .ite (fun hCondition => (hYes hCondition).bind hNext)
    fun hCondition => (hNo hCondition).bind hNext

theorem map
    {change : α → β}
    {post : β → Nat → Prop}
    (hParser :
      Moves stream start parser fun value => post (change value)) :
    Moves stream start (change <$> parser) post := by
  rw [map_eq_pure_bind]
  exact hParser.bind fun _ _ _ hValue => .pure hValue

theorem discard
    (hParser : Moves stream start parser holds) :
    Moves stream start (Functor.discard parser) fun _ index =>
      ∃ value, holds value index :=
  (hParser.mono fun value _ _ hValue => ⟨value, hValue⟩).map

end Moves

------------------------------------------------------------
-- Looking Ahead
------------------------------------------------------------

variable {post : α → Nat → Prop}

/- What a parser yields that only looks at the place. -/
theorem moves_look
    {look : Cursor → α}
    (hLook : ∀ cursor, stream.At start cursor → post (look cursor) start) :
    Moves stream start (do return look (← get)) post :=
  fun cursor hHere => ⟨start, le_rfl, hHere, hLook cursor hHere⟩

/- A choice by the place. -/
theorem moves_get
    {choose : Cursor → Parser α}
    (hChoose : ∀ cursor, Moves stream start (choose cursor) post) :
    Moves stream start (get >>= choose) post :=
  fun cursor hHere => hChoose cursor cursor hHere

theorem moves_peek :
    Moves stream start peek fun kind index =>
      index = start ∧ kind = stream.kind start :=
  moves_look fun _ hHere => ⟨rfl, hHere.current.1⟩

theorem moves_peekAhead
    (offset : Nat) :
    Moves stream start (peekAhead offset) fun kind index =>
      index = start ∧ kind = stream.kind (start + offset) := by
  refine moves_look fun cursor hHere => ⟨rfl, ?_⟩
  rw [Cursor.ahead, hHere.tokens, hHere.index, TokenStream.kind]

theorem moves_currentSpan :
    Moves stream start currentSpan fun span index =>
      index = start ∧ stream.sound span :=
  moves_look fun _ hHere => ⟨rfl, hHere.current.2⟩

theorem moves_previousSpan :
    Moves stream start Parser.previousSpan fun span index =>
      index = start ∧ stream.sound span :=
  moves_look fun _ hHere => ⟨rfl, hHere.previousSpan⟩

theorem moves_check
    (kind : TokenKind) :
    Moves stream start (check kind) fun found index =>
      index = start ∧ found = (stream.kind start == kind) := by
  refine Moves.bind moves_peek ?_
  rintro _ _ _ ⟨rfl, rfl⟩
  exact .pure ⟨rfl, rfl⟩

theorem moves_tooManyErrors :
    Moves stream start tooManyErrors fun _ index => index = start :=
  moves_look fun _ _ => rfl

------------------------------------------------------------
-- Reading Tokens
------------------------------------------------------------

theorem moves_advance
    (hMore : stream.kind start ≠ .endOfFile) :
    Moves stream start advance fun token index =>
      index = start + 1 ∧ stream.sound token.span :=
  fun _ hHere =>
    ⟨start + 1, Nat.le_succ start, hHere.next hMore, rfl, hHere.current.2⟩

/- A token of a kind that does not end the text is eaten. -/
theorem moves_eat
    {kind : TokenKind}
    (hKind : (TokenKind.endOfFile == kind) = false) :
    Moves stream start (eat kind) fun found index =>
      found = true → index = start + 1 := by
  refine (moves_check kind).bind ?_
  rintro _ _ _ ⟨rfl, rfl⟩
  refine .ite (fun hFound => ?_) fun _ => .pure nofun
  refine (moves_advance
    (TokenKind.ne_endOfFile_of_beq hFound hKind)).discard.bind ?_
  rintro _ _ _ ⟨_, rfl, _⟩
  exact .pure fun _ => rfl

------------------------------------------------------------
-- Reports
------------------------------------------------------------

theorem moves_reportSubject
    (code : ErrorCode)
    (message : String)
    {span : Span}
    (hSpan : stream.sound span)
    (subject : String) :
    Moves stream start (reportSubject code message span subject)
      fun _ index => index = start := by
  intro cursor hHere
  have hFaults :=
    stream.reports _ code message span (some subject) hHere.errors hSpan
  rw [← hHere.file] at hFaults
  exact ⟨start, le_rfl, hHere.report hFaults, rfl⟩

theorem moves_reportAt
    (code : ErrorCode)
    (message : String)
    {span : Span}
    (hSpan : stream.sound span) :
    Moves stream start (reportAt code message span)
      fun _ index => index = start := by
  intro cursor hHere
  have hFaults :=
    stream.reports _ code message span none hHere.errors hSpan
  rw [← hHere.file] at hFaults
  exact ⟨start, le_rfl, hHere.report hFaults, rfl⟩

theorem moves_giveUp :
    Moves stream start (giveUp : Parser α) post :=
  .throw nofun

theorem moves_refuseAt
    (code : ErrorCode)
    (message : String)
    {span : Span}
    (hSpan : stream.sound span) :
    Moves stream start (refuseAt code message span : Parser α) post :=
  (moves_reportAt code message hSpan).bind fun _ _ _ _ => moves_giveUp

theorem moves_refuse
    (code : ErrorCode)
    (message : String) :
    Moves stream start (refuse code message : Parser α) post := by
  have hReport :
      Moves stream start (report code message) fun _ _ => True := by
    refine Moves.bind moves_currentSpan ?_
    rintro _ _ _ ⟨rfl, hSpan⟩
    exact (moves_reportAt code message hSpan).mono fun _ _ _ _ => trivial
  exact hReport.bind fun _ _ _ _ => moves_giveUp

/- Nothing follows a fault. -/
theorem moves_refuseThen
    (code : ErrorCode)
    (message : String)
    (next : α → Parser β)
    {post : β → Nat → Prop} :
    Moves stream start (refuse code message >>= next) post := by
  have hRefused :
      Moves stream start (refuse code message : Parser α) fun _ _ =>
        False :=
    moves_refuse code message
  exact hRefused.bind fun _ _ _ hNever => hNever.elim

------------------------------------------------------------
-- Expected Tokens
------------------------------------------------------------

theorem moves_expect
    {kind : TokenKind}
    (hKind : (TokenKind.endOfFile == kind) = false) :
    Moves stream start (expect kind) fun token index =>
      index = start + 1 ∧ stream.sound token.span := by
  refine (moves_check kind).bind ?_
  rintro _ _ _ ⟨rfl, rfl⟩
  refine .ite (fun hFound => ?_) fun _ => ?_
  · exact moves_advance (TokenKind.ne_endOfFile_of_beq hFound hKind)
  · exact Moves.bind moves_peek fun _ _ _ _ => moves_refuse _ _

theorem moves_expectClosing
    (closing : Mark)
    (openedAt : Span) :
    Moves stream start (expectClosing closing openedAt)
      fun token index => index = start + 1 ∧ stream.sound token.span := by
  refine (moves_check _).bind ?_
  rintro _ _ _ ⟨rfl, rfl⟩
  refine .ite (fun hFound => ?_) fun _ => ?_
  · exact moves_advance (TokenKind.ne_endOfFile_of_beq hFound rfl)
  · refine Moves.bind moves_peek fun _ _ _ _ => ?_
    split
    · exact moves_refuse _ _
    · exact moves_refuse _ _
    · exact moves_refuse _ _

theorem moves_expectName :
    Moves stream start expectName fun ident index =>
      index = start + 1 ∧ stream.sound ident.span := by
  refine Moves.bind moves_peek ?_
  rintro _ here _ ⟨rfl, rfl⟩
  split
  · rename_i id hName
    have hMore : stream.kind here ≠ .endOfFile := by
      rw [hName]
      exact nofun
    refine (moves_advance hMore).bind ?_
    rintro _ _ _ ⟨rfl, hSpan⟩
    exact .pure ⟨rfl, hSpan⟩
  · exact moves_refuse _ _

theorem moves_expectNewline :
    Moves stream start expectNewline fun _ _ => True := by
  refine (moves_eat rfl).bind fun _ _ _ _ =>
    .ite (fun _ => .pure trivial) fun _ => ?_
  refine (moves_check _).bind fun _ _ _ _ =>
    .ite (fun _ => .pure trivial) fun _ => ?_
  exact Moves.bind moves_peek fun _ _ _ _ => moves_refuse _ _

------------------------------------------------------------
-- Nesting
------------------------------------------------------------

section Nesting

variable {parser : Parser α}

/- Nesting does not change the place. -/
theorem moves_within
    (hParser : Moves stream start parser post)
    (enter leave : Nat × Nat → Nat × Nat) :
    Moves stream start
      (fun cursor =>
        match parser (withDepths enter cursor) with
        | .ok value after => .ok value (withDepths leave after)
        | .error failure after => .error failure (withDepths leave after))
      post := by
  intro cursor hHere
  have hMoved :=
    hParser (withDepths enter cursor)
      ⟨hHere.file, hHere.tokens, hHere.index, hHere.inside, hHere.errors⟩
  simp only
  cases hRun : parser (withDepths enter cursor) with
  | ok value after =>
      rw [hRun] at hMoved
      obtain ⟨index, hLater, hAfter, hValue⟩ := hMoved
      exact ⟨index, hLater,
        ⟨hAfter.file, hAfter.tokens, hAfter.index, hAfter.inside,
          hAfter.errors⟩, hValue⟩
  | error failure after =>
      rw [hRun] at hMoved
      obtain ⟨hFailure, index, hLater, hAfter⟩ := hMoved
      exact ⟨hFailure, index, hLater,
        ⟨hAfter.file, hAfter.tokens, hAfter.index, hAfter.inside,
          hAfter.errors⟩⟩

theorem moves_nested
    (hParser : Moves stream start parser post) :
    Moves stream start (nested parser) post :=
  moves_get fun _ => .ite (fun _ => moves_refuse _ _) fun _ =>
    moves_within hParser
      (fun depths => (depths.1 + 1, depths.2))
      (fun depths => (depths.1 - 1, depths.2))

theorem moves_inBlock
    (hParser : Moves stream start parser post) :
    Moves stream start (inBlock parser) post :=
  moves_within hParser
    (fun depths => (depths.1, depths.2 + 1))
    (fun depths => (depths.1, depths.2 - 1))

/- A parser that fails may have moved, too. -/
theorem moves_attempt
    (hParser : Moves stream start parser post) :
    Moves stream start (attempt parser) fun found index =>
      ∀ value, found = some value → post value index := by
  intro cursor hHere
  have hMoved := hParser cursor hHere
  simp only [attempt]
  cases hRun : parser cursor with
  | ok value after =>
      rw [hRun] at hMoved
      obtain ⟨index, hLater, hAfter, hValue⟩ := hMoved
      refine ⟨index, hLater, hAfter, ?_⟩
      rintro _ ⟨⟩
      exact hValue
  | error failure after =>
      rw [hRun] at hMoved
      cases failure with
      | reported =>
          obtain ⟨-, index, hLater, hAfter⟩ := hMoved
          refine ⟨index, hLater, hAfter, ?_⟩
          rintro _ ⟨⟩
      | stalled => exact hMoved

end Nesting

------------------------------------------------------------
-- Repetition
------------------------------------------------------------

section Repetition

variable {step : σ → Parser (Step σ α)}
variable {invariant : σ → Nat → Prop}

/- What a round of a loop leaves. If the loop goes on, it has moved. -/
def RoundMoves
    (here : Nat)
    (invariant : σ → Nat → Prop)
    (post : α → Nat → Prop) :
    Step σ α → Nat → Prop
  | .again state, index => here < index ∧ invariant state index
  | .done value, index => post value index

/- There are enough rounds if there are as many as tokens are left. -/
theorem moves_loopFor
    (hStep :
      ∀ state index, start ≤ index → invariant state index →
        Moves stream index (step state) (RoundMoves index invariant post))
    {fuel here : Nat}
    (hFuel : stream.size ≤ here + fuel)
    {state : σ}
    (hLater : start ≤ here)
    (hState : invariant state here) :
    Moves stream here (loopFor step fuel state) post := by
  refine .inside fun hInside => ?_
  induction fuel generalizing state here with
  | zero => omega
  | succ fuel ih =>
      refine (hStep state here hLater hState).bind
        fun outcome index hIndex hOutcome => .inside fun hInside => ?_
      cases outcome with
      | again next =>
          obtain ⟨hMoved, hNext⟩ := hOutcome
          exact ih (by omega) (hLater.trans hIndex) hNext hInside
      | done value => exact .pure hOutcome

/- A loop keeps what each of its rounds keeps, and comes to an end. -/
theorem moves_loop
    (invariant : σ → Nat → Prop)
    (post : α → Nat → Prop)
    {state : σ}
    (hState : invariant state start)
    (hStep :
      ∀ state index, start ≤ index → invariant state index →
        Moves stream index (step state) (RoundMoves index invariant post)) :
    Moves stream start (loop state step) post := by
  intro cursor hHere
  refine moves_loopFor hStep ?_ le_rfl hState cursor hHere
  rw [Cursor.remaining, hHere.tokens, hHere.index, TokenStream.size]
  omega

/- What a list of items has is kept by each item after a comma. -/
theorem moves_moreItems
    {isEnd : TokenKind → Bool}
    {item : Parser α}
    {first : List α}
    {holds : α → Prop}
    (hFirst : ∀ value ∈ first, holds value)
    (hItem :
      ∀ index, start < index →
        Moves stream index item fun value _ => holds value) :
    Moves stream start (moreItems isEnd item first)
      fun items _ => ∀ value ∈ items, holds value := by
  refine moves_loop (fun items _ => ∀ value ∈ items, holds value)
    (fun items _ => ∀ value ∈ items, holds value) hFirst
    fun items here hHere hItems => ?_
  refine (moves_eat rfl).bind fun found comma _ hComma => ?_
  refine .ite (fun _ => .pure hItems) fun hFound => ?_
  simp only [Bool.not_eq_true', Bool.not_eq_false] at hFound
  obtain rfl := hComma hFound
  refine Moves.bind moves_peek ?_
  rintro _ _ _ ⟨rfl, rfl⟩
  refine .ite (fun _ => .pure hItems) fun _ => ?_
  refine (hItem _ (by omega)).bind fun value index hIndex hValue =>
    .pure ⟨by omega, ?_⟩
  exact List.forall_mem_append.mpr
    ⟨hItems, List.forall_mem_singleton.mpr hValue⟩

theorem moves_itemsUntil
    {closing : Mark}
    {item : Parser α}
    {holds : α → Prop}
    (hItem :
      ∀ index, start ≤ index →
        Moves stream index item fun value _ => holds value) :
    Moves stream start (itemsUntil closing item)
      fun items _ => ∀ value ∈ items, holds value := by
  refine moves_loop (fun items _ => ∀ value ∈ items, holds value)
    (fun items _ => ∀ value ∈ items, holds value) (List.forall_mem_nil _)
    fun items here hHere hItems => ?_
  refine (moves_check _).bind ?_
  rintro _ _ _ ⟨rfl, rfl⟩
  refine .ite (fun _ => .pure hItems) fun _ => ?_
  refine (hItem _ hHere).bind fun value after hAfter hValue => ?_
  have hMore : ∀ other ∈ items ++ [value], holds other :=
    List.forall_mem_append.mpr
      ⟨hItems, List.forall_mem_singleton.mpr hValue⟩
  refine (moves_eat rfl).bind fun found comma _ hComma => ?_
  refine .ite (fun hFound => .pure ⟨?_, hMore⟩) fun _ => .pure hMore
  rw [hComma hFound]
  omega

/- Reports leave the place as it is. -/
theorem moves_forM
    {check : α → Parser Unit}
    {values : List α}
    (hCheck :
      ∀ value ∈ values,
        Moves stream start (check value) fun _ index => index = start) :
    Moves stream start (values.forM check) fun _ index => index = start := by
  induction values with
  | nil => exact .pure rfl
  | cons value values ih =>
      rw [List.forall_mem_cons] at hCheck
      change Moves stream start (check value >>= fun _ => values.forM check) _
      refine hCheck.1.bind ?_
      rintro _ _ _ rfl
      exact ih hCheck.2

end Repetition

------------------------------------------------------------
-- Recovery
------------------------------------------------------------

/- A token that ends neither the text nor a block is passed over. -/
theorem tokensToNextLine_pos
    {token : Token}
    (hMore : token.kind ≠ .endOfFile)
    (hBlock : token.kind ≠ .dedent)
    (rest : List Token) :
    0 < tokensToNextLine 0 (token :: rest) := by
  rw [tokensToNextLine]
  split
  · exact absurd ‹_› hMore
  · exact Nat.one_pos
  · omega
  · exact absurd ‹_› hBlock
  · omega

/-
  The start of the next line is later, unless the text or a
  block ends at the place.
-/
theorem moves_synchronize :
    Moves stream start synchronize fun _ index =>
      stream.kind start ≠ .endOfFile →
        stream.kind start ≠ .dedent → start < index := by
  intro cursor hHere
  obtain ⟨last, hLast, hEnd⟩ := stream.ends
  have hInside : start < stream.tokens.size := hHere.inside
  have hMore :
      (stream.tokens.toList.drop start).getLast? = some last := by
    rw [List.getLast?_drop, Array.length_toList,
      if_neg (Nat.not_le.mpr hInside)]
    simpa using hLast
  have hLess := tokensToNextLine_lt hMore hEnd 0
  rw [List.length_drop, Array.length_toList] at hLess
  refine ⟨start + tokensToNextLine 0 (stream.tokens.toList.drop start),
    Nat.le_add_right start _,
    ⟨hHere.file, hHere.tokens, ?_, ?_, hHere.errors⟩, ?_⟩
  · rw [← hHere.index, ← hHere.tokens]
  · exact Nat.add_lt_of_lt_sub' hLess
  · intro hText hBlock
    rw [TokenStream.kind, Array.getElem?_eq_getElem hInside] at hText hBlock
    rw [List.drop_eq_getElem_cons (by simpa using hInside)]
    exact Nat.lt_add_of_pos_right (tokensToNextLine_pos hText hBlock _)

end Parser

end SnippetGrader
