import SnippetGrader.Proofs.Parsing.StatementMoves

/-
  A parser makes progress on any tokens.

  Whatever the layout of some tokens, reading them as a program
  comes to an end with a result, as long as the last of them ends
  the text. Each round of a program and of a block reads at least
  one token unless it is the last one. No rule moves backwards.

  Key definitions include:
    * `Parser.Answers`
    * `Parser.Forward`, `Parser.Advances`

  Key theorems include:
    * `parser_progress`
-/

namespace SnippetGrader

open SnippetGrader.Parser

namespace Parser

variable {α β σ : Type}

------------------------------------------------------------
-- Parsers That Do Not Fail
------------------------------------------------------------

/- A parser that does not fail with a report of its own. -/
def Answers (parser : Parser α) : Prop :=
  ∀ cursor after, parser cursor ≠ .error .reported after

theorem answers_ok
    {parser : Parser α}
    (hParser : ∀ cursor, ∃ value after, parser cursor = .ok value after) :
    Answers parser := by
  intro cursor after hError
  obtain ⟨value, last, hOk⟩ := hParser cursor
  rw [hOk] at hError
  cases hError

theorem answers_attempt
    (parser : Parser α) :
    Answers (attempt parser) := by
  intro cursor after
  simp only [attempt]
  split <;> (intro hError; cases hError)

theorem Answers.bind
    {parser : Parser α}
    {next : α → Parser β}
    (hFirst : Answers parser)
    (hNext : ∀ value, Answers (next value)) :
    Answers (parser >>= next) := by
  intro cursor after hError
  rw [run_bind] at hError
  cases hRun : parser cursor with
  | ok value middle =>
      rw [hRun] at hError
      exact hNext value middle after hError
  | error failure middle =>
      rw [hRun] at hError
      cases hError
      exact hFirst cursor _ hRun

theorem Answers.ite
    {condition : Prop}
    [Decidable condition]
    {parser other : Parser α}
    (hYes : Answers parser)
    (hNo : Answers other) :
    Answers (if condition then parser else other) := by
  split
  · exact hYes
  · exact hNo

/- A loop answers if all of its rounds do. -/
theorem answers_loop
    {state : σ}
    {step : σ → Parser (Step σ α)}
    (hStep : ∀ state, Answers (step state)) :
    Answers (loop state step) := by
  have hRounds (fuel : Nat) (state : σ) :
      Answers (loopFor step fuel state) := by
    induction fuel generalizing state with
    | zero =>
        intro cursor after hError
        cases hError
    | succ fuel ih =>
        refine (hStep state).bind fun outcome => ?_
        cases outcome with
        | again next => exact ih next
        | done value => exact answers_ok fun _ => ⟨_, _, rfl⟩
  intro cursor after
  exact hRounds (cursor.remaining + 1) state cursor after

end Parser

namespace StmtGrammar

/- A statement that fails does not make its round fail. -/
theorem answers_round
    (grammar : StmtGrammar)
    (isEnd isSkipped : TokenKind → Bool)
    (body : List Stmt) :
    Answers (grammar.round isEnd isSkipped body) := by
  have hPure {α : Type} (value : α) : Answers (pure value) :=
    answers_ok fun _ => ⟨_, _, rfl⟩
  have hModify {α : Type} (change : Cursor → α × Cursor) :
      Answers (modifyGet change) :=
    answers_ok fun _ => ⟨_, _, rfl⟩
  have hPeek : Answers peek := answers_ok fun _ => ⟨_, _, rfl⟩
  have hFull : Answers tooManyErrors := answers_ok fun _ => ⟨_, _, rfl⟩
  have hSkip : Answers (discard advance) := answers_ok fun _ => ⟨_, _, rfl⟩
  refine hPeek.bind fun kind => hFull.bind fun full => ?_
  refine .ite (hPure _) (.ite (hSkip.bind fun _ => hPure _) ?_)
  refine (answers_attempt grammar.statements).bind fun found => ?_
  cases found with
  | some statements => exact hPure _
  | none => exact (hModify _).bind fun _ => hPure _

end StmtGrammar

theorem answers_program :
    Answers program := by
  have hSpan : Answers currentSpan := answers_ok fun _ => ⟨_, _, rfl⟩
  refine hSpan.bind fun start => ?_
  refine Answers.bind ?_ fun body => ?_
  · rw [StmtGrammar.statementsUntil_eq]
    exact answers_loop (StmtGrammar.answers_round _ _ _)
  · split <;> exact answers_ok fun _ => ⟨_, _, rfl⟩

------------------------------------------------------------
-- Progress
------------------------------------------------------------

/- A result at the same place or a later one among the same tokens. -/
def Parser.Forward
    {α : Type}
    (cursor : Cursor) :
    EStateM.Result Failure Cursor α → Prop
  | .ok _ after | .error _ after =>
      after.tokens = cursor.tokens ∧ cursor.index ≤ after.index ∧
        after.index < after.tokens.size

/-
  The result of a round, which has read a token if the loop goes
  on. It is a failure only if the levels may run out.
-/
def Parser.Advances
    {σ α : Type}
    (mayStall : Prop)
    (cursor : Cursor)
    (result : EStateM.Result Failure Cursor (Step σ α)) : Prop :=
  Forward cursor result ∧
    match result with
    | .ok (.again _) after => cursor.index < after.index
    | .ok (.done _) _ => True
    | .error failure _ => failure = .stalled ∧ mayStall

/- Tokens of which nothing is known but that they end. -/
def TokenStream.any
    (file : SourceFile)
    (tokens : Array Token)
    (hEnds : tokens.back?.map (·.kind) = some .endOfFile)
    (mayStall : Prop) :
    TokenStream where
  file := file
  tokens := tokens
  ends := Option.map_eq_some_iff.mp hEnds
  sound _ := True
  starts := trivial
  spans _ _ := trivial
  merges _ _ _ _ := trivial
  allows _ := True
  reports _ _ _ _ _ _ _ := trivial
  mayStall := mayStall

section Progress

variable {α : Type}
variable {cursor : Cursor}
variable {stream : TokenStream}
variable {here : Nat}

theorem Parser.Moves.forward
    {parser : Parser α}
    {post : α → Nat → Prop}
    (hMoves : Moves stream here parser post)
    (hHere : stream.At here cursor) :
    Forward cursor (parser cursor) := by
  have hMoved := hMoves cursor hHere
  have hForward {after : Cursor} {index : Nat}
      (hLater : here ≤ index) (hAfter : stream.At index after) :
      after.tokens = cursor.tokens ∧ cursor.index ≤ after.index ∧
        after.index < after.tokens.size := by
    rw [hAfter.tokens, hAfter.index, hHere.tokens, hHere.index]
    exact ⟨rfl, hLater, hAfter.inside⟩
  cases hRun : parser cursor with
  | ok value after =>
      rw [hRun] at hMoved
      obtain ⟨index, hLater, hAfter, -⟩ := hMoved
      exact hForward hLater hAfter
  | error failure after =>
      rw [hRun] at hMoved
      obtain ⟨-, index, hLater, hAfter⟩ := hMoved
      exact hForward hLater hAfter

theorem StmtGrammar.advances_round
    {grammar : StmtGrammar}
    (hGrammar : grammar.MovesFrom stream here)
    (hHere : stream.At here cursor)
    {isEnd isSkipped : TokenKind → Bool}
    (hText : isEnd .endOfFile = true)
    (hBlock : isEnd .dedent = true ∨ isSkipped .dedent = true)
    (body : List Stmt) :
    Advances stream.mayStall cursor
      (grammar.round isEnd isSkipped body cursor) := by
  have hMoves := moves_round hGrammar hText hBlock body
  have hMoved := hMoves cursor hHere
  have hAnswers := answers_round grammar isEnd isSkipped body cursor
  rw [← hHere.index] at hMoved
  refine ⟨hMoves.forward hHere, ?_⟩
  cases hRun : grammar.round isEnd isSkipped body cursor with
  | ok outcome after =>
      rw [hRun] at hMoved
      obtain ⟨index, hLater, hAfter, hOutcome⟩ := hMoved
      obtain rfl := hAfter.index
      cases outcome with
      | again next => exact hOutcome.1
      | done value => trivial
  | error failure after =>
      rw [hRun] at hMoved
      cases failure with
      | reported => exact absurd hRun (hAnswers after)
      | stalled => exact ⟨rfl, hMoved.1 rfl⟩

end Progress

/-
  Tokens with the end of the text at their end are read as a
  program, with or without faults. Each round of the program and
  each round of a block that is not the last one has read a
  token. No rule for statements or expressions, at any level,
  moves backwards or past the last token, whether it fails or
  not. Levels run out only if there are fewer than tokens left,
  which the rules at the top are not short of.
-/
theorem parser_progress
    (file : SourceFile)
    (tokens : Array Token)
    (hEnds : tokens.back?.map (·.kind) = some .endOfFile) :
    (∃ result after,
      program { file := file, tokens := tokens } = .ok result after) ∧
    ∀ cursor : Cursor,
      cursor.tokens = tokens → cursor.index < tokens.size →
        Forward cursor (program cursor) ∧
        (∀ body,
          Advances False cursor
            (StmtGrammar.top.round (· == .endOfFile)
              (fun kind => kind == .newline || kind == .dedent)
              body cursor)) ∧
        ∀ count,
          (∀ body,
            Advances (count < cursor.remaining) cursor
              ((StmtGrammar.levels count).round
                (fun kind => kind == .endOfFile || kind == .dedent)
                (· == .newline) body cursor)) ∧
          Forward cursor ((StmtGrammar.levels count).statements cursor) ∧
          (cursor.current.kind ≠ .endOfFile →
            Forward cursor ((StmtGrammar.levels count).branch cursor)) ∧
          Forward cursor ((ExprGrammar.levels count).expression cursor) ∧
          Forward cursor ((ExprGrammar.levels count).notTest cursor) ∧
          Forward cursor ((ExprGrammar.levels count).bitOr cursor) ∧
          Forward cursor ((ExprGrammar.levels count).factor cursor) := by
  have hPlaced
      (cursor : Cursor)
      (hTokens : cursor.tokens = tokens)
      (hInside : cursor.index < tokens.size)
      (mayStall : Prop) :
      (TokenStream.any cursor.file tokens hEnds mayStall).At cursor.index
        cursor :=
    ⟨rfl, hTokens, rfl, hInside, trivial⟩
  refine ⟨?_, fun cursor hTokens hInside => ?_⟩
  · have hSome : 0 < tokens.size := by
      obtain ⟨last, hLast, -⟩ := Option.map_eq_some_iff.mp hEnds
      exact Array.size_pos_of_mem (Array.mem_of_back? hLast)
    have hMoved :=
      moves_program _ (hPlaced { file := file, tokens := tokens } rfl hSome
        False)
    cases hRun : program { file := file, tokens := tokens } with
    | ok result after => exact ⟨result, after, rfl⟩
    | error failure after =>
        rw [hRun] at hMoved
        cases failure with
        | reported => exact absurd hRun (answers_program _ _)
        | stalled => exact (hMoved.1 rfl).elim
  · have hAny := hPlaced cursor hTokens hInside
    refine ⟨moves_program.forward (hAny True), fun body => ?_,
      fun count => ?_⟩
    · exact StmtGrammar.advances_round (StmtGrammar.movesFrom_top _)
        (hAny False) rfl (.inr rfl) body
    · have hStatements :
          (StmtGrammar.levels count).MovesFrom
            (.any cursor.file tokens hEnds (count < cursor.remaining))
            cursor.index := by
        refine StmtGrammar.movesFrom_levels ?_
        rw [TokenStream.size, TokenStream.any, Cursor.remaining, hTokens]
        dsimp only
        omega
      have hExpressions :
          (ExprGrammar.levels count).MovesFrom
            (.any cursor.file tokens hEnds True) cursor.index :=
        ExprGrammar.movesFrom_levels (.inl trivial)
      have hHere := hAny (count < cursor.remaining)
      exact
        ⟨fun body =>
            StmtGrammar.advances_round hStatements hHere rfl (.inl rfl) body,
          (hStatements.statements _ le_rfl).forward hHere,
          fun hWord => (hStatements.branch _ le_rfl (by
            rwa [← hHere.current.1])).forward hHere,
          (hExpressions.expression _ le_rfl).forward (hAny True),
          (hExpressions.notTest _ le_rfl).forward (hAny True),
          (hExpressions.bitOr _ le_rfl).forward (hAny True),
          (hExpressions.factor _ le_rfl).forward (hAny True)⟩

/- A block that was never opened, a stray bracket and no line at all. -/
theorem parser_progress_disorder :
    let tokens : Array Token :=
      #[⟨.dedent, .point 1 1⟩, ⟨.indent, .point 1 2⟩,
        ⟨.mark .closeParen, .point 1 3⟩, ⟨.dedent, .point 1 4⟩,
        ⟨.newline, .point 1 5⟩, ⟨.endOfFile, .point 1 6⟩]
    tokens.back?.map (·.kind) = some .endOfFile ∧
      ∃ result after,
        program { file := ⟨"a.py", ""⟩, tokens := tokens } =
          .ok result after := by
  intro tokens
  have hEnds : tokens.back?.map (·.kind) = some .endOfFile := rfl
  exact ⟨hEnds, (parser_progress ⟨"a.py", ""⟩ tokens hEnds).1⟩

end SnippetGrader
