import SnippetGrader.Parsing.Program
import SnippetGrader.Proofs.Parsing.ExpressionMoves

/-
  How the rules for statements move over tokens.

  A statement that is read has at least one token. A statement
  that fails may have none, but then the tokens up to the next
  line are skipped. So every round of a block or of a program
  moves, and levels for as many statements as tokens are left do
  not run out.

  Key definitions include:
    * `StmtGrammar.round`
    * `StmtGrammar.MovesFrom`

  Key theorems include:
    * `StmtGrammar.moves_round`
    * `StmtGrammar.movesFrom_levels`, `StmtGrammar.movesFrom_top`
    * `moves_program`
-/

namespace SnippetGrader

open SnippetGrader.Parser

variable {stream : TokenStream}
variable {start : Nat}

/- A parser that moves from any token on. -/
def Parser.MovesAny
    {α : Type}
    (stream : TokenStream)
    (start : Nat)
    (parser : Parser α) : Prop :=
  ∀ here, start ≤ here → Moves stream here parser fun _ _ => True

theorem moves_checkTarget
    (unpacking : Bool)
    {target : Expr}
    (hTarget : stream.Reportable target) :
    Moves stream start (checkTarget unpacking target) fun _ index =>
      index = start :=
  moves_forM fun fault hFault =>
    moves_reportAt _ _ (hTarget.faults unpacking fault hFault)

/- No expression of a statement runs out of levels. -/
theorem movesExpr_top
    (start : Nat) :
    MovesExpr stream start ExprGrammar.top.expression :=
  (ExprGrammar.movesFrom_top start).expression

theorem movesExpr_exprList
    (start : Nat) :
    MovesExpr stream start ExprGrammar.top.exprList :=
  ExprGrammar.moves_exprList (ExprGrammar.movesFrom_top start)

------------------------------------------------------------
-- Simple Statements
------------------------------------------------------------

namespace SimpleStmt

theorem moves_orNothing
    {part : Parser Expr}
    (hPart : MovesExpr stream start part) :
    Moves stream start (orNothing part) fun _ _ => True := by
  refine moves_peek.bind ?_
  rintro _ here _ ⟨rfl, rfl⟩
  refine .ite (fun _ => .pure trivial) fun _ => ?_
  exact (hPart here le_rfl).bind fun _ _ _ _ => .pure trivial

theorem moves_dottedName :
    Moves stream start dottedName fun _ _ => True := by
  refine moves_expectName.bind fun first _ _ _ => ?_
  refine moves_loop (fun _ _ => True) (fun _ _ => True) trivial
    fun found here hHere _ => ?_
  obtain ⟨name, span⟩ := found
  refine (moves_eat rfl).bind fun _ after hAfter hDot => ?_
  refine .ite (fun hFound => ?_) fun _ => .pure trivial
  have hMore := hDot hFound
  refine moves_expectName.bind ?_
  rintro part _ _ ⟨rfl, _⟩
  exact .pure ⟨by omega, trivial⟩

theorem moves_importAlias
    (dotted : Bool) :
    Moves stream start (importAlias dotted) fun _ _ => True := by
  have hRest {here : Nat} {name : String} {span : Span} :
      Moves stream here
        (do
          if ← eat (.keyword .asWord) then
            let asName ← expectName
            return ⟨name, some asName, span.merge asName.span⟩
          return ⟨name, none, span⟩ : Parser Alias)
        fun _ _ => True := by
    refine (moves_eat rfl).bind fun _ _ _ _ =>
      .ite (fun _ => ?_) fun _ => .pure trivial
    exact moves_expectName.bind fun _ _ _ _ => .pure trivial
  refine .ite (fun _ => ?_) fun _ => ?_
  · exact Moves.bind moves_dottedName fun _ _ _ _ => hRest
  · exact moves_expectName.bind fun _ _ _ _ => hRest

theorem moves_importAliases
    (dotted : Bool) :
    Moves stream start (importAliases dotted) fun _ _ => True :=
  (moves_importAlias dotted).bind fun _ _ _ _ =>
    ExprGrammar.moves_anyItems fun _ _ => moves_importAlias dotted

/- A statement that starts with a word has at least that token. -/
theorem moves_worded
    {rest : Parser (StmtForm Stmt)}
    (hRest : MovesAny stream (start + 1) rest)
    (hWord : stream.kind start ≠ .endOfFile) :
    Moves stream start (worded rest) fun _ index => start < index := by
  refine (moves_advance hWord).bind ?_
  rintro _ _ _ ⟨rfl, _⟩
  refine (hRest _ le_rfl).bind fun form index hIndex _ => ?_
  refine moves_previousSpan.bind ?_
  rintro _ _ _ ⟨rfl, _⟩
  exact .pure hIndex

theorem moves_importFrom
    (hWord : stream.kind start ≠ .endOfFile) :
    Moves stream start importFrom fun _ index => start < index := by
  refine (moves_advance hWord).bind ?_
  rintro _ _ _ ⟨rfl, _⟩
  refine Moves.bind moves_dottedName fun found here hHere _ => ?_
  refine (moves_expect rfl).discard.bind ?_
  rintro _ _ _ ⟨_, rfl, _⟩
  refine (moves_check _).bind ?_
  rintro _ _ _ ⟨rfl, rfl⟩
  refine .ite (fun _ => moves_refuseThen _ _ _) fun _ => ?_
  have hEnd {first : Span} {names : List Alias} {after : Nat}
      (hAfter : start < after) :
      Moves stream after
        (do
          let last ← Parser.previousSpan
          return Stmt.mk (first.merge last) (.importFrom found.1 names))
        fun _ index => start < index := by
    refine moves_previousSpan.bind ?_
    rintro _ _ _ ⟨rfl, _⟩
    exact .pure hAfter
  refine (moves_check _).bind ?_
  rintro _ _ _ ⟨rfl, rfl⟩
  refine .ite (fun hOpen => ?_) fun _ => ?_
  · refine (moves_advance (TokenKind.ne_endOfFile_of_beq hOpen rfl)).bind ?_
    rintro _ _ _ ⟨rfl, _⟩
    refine (moves_importAliases false).bind fun names middle hMiddle _ => ?_
    refine (moves_expectClosing _ _).discard.bind ?_
    rintro _ _ _ ⟨_, rfl, _⟩
    exact hEnd (by omega)
  · exact (moves_importAliases false).bind
      fun names middle hMiddle _ => hEnd (by omega)

theorem moves_expressionOrAssignment :
    Moves stream start expressionOrAssignment fun _ index =>
      start < index := by
  have hList : MovesExpr stream start ExprGrammar.top.exprList :=
    movesExpr_exprList start
  refine (hList start le_rfl).bind fun first here hHere ⟨hMoved, hFirst⟩ => ?_
  refine moves_peek.bind ?_
  rintro _ here _ ⟨rfl, rfl⟩
  split
  · rename_i op hOp
    have hMore : stream.kind here ≠ .endOfFile := by
      intro hEnd
      rw [hEnd] at hOp
      cases hOp
    refine (moves_advance hMore).discard.bind ?_
    rintro _ _ _ ⟨_, rfl, _⟩
    refine (moves_checkTarget false hFirst).bind ?_
    rintro _ _ _ rfl
    exact (hList _ (by omega)).bind
      fun value _ hIndex _ => .pure (by omega)
  · refine (moves_eat rfl).bind fun _ after hAfter _ =>
      .ite (fun _ => ?_) fun _ => .pure (by omega)
    refine (hList after (by omega)).bind
      fun second middle hMiddle ⟨_, hSecond⟩ => ?_
    let targets := fun (found : List Expr × Expr) (_ : Nat) =>
      (∀ target ∈ found.1, stream.Reportable target) ∧
        stream.Reportable found.2
    have hStart : targets ([first], second) middle :=
      ⟨List.forall_mem_singleton.mpr hFirst, hSecond⟩
    refine (moves_loop targets targets hStart
      fun found last hLast hFound => ?_).bind
      fun found index hIndex hFound => ?_
    · obtain ⟨earlier, value⟩ := found
      obtain ⟨hEarlier, hValue⟩ := hFound
      refine (moves_eat rfl).bind fun _ assign hAssign hMore =>
        .ite (fun hFound => ?_) fun _ => .pure ⟨hEarlier, hValue⟩
      have hRead := hMore hFound
      refine (hList assign (by omega)).bind
        fun next rest _ ⟨hRest, hNext⟩ => .pure ⟨by omega, ?_, hNext⟩
      exact List.forall_mem_append.mpr
        ⟨hEarlier, List.forall_mem_singleton.mpr hValue⟩
    · obtain ⟨earlier, value⟩ := found
      refine (moves_forM fun target hTarget =>
        moves_checkTarget true (hFound.1 target hTarget)).bind ?_
      rintro _ _ _ rfl
      exact .pure (by omega)

theorem moves_assertion :
    MovesAny stream start assertion := by
  intro here hHere
  refine (movesExpr_top here here le_rfl).bind fun test middle _ _ => ?_
  refine (moves_eat rfl).bind fun _ comma _ _ => ?_
  have hMessage :
      Moves stream comma (some <$> ExprGrammar.top.expression)
        fun _ _ => True :=
    .map ((movesExpr_top comma comma le_rfl).mono fun _ _ _ _ => trivial)
  exact .iteBind (fun _ => hMessage) (fun _ => .pure trivial)
    fun _ _ _ _ => .pure trivial

theorem moves_statement :
    Moves stream start statement fun _ index => start < index := by
  have hNone {here : Nat} {form : StmtForm Stmt} :
      MovesAny stream here (Pure.pure form : Parser (StmtForm Stmt)) :=
    fun _ _ => .pure trivial
  have hSome {here : Nat} {form : Option Expr → StmtForm Stmt}
      {part : Parser Expr} (hPart : ∀ later, MovesExpr stream later part) :
      MovesAny stream here (do return form (← orNothing part)) :=
    fun later _ => (moves_orNothing (hPart later)).bind
      fun _ _ _ _ => .pure trivial
  refine moves_peek.bind ?_
  rintro _ here _ ⟨rfl, rfl⟩
  split
  case h_1 hWord =>
      exact moves_worded hNone (ExprGrammar.ne_endOfFile_of_eq hWord rfl)
  case h_2 hWord =>
      exact moves_worded hNone (ExprGrammar.ne_endOfFile_of_eq hWord rfl)
  case h_3 hWord =>
      exact moves_worded hNone (ExprGrammar.ne_endOfFile_of_eq hWord rfl)
  case h_4 hWord =>
      exact moves_worded (hSome movesExpr_exprList)
        (ExprGrammar.ne_endOfFile_of_eq hWord rfl)
  case h_5 hWord =>
      exact moves_worded (hSome movesExpr_top)
        (ExprGrammar.ne_endOfFile_of_eq hWord rfl)
  case h_6 hWord =>
      exact moves_worded moves_assertion
        (ExprGrammar.ne_endOfFile_of_eq hWord rfl)
  case h_7 hWord =>
      exact moves_worded
        (fun _ _ => (moves_importAliases true).bind
          fun _ _ _ _ => .pure trivial)
        (ExprGrammar.ne_endOfFile_of_eq hWord rfl)
  case h_8 hWord =>
      exact moves_importFrom (ExprGrammar.ne_endOfFile_of_eq hWord rfl)
  case h_9 => exact moves_refuse _ _
  case h_10 => exact moves_expressionOrAssignment

theorem moves_line :
    Moves stream start line fun _ index => start < index := by
  refine Moves.bind moves_statement fun first here _ hHere => ?_
  refine (moves_loop (fun _ _ => True) (fun _ _ => True) trivial
    fun stmts middle hMiddle _ => ?_).bind fun stmts middle hMiddle _ => ?_
  · refine (moves_eat rfl).bind fun found after hAfter hMore => ?_
    refine .ite (fun _ => .pure trivial) fun hFound => ?_
    rw [Bool.not_eq_true', Bool.not_eq_false] at hFound
    have hRead := hMore hFound
    refine moves_peek.bind ?_
    rintro _ after _ ⟨rfl, rfl⟩
    split
    · exact .pure trivial
    · exact .pure trivial
    · exact Moves.bind moves_statement
        fun _ _ _ hIndex => .pure ⟨by omega, trivial⟩
  · exact moves_expectNewline.bind fun _ _ hIndex _ => .pure (by omega)

end SimpleStmt

------------------------------------------------------------
-- Compound Statements
------------------------------------------------------------

namespace StmtGrammar

/- One round of a block or of a program. -/
def round
    (grammar : StmtGrammar)
    (isEnd : TokenKind → Bool)
    (isSkipped : TokenKind → Bool)
    (body : List Stmt) :
    Parser (Step (List Stmt) (List Stmt)) := do
  let kind ← peek
  if isEnd kind || (← tooManyErrors) then return .done body
  if isSkipped kind then
    discard advance
    return .again body
  match ← attempt grammar.statements with
  | some statements => return .again (body ++ statements)
  | none =>
      synchronize
      return .again body

/- Statements are read round by round. -/
theorem statementsUntil_eq
    (grammar : StmtGrammar)
    (isEnd isSkipped : TokenKind → Bool) :
    grammar.statementsUntil isEnd isSkipped =
      loop [] (grammar.round isEnd isSkipped) := rfl

/- Rules for inner statements, which move from any token on. -/
structure MovesFrom
    (stream : TokenStream)
    (start : Nat)
    (grammar : StmtGrammar) : Prop where
  statements :
    ∀ here, start ≤ here →
      Moves stream here grammar.statements fun _ index => here < index
  branch :
    ∀ here, start ≤ here → stream.kind here ≠ .endOfFile →
      Moves stream here grammar.branch fun _ index => here < index

section Rules

variable {grammar : StmtGrammar}

theorem MovesFrom.mono
    (hGrammar : grammar.MovesFrom stream start)
    {later : Nat}
    (hLater : start ≤ later) :
    grammar.MovesFrom stream later :=
  ⟨fun here hHere => hGrammar.statements here (hLater.trans hHere),
    fun here hHere => hGrammar.branch here (hLater.trans hHere)⟩

/-
  Every round that goes on has moved, also one whose statement
  fails without having read anything: the round would not have
  come to it at the end of the text or of a block.
-/
theorem moves_round
    (hGrammar : grammar.MovesFrom stream start)
    {isEnd isSkipped : TokenKind → Bool}
    (hText : isEnd .endOfFile = true)
    (hBlock : isEnd .dedent = true ∨ isSkipped .dedent = true)
    (body : List Stmt) :
    Moves stream start (grammar.round isEnd isSkipped body)
      (RoundMoves start (fun _ _ => True) fun _ _ => True) := by
  refine moves_peek.bind ?_
  rintro _ here _ ⟨rfl, rfl⟩
  refine moves_tooManyErrors.bind ?_
  rintro full here _ rfl
  refine .ite (fun _ => .pure trivial) fun hGoesOn => ?_
  rw [Bool.not_eq_true, Bool.or_eq_false_iff] at hGoesOn
  have hMore : stream.kind here ≠ .endOfFile := by
    intro hEnd
    rw [hEnd, hText] at hGoesOn
    cases hGoesOn.1
  refine .ite (fun _ => ?_) fun hTried => ?_
  · refine (moves_advance hMore).discard.bind ?_
    rintro _ _ _ ⟨_, rfl, _⟩
    exact .pure ⟨Nat.lt_succ_self here, trivial⟩
  have hInside : stream.kind here ≠ .dedent := by
    intro hDedent
    rw [hDedent] at hGoesOn hTried
    rcases hBlock with hEnds | hSkips
    · rw [hEnds] at hGoesOn
      cases hGoesOn.1
    · exact hTried hSkips
  refine (moves_attempt (hGrammar.statements here le_rfl)).bind
    fun found index hIndex hFound => ?_
  split
  · exact .pure ⟨hFound _ rfl, trivial⟩
  · refine moves_synchronize.bind fun _ last hLast hMoved =>
      .pure ⟨?_, trivial⟩
    rcases hIndex.eq_or_lt with rfl | hRead
    · exact hMoved hMore hInside
    · exact hRead.trans_le hLast

theorem moves_statementsUntil
    (hGrammar : grammar.MovesFrom stream start)
    {isEnd isSkipped : TokenKind → Bool}
    (hText : isEnd .endOfFile = true)
    (hBlock : isEnd .dedent = true ∨ isSkipped .dedent = true) :
    Moves stream start (grammar.statementsUntil isEnd isSkipped)
      fun _ _ => True := by
  rw [statementsUntil_eq]
  exact moves_loop (fun _ _ => True) (fun _ _ => True) trivial
    fun body here hHere _ =>
      moves_round (hGrammar.mono hHere) hText hBlock body

theorem moves_block
    (hGrammar : grammar.MovesFrom stream start) :
    MovesAny stream start grammar.block := by
  intro here hHere
  refine (moves_eat rfl).bind fun _ line hLine _ =>
    .ite (fun _ => ?_) fun _ => ?_
  · exact Moves.mono SimpleStmt.moves_line fun _ _ _ _ => trivial
  refine (moves_eat rfl).bind fun _ block hBlock _ =>
    .ite (fun _ => moves_refuse _ _) fun _ => ?_
  refine moves_get fun cursor => .ite (fun _ => ?_) fun _ => ?_
  · refine moves_previousSpan.bind ?_
    rintro span _ _ ⟨rfl, hSpan⟩
    exact moves_refuseAt _ _ hSpan
  refine moves_inBlock ?_
  have hLater := hGrammar.mono (show start ≤ block by omega)
  refine (moves_statementsUntil hLater rfl (.inl rfl)).bind
    fun body index _ _ => ?_
  exact (moves_eat rfl).discard.bind fun _ _ _ _ => .pure trivial

theorem moves_body
    (hGrammar : grammar.MovesFrom stream start) :
    MovesAny stream start grammar.body := fun _ hHere =>
  (moves_expect rfl).discard.bind fun _ colon hColon _ =>
    moves_block hGrammar colon (hHere.trans hColon)

theorem moves_elseBody
    (hGrammar : grammar.MovesFrom stream start) :
    MovesAny stream start grammar.elseBody := fun _ hHere =>
  (moves_eat rfl).bind fun _ word hWord _ =>
    .ite (fun _ => moves_body hGrammar word (hHere.trans hWord))
      fun _ => .pure trivial

theorem moves_functionDef
    (hGrammar : grammar.MovesFrom stream start) :
    MovesAny stream start grammar.functionDef := by
  intro here hHere
  refine moves_expectName.bind fun name paren hParen _ => ?_
  refine (moves_expect rfl).bind fun opening first hFirst _ => ?_
  refine (ExprGrammar.moves_params (ExprGrammar.movesFrom_top first)
    _ _).bind fun params last hLast _ => ?_
  refine (moves_expectClosing _ _).discard.bind
    fun _ closing hClosing _ => ?_
  have hEnd {after : Nat} (hAfter : closing ≤ after) :
      Moves stream after
        (do return StmtForm.functionDef name params (← grammar.body))
        fun _ _ => True :=
    (moves_body hGrammar after (by omega)).bind
      fun _ _ _ _ => .pure trivial
  refine (moves_eat rfl).bind fun _ arrow hArrow _ =>
    .ite (fun _ => ?_) fun _ => hEnd hArrow
  exact (movesExpr_top arrow arrow le_rfl).discard.bind
    fun _ after hAfter _ => hEnd (hArrow.trans hAfter)

theorem moves_classBase :
    MovesExpr stream start classBase := by
  intro here hHere
  refine moves_peek.bind ?_
  rintro _ _ _ ⟨rfl, rfl⟩
  refine (moves_peekAhead 1).bind ?_
  rintro _ here _ ⟨rfl, rfl⟩
  split
  · exact moves_refuse _ _
  · exact movesExpr_top here here le_rfl

theorem moves_classDef
    (hGrammar : grammar.MovesFrom stream start) :
    MovesAny stream start grammar.classDef := by
  intro here hHere
  refine moves_expectName.bind fun name paren hParen _ => ?_
  have hEnd {bases : List Expr} {after : Nat} (hAfter : paren ≤ after) :
      Moves stream after
        (do return StmtForm.classDef name bases (← grammar.body))
        fun _ _ => True :=
    (moves_body hGrammar after (by omega)).bind
      fun _ _ _ _ => .pure trivial
  refine (moves_check _).bind ?_
  rintro _ _ _ ⟨rfl, rfl⟩
  refine .ite (fun hOpen => ?_) fun _ => hEnd le_rfl
  refine (moves_advance (TokenKind.ne_endOfFile_of_beq hOpen rfl)).bind
    fun opening first hFirst _ => ?_
  have hBase
      (index : Nat)
      (hIndex : first ≤ index) :
      Moves stream index classBase fun base _ => stream.Reportable base :=
    (moves_classBase index hIndex).mono fun _ _ _ hBase => hBase.2
  refine (moves_itemsUntil hBase).bind fun bases last hLast _ => ?_
  exact (moves_expectClosing _ _).discard.bind
    fun _ closing hClosing _ => hEnd (by omega)

theorem moves_ifElse
    (hGrammar : grammar.MovesFrom stream start) :
    MovesAny stream start grammar.ifElse := by
  intro here hHere
  refine (movesExpr_top here here le_rfl).bind fun test colon hColon _ => ?_
  refine (moves_body hGrammar colon (by omega)).bind
    fun body word hWord _ => ?_
  refine (moves_check _).bind ?_
  rintro _ word _ ⟨rfl, rfl⟩
  refine .ite (fun hElif => ?_) fun _ => ?_
  · exact (hGrammar.branch word (by omega)
      (TokenKind.ne_endOfFile_of_beq hElif rfl)).bind
        fun _ _ _ _ => .pure trivial
  · exact (moves_elseBody hGrammar word (by omega)).bind
      fun _ _ _ _ => .pure trivial

theorem moves_whileLoop
    (hGrammar : grammar.MovesFrom stream start) :
    MovesAny stream start grammar.whileLoop := by
  intro here hHere
  refine (movesExpr_top here here le_rfl).bind fun test colon hColon _ => ?_
  refine (moves_body hGrammar colon (by omega)).bind
    fun body word hWord _ => ?_
  exact (moves_elseBody hGrammar word (by omega)).bind
    fun _ _ _ _ => .pure trivial

theorem moves_forLoop
    (hGrammar : grammar.MovesFrom stream start) :
    MovesAny stream start grammar.forLoop := by
  intro here hHere
  have hTarget : MovesExpr stream here ExprGrammar.top.targetList :=
    ExprGrammar.moves_targetList (ExprGrammar.movesFrom_top here)
  refine (hTarget here le_rfl).bind fun target word hWord ⟨_, hTarget⟩ => ?_
  refine (moves_checkTarget true hTarget).bind ?_
  rintro _ word _ rfl
  refine (moves_expect rfl).discard.bind fun _ first hFirst _ => ?_
  refine (movesExpr_exprList first first le_rfl).bind
    fun items colon hColon _ => ?_
  refine (moves_body hGrammar colon (by omega)).bind
    fun body last hLast _ => ?_
  exact (moves_elseBody hGrammar last (by omega)).bind
    fun _ _ _ _ => .pure trivial

theorem moves_lineOrCompound
    (hGrammar : grammar.MovesFrom stream (start + 1)) :
    Moves stream start grammar.lineOrCompound fun _ index =>
      start < index := by
  have hSingle {rest : Parser (StmtForm Stmt)}
      (hRest : MovesAny stream (start + 1) rest)
      (hWord : stream.kind start ≠ .endOfFile) :
      Moves stream start (lineOrCompound.single rest) fun _ index =>
        start < index :=
    (SimpleStmt.moves_worded hRest hWord).bind
      fun _ _ _ hIndex => .pure hIndex
  refine moves_peek.bind ?_
  rintro _ _ _ ⟨rfl, rfl⟩
  split
  case h_1 hWord =>
      exact hSingle (moves_functionDef hGrammar)
        (ExprGrammar.ne_endOfFile_of_eq hWord rfl)
  case h_2 hWord =>
      exact hSingle (moves_classDef hGrammar)
        (ExprGrammar.ne_endOfFile_of_eq hWord rfl)
  case h_3 hWord =>
      exact hSingle (moves_ifElse hGrammar)
        (ExprGrammar.ne_endOfFile_of_eq hWord rfl)
  case h_4 hWord =>
      exact hSingle (moves_whileLoop hGrammar)
        (ExprGrammar.ne_endOfFile_of_eq hWord rfl)
  case h_5 hWord =>
      exact hSingle (moves_forLoop hGrammar)
        (ExprGrammar.ne_endOfFile_of_eq hWord rfl)
  case h_6 => exact moves_refuse _ _
  case h_7 => exact SimpleStmt.moves_line

/- The rules of a level move if those below do from the next token on. -/
theorem movesFrom_step
    (hGrammar : grammar.MovesFrom stream (start + 1)) :
    grammar.step.MovesFrom stream start where
  statements := fun _ hHere =>
    moves_lineOrCompound (hGrammar.mono (by omega))
  branch := fun _ hHere hWord =>
    SimpleStmt.moves_worded
      (moves_ifElse (hGrammar.mono (by omega))) hWord

end Rules

/-
  Levels for as many statements as tokens are left are enough.
  With fewer of them a parser may run out of levels.
-/
theorem movesFrom_levels
    {count start : Nat}
    (hCount : stream.mayStall ∨ stream.size ≤ start + count) :
    (levels count).MovesFrom stream start := by
  induction count generalizing start with
  | zero =>
      have hStalls
          {α : Type} {post : α → Nat → Prop} (here : Nat)
          (hHere : start ≤ here) :
          Moves stream here (throw .stalled : Parser α) post := by
        refine .inside fun hInside => .throw fun _ => ?_
        exact hCount.resolve_right (by omega)
      exact ⟨fun here hHere => hStalls here hHere,
        fun here hHere _ => hStalls here hHere⟩
  | succ count ih =>
      have hBelow :
          (levels count).MovesFrom stream (start + 1) :=
        ih (hCount.imp_right fun hSize => by omega)
      exact movesFrom_step ⟨hBelow.statements, hBelow.branch⟩

/- No statement runs out of levels. -/
theorem movesFrom_top
    (start : Nat) :
    top.MovesFrom stream start := by
  have hLevels {here : Nat} {cursor : Cursor}
      (hCursor : stream.At here cursor) :
      (levels (cursor.remaining + 1)).MovesFrom stream here := by
    refine movesFrom_levels (.inr ?_)
    rw [Cursor.remaining, hCursor.tokens, hCursor.index, TokenStream.size]
    omega
  refine ⟨fun here _ cursor hCursor => ?_,
    fun here _ hWord cursor hCursor => ?_⟩
  · exact (hLevels hCursor).statements here le_rfl cursor hCursor
  · exact (hLevels hCursor).branch here le_rfl hWord cursor hCursor

end StmtGrammar

------------------------------------------------------------
-- Programs
------------------------------------------------------------

theorem moves_program :
    Moves stream start program fun _ _ => True := by
  refine moves_currentSpan.bind fun first _ _ _ => ?_
  refine (StmtGrammar.moves_statementsUntil
    (StmtGrammar.movesFrom_top _) rfl (.inr rfl)).bind
    fun body _ _ _ => ?_
  split
  · exact .pure trivial
  · exact .pure trivial

end SnippetGrader
