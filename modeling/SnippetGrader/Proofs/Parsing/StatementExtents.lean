import SnippetGrader.Parsing.Statement
import SnippetGrader.Proofs.Parsing.ExpressionExtents

/-
  Statements that are read are in place.

  A statement starts with its first expression or with its word,
  and it ends with its last expression or with the token before
  the place, which may close a block. The statements of a block
  span tokens one after the other.

  Key definitions include:
    * `Parser.TakesBlock`
    * `StmtGrammar.Placed`

  Key theorems include:
    * `StmtGrammar.takes_statementsUntil`
    * `StmtGrammar.placed_top`
-/

namespace SnippetGrader

open SnippetGrader.Parser

variable {text : OrderedTokens}
variable {start : Nat}

namespace Parser

/- A parser of statements that span tokens one after the other. -/
def TakesBlock (text : OrderedTokens) (parser : Parser (List Stmt)) : Prop :=
  ∀ start, Takes text start parser fun block index =>
    text.Row start index (block.map .stmt)

/- A parser of forms that hold what is in place. -/
def TakesForm
    (text : OrderedTokens)
    (parser : Parser (StmtForm Stmt)) : Prop :=
  ∀ start, Takes text start parser fun form index =>
    text.HoldsAll start index (Node.stmtSlots form)

end Parser

/- Targets are only looked at. -/
theorem takes_checkTarget
    (unpacking : Bool)
    (target : Expr) :
    Takes text start (checkTarget unpacking target) fun _ index =>
      index = start :=
  takes_forM (fun _ => takes_reportAt _ _ _) _

namespace SimpleStmt

open SnippetGrader.ExprGrammar

------------------------------------------------------------
-- Parts of Statements
------------------------------------------------------------

theorem takes_orNothing
    {part : Parser Expr}
    (hPart : TakesExpr text part) :
    Takes text start (orNothing part) fun found index =>
      text.Holds start index (Node.optionSlot found) := by
  refine takes_peek.bind ?_
  rintro _ here _ ⟨rfl, rfl⟩
  refine .ite (fun _ => .pure (holds_optionSlot nofun)) fun _ => ?_
  refine (hPart here).bind fun value index _ hValue =>
    .pure (holds_optionSlot ?_)
  rintro _ ⟨⟩
  exact hValue.between

theorem takes_dottedName :
    Takes text start dottedName fun found index =>
      ∃ last, last < index ∧ text.Spans start last found.2 := by
  refine takes_expectName.bind ?_
  rintro first _ _ ⟨rfl, hFirst⟩
  let spans := fun (found : String × Span) (index : Nat) =>
    ∃ last, last < index ∧ text.Spans start last found.2
  have hStart : spans (first.name, first.span) (start + 1) :=
    ⟨start, Nat.lt_succ_self start, hFirst⟩
  refine takes_loop spans spans hStart fun found here hHere hFound => ?_
  obtain ⟨name, span⟩ := found
  obtain ⟨last, hLast, hSpan⟩ := hFound
  have hOrder := hSpan.order
  refine (takes_eat rfl).bind fun _ after hAfter _ => ?_
  refine .ite (fun _ => ?_) fun _ => .pure ⟨last, by omega, hSpan⟩
  refine takes_expectName.bind ?_
  rintro part _ _ ⟨rfl, hPart⟩
  exact .pure ⟨after, Nat.lt_succ_self after,
    hSpan.merge hPart (by omega) (by omega)⟩

theorem takes_importAlias
    (dotted : Bool) :
    Takes text start (importAlias dotted) fun name index =>
      text.Between start index (.imported name) := by
  have hRest {last here : Nat} {name : String} {span : Span}
      (hLast : last < here)
      (hSpan : text.Spans start last span) :
      Takes text here
        (do
          if ← eat (.keyword .asWord) then
            let asName ← expectName
            return ⟨name, some asName, span.merge asName.span⟩
          return ⟨name, none, span⟩ : Parser Alias)
        fun name index => text.Between start index (.imported name) := by
    have hOrder := hSpan.order
    refine (takes_eat rfl).bind fun _ after hAfter _ =>
      .ite (fun _ => ?_) fun _ => .pure ?_
    · refine takes_expectName.bind ?_
      rintro asName _ _ ⟨rfl, hName⟩
      refine .pure (OrderedTokens.between_of_slots
        (hSpan.merge hName (by omega) (by omega)) le_rfl (by omega) ?_)
      exact .cons trivial (.cons trivial .nil)
    · exact OrderedTokens.between_of_slots hSpan le_rfl (by omega)
        (.cons trivial (.cons trivial .nil))
  refine .ite (fun _ => ?_) fun _ => ?_
  · refine Takes.bind takes_dottedName ?_
    rintro found _ _ ⟨last, hLast, hSpan⟩
    exact hRest hLast hSpan
  · refine takes_expectName.bind ?_
    rintro id _ _ ⟨rfl, hId⟩
    exact hRest (Nat.lt_succ_self start) hId

theorem takes_importAliases
    (dotted : Bool) :
    Takes text start (importAliases dotted) fun names index =>
      text.Row start index (names.map .imported) := by
  refine (takes_importAlias dotted).bind fun first here hHere hFirst => ?_
  refine takes_moreItems
    (fun names index => text.Row start index (names.map .imported))
    (.single hFirst)
    (fun _ _ _ hLater hNames => hNames.mono le_rfl hLater)
    fun names middle hMiddle hNames => ?_
  refine (takes_importAlias dotted).mono fun name index hIndex hName => ?_
  rw [List.map_append]
  exact hNames.append (.single hName) (hHere.trans hMiddle) hIndex

------------------------------------------------------------
-- Simple Statements
------------------------------------------------------------

/- A statement from its first word to the token before the place. -/
theorem between_worded
    {index : Nat}
    {form : StmtForm Stmt}
    (hSolid : (text.token start).kind.isLayout = false)
    (hOrder : start < index)
    (hIndex : index - 1 < text.size)
    (hForm : text.HoldsAll (start + 1) index (Node.stmtSlots form)) :
    text.Between start index
      (.stmt (.mk ((text.token start).span.merge
        (text.token (index - 1)).span) form)) :=
  OrderedTokens.between_enclosed rfl hSolid hOrder hIndex
    (hForm.mono (Nat.le_succ start) le_rfl)

theorem takes_worded
    {rest : Parser (StmtForm Stmt)}
    (hRest : TakesForm text rest)
    (hSolid : (text.token start).kind.isLayout = false) :
    Takes text start (worded rest) fun stmt index =>
      text.Between start index (.stmt stmt) := by
  refine (takes_advance (TokenKind.ne_endOfFile_of_solid hSolid)).bind ?_
  rintro _ _ _ ⟨rfl, rfl⟩
  refine (hRest _).bind fun form index hIndex hForm => ?_
  refine (takes_previousSpan (by omega)).bind ?_
  rintro _ _ _ ⟨rfl, hInside, rfl⟩
  exact .pure (between_worded hSolid (by omega) hInside hForm)

theorem takes_importFrom
    (hSolid : (text.token start).kind.isLayout = false) :
    Takes text start importFrom fun stmt index =>
      text.Between start index (.stmt stmt) := by
  refine (takes_advance (TokenKind.ne_endOfFile_of_solid hSolid)).bind ?_
  rintro _ _ _ ⟨rfl, rfl⟩
  refine Takes.bind takes_dottedName fun found here hHere _ => ?_
  refine (takes_expect rfl).discard.bind ?_
  rintro _ _ _ ⟨_, rfl, _⟩
  refine (takes_check _).bind ?_
  rintro _ _ _ ⟨rfl, rfl⟩
  refine .ite (fun _ => takes_refuseThen _ _ _) fun _ => ?_
  have hEnd {names : List Alias} {after : Nat}
      (hAfter : start < after)
      (hNames : text.Row (start + 1) after (names.map .imported)) :
      Takes text after
        (do
          let last ← Parser.previousSpan
          return Stmt.mk ((text.token start).span.merge last)
            (.importFrom found.1 names))
        fun stmt index => text.Between start index (.stmt stmt) := by
    refine (takes_previousSpan (by omega)).bind ?_
    rintro _ _ _ ⟨rfl, hInside, rfl⟩
    exact .pure (between_worded hSolid hAfter hInside
      (.cons trivial (.cons hNames .nil)))
  refine (takes_check _).bind ?_
  rintro _ _ _ ⟨rfl, rfl⟩
  refine .ite (fun hOpen => ?_) fun _ => ?_
  · refine (takes_advance (TokenKind.ne_endOfFile_of_beq hOpen rfl)).bind ?_
    rintro _ _ _ ⟨rfl, rfl⟩
    refine (takes_importAliases false).bind
      fun names middle hMiddle hNames => ?_
    refine (takes_expectClosing _ _).discard.bind ?_
    rintro _ _ _ ⟨_, rfl, _⟩
    exact hEnd (by omega) (hNames.mono (by omega) (Nat.le_succ middle))
  · exact (takes_importAliases false).bind
      fun names middle hMiddle hNames =>
        hEnd (by omega) (hNames.mono (by omega) le_rfl)

/- An assignment's targets are in a row, and its value comes after them. -/
def TargetsTo
    (text : OrderedTokens)
    (low first : Nat)
    (found : List Expr × Expr)
    (index : Nat) : Prop :=
  ∃ middle,
    first < middle ∧ middle ≤ index ∧
      text.Row low middle (found.1.map .expr) ∧
      text.Between middle index (.expr found.2)

theorem takes_expressionOrAssignment :
    Takes text start expressionOrAssignment fun stmt index =>
      text.Between start index (.stmt stmt) := by
  have hList : TakesExpr text ExprGrammar.top.exprList :=
    takes_exprList placed_top
  refine (hList start).bind fun first here hHere hFirst => ?_
  obtain ⟨i, j, hLow, hHigh, hFills⟩ := hFirst.between
  have hFirstOrder := hFills.spans.order
  refine takes_peek.bind ?_
  rintro _ here _ ⟨rfl, rfl⟩
  split
  · rename_i op hOp
    have hMore : (text.token here).kind ≠ .endOfFile := by
      intro hEnd
      rw [hEnd] at hOp
      cases hOp
    refine (takes_advance hMore).discard.bind ?_
    rintro _ _ _ ⟨_, rfl, _⟩
    refine (takes_checkTarget false first).bind ?_
    rintro _ _ _ rfl
    refine (hList _).bind fun value index hIndex hValue => .pure ?_
    obtain ⟨k, l, hStart, hEnd, hLast⟩ := hValue.between
    have hLastOrder := hLast.spans.order
    exact OrderedTokens.between_merge rfl hFills hLast hLow (by omega)
      hEnd
      (.cons (hFills.between.mono le_rfl (by omega))
        (.cons trivial
          (.cons (hLast.between.mono (by omega) le_rfl) .nil)))
  · refine (takes_eat rfl).bind fun _ after hAfter _ =>
      .ite (fun _ => ?_) fun _ => .pure ?_
    · refine (hList after).bind fun second middle hMiddle hSecond => ?_
      have hStart : TargetsTo text i j ([first], second) middle :=
        ⟨after, by omega, hMiddle,
          .single (hFills.between.mono le_rfl (by omega)),
          hSecond.between⟩
      refine (takes_loop (TargetsTo text i j) (TargetsTo text i j) hStart
        fun found last hLast hFound => ?_).bind
        fun found index hIndex hFound => ?_
      · obtain ⟨targets, value⟩ := found
        obtain ⟨k, hAfterFirst, hBefore, hTargets, hValue⟩ := hFound
        refine (takes_eat rfl).bind fun _ assign hAssign _ =>
          .ite (fun _ => ?_) fun _ => .pure ?_
        · refine (hList assign).bind fun next rest hRest hNext => .pure ?_
          refine ⟨assign, by omega, hRest, ?_, hNext.between⟩
          rw [List.map_append]
          exact hTargets.append (.single (hValue.mono le_rfl hAssign))
            (by omega) (by omega)
        · exact ⟨k, hAfterFirst, by omega, hTargets,
            hValue.mono le_rfl hAssign⟩
      · obtain ⟨targets, value⟩ := found
        obtain ⟨k, hAfterFirst, hBefore, hTargets, hValue⟩ := hFound
        obtain ⟨m, l, hStart, hEnd, hValueFills⟩ := hValue
        have hValueOrder := hValueFills.spans.order
        refine (takes_forM (takes_checkTarget true) targets).bind ?_
        rintro _ _ _ rfl
        exact .pure (OrderedTokens.between_merge rfl hFills hValueFills
          hLow (by omega) hEnd
          (.cons (hTargets.mono le_rfl (by omega))
            (.cons (hValueFills.between.mono (by omega) le_rfl) .nil)))
    · exact OrderedTokens.between_of_slots hFills.spans hLow (by omega)
        (.cons hFills.between .nil)

theorem takes_assertion :
    TakesForm text assertion := by
  intro start
  have hTop : ExprGrammar.top.Placed text := ExprGrammar.placed_top
  have hExpression := hTop.expression
  refine (hExpression start).bind fun test middle hMiddle hTest => ?_
  refine (takes_eat rfl).bind fun _ comma hComma _ => ?_
  have hMessage :
      Takes text comma (some <$> ExprGrammar.top.expression)
        fun message index =>
          text.Holds comma index (Node.optionSlot message) := by
    refine .map ((hExpression comma).mono fun value index _ hValue =>
      holds_optionSlot ?_)
    rintro _ ⟨⟩
    exact hValue.between
  refine .iteBind (fun _ => hMessage)
    (fun _ => .pure (holds_optionSlot nofun))
    fun message index hIndex hMessage => .pure ?_
  exact .cons (hTest.between.mono le_rfl (by omega))
    (.cons (hMessage.mono (by omega) le_rfl) .nil)

theorem takes_statement :
    Takes text start statement fun stmt index =>
      text.Between start index (.stmt stmt) := by
  have hNone {form : StmtForm Stmt}
      (hSlots : Node.stmtSlots form = []) :
      TakesForm text (Pure.pure form) := by
    intro start
    refine .pure ?_
    rw [hSlots]
    exact .nil
  refine takes_peek.bind ?_
  rintro _ here _ ⟨rfl, rfl⟩
  split
  case h_1 hWord =>
      exact takes_worded (hNone rfl) (congrArg TokenKind.isLayout hWord)
  case h_2 hWord =>
      exact takes_worded (hNone rfl) (congrArg TokenKind.isLayout hWord)
  case h_3 hWord =>
      exact takes_worded (hNone rfl) (congrArg TokenKind.isLayout hWord)
  case h_4 hWord =>
      exact takes_worded
        (fun _ => (takes_orNothing (takes_exprList placed_top)).bind
          fun _ _ _ hValue => .pure (.cons hValue .nil))
        (congrArg TokenKind.isLayout hWord)
  case h_5 hWord =>
      exact takes_worded
        (fun _ => (takes_orNothing placed_top.expression).bind
          fun _ _ _ hValue => .pure (.cons hValue .nil))
        (congrArg TokenKind.isLayout hWord)
  case h_6 hWord =>
      exact takes_worded takes_assertion
        (congrArg TokenKind.isLayout hWord)
  case h_7 hWord =>
      exact takes_worded
        (fun _ => (takes_importAliases true).bind
          fun _ _ _ hNames => .pure (.cons hNames .nil))
        (congrArg TokenKind.isLayout hWord)
  case h_8 hWord =>
      exact takes_importFrom (congrArg TokenKind.isLayout hWord)
  case h_9 => exact takes_refuse _ _
  case h_10 => exact takes_expressionOrAssignment

/- Statements that follow a row of others are a row with them. -/
theorem takes_rowStatement
    {low here : Nat}
    {stmts : List Stmt}
    (hLow : low ≤ here)
    (hStmts : text.Row low here (stmts.map .stmt)) :
    Takes text here statement fun stmt index =>
      text.Row low index ((stmts ++ [stmt]).map .stmt) := by
  refine Takes.mono takes_statement fun stmt index hIndex hStmt => ?_
  rw [List.map_append]
  exact hStmts.append (.single hStmt) hLow hIndex

theorem takes_line : TakesBlock text line := by
  intro start
  refine Takes.bind takes_statement fun first here hHere hFirst => ?_
  let stmtsTo := fun (stmts : List Stmt) (index : Nat) =>
    text.Row start index (stmts.map .stmt)
  have hStart : stmtsTo [first] here := .single hFirst
  refine (takes_loop stmtsTo stmtsTo hStart
    fun stmts middle hMiddle hStmts => ?_).bind
    fun stmts middle hMiddle hStmts => ?_
  · refine (takes_eat rfl).bind fun _ after hAfter _ => ?_
    have hMore : stmtsTo stmts after :=
      OrderedTokens.Row.mono hStmts le_rfl hAfter
    refine .ite (fun _ => .pure hMore) fun _ => ?_
    refine takes_peek.bind ?_
    rintro _ after _ ⟨rfl, rfl⟩
    split
    · exact .pure hMore
    · exact .pure hMore
    · exact (takes_rowStatement (by omega) hMore).bind
        fun _ _ _ hRow => .pure hRow
  · exact takes_expectNewline.bind fun _ _ hLater _ =>
      .pure (OrderedTokens.Row.mono hStmts le_rfl hLater)

end SimpleStmt

------------------------------------------------------------
-- Compound Statements
------------------------------------------------------------

namespace StmtGrammar

/- Rules for inner statements, of which all are in place. -/
structure Placed (text : OrderedTokens) (grammar : StmtGrammar) : Prop where
  statements : TakesBlock text grammar.statements
  branch :
    ∀ start, (text.token start).kind.isLayout = false →
      Takes text start grammar.branch fun stmt index =>
        text.Between start index (.stmt stmt)

section Rules

variable {grammar : StmtGrammar}

theorem takes_statementsUntil
    (hGrammar : grammar.Placed text)
    (isEnd : TokenKind → Bool)
    {isSkipped : TokenKind → Bool}
    (hSkipped : isSkipped .endOfFile = false) :
    TakesBlock text (grammar.statementsUntil isEnd isSkipped) := by
  intro start
  let stmtsTo := fun (stmts : List Stmt) (index : Nat) =>
    text.Row start index (stmts.map .stmt)
  have hStart : stmtsTo [] start := .nil
  refine takes_loop stmtsTo stmtsTo hStart fun body here hHere hBody => ?_
  refine takes_peek.bind ?_
  rintro _ here _ ⟨rfl, rfl⟩
  refine takes_tooManyErrors.bind ?_
  rintro _ here _ rfl
  refine .ite (fun _ => .pure hBody) fun _ => ?_
  refine .ite (fun hSkip => ?_) fun _ => ?_
  · have hMore : (text.token here).kind ≠ .endOfFile := by
      intro hEnd
      rw [hEnd, hSkipped] at hSkip
      cases hSkip
    exact (takes_advance hMore).discard.bind fun _ _ hLater _ =>
      .pure (OrderedTokens.Row.mono hBody le_rfl hLater)
  refine (takes_attempt (hGrammar.statements here)).bind
    fun found index hIndex hFound => ?_
  split
  · refine .pure ?_
    have hMore :
        text.Row start index (body.map .stmt ++ _) :=
      OrderedTokens.Row.append hBody (hFound _ rfl) hHere hIndex
    rw [← List.map_append] at hMore
    exact hMore
  · exact takes_synchronize.bind fun _ _ hLater _ =>
      .pure (OrderedTokens.Row.mono hBody le_rfl (hIndex.trans hLater))

theorem takes_block
    (hGrammar : grammar.Placed text) :
    TakesBlock text grammar.block := by
  intro start
  refine (takes_eat rfl).bind fun _ line hLine _ =>
    .ite (fun _ => ?_) fun _ => ?_
  · exact (SimpleStmt.takes_line line).mono fun _ _ _ hStmts =>
      hStmts.mono hLine le_rfl
  refine (takes_eat rfl).bind fun _ block hBlock _ =>
    .ite (fun _ => takes_refuse _ _) fun _ => ?_
  refine takes_get fun cursor => .ite (fun _ => ?_) fun _ => ?_
  · have hSpan :
        Takes text block Parser.previousSpan fun _ _ => True :=
      takes_look fun _ _ => trivial
    exact hSpan.bind fun _ _ _ _ => takes_refuseAt _ _ _
  refine takes_inBlock ?_
  refine (takes_statementsUntil hGrammar _ rfl block).bind
    fun body index _ hBody => ?_
  exact (takes_eat rfl).discard.bind fun _ _ hLater _ =>
    .pure (hBody.mono (by omega) hLater)

theorem takes_body
    (hGrammar : grammar.Placed text) :
    TakesBlock text grammar.body := fun _ =>
  (takes_expect rfl).discard.bind fun _ colon hColon _ =>
    (takes_block hGrammar colon).mono fun _ _ _ hStmts =>
      hStmts.mono hColon le_rfl

theorem takes_elseBody
    (hGrammar : grammar.Placed text) :
    TakesBlock text grammar.elseBody := fun _ =>
  (takes_eat rfl).bind fun _ word hWord _ =>
    .ite
      (fun _ => (takes_body hGrammar word).mono fun _ _ _ hStmts =>
        hStmts.mono hWord le_rfl)
      fun _ => .pure .nil

theorem takes_functionDef
    (hGrammar : grammar.Placed text) :
    TakesForm text grammar.functionDef := by
  intro start
  have hTop : ExprGrammar.top.Placed text := ExprGrammar.placed_top
  refine takes_expectName.bind ?_
  rintro name _ _ ⟨rfl, _⟩
  refine (takes_expect rfl).bind ?_
  rintro _ _ _ ⟨rfl, _⟩
  refine (ExprGrammar.takes_params hTop _ _).bind
    fun params middle hMiddle hParams => ?_
  refine (takes_expectClosing _ _).discard.bind ?_
  rintro _ _ _ ⟨_, rfl, _⟩
  have hEnd {after : Nat}
      (hAfter : middle ≤ after) :
      Takes text after
        (do return StmtForm.functionDef name params (← grammar.body))
        fun form index =>
          text.HoldsAll start index (Node.stmtSlots form) :=
    (takes_body hGrammar after).bind fun body index hIndex hBody =>
      .pure (.cons trivial
        (.cons (hParams.mono (by omega) (by omega))
          (.cons (hBody.mono (by omega) le_rfl) .nil)))
  refine (takes_eat rfl).bind fun _ arrow hArrow _ =>
    .ite (fun _ => ?_) fun _ => hEnd (by omega)
  exact (hTop.expression arrow).discard.bind fun _ after hAfter _ =>
    hEnd (by omega)

theorem takes_classBase :
    TakesExpr text classBase := by
  intro start
  refine takes_peek.bind ?_
  rintro _ _ _ ⟨rfl, rfl⟩
  refine (takes_peekAhead 1).bind ?_
  rintro _ here _ ⟨rfl, rfl⟩
  split
  · exact takes_refuse _ _
  · exact ExprGrammar.placed_top.expression here

theorem takes_classDef
    (hGrammar : grammar.Placed text) :
    TakesForm text grammar.classDef := by
  intro start
  refine takes_expectName.bind ?_
  rintro name _ _ ⟨rfl, _⟩
  have hEnd {bases : List Expr} {after : Nat}
      (hAfter : start < after)
      (hBases : text.Row start after (bases.map .expr)) :
      Takes text after
        (do return StmtForm.classDef name bases (← grammar.body))
        fun form index =>
          text.HoldsAll start index (Node.stmtSlots form) :=
    (takes_body hGrammar after).bind fun body index hIndex hBody =>
      .pure (.cons trivial
        (.cons (hBases.mono le_rfl hIndex)
          (.cons (hBody.mono (by omega) le_rfl) .nil)))
  refine (takes_check _).bind ?_
  rintro _ _ _ ⟨rfl, rfl⟩
  refine .ite (fun hOpen => ?_) fun _ =>
    hEnd (Nat.lt_succ_self start) .nil
  refine (takes_advance (TokenKind.ne_endOfFile_of_beq hOpen rfl)).bind ?_
  rintro _ _ _ ⟨rfl, rfl⟩
  refine (takes_itemsUntil
    (fun bases index => text.Row start index (bases.map .expr))
    .nil (fun _ _ _ hLater hBases => hBases.mono le_rfl hLater)
    fun _ _ hHere hBases =>
      ExprGrammar.takes_rowItem takes_classBase (by omega) hBases).bind
    fun bases index hIndex hBases => ?_
  refine (takes_expectClosing _ _).discard.bind ?_
  rintro _ _ _ ⟨_, rfl, _⟩
  exact hEnd (by omega) (hBases.mono le_rfl (Nat.le_succ index))

/- A test, a body and an alternative. -/
theorem holds_branch
    {tested here index : Nat}
    {test : Expr}
    {body orelse : List Stmt}
    (hTest : text.Stands start tested test)
    (hBody : text.Row tested here (body.map .stmt))
    (hOrelse : text.Row here index (orelse.map .stmt))
    (hTested : start ≤ tested)
    (hHere : tested ≤ here)
    (hIndex : here ≤ index) :
    text.HoldsAll start index
      (Node.stmtSlots (.branch test body orelse)) :=
  .cons (hTest.between.mono le_rfl (by omega))
    (.cons (hBody.mono (by omega) hIndex)
      (.cons (hOrelse.mono (by omega) le_rfl) .nil))

theorem takes_ifElse
    (hGrammar : grammar.Placed text) :
    TakesForm text grammar.ifElse := by
  intro start
  refine (ExprGrammar.placed_top.expression start).bind
    fun test tested hTested hTest => ?_
  refine (takes_body hGrammar tested).bind fun body here hHere hBody => ?_
  refine (takes_check _).bind ?_
  rintro _ here _ ⟨rfl, rfl⟩
  refine .ite (fun hWord => ?_) fun _ => ?_
  · exact (hGrammar.branch here (TokenKind.isLayout_of_beq hWord)).bind
      fun other index hIndex hOther =>
        .pure (holds_branch hTest hBody (.single hOther) hTested hHere
          hIndex)
  · exact (takes_elseBody hGrammar here).bind
      fun orelse index hIndex hOrelse =>
        .pure (holds_branch hTest hBody hOrelse hTested hHere hIndex)

theorem takes_whileLoop
    (hGrammar : grammar.Placed text) :
    TakesForm text grammar.whileLoop := by
  intro start
  refine (ExprGrammar.placed_top.expression start).bind
    fun test tested hTested hTest => ?_
  refine (takes_body hGrammar tested).bind fun body here hHere hBody => ?_
  exact (takes_elseBody hGrammar here).bind
    fun orelse index hIndex hOrelse =>
      .pure (holds_branch hTest hBody hOrelse hTested hHere hIndex)

theorem takes_forLoop
    (hGrammar : grammar.Placed text) :
    TakesForm text grammar.forLoop := by
  intro start
  have hTop : ExprGrammar.top.Placed text := ExprGrammar.placed_top
  refine (ExprGrammar.takes_targetList hTop start).bind
    fun target word hWord hTarget => ?_
  refine (takes_checkTarget true target).bind ?_
  rintro _ _ _ rfl
  refine (takes_expect rfl).discard.bind ?_
  rintro _ _ _ ⟨_, rfl, _⟩
  refine (ExprGrammar.takes_exprList hTop _).bind
    fun items colon hColon hItems => ?_
  refine (takes_body hGrammar colon).bind fun body here hHere hBody => ?_
  refine (takes_elseBody hGrammar here).bind
    fun orelse index hIndex hOrelse => .pure ?_
  exact .cons (hTarget.between.mono le_rfl (by omega))
    (.cons (hItems.between.mono (by omega) (by omega))
      (.cons (hBody.mono (by omega) hIndex)
        (.cons (hOrelse.mono (by omega) le_rfl) .nil)))

theorem takes_lineOrCompound
    (hGrammar : grammar.Placed text) :
    TakesBlock text grammar.lineOrCompound := by
  intro start
  have hSingle {here : Nat} {rest : Parser (StmtForm Stmt)}
      (hRest : TakesForm text rest)
      {kind : TokenKind}
      (hKind : (text.token here).kind = kind)
      (hSolid : kind.isLayout = false) :
      Takes text here (lineOrCompound.single rest) fun stmts index =>
        text.Row here index (stmts.map .stmt) := by
    rw [← hKind] at hSolid
    exact (SimpleStmt.takes_worded hRest hSolid).bind fun _ _ _ hStmt =>
      .pure (.single hStmt)
  refine takes_peek.bind ?_
  rintro _ here _ ⟨rfl, rfl⟩
  split
  case h_1 hWord => exact hSingle (takes_functionDef hGrammar) hWord rfl
  case h_2 hWord => exact hSingle (takes_classDef hGrammar) hWord rfl
  case h_3 hWord => exact hSingle (takes_ifElse hGrammar) hWord rfl
  case h_4 hWord => exact hSingle (takes_whileLoop hGrammar) hWord rfl
  case h_5 hWord => exact hSingle (takes_forLoop hGrammar) hWord rfl
  case h_6 => exact takes_refuse _ _
  case h_7 => exact SimpleStmt.takes_line here

/- The rules of a level are in place if those of the one below are. -/
theorem placed_step
    (hGrammar : grammar.Placed text) :
    grammar.step.Placed text where
  statements := takes_lineOrCompound hGrammar
  branch := fun _ hSolid =>
    SimpleStmt.takes_worded (takes_ifElse hGrammar) hSolid

end Rules

theorem placed_levels
    (count : Nat) :
    (levels count).Placed text := by
  induction count with
  | zero => exact ⟨fun _ => .throw _, fun _ _ => .throw _⟩
  | succ count ih => exact placed_step ⟨ih.statements, ih.branch⟩

/- Every statement that is read is in place. -/
theorem placed_top : top.Placed text where
  statements := fun start => takes_remaining fun count =>
    (placed_levels (count + 1)).statements start
  branch := fun start hSolid => takes_remaining fun count =>
    (placed_levels (count + 1)).branch start hSolid

end StmtGrammar

end SnippetGrader
