import SnippetGrader.Proofs.Parsing.LambdaForms
import SnippetGrader.Proofs.Parsing.Programs

/-
  Expressions are read back from their text.

  What is legible is read back wherever it may stand, as its
  operands are. So the text of an expression is read as a
  program whose only statement is the expression.

  Key definitions include:
    * `Expr.ReadsBack`

  Key theorems include:
    * `Expr.Legible.readsBack`
    * `parseSource_source`
-/

namespace SnippetGrader

open SnippetGrader.Parser SnippetGrader.ExprGrammar

------------------------------------------------------------
-- Expressions
------------------------------------------------------------

namespace Expr

/- An expression that is read back in every place it may stand in. -/
structure ReadsBack (expr : Expr) : Prop where
  whole : expr.IsPlain → expr.Whole
  item : expr.IsItem → expr.Item ∧ expr.Unassigned
  part : expr.IsIndexItem → expr.IndexPart
  index : expr.IsIndex → expr.Index

/- What an expression starts with leads it. -/
theorem Legible.leads
    {expr : Expr}
    (hLegible : expr.Legible)
    (hPlain : expr.IsPlain)
    {strength : Nat}
    (hStrength : strength ≤ Strength.atom) :
    Leads strength (expr.tokensAt strength) :=
  (hLegible.opensWith hPlain hStrength).leads

/- Only a keyword argument starts with a name and an equals sign. -/
theorem Legible.unassigned
    {expr : Expr}
    (hLegible : expr.Legible)
    (hPlain : expr.IsPlain) :
    expr.Unassigned := by
  obtain ⟨kind, rest, lead, hLexemes, -, -, hNext⟩ :=
    @Legible.opensWith expr hLegible hPlain 0 (Nat.zero_le _)
  intro id later hTokens
  rw [tokensAt, hLexemes, kindsOf_token, List.cons.injEq] at hTokens
  rw [← hTokens.2]
  exact hNext id hTokens.1

section Forms

variable {span : Span}
variable {form : ExprForm Expr}

/- A form without operands on its left is read back by its own rule. -/
theorem Legible.whole_of_recovered
    (hLegible : (Expr.mk span form).Legible)
    (hPlain : (Expr.mk span form).IsPlain)
    (strength : Nat)
    (hStrength : form.strength = strength)
    (hOwn : strength ≤ Strength.atom ∧ ¬ IsClimbing strength)
    (hForm : form.Recovered) :
    (Expr.mk span form).Whole := by
  subst hStrength
  exact Expr.whole_of_recovered (hLegible.leads hPlain) hOwn.1 hOwn.2 hForm

/- A form with an operand on its left is read where the operand goes on. -/
theorem Legible.whole_of_climbed
    (hLegible : (Expr.mk span form).Legible)
    (hPlain : (Expr.mk span form).IsPlain)
    (strength : Nat)
    (hStrength : form.strength = strength)
    (hOwn : IsClimbing strength)
    (hForm : (Expr.synthetic form).ClimbedAt strength) :
    (Expr.mk span form).Whole := by
  subst hStrength
  exact Expr.whole_of_climbed (hLegible.leads hPlain) hOwn hForm

/- A legible expression is read back where its operands are. -/
theorem Legible.whole_of_operands
    (hLegible : (Expr.mk span form).Legible)
    (hPlain : (Expr.mk span form).IsPlain)
    (hOperands : ∀ operand ∈ form.operands, operand.ReadsBack) :
    (Expr.mk span form).Whole := by
  have hWritten : form.IsWritten := by
    cases hLegible
    assumption
  have hRecovered := hLegible.whole_of_recovered hPlain
  have hClimbed := hLegible.whole_of_climbed hPlain
  cases form with
  | int value =>
      exact hRecovered Strength.atom rfl (by decide) (ExprForm.recovered_int value)
  | float value =>
      exact hRecovered Strength.atom rfl (by decide) (ExprForm.recovered_float value)
  | str value =>
      exact hRecovered Strength.atom rfl (by decide) (ExprForm.recovered_str value)
  | bool value =>
      exact hRecovered Strength.atom rfl (by decide) (ExprForm.recovered_bool value)
  | none => exact hRecovered Strength.atom rfl (by decide) ExprForm.recovered_none
  | name id =>
      exact hRecovered Strength.atom rfl (by decide) (ExprForm.recovered_name id)
  | list items =>
      exact hRecovered Strength.atom rfl (by decide) (ExprForm.recovered_list
        fun item hMem => ((hOperands item hMem).item (hWritten item hMem)).1)
  | tuple items =>
      refine hRecovered Strength.atom rfl (by decide) (ExprForm.recovered_tuple
        fun item hMem => ((hOperands item hMem).item ?_).1)
      refine (hWritten item hMem).resolve_left fun hSlice => ?_
      exact List.any_eq_false.mp hPlain.complete item hMem hSlice
  | set items =>
      exact hRecovered Strength.atom rfl (by decide) (ExprForm.recovered_set hWritten.1
        fun item hMem =>
          ((hOperands item hMem).item (hWritten.2 item hMem)).1)
  | dict entries =>
      refine hRecovered Strength.atom rfl (by decide) (ExprForm.recovered_dict
        fun entry hMem => ⟨(hWritten entry hMem).1, ?_, ?_⟩)
      · exact (hOperands entry.1
          (List.mem_flatMap.mpr ⟨entry, hMem, by simp⟩)).whole
            (hWritten entry hMem).1
      · exact (hOperands entry.2
          (List.mem_flatMap.mpr ⟨entry, hMem, by simp⟩)).whole
            (hWritten entry hMem).2
  | «attribute» object attr =>
      exact hClimbed Strength.primary rfl (by decide) (ExprForm.climbedAt_attribute
        ((hOperands object List.mem_cons_self).whole hWritten.1))
  | subscript object index =>
      exact hClimbed Strength.primary rfl (by decide) (ExprForm.climbedAt_subscript
        ((hOperands object List.mem_cons_self).whole hWritten.1)
        ((hOperands index (by simp [ExprForm.operands])).index hWritten.2))
  | slice lower upper step => cases hPlain.complete
  | call callee args keywords =>
      obtain ⟨hCallee, hArgs, hKeywords, hNames⟩ := hWritten
      refine hClimbed Strength.primary rfl (by decide) (ExprForm.climbedAt_call
        ((hOperands callee List.mem_cons_self).whole hCallee)
        (fun arg hMem =>
          (hOperands arg (by simp [ExprForm.operands, hMem])).item
            (hArgs arg hMem))
        (fun keyword hMem =>
          (hOperands keyword.value (mem_operands_keyword hMem)).whole
            (hKeywords keyword hMem))
        hNames.distinct)
  | starred value => cases hPlain.unstarred
  | binary left op right =>
      have hLeft :=
        (hOperands left List.mem_cons_self).whole hWritten.1
      have hRight :=
        (hOperands right (by simp [ExprForm.operands])).whole hWritten.2
      by_cases hOp : op = .pow
      · subst hOp
        exact hRecovered Strength.power rfl (by decide)
          (ExprForm.recovered_power hLeft hRight)
      · refine hClimbed op.strength rfl ?_ (ExprForm.climbedAt_binary hOp hLeft hRight)
        revert hOp
        cases op <;> decide
  | unary op operand =>
      have hOperand :=
        (hOperands operand List.mem_cons_self).whole hWritten
      by_cases hOp : op = .not
      · subst hOp
        exact hRecovered Strength.not rfl (by decide)
          (ExprForm.recovered_not hOperand)
      · refine hRecovered Strength.unary ?_ (by decide)
          (ExprForm.recovered_unary hOp hOperand)
        cases op <;> first
          | rfl
          | exact absurd rfl hOp
  | boolean op values =>
      refine hRecovered op.strength rfl ?_ (ExprForm.recovered_boolean
        hWritten.1 fun value hMem =>
          (hOperands value hMem).whole (hWritten.2 value hMem))
      cases op <;> decide
  | compare left rest =>
      exact hRecovered Strength.comparison rfl (by decide) (ExprForm.recovered_compare
        hWritten.1
        ((hOperands left List.mem_cons_self).whole hWritten.2.1)
        fun step hMem =>
          (hOperands step.2
            (List.mem_cons_of_mem _ (List.mem_map_of_mem hMem))).whole
              (hWritten.2.2 step hMem))
  | conditional test body orelse =>
      exact hRecovered Strength.conditional rfl (by decide) (ExprForm.recovered_conditional
        ((hOperands test (by simp [ExprForm.operands])).whole hWritten.1)
        ((hOperands body (by simp [ExprForm.operands])).whole hWritten.2.1)
        ((hOperands orelse (by simp [ExprForm.operands])).whole
          hWritten.2.2))
  | lambda params body =>
      obtain ⟨hParams, hDeclared, hBody⟩ := hWritten
      exact hRecovered Strength.lambda rfl (by decide) (ExprForm.recovered_lambda hParams
        (fun param hMem value hValue =>
          (hOperands value (mem_operands_default hMem hValue)).whole
            ((hDeclared param hMem).2 value hValue))
        ((hOperands body (by simp [ExprForm.operands])).whole hBody))

end Forms

/- Everything legible is read back. -/
theorem Legible.readsBack
    {expr : Expr}
    (hLegible : expr.Legible) :
    expr.ReadsBack := by
  induction hLegible with
  | @intro span form hWritten hBelow hOperands =>
      have hLegible : (Expr.mk span form).Legible := ⟨hWritten, hBelow⟩
      have hWhole (hPlain : (Expr.mk span form).IsPlain) :=
        hLegible.whole_of_operands hPlain hOperands
      have hPart (hItem : (Expr.mk span form).IsIndexItem) :
          (Expr.mk span form).IndexPart := by
        rcases hItem with hSlice | hPlain
        · cases form with
          | slice lower upper step =>
              exact indexPart_slice fun bound hMem =>
                (hOperands bound hMem).whole (hWritten bound hMem)
          | _ => cases hSlice
        · exact (hWhole hPlain).indexPart hPlain
      refine ⟨hWhole, ?_, hPart, ?_⟩
      · intro hItem
        cases form with
        | starred value =>
            refine ⟨item_starred
              ((hOperands value List.mem_cons_self).whole hWritten), ?_⟩
            rintro id later ⟨⟩
        | _ =>
            have hPlain : (Expr.mk span _).IsPlain := ⟨rfl, hItem⟩
            exact ⟨(hWhole hPlain).item hPlain, hLegible.unassigned hPlain⟩
      · intro hIndex
        cases form with
        | tuple items =>
            rcases items with _ | ⟨first, _ | ⟨second, later⟩⟩
            · exact (hPart (Or.inr ⟨rfl, rfl⟩)).index rfl fun _ hForm =>
                (ExprForm.tuple.inj hForm).symm
            · exact absurd rfl hIndex.1
            · exact index_tuple (by simp) fun item hMem =>
                (hOperands item hMem).part (hIndex.2 item hMem)
        | starred value =>
            rcases hIndex with hSlice | hPlain
            · cases hSlice
            · cases hPlain.unstarred
        | _ => exact (hPart hIndex).index rfl nofun

end Expr

------------------------------------------------------------
-- Statements
------------------------------------------------------------

section Statements

variable {depth : Nat}
variable {tokens rest : List TokenKind}
variable {expr : Expr}

/- The tokens of an expression that is a line of its own. -/
structure Expr.Line (expr : Expr) (tokens : List TokenKind) : Prop where
  leads : Leads 0 tokens
  recovered :
    ∀ rest,
      Stops 0 rest →
        Recovers top.expression expr.nesting tokens rest expr

/- What is legible is read as a line if it is not nested too deeply. -/
theorem Expr.Legible.line
    (hLegible : expr.Legible)
    (hPlain : expr.IsPlain) :
    expr.Line (expr.tokensAt 0) := by
  refine ⟨hLegible.leads hPlain (Nat.zero_le _), ?_⟩
  intro rest hStops cursor hBefore hDepth
  have hLength : (expr.tokensAt 0).length < cursor.remaining + 1 := by
    rw [← Cursor.length_upcoming, hBefore, List.length_append]
    omega
  exact (hLegible.readsBack.whole hPlain).asExpression (Nat.zero_le _)
    le_rfl hLength hStops cursor hBefore hDepth

namespace Expr.Line

theorem reads_exprList
    (hLine : expr.Line tokens) :
    Reads top.exprList expr.nesting (tokens ++ .newline :: rest)
      (.newline :: rest) fun found => found.erased = expr.erased := by
  have hItem :=
    @Expr.reads_unstarred top _ _ _ _ _ hLine.leads
      (hLine.recovered (.newline :: rest) ⟨_, _, rfl, Nat.zero_le _⟩)
  exact hItem.bind fun found hFound =>
    .check (.ofFalse Bool.false_ne_true (.pure hFound))

theorem reads_statement
    (hLine : expr.Line tokens) :
    Reads SimpleStmt.statement expr.nesting (tokens ++ .newline :: rest)
      (.newline :: rest)
      fun stmt => stmt.erased = (Stmt.mk .synthetic (.expr expr)).erased := by
  have hRead :
      Reads SimpleStmt.expressionOrAssignment expr.nesting
        (tokens ++ .newline :: rest) (.newline :: rest)
        fun stmt =>
          stmt.erased = (Stmt.mk .synthetic (.expr expr)).erased := by
    refine hLine.reads_exprList.bind fun found hFound => .peek ?_
    refine .leave rfl (.ofFalse Bool.false_ne_true (.pure ?_))
    rw [Stmt.erased, StmtForm.erased, hFound]
    rfl
  obtain ⟨kind, later, lead, rfl, hLead, -⟩ := hLine.leads
  refine .peek ?_
  cases kind with
  | keyword word => cases word <;> first | exact hRead | cases hLead
  | reserved word => cases hLead
  | _ => exact hRead

theorem reads_line
    (hLine : expr.Line tokens) :
    Reads SimpleStmt.line expr.nesting (tokens ++ .newline :: rest) rest
      fun stmts =>
        stmts.map Stmt.erased =
          [(Stmt.mk .synthetic (.expr expr)).erased] := by
  refine hLine.reads_statement.bind fun stmt hStmt => ?_
  have hEnd :
      Reads expectNewline expr.nesting (.newline :: rest) rest
        fun _ => True :=
    .eat rfl (.ofTrue rfl (.pure trivial))
  refine .bind (.done (.leave rfl (.ofTrue rfl (.pure rfl))))
    fun stmts hStmts => hEnd.bind fun _ _ => .pure ?_
  rw [← hStmts, List.map_singleton, hStmt]

/- A line is a statement of its own. -/
theorem reads_statements
    (hLine : expr.Line tokens) :
    Reads StmtGrammar.top.statements expr.nesting
      (tokens ++ .newline :: rest) rest
      fun stmts =>
        stmts.map Stmt.erased =
          [(Stmt.mk .synthetic (.expr expr)).erased] := by
  intro cursor
  have hRead := @reads_line tokens rest expr hLine
  obtain ⟨kind, later, lead, rfl, hLead, -⟩ := hLine.leads
  refine (Reads.peek ?_ : Reads
    ((StmtGrammar.levels (cursor.remaining + 1)).statements) _ _ _ _) cursor
  cases kind with
  | keyword word => cases word <;> first | exact hRead | cases hLead
  | indent => cases hLead
  | _ => exact hRead

end Expr.Line

end Statements

------------------------------------------------------------
-- Programs
------------------------------------------------------------

/- One more statement, unless there is none or too many faults. -/
def statementRound
    (isEnd isSkipped : TokenKind → Bool)
    (body : List Stmt) :
    Parser (Step (List Stmt) (List Stmt)) := do
  let kind ← peek
  let full ← tooManyErrors
  if isEnd kind || full then return .done body
  else if isSkipped kind then
    discard advance
    return .again body
  else
    let found ← attempt StmtGrammar.top.statements
    match found with
    | some stmts => return .again (body ++ stmts)
    | none =>
        synchronize
        return .again body

theorem statementsUntil_eq
    (isEnd isSkipped : TokenKind → Bool) :
    StmtGrammar.top.statementsUntil isEnd isSkipped =
      loop [] (statementRound isEnd isSkipped) := by
  unfold StmtGrammar.statementsUntil statementRound
  rfl

section Rounds

variable {isEnd isSkipped : TokenKind → Bool}
variable {body : List Stmt}
variable {cursor : Cursor}

/- The first steps of a round look at the next token and the faults. -/
theorem statementRound_eq
    (hFaultless : cursor.errors = {}) :
    statementRound isEnd isSkipped body cursor =
      (if isEnd cursor.current.kind || false then return .done body
      else if isSkipped cursor.current.kind then do
        discard advance
        return .again body
      else do
        let found ← attempt StmtGrammar.top.statements
        match found with
        | some stmts => return .again (body ++ stmts)
        | none =>
            synchronize
            return .again body :
        Parser (Step (List Stmt) (List Stmt))) cursor := by
  have hRoom : cursor.errors.isFull = false := by
    rw [hFaultless]
    rfl
  rw [← hRoom]
  rfl

theorem statementRound_end
    {kind : TokenKind}
    {rest : List TokenKind}
    (hFaultless : cursor.errors = {})
    (hUpcoming : cursor.upcoming = kind :: rest)
    (hEnd : isEnd kind = true) :
    statementRound isEnd isSkipped body cursor =
      .ok (.done body) cursor := by
  rw [statementRound_eq hFaultless, Cursor.current_kind hUpcoming, hEnd]
  rfl

theorem statementRound_statements
    {kind : TokenKind}
    {rest : List TokenKind}
    {stmts : List Stmt}
    {last : Cursor}
    (hFaultless : cursor.errors = {})
    (hUpcoming : cursor.upcoming = kind :: rest)
    (hMore : isEnd kind = false)
    (hStarts : isSkipped kind = false)
    (hRun : StmtGrammar.top.statements cursor = .ok stmts last) :
    statementRound isEnd isSkipped body cursor =
      .ok (.again (body ++ stmts)) last := by
  rw [statementRound_eq hFaultless, Cursor.current_kind hUpcoming,
    hMore, hStarts]
  change (attempt StmtGrammar.top.statements >>= _) cursor = _
  rw [run_bind, attempt, hRun]
  rfl

end Rounds

/- A text that is one line is a program with one statement. -/
theorem Expr.Line.program_eq
    {expr : Expr}
    {tokens : List TokenKind}
    {cursor : Cursor}
    (hLine : expr.Line tokens)
    (hFaultless : cursor.errors = {})
    (hUpcoming : cursor.upcoming = tokens ++ [.newline, .endOfFile])
    (hDepth : cursor.exprDepth + expr.nesting ≤ maxExprDepth) :
    ∃ result last,
      program cursor = .ok result last ∧
        last.errors = {} ∧
          result.body.map Stmt.erased =
            [(Stmt.mk .synthetic (.expr expr)).erased] := by
  obtain ⟨stmts, index, hRun, hAfter, hStmts⟩ :=
    hLine.reads_statements cursor hUpcoming hDepth
  obtain ⟨kind, later, lead, rfl, hLead, -⟩ := hLine.leads
  obtain ⟨more, hMore⟩ : ∃ more, cursor.remaining = more + 1 := by
    refine Nat.exists_eq_succ_of_ne_zero ?_
    rw [← Cursor.length_upcoming, hUpcoming]
    simp
  have hFirst :
      statementRound (· == .endOfFile)
          (fun kind => kind == .newline || kind == .dedent) [] cursor =
        .ok (.again stmts) (cursor.moved index) := by
    refine statementRound_statements hFaultless hUpcoming ?_ ?_ hRun
    · cases kind <;> first | rfl | cases hLead
    · cases kind <;> first | rfl | cases hLead
  have hLast :
      statementRound (· == .endOfFile)
          (fun kind => kind == .newline || kind == .dedent) stmts
          (cursor.moved index) =
        .ok (.done stmts) (cursor.moved index) :=
    statementRound_end hFaultless hAfter rfl
  have hBody :
      StmtGrammar.top.statementsUntil (· == .endOfFile)
          (fun kind => kind == .newline || kind == .dedent) cursor =
        .ok stmts (cursor.moved index) := by
    rw [statementsUntil_eq]
    change loopFor _ (cursor.remaining + 1) [] cursor = _
    rw [hMore, run_loopFor, hFirst]
    change loopFor _ (more + 1) stmts _ = _
    rw [run_loopFor, hLast]
  obtain ⟨stmt, rfl⟩ := List.length_eq_one_iff.mp
    (by simpa using congrArg List.length hStmts)
  refine ⟨⟨[stmt], stmt.span.merge stmt.span⟩, cursor.moved index, ?_,
    hFaultless, hStmts⟩
  unfold program
  change (StmtGrammar.top.statementsUntil _ _ >>= _) cursor = _
  rw [run_bind, hBody]
  rfl

/- The tokens of a line are read without a fault. -/
theorem Expr.Line.parseTokens_eq
    {expr : Expr}
    {kinds : List TokenKind}
    {tokens : Array Token}
    (hLine : expr.Line kinds)
    (hTokens :
      tokens.toList.map (·.kind) = kinds ++ [.newline, .endOfFile])
    (hNesting : expr.nesting ≤ maxExprDepth)
    (file : SourceFile) :
    ∃ result,
      parseTokens file tokens = ⟨result, {}⟩ ∧
        result.body.map Stmt.erased =
          [(Stmt.mk .synthetic (.expr expr)).erased] := by
  have hDepth : 0 + expr.nesting ≤ maxExprDepth := by omega
  obtain ⟨result, last, hRun, hFaultless, hBody⟩ :=
    hLine.program_eq (rfl : (startOf file tokens).errors = {}) hTokens
      hDepth
  refine ⟨result, ?_, hBody⟩
  unfold parseTokens
  unfold startOf at hRun
  rw [hRun, ← hFaultless]

/- A legible expression is read back from what it is written as. -/
theorem Expr.Legible.parseSource_written
    {expr : Expr}
    {text : String}
    (hLegible : expr.Legible)
    (hPlain : expr.IsPlain)
    (hWritten : WrittenAs (expr.lexemesAt 0) text)
    (hNesting : expr.nesting ≤ maxExprDepth)
    (name : String) :
    ∃ result,
      parseSource name text = .ok result ∧
        result.body.map Stmt.erased =
          [(Stmt.mk .synthetic (.expr expr)).erased] := by
  obtain ⟨hTokens, hLexed⟩ := hLegible.lex_written name hPlain hWritten
  obtain ⟨result, hParsed, hBody⟩ :=
    (hLegible.line hPlain).parseTokens_eq hTokens hNesting ⟨name, text⟩
  refine ⟨result, (parseSource_eq_ok_iff ..).mpr ?_, hBody⟩
  rw [hParsed, hLexed]
  exact ⟨rfl, rfl⟩

/- So it is read back from its source. -/
theorem Expr.Legible.parseSource_body
    {expr : Expr}
    (hLegible : expr.Legible)
    (hPlain : expr.IsPlain)
    (hNesting : expr.nesting ≤ maxExprDepth)
    (name : String) :
    ∃ result,
      parseSource name expr.source = .ok result ∧
        result.body.map Stmt.erased =
          [(Stmt.mk .synthetic (.expr expr)).erased] :=
  hLegible.parseSource_written hPlain expr.writtenAs_source hNesting name

/- The program whose only statement is an expression. -/
def Expr.asProgram (expr : Expr) : Program :=
  ⟨[.mk .synthetic (.expr expr)], .synthetic⟩

/-
  The text of an expression that can be read back is read as a
  program whose only statement is that expression, wherever in
  the text it stands.
-/
theorem parseSource_source
    {expr : Expr}
    (hLegible : expr.Legible)
    (hPlain : expr.IsPlain)
    (hNesting : expr.nesting ≤ maxExprDepth)
    (name : String) :
    ∃ result,
      parseSource name expr.source = .ok result ∧
        result.erased = expr.asProgram.erased := by
  obtain ⟨result, hRead, hBody⟩ :=
    hLegible.parseSource_body hPlain hNesting name
  refine ⟨result, hRead, ?_⟩
  rw [Program.erased, hBody]
  rfl

/- The expression `(lambda x, *, y=-2: x[1:, y] ** x)(*a, k="q")`. -/
def Expr.curriedCall : Expr :=
  let x := Expr.synthetic (.name "x")
  let y := Expr.synthetic (.name "y")
  let slice :=
    Expr.synthetic (.slice (some (.synthetic (.int 1))) none none)
  let index := Expr.synthetic (.tuple [slice, y])
  let default := Expr.synthetic (.unary .neg (.synthetic (.int 2)))
  let params : List (Param Expr) :=
    [⟨⟨"x", .synthetic⟩, .positionalOrKeyword, none, .synthetic⟩,
      ⟨⟨"y", .synthetic⟩, .keywordOnly, some default, .synthetic⟩]
  let body :=
    Expr.synthetic (.binary (.synthetic (.subscript x index)) .pow x)
  .synthetic
    (.call (.synthetic (.lambda params body))
      [.synthetic (.starred (.synthetic (.name "a")))]
      [⟨some ⟨"k", .synthetic⟩, .synthetic (.str "q"), .synthetic⟩])

example :
    Expr.curriedCall.source =
      "(lambda x, *, y=-2: x[1:, y] ** x)(*a, k=\"q\")" := by
  decide

theorem Expr.legible_curriedCall : Expr.curriedCall.Legible := by
  have hNames : ∀ id ∈ ["a", "k", "x", "y"], IsName id := by decide
  simp only [List.forall_mem_cons] at hNames
  obtain ⟨hA, hK, hX, hY, -⟩ := hNames
  have hPlain (expr : Expr) :
      expr.IsPlain ↔
        expr.isStarred = false ∧ expr.isIndexOnly = false :=
    ⟨fun hPlain => ⟨hPlain.1, hPlain.2⟩,
      fun hPlain => ⟨hPlain.1, hPlain.2⟩⟩
  simp [curriedCall, synthetic, legible_mk_iff, ExprForm.operands,
    ExprForm.IsWritten, hA, hX, hY, hPlain, IsItem, IsIndex, IsIndexItem,
    isSlice, isIndexOnly, isStarred, Expr.form]
  refine ⟨⟨?_, by decide⟩, ⟨by decide, by decide, by decide, ?_⟩,
    by decide, by decide⟩
  · simp [hK]
  · simp

theorem parseSource_source_curriedCall :
    Expr.curriedCall.Legible ∧ Expr.curriedCall.IsPlain ∧
      Expr.curriedCall.nesting ≤ maxExprDepth ∧
        ∃ result,
          parseSource "calls.py" Expr.curriedCall.source = .ok result ∧
            result.erased = Expr.curriedCall.asProgram.erased := by
  have hPlain : Expr.curriedCall.IsPlain := ⟨rfl, rfl⟩
  have hNesting : Expr.curriedCall.nesting ≤ maxExprDepth := by
    decide
  exact ⟨Expr.legible_curriedCall, hPlain, hNesting,
    parseSource_source Expr.legible_curriedCall hPlain hNesting _⟩

end SnippetGrader
