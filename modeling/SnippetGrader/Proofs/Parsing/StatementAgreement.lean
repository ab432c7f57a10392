import SnippetGrader.Parsing.Program
import SnippetGrader.Proofs.Parsing.ExpressionAgreement
import SnippetGrader.Proofs.Parsing.Programs

/-
  Statements from tokens of the same kinds.

  A target has the same faults wherever it stands. So statements
  and programs are the same up to positions if the tokens they
  are read from are of the same kinds, with as many faults.

  Key definitions include:
    * `StmtGrammar.Agrees`

  Key theorems include:
    * `StmtGrammar.agrees_top`
    * `agrees_program`
    * `parseSource_alike`
-/

namespace SnippetGrader

open SnippetGrader.Parser

------------------------------------------------------------
-- Targets
------------------------------------------------------------

mutual

/- A target without positions has the same faults. -/
theorem targetFaults_erased
    (unpacking : Bool)
    (target : Expr) :
    (targetFaults unpacking target.erased).map (·.1) =
      (targetFaults unpacking target).map (·.1) := by
  match target with
  | .mk span (.tuple items) =>
      rw [Expr.erased, ExprForm.erased, Expr.synthetic, targetFaults,
        targetFaults]
      split
      · exact targetListFaults_erased items
      · rfl
  | .mk span (.list items) =>
      rw [Expr.erased, ExprForm.erased, Expr.synthetic, targetFaults,
        targetFaults]
      split
      · exact targetListFaults_erased items
      · rfl
  | .mk span (.starred inner) =>
      rw [Expr.erased, ExprForm.erased, Expr.synthetic, targetFaults,
        targetFaults]
      split
      · exact targetFaults_erased false inner
      · rfl
  | .mk _ (.int _) | .mk _ (.float _) | .mk _ (.str _) | .mk _ (.bool _)
  | .mk _ .none | .mk _ (.set _) | .mk _ (.dict _) | .mk _ (.name _)
  | .mk _ (.attribute _ _) | .mk _ (.subscript _ _)
  | .mk _ (.slice _ _ _) | .mk _ (.call _ _ _) | .mk _ (.binary _ _ _)
  | .mk _ (.unary _ _) | .mk _ (.boolean _ _) | .mk _ (.compare _ _)
  | .mk _ (.conditional _ _ _) | .mk _ (.lambda _ _) => rfl

theorem targetListFaults_erased
    (targets : List Expr) :
    (targetListFaults (Expr.erasedAll targets)).map (·.1) =
      (targetListFaults targets).map (·.1) := by
  match targets with
  | [] => rfl
  | target :: rest =>
      rw [Expr.erasedAll, targetListFaults, targetListFaults,
        List.map_append, List.map_append,
        targetFaults_erased true target, targetListFaults_erased rest]

end

/- Steps that agree on each of several values agree on all of them. -/
theorem agrees_forM
    {α β : Type}
    {erase : α → β}
    {action : α → Parser Unit}
    (hAction :
      ∀ value value', erase value = erase value' →
        Agrees id (action value) (action value'))
    {values values' : List α}
    (hValues : values.map erase = values'.map erase) :
    Agrees id (values.forM action) (values'.forM action) := by
  induction values generalizing values' with
  | nil =>
      rw [List.map_nil, eq_comm, List.map_eq_nil_iff] at hValues
      rw [hValues]
      exact .pure rfl
  | cons value rest ih =>
      cases values' with
      | nil => simp at hValues
      | cons value' rest' =>
          obtain ⟨hValue, hRest⟩ := List.cons.inj hValues
          exact (hAction value value' hValue).bindSame fun _ => ih hRest

theorem agrees_checkTarget
    (unpacking : Bool)
    (target target' : Expr)
    (hTarget : target.erased = target'.erased) :
    Agrees id (checkTarget unpacking target)
      (checkTarget unpacking target') := by
  have hFaults :
      (targetFaults unpacking target).map (·.1) =
        (targetFaults unpacking target').map (·.1) := by
    rw [← targetFaults_erased, hTarget, targetFaults_erased]
  exact agrees_forM (fun _ _ _ => agrees_reportAt _ _ _ _ _ _) hFaults

------------------------------------------------------------
-- Simple Statements
------------------------------------------------------------

namespace SimpleStmt

theorem agrees_orNothing
    {part : Parser Expr}
    (hPart : Agrees Expr.erased part part) :
    Agrees (Option.map Expr.erased) (orNothing part) (orNothing part) :=
  agrees_peek.bindSame fun _ =>
    .ite (.pure rfl) (hPart.bind fun _ _ hValue =>
      .pure (congrArg some hValue))

theorem agrees_dottedName :
    Agrees Prod.fst dottedName dottedName := by
  refine agrees_expectName.bind fun first first' hFirst => ?_
  have hStart :
      (first.name, first.span).1 = (first'.name, first'.span).1 :=
    Ident.erased_inj.mp hFirst
  refine .loopSame hStart fun state state' hState => ?_
  refine (agrees_eat _).bindSame fun _ =>
    .ite ?_ (.pure (congrArg Step.done hState))
  refine agrees_expectName.bind fun part part' hPart => .pure ?_
  simp [Step.erased, hState, Ident.erased_inj.mp hPart]

theorem agrees_importAlias
    (dotted : Bool) :
    Agrees Alias.erased (importAlias dotted) (importAlias dotted) := by
  have hRest (name : String) (span span' : Span) :
      Agrees Alias.erased
        (do
          if ← eat (.keyword .asWord) then
            let asName ← expectName
            return ⟨name, some asName, span.merge asName.span⟩
          return ⟨name, none, span⟩)
        (do
          if ← eat (.keyword .asWord) then
            let asName ← expectName
            return ⟨name, some asName, span'.merge asName.span⟩
          return ⟨name, none, span'⟩) := by
    refine (agrees_eat _).bindSame fun _ => .ite ?_ (.pure rfl)
    refine agrees_expectName.bind fun asName asName' hName => .pure ?_
    simp [Alias.erased, hName]
  refine .ite ?_ ?_
  · refine Agrees.bind agrees_dottedName fun found found' hFound => ?_
    obtain ⟨name, span⟩ := found
    obtain ⟨name', span'⟩ := found'
    cases hFound
    exact hRest name span span'
  · refine agrees_expectName.bind fun id id' hId => ?_
    obtain ⟨name, span⟩ := id
    obtain ⟨name', span'⟩ := id'
    cases Ident.erased_inj.mp hId
    exact hRest name span span'

theorem agrees_importAliases
    (dotted : Bool) :
    Agrees (List.map Alias.erased) (importAliases dotted)
      (importAliases dotted) :=
  (agrees_importAlias dotted).bind fun _ _ hFirst =>
    agrees_moreItems (agrees_importAlias dotted) _
      (congrArg (fun name => [name]) hFirst)

theorem agrees_importFrom :
    Agrees Stmt.erased importFrom importFrom := by
  have hRest {source source' : String} (hSource : source = source')
      {names names' : List Alias}
      (hNames : names.map Alias.erased = names'.map Alias.erased)
      (start start' : Span) :
      Agrees Stmt.erased
        (do
          return .mk (start.merge (← previousSpan))
            (.importFrom source names))
        (do
          return .mk (start'.merge (← previousSpan))
            (.importFrom source' names')) := by
    refine agrees_previousSpan.bind fun _ _ _ => .pure ?_
    simp [Stmt.erased, StmtForm.erased, hSource, hNames]
  refine agrees_advance.bind fun start start' _ => ?_
  refine Agrees.bind agrees_dottedName fun found found' hFound => ?_
  refine (agrees_expect _).discard.bindSame fun _ => ?_
  refine (agrees_check _).bindSame fun _ =>
    .guardBind (agrees_refuse _ _ _) ?_
  refine (agrees_check _).bindSame fun _ => .ite ?_ ?_
  · refine agrees_advance.bind fun opening opening' _ => ?_
    refine (agrees_importAliases false).bind fun names names' hNames => ?_
    refine (agrees_expectClosing _ _ _).discard.bindSame fun _ => ?_
    exact hRest hFound hNames _ _
  · exact (agrees_importAliases false).bind fun _ _ hNames =>
      hRest hFound hNames _ _

theorem agrees_exprList :
    Agrees Expr.erased ExprGrammar.top.exprList
      ExprGrammar.top.exprList :=
  ExprGrammar.agrees_exprList ExprGrammar.agrees_top

theorem agrees_expressionOrAssignment :
    Agrees Stmt.erased expressionOrAssignment
      expressionOrAssignment := by
  refine Agrees.bind agrees_exprList fun first first' hFirst => ?_
  refine agrees_peek.bindSame fun kind => ?_
  split
  · refine agrees_advance.discard.bindSame fun _ => ?_
    refine (agrees_checkTarget false first first' hFirst).bindSame
      fun _ => ?_
    refine Agrees.bind agrees_exprList fun value value' hValue => .pure ?_
    simp [Stmt.erased, StmtForm.erased, hFirst, hValue]
  · refine (agrees_eat _).bindSame fun _ => .ite ?_ (.pure ?_)
    · refine Agrees.bind agrees_exprList fun second second' hSecond => ?_
      have hStart :
          Prod.map (List.map Expr.erased) Expr.erased ([first], second) =
            Prod.map (List.map Expr.erased) Expr.erased
              ([first'], second') := by
        simp [hFirst, hSecond]
      refine (Agrees.loopSame hStart fun state state' hState => ?_).bind
        fun found found' hFound => ?_
      · obtain ⟨hTargets, hLast⟩ := Prod.mk.inj hState
        refine (agrees_eat _).bindSame fun _ =>
          .ite ?_ (.pure (congrArg Step.done hState))
        refine Agrees.bind agrees_exprList fun value value' hValue => .pure ?_
        simp [Step.erased, hTargets, hLast, hValue]
      · obtain ⟨hTargets, hValue⟩ := Prod.mk.inj hFound
        refine (agrees_forM (agrees_checkTarget true) hTargets).bindSame
          fun _ => .pure ?_
        simp [Stmt.erased, StmtForm.erased, hTargets, hValue]
    · simp [Stmt.erased, StmtForm.erased, hFirst]

theorem agrees_worded
    {rest : Parser (StmtForm Stmt)}
    (hRest : Agrees StmtForm.erased rest rest) :
    Agrees Stmt.erased (worded rest) (worded rest) := by
  refine agrees_advance.bind fun _ _ _ => ?_
  refine hRest.bind fun form form' hForm => ?_
  refine agrees_previousSpan.bind fun _ _ _ => .pure ?_
  simp [Stmt.erased, hForm]

theorem agrees_assertion :
    Agrees StmtForm.erased assertion assertion := by
  have hExpression := ExprGrammar.agrees_top.expression
  refine hExpression.bind fun test test' hTest => ?_
  refine (agrees_eat _).bindSame fun _ => ?_
  refine .iteBind hExpression.optional (.pure rfl)
    fun message message' hMessage => .pure ?_
  simp [StmtForm.erased, hTest, hMessage]

theorem agrees_statement : Agrees Stmt.erased statement statement := by
  have hExpression := ExprGrammar.agrees_top.expression
  refine agrees_peek.bindSame fun kind => ?_
  split
  · exact agrees_worded (.pure rfl)
  · exact agrees_worded (.pure rfl)
  · exact agrees_worded (.pure rfl)
  · refine agrees_worded ((agrees_orNothing agrees_exprList).bind
      fun value value' hValue => .pure ?_)
    simp [StmtForm.erased, hValue]
  · refine agrees_worded ((agrees_orNothing hExpression).bind
      fun exception exception' hException => .pure ?_)
    simp [StmtForm.erased, hException]
  · exact agrees_worded agrees_assertion
  · refine agrees_worded ((agrees_importAliases true).bind
      fun names names' hNames => .pure ?_)
    simp [StmtForm.erased, hNames]
  · exact agrees_importFrom
  · exact agrees_refuse _ _ _
  · exact agrees_expressionOrAssignment

theorem agrees_line : Agrees (List.map Stmt.erased) line line := by
  refine Agrees.bind agrees_statement fun first first' hFirst => ?_
  have hStart : [first].map Stmt.erased = [first'].map Stmt.erased :=
    congrArg (fun stmt => [stmt]) hFirst
  refine (Agrees.loopSame hStart fun stmts stmts' hStmts => ?_).bind
    fun stmts stmts' hStmts => ?_
  · refine (agrees_eat _).bindSame fun _ =>
      .ite (.pure (congrArg Step.done hStmts)) ?_
    refine agrees_peek.bindSame fun kind => ?_
    split
    · exact .pure (congrArg Step.done hStmts)
    · exact .pure (congrArg Step.done hStmts)
    · refine Agrees.bind agrees_statement fun stmt stmt' hStmt => .pure ?_
      simp [Step.erased, hStmts, hStmt]
  · exact agrees_expectNewline.bindSame fun _ => .pure hStmts

end SimpleStmt

------------------------------------------------------------
-- Compound Statements
------------------------------------------------------------

namespace StmtGrammar

/- Rules for inner statements for which only the kinds of tokens matter. -/
structure Agrees (grammar : StmtGrammar) : Prop where
  statements :
    Parser.Agrees (List.map Stmt.erased) grammar.statements
      grammar.statements
  branch : Parser.Agrees Stmt.erased grammar.branch grammar.branch

section Rules

variable {grammar : StmtGrammar}

theorem agrees_statementsUntil
    (hGrammar : grammar.Agrees)
    (isEnd isSkipped : TokenKind → Bool) :
    Parser.Agrees (List.map Stmt.erased)
      (grammar.statementsUntil isEnd isSkipped)
      (grammar.statementsUntil isEnd isSkipped) := by
  have hStart : ([] : List Stmt).map Stmt.erased = [].map Stmt.erased :=
    rfl
  refine .loopSame hStart fun body body' hBody => ?_
  have hAgain :
      Parser.Agrees
        (Step.erased (List.map Stmt.erased) (List.map Stmt.erased))
        (return .again body) (return .again body') :=
    .pure (congrArg Step.again hBody)
  refine agrees_peek.bindSame fun kind => ?_
  refine agrees_tooManyErrors.bindSame fun _ =>
    .ite (.pure (congrArg Step.done hBody)) ?_
  refine .ite (agrees_advance.discard.bindSame fun _ => hAgain) ?_
  refine (agrees_attempt hGrammar.statements).bind
    fun found found' hFound => ?_
  cases found with
  | some stmts =>
      obtain ⟨stmts', rfl, hStmts⟩ := Option.map_eq_some_iff.mp hFound.symm
      refine .pure ?_
      simp [Step.erased, hBody, hStmts]
  | none =>
      cases Option.map_eq_none_iff.mp hFound.symm
      exact agrees_synchronize.bindSame fun _ => hAgain

theorem agrees_block
    (hGrammar : grammar.Agrees) :
    Parser.Agrees (List.map Stmt.erased) grammar.block grammar.block := by
  refine (agrees_eat _).bindSame fun _ => .ite SimpleStmt.agrees_line ?_
  refine (agrees_eat _).bindSame fun _ => .ite (agrees_refuse _ _ _) ?_
  refine agrees_get fun cursor cursor' hAlike => ?_
  rw [hAlike.blockDepth]
  refine .ite ?_ (agrees_inBlock ?_)
  · exact agrees_previousSpan.bind fun _ _ _ => agrees_refuseAt _ _ _ _
  · refine (agrees_statementsUntil hGrammar _ _).bind
      fun body body' hBody => ?_
    exact (agrees_eat _).discard.bindSame fun _ => .pure hBody

theorem agrees_body
    (hGrammar : grammar.Agrees) :
    Parser.Agrees (List.map Stmt.erased) grammar.body grammar.body :=
  (agrees_expect _).discard.bindSame fun _ => agrees_block hGrammar

theorem agrees_elseBody
    (hGrammar : grammar.Agrees) :
    Parser.Agrees (List.map Stmt.erased) grammar.elseBody
      grammar.elseBody :=
  (agrees_eat _).bindSame fun _ =>
    .ite (agrees_body hGrammar) (.pure rfl)

theorem agrees_functionDef
    (hGrammar : grammar.Agrees) :
    Parser.Agrees StmtForm.erased grammar.functionDef
      grammar.functionDef := by
  have hTop := ExprGrammar.agrees_top
  refine agrees_expectName.bind fun name name' hName => ?_
  refine (agrees_expect _).bind fun opening opening' _ => ?_
  refine (ExprGrammar.agrees_params hTop _ _).bind
    fun params params' hParams => ?_
  refine (agrees_expectClosing _ _ _).discard.bindSame fun _ => ?_
  refine (agrees_eat _).bindSame fun _ =>
    .guardBind hTop.expression.discard ?_
  refine (agrees_body hGrammar).bind fun body body' hBody => .pure ?_
  simp [StmtForm.erased, hName, hParams, hBody]

theorem agrees_classBase :
    Parser.Agrees Expr.erased classBase classBase := by
  refine agrees_peek.bindSame fun kind => ?_
  refine (agrees_peekAhead 1).bindSame fun next => ?_
  split
  · exact agrees_refuse _ _ _
  · exact ExprGrammar.agrees_top.expression

theorem agrees_classDef
    (hGrammar : grammar.Agrees) :
    Parser.Agrees StmtForm.erased grammar.classDef grammar.classDef := by
  have hForm {name name' : Ident} (hName : name.erased = name'.erased)
      {bases bases' : List Expr}
      (hBases : bases.map Expr.erased = bases'.map Expr.erased) :
      Parser.Agrees StmtForm.erased
        (do return .classDef name bases (← grammar.body))
        (do return .classDef name' bases' (← grammar.body)) := by
    refine (agrees_body hGrammar).bind fun body body' hBody => .pure ?_
    simp only [StmtForm.erased, hName, hBases, Stmt.erasedAll_eq_map,
      hBody]
  refine agrees_expectName.bind fun name name' hName => ?_
  refine (agrees_check _).bindSame fun _ => .ite ?_ (hForm hName rfl)
  refine agrees_advance.bind fun opening opening' _ => ?_
  refine (agrees_itemsUntil agrees_classBase _).bind
    fun bases bases' hBases => ?_
  refine (agrees_expectClosing _ _ _).discard.bindSame fun _ => ?_
  exact hForm hName hBases

theorem agrees_ifElse
    (hGrammar : grammar.Agrees) :
    Parser.Agrees StmtForm.erased grammar.ifElse grammar.ifElse := by
  refine ExprGrammar.agrees_top.expression.bind fun test test' hTest => ?_
  refine (agrees_body hGrammar).bind fun body body' hBody => ?_
  refine (agrees_check _).bindSame fun _ => .ite ?_ ?_
  · refine hGrammar.branch.bind fun other other' hOther => .pure ?_
    simp [StmtForm.erased, hTest, hBody, hOther]
  · refine (agrees_elseBody hGrammar).bind
      fun orelse orelse' hOrelse => .pure ?_
    simp [StmtForm.erased, hTest, hBody, hOrelse]

theorem agrees_whileLoop
    (hGrammar : grammar.Agrees) :
    Parser.Agrees StmtForm.erased grammar.whileLoop grammar.whileLoop := by
  refine ExprGrammar.agrees_top.expression.bind fun test test' hTest => ?_
  refine (agrees_body hGrammar).bind fun body body' hBody => ?_
  refine (agrees_elseBody hGrammar).bind
    fun orelse orelse' hOrelse => .pure ?_
  simp [StmtForm.erased, hTest, hBody, hOrelse]

theorem agrees_forLoop
    (hGrammar : grammar.Agrees) :
    Parser.Agrees StmtForm.erased grammar.forLoop grammar.forLoop := by
  have hTop := ExprGrammar.agrees_top
  refine (ExprGrammar.agrees_targetList hTop).bind
    fun target target' hTarget => ?_
  refine (agrees_checkTarget true target target' hTarget).bindSame
    fun _ => ?_
  refine (agrees_expect _).discard.bindSame fun _ => ?_
  refine Agrees.bind SimpleStmt.agrees_exprList fun items items' hItems => ?_
  refine (agrees_body hGrammar).bind fun body body' hBody => ?_
  refine (agrees_elseBody hGrammar).bind
    fun orelse orelse' hOrelse => .pure ?_
  simp [StmtForm.erased, hTarget, hItems, hBody, hOrelse]

theorem agrees_lineOrCompound
    (hGrammar : grammar.Agrees) :
    Parser.Agrees (List.map Stmt.erased) grammar.lineOrCompound
      grammar.lineOrCompound := by
  have hSingle {rest : Parser (StmtForm Stmt)}
      (hRest : Parser.Agrees StmtForm.erased rest rest) :
      Parser.Agrees (List.map Stmt.erased) (lineOrCompound.single rest)
        (lineOrCompound.single rest) :=
    (SimpleStmt.agrees_worded hRest).bind fun _ _ hStmt =>
      .pure (congrArg (fun stmt => [stmt]) hStmt)
  refine agrees_peek.bindSame fun kind => ?_
  split
  · exact hSingle (agrees_functionDef hGrammar)
  · exact hSingle (agrees_classDef hGrammar)
  · exact hSingle (agrees_ifElse hGrammar)
  · exact hSingle (agrees_whileLoop hGrammar)
  · exact hSingle (agrees_forLoop hGrammar)
  · exact agrees_refuse _ _ _
  · exact SimpleStmt.agrees_line

theorem agrees_step
    (hGrammar : grammar.Agrees) :
    grammar.step.Agrees where
  statements := agrees_lineOrCompound hGrammar
  branch := SimpleStmt.agrees_worded (agrees_ifElse hGrammar)

end Rules

theorem agrees_levels
    (count : Nat) :
    (levels count).Agrees := by
  induction count with
  | zero => exact ⟨.throw _, .throw _⟩
  | succ count ih =>
      rw [levels]
      exact agrees_step ⟨ih.statements, ih.branch⟩

theorem agrees_top : top.Agrees where
  statements := by
    let family := fun count => (levels (count + 1)).statements
    exact agrees_remaining family
      fun count => (agrees_levels (count + 1)).statements
  branch := by
    let family := fun count => (levels (count + 1)).branch
    exact agrees_remaining family
      fun count => (agrees_levels (count + 1)).branch

end StmtGrammar

------------------------------------------------------------
-- Programs
------------------------------------------------------------

theorem agrees_program : Agrees Program.erased program program := by
  refine agrees_currentSpan.bind fun start start' _ => ?_
  refine (StmtGrammar.agrees_statementsUntil StmtGrammar.agrees_top
    _ _).bind fun body body' hBody => ?_
  have hProgram (span span' : Span) :
      (⟨body, span⟩ : Program).erased =
        (⟨body', span'⟩ : Program).erased := by
    rw [Program.erased, Program.erased, hBody]
  split <;> split <;> exact .pure (hProgram _ _)

/- Tokens of the same kinds are read as the same program. -/
theorem parseTokens_alike
    (file other : SourceFile)
    {tokens others : Array Token}
    (hKinds :
      tokens.toList.map (·.kind) = others.toList.map (·.kind)) :
    (parseTokens file tokens).program.erased =
        (parseTokens other others).program.erased ∧
      (parseTokens file tokens).errors.stored.length =
        (parseTokens other others).errors.stored.length ∧
      (parseTokens file tokens).errors.total =
        (parseTokens other others).errors.total := by
  have hStart : (startOf file tokens).Alike (startOf other others) :=
    ⟨hKinds, rfl, rfl, rfl, rfl, rfl⟩
  have hResults := agrees_program.results hStart
  unfold startOf at hResults
  unfold parseTokens
  generalize program { file := file, tokens := tokens } = result at *
  generalize program { file := other, tokens := others } = result' at *
  cases hResults with
  | ok hProgram hAfter => exact ⟨hProgram, hAfter.stored, hAfter.total⟩
  | error hAfter => exact ⟨rfl, hAfter.stored, hAfter.total⟩

/- Whether faults are joined to some depends only on how many they are. -/
theorem hasErrors_append_congr
    {faults faults' others others' : Diagnostics}
    (hErrors : faults.hasErrors = faults'.hasErrors)
    (hStored : others.stored.length = others'.stored.length)
    (hTotal : others.total = others'.total) :
    (faults.append others).hasErrors =
      (faults'.append others').hasErrors := by
  have hNone : faults.total = 0 ↔ faults'.total = 0 := by
    simp only [Diagnostics.hasErrors, decide_eq_decide] at hErrors
    omega
  have hIff :
      (faults.append others).hasErrors = false ↔
        (faults'.append others').hasErrors = false := by
    simp only [Diagnostics.hasErrors_append_eq_false_iff, hNone, hStored,
      hTotal]
  rwa [Bool.eq_false_iff, Bool.eq_false_iff, ne_eq, ne_eq, not_iff_not,
    ← Bool.eq_iff_iff] at hIff

/-
  Texts whose tokens are of the same kinds are read as the same
  program, or neither of them is read.
-/
theorem parseSource_alike
    {name name' text text' : String}
    (hErrors :
      (lex ⟨name, text⟩).errors.hasErrors =
        (lex ⟨name', text'⟩).errors.hasErrors)
    (hKinds :
      (lex ⟨name, text⟩).tokens.toList.map (·.kind) =
        (lex ⟨name', text'⟩).tokens.toList.map (·.kind)) :
    (parseSource name text).toOption.map Program.erased =
      (parseSource name' text').toOption.map Program.erased := by
  obtain ⟨hProgram, hStored, hTotal⟩ :=
    parseTokens_alike ⟨name, text⟩ ⟨name', text'⟩ hKinds
  unfold parseSource
  dsimp only
  rw [hasErrors_append_congr hErrors hStored hTotal]
  split
  · rw [Except.toOption, Except.toOption]
  · rw [Except.toOption, Except.toOption, Option.map_some,
      Option.map_some, hProgram]

end SnippetGrader
