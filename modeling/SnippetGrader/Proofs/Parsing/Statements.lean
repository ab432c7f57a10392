import SnippetGrader.Parsing.Statement
import SnippetGrader.Proofs.Parsing.Expressions

/-
  Statements that are read are plain.

  Key definitions include:
    * `StmtForm.Plain`
    * `StmtGrammar.Sound`

  Key theorems include:
    * `StmtGrammar.sound_top`
    * `StmtGrammar.yields_statementsUntil`
-/

namespace SnippetGrader

open SnippetGrader.Parser

------------------------------------------------------------
-- Plain Statements
------------------------------------------------------------

/- A statement below which everything is grammatical. -/
def Stmt.Plain (stmt : Stmt) : Prop :=
  (Node.stmt stmt).Plain

@[simp] theorem Stmt.plain_node_iff
    {stmt : Stmt} :
    (Node.stmt stmt).Plain ↔ stmt.Plain :=
  Iff.rfl

/- A form of which every statement is plain. -/
def StmtForm.Plain (form : StmtForm Stmt) : Prop :=
  ∀ span, (Stmt.mk span form).Plain

theorem StmtForm.plain_of_slots
    {form : StmtForm Stmt}
    (hReads : ∀ span, (Node.stmt (.mk span form)).ReadsBack)
    (hChildren :
      ∀ slot ∈ Node.stmtSlots form,
        ∀ child ∈ Node.slotChildren slot.2, child.Plain) :
    form.Plain := by
  intro span
  refine Node.plain_of_children (hReads span)
    (fun _ hExpr => nomatch hExpr) fun child hChild => ?_
  obtain ⟨slot, hSlot, hMem⟩ := List.mem_flatMap.mp hChild
  exact hChildren slot hSlot child hMem

/- Nothing stands below an imported name. -/
@[simp] theorem Alias.plain_node
    (name : Alias) :
    (Node.imported name).Plain :=
  Node.plain_of_children trivial (fun _ hExpr => nomatch hExpr)
    (by simp [Node.children, Node.slots])

------------------------------------------------------------
-- Simple Statements
------------------------------------------------------------

theorem yields_forM
    {α : Type}
    {action : α → Parser Unit}
    (hAction : ∀ value, Yields (action value) fun _ => True)
    (values : List α) :
    Yields (values.forM action) fun _ => True := by
  induction values with
  | nil => exact .pure trivial
  | cons value values ih =>
      exact (hAction value).bind fun _ => ih.mono fun _ _ _ => trivial

theorem yields_checkTarget
    (unpacking : Bool)
    (target : Expr) :
    Yields (checkTarget unpacking target) fun _ => True :=
  yields_forM (fun _ => yields_reportAt _ _ _) _

namespace SimpleStmt

theorem yields_orNothing
    {part : Parser Expr}
    (hPart : Yields part Expr.Plain) :
    Yields (orNothing part) fun found =>
      ∀ expr, found = some expr → expr.Plain := by
  refine yields_peek.bind fun _ => .ite (fun _ => ?_) fun _ => ?_
  · exact .pure fun _ => nofun
  · refine hPart.bind fun value => .pure ?_
    rintro hValue _ expr ⟨⟩
    exact hValue

theorem yields_dottedName :
    Yields dottedName fun _ => True := by
  refine yields_expectName.bind fun first => ?_
  refine yields_loop (fun _ => True) _ trivial fun state => ?_
  refine (yields_eat _).bind fun _ => .ite (fun _ => ?_) fun _ => ?_
  · exact yields_expectName.bind fun _ => .pure fun _ _ _ => trivial
  · exact .pure fun _ _ _ => trivial

theorem yields_importAlias
    (dotted : Bool) :
    Yields (importAlias dotted) fun _ => True := by
  have hRest (name : String) (span : Span) :
      Yields
        (do
          if ← eat (.keyword .asWord) then
            let asName ← expectName
            return ⟨name, some asName, span.merge asName.span⟩
          return ⟨name, none, span⟩ : Parser Alias)
        fun _ => True := by
    refine (yields_eat _).bind fun _ => .ite (fun _ => ?_) fun _ => ?_
    · exact yields_expectName.bind fun _ => .pure fun _ _ => trivial
    · exact .pure fun _ => trivial
  refine .ite (fun _ => ?_) fun _ => ?_
  · exact Yields.bind yields_dottedName fun found =>
      (hRest found.1 found.2).mono fun _ _ _ => trivial
  · exact yields_expectName.bind fun id =>
      (hRest id.name id.span).mono fun _ _ _ => trivial

theorem yields_importAliases
    (dotted : Bool) :
    Yields (importAliases dotted) fun _ => True :=
  (yields_importAlias dotted).bind fun first =>
    (yields_moreItems (yields_importAlias dotted) _ [first]).mono
      fun _ _ _ => trivial

theorem yields_importFrom :
    Yields importFrom Stmt.Plain := by
  have hPlain (source : String) (names : List Alias) :
      (StmtForm.importFrom source names).Plain :=
    StmtForm.plain_of_slots (fun _ => trivial)
      (by simp [Node.stmtSlots])
  refine yields_advance.bind fun start => ?_
  refine Yields.bind yields_dottedName fun found => ?_
  refine (yields_expect _).discard.bind fun _ => ?_
  refine (yields_check _).bind fun _ => .guardBind (yields_refuse _ _) ?_
  refine (yields_check _).bind fun _ => .ite (fun _ => ?_) fun _ => ?_
  · refine yields_advance.bind fun opening => ?_
    refine (yields_importAliases false).bind fun names => ?_
    refine (yields_expectClosing _ _).discard.bind fun _ => ?_
    have hNames : Yields (Pure.pure names) fun _ => True :=
      .pure trivial
    refine hNames.bind fun names => ?_
    refine yields_previousSpan.bind fun _ => .pure ?_
    exact fun _ _ _ _ _ _ _ _ _ _ => hPlain _ _ _
  · refine (yields_importAliases false).bind fun names => ?_
    refine yields_previousSpan.bind fun _ => .pure ?_
    exact fun _ _ _ _ _ _ _ => hPlain _ _ _

/- Targets and the value after the last of them. -/
theorem yields_moreTargets
    (first second : Expr) :
    Yields
      (loop ([first], second) fun (targets, value) => do
        if ← eat (.mark .assign) then
          return .again (targets ++ [value], ← ExprGrammar.top.exprList)
        return .done (targets, value))
      fun (targets, value) =>
        first.Plain → second.Plain →
          targets ≠ [] ∧ (∀ target ∈ targets, target.Plain) ∧
            value.Plain := by
  have hList := ExprGrammar.yields_exprList ExprGrammar.sound_top
  let invariant := fun state : List Expr × Expr =>
    first.Plain → second.Plain →
      state.1 ≠ [] ∧ (∀ target ∈ state.1, target.Plain) ∧
        state.2.Plain
  have hStart : invariant ([first], second) :=
    fun hFirst hSecond => ⟨nofun, by simpa using hFirst, hSecond⟩
  refine yields_loop invariant _ hStart fun state => ?_
  refine (yields_eat _).bind fun _ => .ite (fun _ => ?_) fun _ => ?_
  · refine hList.bind fun value => .pure ?_
    intro hValue _ hState hFirst hSecond
    obtain ⟨_, hTargets, hLast⟩ := hState hFirst hSecond
    exact ⟨by simp,
      List.forall_mem_append.mpr ⟨hTargets, by simpa using hLast⟩,
      hValue⟩
  · exact .pure fun _ hState => hState

theorem yields_expressionOrAssignment :
    Yields expressionOrAssignment Stmt.Plain := by
  have hList := ExprGrammar.yields_exprList ExprGrammar.sound_top
  refine hList.bind fun first => ?_
  refine yields_peek.bind fun kind => ?_
  split
  · refine yields_advance.discard.bind fun _ => ?_
    refine (yields_checkTarget false first).bind fun _ => ?_
    refine hList.bind fun value => .pure ?_
    intro hValue _ _ _ hFirst
    refine StmtForm.plain_of_slots ?_ ?_ _
    · exact fun _ => trivial
    · simpa [Node.stmtSlots] using ⟨hFirst, hValue⟩
  · refine (yields_eat _).bind fun _ => .ite (fun _ => ?_) fun _ => ?_
    · refine hList.bind fun second => ?_
      refine (yields_moreTargets first second).bind fun found => ?_
      obtain ⟨targets, value⟩ := found
      refine (yields_forM (yields_checkTarget true) targets).bind
        fun _ => .pure ?_
      intro _ hFound hSecond _ _ hFirst
      obtain ⟨hSome, hTargets, hValue⟩ := hFound hFirst hSecond
      refine StmtForm.plain_of_slots ?_ ?_ _
      · exact fun _ => hSome
      · simpa [Node.stmtSlots] using ⟨hTargets, hValue⟩
    · refine .pure fun _ _ hFirst => ?_
      refine StmtForm.plain_of_slots ?_ ?_ _
      · exact fun _ => trivial
      · simpa [Node.stmtSlots] using hFirst

theorem yields_worded
    {rest : Parser (StmtForm Stmt)}
    (hRest : Yields rest StmtForm.Plain) :
    Yields (worded rest) Stmt.Plain := by
  refine yields_advance.bind fun start => ?_
  refine hRest.bind fun form => ?_
  refine yields_previousSpan.bind fun _ => .pure ?_
  exact fun _ hForm _ => hForm _

theorem yields_assertion :
    Yields assertion StmtForm.Plain := by
  have hExpression := ExprGrammar.sound_top.expression
  refine hExpression.bind fun test => ?_
  refine (yields_eat _).bind fun _ => ?_
  have hMessage :
      Yields (some <$> ExprGrammar.top.expression) fun message =>
        ∀ expr, message = some expr → expr.Plain := by
    refine .map (hExpression.mono fun value hValue => ?_)
    rintro expr ⟨⟩
    exact hValue
  refine .iteBind (fun _ => hMessage) (fun _ => .pure nofun)
    fun message => .pure ?_
  intro hMessage _ hTest
  exact StmtForm.plain_of_slots (fun _ => trivial)
    (by simpa [Node.stmtSlots] using ⟨hTest, hMessage⟩)

theorem yields_statement :
    Yields statement Stmt.Plain := by
  have hList := ExprGrammar.yields_exprList ExprGrammar.sound_top
  have hExpression := ExprGrammar.sound_top.expression
  have hWorded {rest : Parser (StmtForm Stmt)}
      (hRest : Yields rest StmtForm.Plain)
      (kind : TokenKind) :
      Yields (worded rest) fun stmt => kind.ReadsBack → stmt.Plain :=
    (yields_worded hRest).mono fun _ hStmt _ => hStmt
  have hPass : StmtForm.Plain .pass :=
    StmtForm.plain_of_slots (fun _ => trivial) (List.forall_mem_nil _)
  have hBreak : StmtForm.Plain .breakLoop :=
    StmtForm.plain_of_slots (fun _ => trivial) (List.forall_mem_nil _)
  have hContinue : StmtForm.Plain .continueLoop :=
    StmtForm.plain_of_slots (fun _ => trivial) (List.forall_mem_nil _)
  have hReturn (value : Option Expr)
      (hValue : ∀ expr, value = some expr → expr.Plain) :
      StmtForm.Plain (.ret value) :=
    StmtForm.plain_of_slots (fun _ => trivial)
      (by simpa [Node.stmtSlots] using hValue)
  have hRaise (exception : Option Expr)
      (hException : ∀ expr, exception = some expr → expr.Plain) :
      StmtForm.Plain (.raise exception) :=
    StmtForm.plain_of_slots (fun _ => trivial)
      (by simpa [Node.stmtSlots] using hException)
  have hImport (names : List Alias) :
      StmtForm.Plain (.importModules names) :=
    StmtForm.plain_of_slots (fun _ => trivial)
      (by simp [Node.stmtSlots])
  refine yields_peek.bind fun kind => ?_
  split
  · exact hWorded (.pure hPass) _
  · exact hWorded (.pure hBreak) _
  · exact hWorded (.pure hContinue) _
  · exact hWorded
      ((yields_orNothing hList).bind fun value => .pure (hReturn value)) _
  · exact hWorded
      ((yields_orNothing hExpression).bind fun exception =>
        .pure (hRaise exception)) _
  · exact hWorded yields_assertion _
  · exact hWorded
      ((yields_importAliases true).bind fun names =>
        .pure fun _ => hImport names) _
  · exact Yields.mono yields_importFrom fun _ hStmt _ => hStmt
  · exact yields_refuse _ _
  · exact Yields.mono yields_expressionOrAssignment fun _ hStmt _ => hStmt

theorem yields_line :
    Yields line fun stmts => ∀ stmt ∈ stmts, stmt.Plain := by
  refine Yields.bind yields_statement fun first => ?_
  let invariant := fun stmts : List Stmt =>
    first.Plain → ∀ stmt ∈ stmts, stmt.Plain
  have hStart : invariant [first] := fun hFirst => by simpa using hFirst
  refine (yields_loop invariant invariant hStart fun stmts => ?_).bind
    fun stmts => ?_
  · refine (yields_eat _).bind fun _ => .ite (fun _ => ?_) fun _ => ?_
    · exact .pure fun _ hStmts => hStmts
    refine yields_peek.bind fun kind => ?_
    split
    · exact .pure fun _ _ hStmts => hStmts
    · exact .pure fun _ _ hStmts => hStmts
    · refine Yields.bind yields_statement fun stmt => .pure ?_
      intro hStmt _ _ hStmts hFirst
      exact List.forall_mem_append.mpr
        ⟨hStmts hFirst, by simpa using hStmt⟩
  · exact yields_expectNewline.bind fun _ =>
      .pure fun _ hStmts => hStmts

end SimpleStmt

------------------------------------------------------------
-- Compound Statements
------------------------------------------------------------

namespace StmtGrammar

/- Rules that yield plain statements. -/
structure Sound (grammar : StmtGrammar) : Prop where
  statements :
    Yields grammar.statements fun stmts => ∀ stmt ∈ stmts, stmt.Plain
  branch : Yields grammar.branch Stmt.Plain

section Rules

variable {grammar : StmtGrammar}

theorem yields_statementsUntil
    (hGrammar : grammar.Sound)
    (isEnd isSkipped : TokenKind → Bool) :
    Yields (grammar.statementsUntil isEnd isSkipped) fun stmts =>
      ∀ stmt ∈ stmts, stmt.Plain := by
  let invariant := fun stmts : List Stmt =>
    ∀ stmt ∈ stmts, stmt.Plain
  have hStart : invariant [] := by simp [invariant]
  refine yields_loop invariant _ hStart fun body => ?_
  refine yields_peek.bind fun kind => ?_
  refine yields_tooManyErrors.bind fun _ => .ite (fun _ => ?_) fun _ => ?_
  · exact .pure fun _ _ hBody => hBody
  refine .ite (fun _ => ?_) fun _ => ?_
  · exact yields_advance.discard.bind fun _ =>
      .pure fun _ _ _ hBody => hBody
  refine (yields_attempt hGrammar.statements).bind fun found => ?_
  split
  · refine .pure fun hFound _ _ hBody => ?_
    exact List.forall_mem_append.mpr ⟨hBody, hFound _ rfl⟩
  · exact yields_synchronize.bind fun _ =>
      .pure fun _ _ _ _ hBody => hBody

theorem yields_block
    (hGrammar : grammar.Sound) :
    Yields grammar.block fun stmts => ∀ stmt ∈ stmts, stmt.Plain := by
  refine (yields_eat _).bind fun _ => .ite (fun _ => ?_) fun _ => ?_
  · exact Yields.mono SimpleStmt.yields_line fun _ hStmts _ => hStmts
  refine (yields_eat _).bind fun _ => .ite (fun _ => ?_) fun _ => ?_
  · exact yields_refuse _ _
  refine yields_get (fun cursor => .ite (fun _ => ?_) fun _ => ?_)
    fun _ _ => rfl
  · exact yields_previousSpan.bind fun _ => yields_refuseAt _ _ _
  · refine yields_inBlock ?_
    refine (yields_statementsUntil hGrammar _ _).bind fun body => ?_
    exact (yields_eat _).discard.bind fun _ =>
      .pure fun _ hBody _ _ => hBody

theorem yields_body
    (hGrammar : grammar.Sound) :
    Yields grammar.body fun stmts => ∀ stmt ∈ stmts, stmt.Plain :=
  (yields_expect _).discard.bind fun _ =>
    (yields_block hGrammar).mono fun _ hStmts _ => hStmts

theorem yields_elseBody
    (hGrammar : grammar.Sound) :
    Yields grammar.elseBody fun stmts => ∀ stmt ∈ stmts, stmt.Plain := by
  refine (yields_eat _).bind fun _ => .ite (fun _ => ?_) fun _ => ?_
  · exact (yields_body hGrammar).mono fun _ hStmts _ => hStmts
  · exact .pure fun _ => by simp

theorem yields_functionDef
    (hGrammar : grammar.Sound) :
    Yields grammar.functionDef StmtForm.Plain := by
  have hTop := ExprGrammar.sound_top
  refine yields_expectName.bind fun name => ?_
  refine (yields_expect _).bind fun opening => ?_
  refine (ExprGrammar.yields_params hTop _ _).bind fun params => ?_
  refine (yields_expectClosing _ _).discard.bind fun _ => ?_
  refine (yields_eat _).bind fun _ =>
    .guardBind hTop.expression.discard ?_
  refine (yields_body hGrammar).bind fun body => .pure ?_
  intro hBody _ _ hParams _ _
  refine StmtForm.plain_of_slots (fun _ => hParams.1) ?_
  simpa [Node.stmtSlots] using ⟨hParams.2, hBody⟩

theorem yields_classBase :
    Yields classBase Expr.Plain := by
  refine yields_peek.bind fun kind => ?_
  refine (yields_peekAhead 1).bind fun next => ?_
  split
  · exact yields_refuse _ _
  · exact ExprGrammar.sound_top.expression.mono
      fun _ hExpr _ _ => hExpr

theorem yields_classDef
    (hGrammar : grammar.Sound) :
    Yields grammar.classDef StmtForm.Plain := by
  have hBody (name : Ident) (bases : List Expr) :
      Yields
        (do return StmtForm.classDef name bases (← grammar.body))
        fun form =>
          (∀ base ∈ bases, base.Plain) → form.Plain := by
    refine (yields_body hGrammar).bind fun body => .pure ?_
    intro hBody hBases
    exact StmtForm.plain_of_slots (fun _ => trivial)
      (by simpa [Node.stmtSlots] using ⟨hBases, hBody⟩)
  refine yields_expectName.bind fun name => ?_
  refine (yields_check _).bind fun _ => .ite (fun _ => ?_) fun _ => ?_
  · refine yields_advance.bind fun opening => ?_
    refine (yields_itemsUntil yields_classBase _).bind fun bases => ?_
    refine (yields_expectClosing _ _).discard.bind fun _ => ?_
    exact (hBody name bases).mono
      fun _ hForm _ hBases _ _ _ => hForm hBases
  · exact (hBody name []).mono fun _ hForm _ _ => hForm (by simp)

theorem yields_ifElse
    (hGrammar : grammar.Sound) :
    Yields grammar.ifElse StmtForm.Plain := by
  have hForm (test : Expr) (body orelse : List Stmt)
      (hTest : test.Plain)
      (hBody : ∀ stmt ∈ body, stmt.Plain)
      (hOrelse : ∀ stmt ∈ orelse, stmt.Plain) :
      StmtForm.Plain (.branch test body orelse) :=
    StmtForm.plain_of_slots (fun _ => trivial)
      (by simpa [Node.stmtSlots] using ⟨hTest, hBody, hOrelse⟩)
  refine ExprGrammar.sound_top.expression.bind fun test => ?_
  refine (yields_body hGrammar).bind fun body => ?_
  refine (yields_check _).bind fun _ => .ite (fun _ => ?_) fun _ => ?_
  · refine hGrammar.branch.bind fun other => .pure ?_
    intro hOther _ hBody hTest
    exact hForm test body [other] hTest hBody (by simpa using hOther)
  · refine (yields_elseBody hGrammar).bind fun orelse => .pure ?_
    intro hOrelse _ hBody hTest
    exact hForm test body orelse hTest hBody hOrelse

theorem yields_whileLoop
    (hGrammar : grammar.Sound) :
    Yields grammar.whileLoop StmtForm.Plain := by
  refine ExprGrammar.sound_top.expression.bind fun test => ?_
  refine (yields_body hGrammar).bind fun body => ?_
  refine (yields_elseBody hGrammar).bind fun orelse => .pure ?_
  intro hOrelse hBody hTest
  exact StmtForm.plain_of_slots (fun _ => trivial)
    (by simpa [Node.stmtSlots] using ⟨hTest, hBody, hOrelse⟩)

theorem yields_forLoop
    (hGrammar : grammar.Sound) :
    Yields grammar.forLoop StmtForm.Plain := by
  have hTop := ExprGrammar.sound_top
  refine (ExprGrammar.yields_targetList hTop).bind fun target => ?_
  refine (yields_checkTarget true target).bind fun _ => ?_
  refine (yields_expect _).discard.bind fun _ => ?_
  refine (ExprGrammar.yields_exprList hTop).bind fun items => ?_
  refine (yields_body hGrammar).bind fun body => ?_
  refine (yields_elseBody hGrammar).bind fun orelse => .pure ?_
  intro hOrelse hBody hItems _ _ hTarget
  exact StmtForm.plain_of_slots (fun _ => trivial)
    (by simpa [Node.stmtSlots] using ⟨hTarget, hItems, hBody, hOrelse⟩)

theorem yields_lineOrCompound
    (hGrammar : grammar.Sound) :
    Yields grammar.lineOrCompound fun stmts =>
      ∀ stmt ∈ stmts, stmt.Plain := by
  have hSingle {rest : Parser (StmtForm Stmt)}
      (hRest : Yields rest StmtForm.Plain)
      (kind : TokenKind) :
      Yields (lineOrCompound.single rest) fun stmts =>
        kind.ReadsBack → ∀ stmt ∈ stmts, stmt.Plain :=
    (SimpleStmt.yields_worded hRest).bind fun stmt =>
      .pure fun hStmt _ => by simpa using hStmt
  refine yields_peek.bind fun kind => ?_
  split
  · exact hSingle (yields_functionDef hGrammar) _
  · exact hSingle (yields_classDef hGrammar) _
  · exact hSingle (yields_ifElse hGrammar) _
  · exact hSingle (yields_whileLoop hGrammar) _
  · exact hSingle (yields_forLoop hGrammar) _
  · exact yields_refuse _ _
  · exact Yields.mono SimpleStmt.yields_line fun _ hStmts _ => hStmts

theorem sound_step
    (hGrammar : grammar.Sound) :
    grammar.step.Sound where
  statements := yields_lineOrCompound hGrammar
  branch := SimpleStmt.yields_worded (yields_ifElse hGrammar)

end Rules

theorem sound_levels
    (count : Nat) :
    (levels count).Sound := by
  induction count with
  | zero => exact ⟨.throw _, .throw _⟩
  | succ count ih =>
      rw [levels]
      exact sound_step ⟨ih.statements, ih.branch⟩

theorem sound_top : top.Sound := by
  constructor
  · let family := fun count => (levels (count + 1)).statements
    have hFamily : ∀ count, Yields (family count) _ :=
      fun count => (sound_levels (count + 1)).statements
    exact yields_remaining hFamily
  · let family := fun count => (levels (count + 1)).branch
    have hFamily : ∀ count, Yields (family count) _ :=
      fun count => (sound_levels (count + 1)).branch
    exact yields_remaining hFamily

end StmtGrammar

end SnippetGrader
