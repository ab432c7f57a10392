import SnippetGrader.Parsing.Program
import SnippetGrader.Proofs.Parsing.Composition

/-
  The productions of the grammar.

  Each rule for expressions and for statements is put together
  from steps if the rules for what is inside are. Those of no
  level only fail, so the rules of every level are put together
  from steps, and so are the rules at the top.

  Key definitions include:
    * `ExprGrammar.Rule`, `StmtGrammar.Rule`
    * `Production`

  Key theorems include:
    * `ExprGrammar.Rule.composed`, `StmtGrammar.Rule.composed`
    * `Production.composed`
-/

namespace SnippetGrader

open SnippetGrader.Parser

------------------------------------------------------------
-- Rules for Expressions
------------------------------------------------------------

namespace ExprGrammar

/- Rules for inner expressions that are put together from steps. -/
structure Composed (grammar : ExprGrammar) : Prop where
  expression : Parser.Composed grammar.expression
  notTest : Parser.Composed grammar.notTest
  bitOr : Parser.Composed grammar.bitOr
  factor : Parser.Composed grammar.factor

section Rules

variable {grammar : ExprGrammar}

------------------------------------------------------------
-- Starred Items and Tuples
------------------------------------------------------------

theorem composed_starred
    (hGrammar : grammar.Composed)
    {unstarred : Parser Expr}
    (hUnstarred : Parser.Composed unstarred) :
    Parser.Composed (grammar.starred unstarred) := by
  refine (composed_check _).bind fun _ => .ite ?_ hUnstarred
  exact composed_advance.bind fun _ => hGrammar.bitOr.bind fun _ => .pure _

theorem composed_item
    (hGrammar : grammar.Composed) :
    Parser.Composed grammar.item :=
  composed_starred hGrammar hGrammar.expression

theorem composed_orTuple
    {next : Parser Expr}
    (hNext : Parser.Composed next)
    (isEnd : TokenKind → Bool)
    (first : Expr) :
    Parser.Composed (orTuple isEnd next first) := by
  refine (composed_check _).bind fun _ => .ite ?_ (.pure _)
  refine (composed_moreItems hNext isEnd _).bind fun _ => ?_
  exact composed_previousSpan.bind fun _ => .pure _

theorem composed_exprList
    (hGrammar : grammar.Composed) :
    Parser.Composed grammar.exprList :=
  (composed_item hGrammar).bind fun _ =>
    composed_orTuple (composed_item hGrammar) _ _

theorem composed_target
    (hGrammar : grammar.Composed) :
    Parser.Composed (grammar.starred grammar.bitOr) :=
  composed_starred hGrammar hGrammar.bitOr

theorem composed_targetList
    (hGrammar : grammar.Composed) :
    Parser.Composed grammar.targetList :=
  (composed_target hGrammar).bind fun _ =>
    composed_orTuple (composed_target hGrammar) _ _

theorem composed_refuseComprehension :
    Parser.Composed refuseComprehension :=
  (composed_check _).bind fun _ => .ite (composed_refuse _ _) (.pure _)

------------------------------------------------------------
-- Parameters
------------------------------------------------------------

theorem composed_annotationSkipped
    (hGrammar : grammar.Composed)
    (annotated : Bool) :
    Parser.Composed (grammar.skipAnnotation annotated) :=
  .ite
    ((composed_eat _).bind fun _ =>
      .ite hGrammar.expression.discard (.pure _))
    (.pure _)

theorem composed_slashParam
    (state : ParamState) :
    Parser.Composed (slashParam state) :=
  composed_advance.bind fun _ => .ite (composed_refuseAt _ _ _) (.pure _)

theorem composed_varKeywordParam
    (hGrammar : grammar.Composed)
    (closing : Mark)
    (annotated : Bool)
    (state : ParamState) :
    Parser.Composed (grammar.varKeywordParam closing annotated state) := by
  refine composed_advance.bind fun _ => composed_expectName.bind fun _ => ?_
  refine (composed_annotationSkipped hGrammar annotated).bind fun _ => ?_
  refine (composed_eat _).discard.bind fun _ => ?_
  exact (composed_check _).bind fun _ => .ite (.pure _) (composed_refuse _ _)

theorem composed_starParam
    (hGrammar : grammar.Composed)
    (closing : Mark)
    (annotated : Bool)
    (state : ParamState) :
    Parser.Composed (grammar.starParam closing annotated state) := by
  refine composed_advance.bind fun _ => .ite (composed_refuseAt _ _ _) ?_
  refine composed_peek.bind fun kind => ?_
  split
  · refine composed_expectName.bind fun _ => ?_
    exact (composed_annotationSkipped hGrammar annotated).bind fun _ => .pure _
  · exact .ite (composed_refuseAt _ _ _) (.pure _)

theorem composed_namedParam
    (hGrammar : grammar.Composed)
    (annotated : Bool)
    (state : ParamState) :
    Parser.Composed (grammar.namedParam annotated state) := by
  refine composed_expectName.bind fun _ => ?_
  refine (composed_annotationSkipped hGrammar annotated).bind fun _ => ?_
  refine (composed_eat _).bind fun _ => ?_
  refine .iteBind (hGrammar.expression.map some) (.pure none) fun _ => ?_
  exact .ite (composed_refuseAt _ _ _) (.pure _)

theorem composed_params
    (hGrammar : grammar.Composed)
    (closing : Mark)
    (annotated : Bool) :
    Parser.Composed (grammar.params closing annotated) := by
  refine (composed_loop (fun state => ?_) _).bind fun state => ?_
  · refine composed_peek.bind fun kind => ?_
    split
    · exact (composed_varKeywordParam hGrammar closing annotated
        state).bind fun _ => .pure _
    · refine .ite (.pure _) ?_
      dsimp only
      split
      · exact composed_commaRound (composed_slashParam state)
      · exact composed_commaRound
          (composed_starParam hGrammar closing annotated state)
      · exact composed_commaRound
          (composed_namedParam hGrammar annotated state)
  · split
    · exact .pure _
    · exact composed_refuseAt _ _ _

------------------------------------------------------------
-- Arguments and Subscripts
------------------------------------------------------------

theorem composed_unpackedArgument
    (hGrammar : grammar.Composed)
    (given : Arguments) :
    Parser.Composed (grammar.unpackedArgument given) :=
  composed_advance.bind fun _ =>
    hGrammar.expression.bind fun _ => .pure _

theorem composed_keywordArgument
    (hGrammar : grammar.Composed)
    (id : String)
    (given : Arguments) :
    Parser.Composed (grammar.keywordArgument id given) := by
  refine composed_advance.bind fun _ => ?_
  refine composed_advance.discard.bind fun _ => ?_
  refine hGrammar.expression.bind fun _ => ?_
  exact .guardBind (composed_reportSubject _ _ _ _) (.pure _)

theorem composed_positionalArgument
    (hGrammar : grammar.Composed)
    (given : Arguments) :
    Parser.Composed (grammar.positionalArgument given) :=
  (composed_item hGrammar).bind fun _ =>
    .guardBind (composed_reportAt _ _ _) (.pure _)

theorem composed_arguments
    (hGrammar : grammar.Composed)
    (openedAt : Span) :
    Parser.Composed (grammar.arguments openedAt) := by
  refine (composed_loop (fun given => ?_) _).bind fun given => ?_
  · refine composed_peek.bind fun kind => .ite (.pure _) ?_
    refine (composed_peekAhead 1).bind fun next => ?_
    dsimp only
    split
    · exact composed_commaRound (composed_unpackedArgument hGrammar given)
    · exact composed_commaRound (composed_keywordArgument hGrammar _ given)
    · exact composed_commaRound (composed_positionalArgument hGrammar given)
  · exact (composed_expectClosing _ _).discard.bind fun _ => .pure _

theorem composed_sliceBound
    (hGrammar : grammar.Composed) :
    Parser.Composed grammar.sliceBound := by
  refine composed_peek.bind fun kind => ?_
  split
  · exact .pure _
  · exact .pure _
  · exact .pure _
  · exact hGrammar.expression.map _

theorem composed_sliceRest
    (hGrammar : grammar.Composed)
    (start : Span)
    (lower : Option Expr) :
    Parser.Composed (grammar.sliceRest start lower) := by
  refine (composed_expect _).discard.bind fun _ => ?_
  refine (composed_sliceBound hGrammar).bind fun _ => ?_
  refine (composed_eat _).bind fun _ => ?_
  refine .iteBind (composed_sliceBound hGrammar) (.pure none) fun _ => ?_
  exact composed_previousSpan.bind fun _ => .pure _

theorem composed_subscriptItem
    (hGrammar : grammar.Composed) :
    Parser.Composed grammar.subscriptItem := by
  refine composed_currentSpan.bind fun _ => ?_
  refine (composed_check _).bind fun _ =>
    .ite (composed_sliceRest hGrammar _ _) ?_
  refine hGrammar.expression.bind fun _ => ?_
  exact (composed_check _).bind fun _ =>
    .ite (composed_sliceRest hGrammar _ _) (.pure _)

theorem composed_subscriptIndex
    (hGrammar : grammar.Composed) :
    Parser.Composed grammar.subscriptIndex :=
  (composed_subscriptItem hGrammar).bind fun _ =>
    composed_orTuple (composed_subscriptItem hGrammar) _ _

------------------------------------------------------------
-- Atoms
------------------------------------------------------------

theorem composed_strings : Parser.Composed strings := by
  refine composed_currentSpan.bind fun _ => ?_
  refine (composed_loop (fun text => ?_) _).bind fun _ => ?_
  · refine composed_peek.bind fun kind => ?_
    split
    · exact composed_advance.discard.bind fun _ => .pure _
    · exact .pure _
  · exact composed_previousSpan.bind fun _ => .pure _

theorem composed_parenthesized
    (hGrammar : grammar.Composed) :
    Parser.Composed grammar.parenthesized := by
  have hItem := composed_item hGrammar
  refine composed_advance.bind fun _ => ?_
  refine (composed_check _).bind fun _ =>
    .ite (composed_advance.bind fun _ => .pure _) ?_
  refine hItem.bind fun _ => composed_refuseComprehension.bind fun _ => ?_
  refine (composed_eat _).bind fun _ => .ite (.pure _) ?_
  refine (composed_moreItems hItem _ _).bind fun _ => ?_
  exact (composed_expectClosing _ _).bind fun _ => .pure _

theorem composed_listDisplay
    (hGrammar : grammar.Composed) :
    Parser.Composed grammar.listDisplay := by
  refine composed_advance.bind fun _ => ?_
  refine (composed_itemsUntil ?_ _).bind fun _ => ?_
  · exact (composed_item hGrammar).bind fun _ =>
      composed_refuseComprehension.bind fun _ => .pure _
  · exact (composed_expectClosing _ _).bind fun _ => .pure _

theorem composed_dictEntry
    (hGrammar : grammar.Composed) :
    Parser.Composed grammar.dictEntry := by
  refine hGrammar.expression.bind fun _ => ?_
  refine (composed_expect _).discard.bind fun _ => ?_
  exact hGrammar.expression.bind fun _ => .pure _

theorem composed_braceDisplay
    (hGrammar : grammar.Composed) :
    Parser.Composed grammar.braceDisplay := by
  refine composed_advance.bind fun _ => ?_
  refine (composed_check _).bind fun _ =>
    .ite (composed_advance.bind fun _ => .pure _) ?_
  refine (composed_item hGrammar).bind fun _ => ?_
  refine composed_refuseComprehension.bind fun _ => ?_
  refine (composed_eat _).bind fun _ => .ite ?_ ?_
  · refine hGrammar.expression.bind fun _ => ?_
    refine composed_refuseComprehension.bind fun _ => ?_
    refine ((composed_moreItems (composed_dictEntry hGrammar) _ _).map
      _).bind fun _ => ?_
    exact (composed_expectClosing _ _).bind fun _ => .pure _
  · refine ((composed_moreItems (composed_item hGrammar) _ _).map
      _).bind fun _ => ?_
    exact (composed_expectClosing _ _).bind fun _ => .pure _

theorem composed_literal
    (form : ExprForm Expr) :
    Parser.Composed (literal form) :=
  composed_advance.bind fun _ => .pure _

theorem composed_atom
    (hGrammar : grammar.Composed) :
    Parser.Composed grammar.atom := by
  refine composed_peek.bind fun kind => ?_
  -- Six kinds of literals and names come before the displays.
  split
  iterate 6 exact composed_literal _
  · exact composed_strings
  · exact composed_parenthesized hGrammar
  · exact composed_listDisplay hGrammar
  · exact composed_braceDisplay hGrammar
  · exact composed_refuse _ _
  · exact composed_refuse _ _

theorem composed_primary
    (hGrammar : grammar.Composed) :
    Parser.Composed grammar.primary := by
  refine (composed_atom hGrammar).bind fun first => ?_
  refine composed_loop (fun object => ?_) first
  refine composed_peek.bind fun kind => ?_
  split
  · refine composed_advance.bind fun _ => ?_
    refine (composed_arguments hGrammar _).bind fun _ => ?_
    exact composed_previousSpan.bind fun _ => .pure _
  · refine composed_advance.bind fun _ => ?_
    refine (composed_subscriptIndex hGrammar).bind fun _ => ?_
    refine (composed_expectClosing _ _).discard.bind fun _ => ?_
    exact composed_previousSpan.bind fun _ => .pure _
  · refine composed_advance.discard.bind fun _ => ?_
    exact composed_expectName.bind fun _ => .pure _
  · exact .pure _

------------------------------------------------------------
-- Operators
------------------------------------------------------------

theorem composed_power
    (hGrammar : grammar.Composed) :
    Parser.Composed grammar.power := by
  refine (composed_primary hGrammar).bind fun _ => ?_
  refine (composed_eat _).bind fun _ => .ite ?_ (.pure _)
  exact (composed_nested hGrammar.factor).bind fun _ => .pure _

theorem composed_signed
    (hGrammar : grammar.Composed) :
    Parser.Composed grammar.signed := by
  refine composed_peek.bind fun kind => ?_
  split
  · exact composed_power hGrammar
  · refine composed_advance.bind fun _ => ?_
    exact (composed_nested hGrammar.factor).bind fun _ => .pure _

theorem composed_binaryLevel
    {operand : Parser Expr}
    (hOperand : Parser.Composed operand)
    (opFor : TokenKind → Option BinaryOp) :
    Parser.Composed (binaryLevel operand opFor) := by
  refine hOperand.bind fun first => composed_loop (fun left => ?_) first
  refine composed_peek.bind fun kind => ?_
  split
  · exact .pure _
  · refine composed_advance.discard.bind fun _ => ?_
    exact hOperand.bind fun _ => .pure _

/- So is any tower of levels of operators. -/
theorem composed_binaryLevels
    (levels : List (TokenKind → Option BinaryOp))
    {operand : Parser Expr}
    (hOperand : Parser.Composed operand) :
    Parser.Composed (levels.foldl binaryLevel operand) := by
  induction levels generalizing operand with
  | nil => exact hOperand
  | cons level levels ih => exact ih (composed_binaryLevel hOperand level)

theorem composed_comparisonOp? : Parser.Composed comparisonOp? := by
  have hSingle (op : CompareOp) :
      Parser.Composed (comparisonOp?.single op) :=
    composed_advance.discard.bind fun _ => .pure _
  have hDouble (op : CompareOp) :
      Parser.Composed (comparisonOp?.double op) :=
    composed_advance.discard.bind fun _ => hSingle op
  refine composed_peek.bind fun kind => ?_
  refine (composed_peekAhead 1).bind fun next => ?_
  split
  all_goals
    first
    | exact hSingle _
    | exact hDouble _
    | exact .pure _

theorem composed_comparison
    (hGrammar : grammar.Composed) :
    Parser.Composed grammar.comparison := by
  have hBinary :=
    composed_binaryLevels binaryLevels (composed_signed hGrammar)
  refine hBinary.bind fun _ => ?_
  refine (composed_loop (fun rest => ?_) _).bind fun rest => ?_
  · refine composed_comparisonOp?.bind fun op => ?_
    split
    · exact .pure _
    · exact hBinary.bind fun _ => .pure _
  · exact .ite (.pure _) (composed_previousSpan.bind fun _ => .pure _)

theorem composed_negation
    (hGrammar : grammar.Composed) :
    Parser.Composed grammar.negation := by
  refine (composed_check _).bind fun _ =>
    .ite ?_ (composed_comparison hGrammar)
  refine composed_advance.bind fun _ => ?_
  exact (composed_nested hGrammar.notTest).bind fun _ => .pure _

theorem composed_booleanLevel
    {operand : Parser Expr}
    (hOperand : Parser.Composed operand)
    (word : Keyword)
    (op : BoolOp) :
    Parser.Composed (booleanLevel word op operand) := by
  refine hOperand.bind fun first => ?_
  refine (composed_check _).bind fun _ => .ite ?_ (.pure _)
  refine (composed_loop (fun values => ?_) _).bind fun _ => ?_
  · refine (composed_eat _).bind fun _ => .ite ?_ (.pure _)
    exact hOperand.bind fun _ => .pure _
  · exact composed_previousSpan.bind fun _ => .pure _

theorem composed_conjunction
    (hGrammar : grammar.Composed) :
    Parser.Composed (booleanLevel .andWord .and grammar.negation) :=
  composed_booleanLevel (composed_negation hGrammar) .andWord .and

theorem composed_disjunction
    (hGrammar : grammar.Composed) :
    Parser.Composed grammar.disjunction :=
  composed_booleanLevel (composed_conjunction hGrammar) .orWord .or

------------------------------------------------------------
-- Whole Expressions
------------------------------------------------------------

theorem composed_conditional
    (hGrammar : grammar.Composed) :
    Parser.Composed grammar.conditional := by
  have hTest := composed_disjunction hGrammar
  refine hTest.bind fun _ => ?_
  refine (composed_eat _).bind fun _ => .ite ?_ (.pure _)
  refine hTest.bind fun _ => (composed_expect _).discard.bind fun _ => ?_
  exact hGrammar.expression.bind fun _ => .pure _

theorem composed_lambda
    (hGrammar : grammar.Composed) :
    Parser.Composed grammar.lambda := by
  refine composed_advance.bind fun _ => ?_
  refine (composed_params hGrammar _ _).bind fun _ => ?_
  refine (composed_expect _).discard.bind fun _ => ?_
  exact hGrammar.expression.bind fun _ => .pure _

theorem composed_step
    (hGrammar : grammar.Composed) :
    grammar.step.Composed where
  expression :=
    composed_nested ((composed_check _).bind fun _ =>
      .ite (composed_lambda hGrammar) (composed_conditional hGrammar))
  notTest := composed_negation hGrammar
  bitOr := composed_binaryLevels binaryLevels (composed_signed hGrammar)
  factor := composed_signed hGrammar

end Rules

theorem composed_levels
    (count : Nat) :
    (levels count).Composed := by
  induction count with
  | zero => exact ⟨.throw _, .throw _, .throw _, .throw _⟩
  | succ count ih =>
      exact composed_step
        ⟨ih.expression, ih.notTest, ih.bitOr, ih.factor⟩

theorem composed_top : top.Composed where
  expression := by
    let family := fun count => (levels (count + 1)).expression
    exact .remaining family fun count =>
      (composed_levels (count + 1)).expression
  notTest := by
    let family := fun count => (levels (count + 1)).notTest
    exact .remaining family fun count =>
      (composed_levels (count + 1)).notTest
  bitOr := by
    let family := fun count => (levels (count + 1)).bitOr
    exact .remaining family fun count =>
      (composed_levels (count + 1)).bitOr
  factor := by
    let family := fun count => (levels (count + 1)).factor
    exact .remaining family fun count =>
      (composed_levels (count + 1)).factor

/-
  The productions for expressions over given rules for inner
  ones. Operators of the levels up to one of them are read as
  one tower.
-/
inductive Rule (grammar : ExprGrammar) : {α : Type} → Parser α → Prop
  | expression : Rule grammar grammar.expression
  | notTest : Rule grammar grammar.notTest
  | bitOr : Rule grammar grammar.bitOr
  | factor : Rule grammar grammar.factor
  | item : Rule grammar grammar.item
  | target : Rule grammar (grammar.starred grammar.bitOr)
  | exprList : Rule grammar grammar.exprList
  | targetList : Rule grammar grammar.targetList
  | noComprehension : Rule grammar refuseComprehension
  | skipAnnotation (annotated : Bool) :
      Rule grammar (grammar.skipAnnotation annotated)
  | params (closing : Mark) (annotated : Bool) :
      Rule grammar (grammar.params closing annotated)
  | arguments (openedAt : Span) : Rule grammar (grammar.arguments openedAt)
  | sliceBound : Rule grammar grammar.sliceBound
  | subscriptItem : Rule grammar grammar.subscriptItem
  | subscriptIndex : Rule grammar grammar.subscriptIndex
  | strings : Rule grammar strings
  | parenthesized : Rule grammar grammar.parenthesized
  | listDisplay : Rule grammar grammar.listDisplay
  | dictEntry : Rule grammar grammar.dictEntry
  | braceDisplay : Rule grammar grammar.braceDisplay
  | atom : Rule grammar grammar.atom
  | primary : Rule grammar grammar.primary
  | power : Rule grammar grammar.power
  | signed : Rule grammar grammar.signed
  | binary (count : Nat) :
      Rule grammar
        ((binaryLevels.take count).foldl binaryLevel grammar.signed)
  | comparisonOp : Rule grammar comparisonOp?
  | comparison : Rule grammar grammar.comparison
  | negation : Rule grammar grammar.negation
  | conjunction : Rule grammar (booleanLevel .andWord .and grammar.negation)
  | disjunction : Rule grammar grammar.disjunction
  | conditional : Rule grammar grammar.conditional
  | lambda : Rule grammar grammar.lambda

theorem Rule.composed
    {grammar : ExprGrammar}
    (hGrammar : grammar.Composed)
    {α : Type}
    {parser : Parser α}
    (hRule : grammar.Rule parser) :
    Parser.Composed parser := by
  cases hRule with
  | expression => exact hGrammar.expression
  | notTest => exact hGrammar.notTest
  | bitOr => exact hGrammar.bitOr
  | factor => exact hGrammar.factor
  | item => exact composed_item hGrammar
  | target => exact composed_target hGrammar
  | exprList => exact composed_exprList hGrammar
  | targetList => exact composed_targetList hGrammar
  | noComprehension => exact composed_refuseComprehension
  | skipAnnotation annotated => exact composed_annotationSkipped hGrammar _
  | params closing annotated => exact composed_params hGrammar _ _
  | arguments openedAt => exact composed_arguments hGrammar _
  | sliceBound => exact composed_sliceBound hGrammar
  | subscriptItem => exact composed_subscriptItem hGrammar
  | subscriptIndex => exact composed_subscriptIndex hGrammar
  | strings => exact composed_strings
  | parenthesized => exact composed_parenthesized hGrammar
  | listDisplay => exact composed_listDisplay hGrammar
  | dictEntry => exact composed_dictEntry hGrammar
  | braceDisplay => exact composed_braceDisplay hGrammar
  | atom => exact composed_atom hGrammar
  | primary => exact composed_primary hGrammar
  | power => exact composed_power hGrammar
  | signed => exact composed_signed hGrammar
  | binary count => exact composed_binaryLevels _ (composed_signed hGrammar)
  | comparisonOp => exact composed_comparisonOp?
  | comparison => exact composed_comparison hGrammar
  | negation => exact composed_negation hGrammar
  | conjunction => exact composed_conjunction hGrammar
  | disjunction => exact composed_disjunction hGrammar
  | conditional => exact composed_conditional hGrammar
  | lambda => exact composed_lambda hGrammar

end ExprGrammar

------------------------------------------------------------
-- Simple Statements
------------------------------------------------------------

theorem composed_checkTarget
    (unpacking : Bool)
    (target : Expr) :
    Parser.Composed (checkTarget unpacking target) :=
  composed_forM fun _ => composed_reportAt _ _ _

namespace SimpleStmt

theorem composed_exprList :
    Parser.Composed ExprGrammar.top.exprList :=
  ExprGrammar.composed_exprList ExprGrammar.composed_top

theorem composed_orNothing
    {part : Parser Expr}
    (hPart : Parser.Composed part) :
    Parser.Composed (orNothing part) :=
  composed_peek.bind fun _ =>
    .ite (.pure _) (hPart.bind fun _ => .pure _)

theorem composed_dottedName : Parser.Composed dottedName := by
  refine composed_expectName.bind fun first => ?_
  refine composed_loop (fun found => ?_) _
  refine (composed_eat _).bind fun _ => .ite ?_ (.pure _)
  exact composed_expectName.bind fun _ => .pure _

theorem composed_importAlias
    (dotted : Bool) :
    Parser.Composed (importAlias dotted) := by
  have hRest (name : String) (span : Span) :
      Parser.Composed
        (do
          if ← eat (.keyword .asWord) then
            let asName ← expectName
            return ⟨name, some asName, span.merge asName.span⟩
          return ⟨name, none, span⟩ : Parser Alias) :=
    (composed_eat _).bind fun _ =>
      .ite (composed_expectName.bind fun _ => .pure _) (.pure _)
  refine .ite ?_ ?_
  · exact Composed.bind composed_dottedName fun _ => hRest _ _
  · exact composed_expectName.bind fun _ => hRest _ _

theorem composed_importAliases
    (dotted : Bool) :
    Parser.Composed (importAliases dotted) :=
  (composed_importAlias dotted).bind fun _ =>
    composed_moreItems (composed_importAlias dotted) _ _

theorem composed_importFrom : Parser.Composed importFrom := by
  have hRest (start : Span) (source : String) (names : List Alias) :
      Parser.Composed
        (do
          return .mk (start.merge (← previousSpan))
            (.importFrom source names) : Parser Stmt) :=
    composed_previousSpan.bind fun _ => .pure _
  refine composed_advance.bind fun start => ?_
  refine Composed.bind composed_dottedName fun found => ?_
  refine (composed_expect _).discard.bind fun _ => ?_
  refine (composed_check _).bind fun _ => .guardBind (composed_refuse _ _) ?_
  refine (composed_check _).bind fun _ => .ite ?_ ?_
  · refine composed_advance.bind fun _ => ?_
    refine (composed_importAliases false).bind fun names => ?_
    refine (composed_expectClosing _ _).discard.bind fun _ => ?_
    exact hRest start.span found.1 names
  · exact (composed_importAliases false).bind fun names =>
      hRest start.span found.1 names

theorem composed_expressionOrAssignment :
    Parser.Composed expressionOrAssignment := by
  refine Composed.bind composed_exprList fun first => ?_
  refine composed_peek.bind fun kind => ?_
  split
  · refine composed_advance.discard.bind fun _ => ?_
    refine (composed_checkTarget false first).bind fun _ => ?_
    exact Composed.bind composed_exprList fun _ => .pure _
  · refine (composed_eat _).bind fun _ => .ite ?_ (.pure _)
    refine Composed.bind composed_exprList fun second => ?_
    refine (composed_loop (fun found => ?_) _).bind fun found => ?_
    · refine (composed_eat _).bind fun _ => .ite ?_ (.pure _)
      exact Composed.bind composed_exprList fun _ => .pure _
    · exact (composed_forM (composed_checkTarget true)).bind
        fun _ => .pure _

theorem composed_worded
    {rest : Parser (StmtForm Stmt)}
    (hRest : Parser.Composed rest) :
    Parser.Composed (worded rest) :=
  composed_advance.bind fun _ => hRest.bind fun _ =>
    composed_previousSpan.bind fun _ => .pure _

theorem composed_assertion : Parser.Composed assertion := by
  have hExpression := ExprGrammar.composed_top.expression
  refine hExpression.bind fun _ => (composed_eat _).bind fun _ => ?_
  exact .iteBind (hExpression.map some) (.pure none) fun _ => .pure _

theorem composed_statement : Parser.Composed statement := by
  have hExpression := ExprGrammar.composed_top.expression
  refine composed_peek.bind fun kind => ?_
  split
  · exact composed_worded (.pure _)
  · exact composed_worded (.pure _)
  · exact composed_worded (.pure _)
  · exact composed_worded
      ((composed_orNothing composed_exprList).bind fun _ => .pure _)
  · exact composed_worded
      ((composed_orNothing hExpression).bind fun _ => .pure _)
  · exact composed_worded composed_assertion
  · exact composed_worded
      ((composed_importAliases true).bind fun _ => .pure _)
  · exact composed_importFrom
  · exact composed_refuse _ _
  · exact composed_expressionOrAssignment

theorem composed_line : Parser.Composed line := by
  refine Composed.bind composed_statement fun first => ?_
  refine (composed_loop (fun stmts => ?_) _).bind fun _ => ?_
  · refine (composed_eat _).bind fun _ => .ite (.pure _) ?_
    refine composed_peek.bind fun kind => ?_
    split
    · exact .pure _
    · exact .pure _
    · exact Composed.bind composed_statement fun _ => .pure _
  · exact composed_expectNewline.bind fun _ => .pure _

end SimpleStmt

------------------------------------------------------------
-- Compound Statements
------------------------------------------------------------

namespace StmtGrammar

open SimpleStmt

/- Rules for inner statements that are put together from steps. -/
structure Composed (grammar : StmtGrammar) : Prop where
  statements : Parser.Composed grammar.statements
  branch : Parser.Composed grammar.branch

section Rules

variable {grammar : StmtGrammar}

theorem composed_statementsUntil
    (hGrammar : grammar.Composed)
    (isEnd isSkipped : TokenKind → Bool) :
    Parser.Composed (grammar.statementsUntil isEnd isSkipped) := by
  refine composed_loop (fun body => ?_) []
  refine composed_peek.bind fun kind => ?_
  refine Parser.Composed.full.bind fun _ => .ite (.pure _) ?_
  refine .ite (composed_advance.discard.bind fun _ => .pure _) ?_
  refine hGrammar.statements.attempt.bind fun found => ?_
  cases found with
  | some stmts => exact .pure _
  | none => exact composed_synchronize.bind fun _ => .pure _

theorem composed_block
    (hGrammar : grammar.Composed) :
    Parser.Composed grammar.block := by
  refine (composed_eat _).bind fun _ => .ite composed_line ?_
  refine (composed_eat _).bind fun _ => .ite (composed_refuse _ _) ?_
  refine .guarded .block ?_ ?_
  · exact composed_previousSpan.bind fun _ => composed_refuseAt _ _ _
  · refine (composed_statementsUntil hGrammar _ _).bind fun _ => ?_
    exact (composed_eat _).discard.bind fun _ => .pure _

theorem composed_body
    (hGrammar : grammar.Composed) :
    Parser.Composed grammar.body :=
  (composed_expect _).discard.bind fun _ => composed_block hGrammar

theorem composed_elseBody
    (hGrammar : grammar.Composed) :
    Parser.Composed grammar.elseBody :=
  (composed_eat _).bind fun _ => .ite (composed_body hGrammar) (.pure _)

theorem composed_functionDef
    (hGrammar : grammar.Composed) :
    Parser.Composed grammar.functionDef := by
  have hTop := ExprGrammar.composed_top
  have hBody (name : Ident) (params : List (Param Expr)) :
      Parser.Composed
        (do return .functionDef name params (← grammar.body) :
          Parser (StmtForm Stmt)) :=
    (composed_body hGrammar).bind fun _ => .pure _
  refine composed_expectName.bind fun name => ?_
  refine (composed_expect _).bind fun _ => ?_
  refine (ExprGrammar.composed_params hTop _ _).bind fun params => ?_
  refine (composed_expectClosing _ _).discard.bind fun _ => ?_
  exact (composed_eat _).bind fun _ =>
    .guardBind hTop.expression.discard (hBody name params)

theorem composed_classBase : Parser.Composed classBase := by
  refine composed_peek.bind fun kind => ?_
  refine (composed_peekAhead 1).bind fun next => ?_
  split
  · exact composed_refuse _ _
  · exact ExprGrammar.composed_top.expression

theorem composed_classDef
    (hGrammar : grammar.Composed) :
    Parser.Composed grammar.classDef := by
  have hBody (name : Ident) (bases : List Expr) :
      Parser.Composed
        (do return .classDef name bases (← grammar.body) :
          Parser (StmtForm Stmt)) :=
    (composed_body hGrammar).bind fun _ => .pure _
  refine composed_expectName.bind fun name => ?_
  refine (composed_check _).bind fun _ => .ite ?_ (hBody name [])
  refine composed_advance.bind fun _ => ?_
  refine (composed_itemsUntil composed_classBase _).bind fun bases => ?_
  refine (composed_expectClosing _ _).discard.bind fun _ => ?_
  exact hBody name bases

theorem composed_ifElse
    (hGrammar : grammar.Composed) :
    Parser.Composed grammar.ifElse := by
  refine ExprGrammar.composed_top.expression.bind fun _ => ?_
  refine (composed_body hGrammar).bind fun _ => ?_
  refine (composed_check _).bind fun _ => .ite ?_ ?_
  · exact hGrammar.branch.bind fun _ => .pure _
  · exact (composed_elseBody hGrammar).bind fun _ => .pure _

theorem composed_whileLoop
    (hGrammar : grammar.Composed) :
    Parser.Composed grammar.whileLoop := by
  refine ExprGrammar.composed_top.expression.bind fun _ => ?_
  refine (composed_body hGrammar).bind fun _ => ?_
  exact (composed_elseBody hGrammar).bind fun _ => .pure _

theorem composed_forLoop
    (hGrammar : grammar.Composed) :
    Parser.Composed grammar.forLoop := by
  refine (ExprGrammar.composed_targetList
    ExprGrammar.composed_top).bind fun target => ?_
  refine (composed_checkTarget true target).bind fun _ => ?_
  refine (composed_expect _).discard.bind fun _ => ?_
  refine Composed.bind composed_exprList fun _ => ?_
  refine (composed_body hGrammar).bind fun _ => ?_
  exact (composed_elseBody hGrammar).bind fun _ => .pure _

theorem composed_lineOrCompound
    (hGrammar : grammar.Composed) :
    Parser.Composed grammar.lineOrCompound := by
  have hSingle {rest : Parser (StmtForm Stmt)}
      (hRest : Parser.Composed rest) :
      Parser.Composed (lineOrCompound.single rest) :=
    (composed_worded hRest).bind fun _ => .pure _
  refine composed_peek.bind fun kind => ?_
  split
  · exact hSingle (composed_functionDef hGrammar)
  · exact hSingle (composed_classDef hGrammar)
  · exact hSingle (composed_ifElse hGrammar)
  · exact hSingle (composed_whileLoop hGrammar)
  · exact hSingle (composed_forLoop hGrammar)
  · exact composed_refuse _ _
  · exact composed_line

theorem composed_step
    (hGrammar : grammar.Composed) :
    grammar.step.Composed where
  statements := composed_lineOrCompound hGrammar
  branch := composed_worded (composed_ifElse hGrammar)

end Rules

theorem composed_levels
    (count : Nat) :
    (levels count).Composed := by
  induction count with
  | zero => exact ⟨.throw _, .throw _⟩
  | succ count ih =>
      rw [levels]
      exact composed_step ⟨ih.statements, ih.branch⟩

theorem composed_top : top.Composed where
  statements := by
    let family := fun count => (levels (count + 1)).statements
    exact .remaining family fun count =>
      (composed_levels (count + 1)).statements
  branch := by
    let family := fun count => (levels (count + 1)).branch
    exact .remaining family fun count =>
      (composed_levels (count + 1)).branch

/- The productions for statements over given rules for inner ones. -/
inductive Rule (grammar : StmtGrammar) : {α : Type} → Parser α → Prop
  | statements : Rule grammar grammar.statements
  | branch : Rule grammar grammar.branch
  | checkTarget (unpacking : Bool) (target : Expr) :
      Rule grammar (checkTarget unpacking target)
  | dottedName : Rule grammar dottedName
  | importAlias (dotted : Bool) : Rule grammar (importAlias dotted)
  | importAliases (dotted : Bool) : Rule grammar (importAliases dotted)
  | importFrom : Rule grammar importFrom
  | expressionOrAssignment : Rule grammar expressionOrAssignment
  | assertion : Rule grammar assertion
  | statement : Rule grammar statement
  | line : Rule grammar line
  | statementsUntil (isEnd isSkipped : TokenKind → Bool) :
      Rule grammar (grammar.statementsUntil isEnd isSkipped)
  | block : Rule grammar grammar.block
  | body : Rule grammar grammar.body
  | elseBody : Rule grammar grammar.elseBody
  | functionDef : Rule grammar grammar.functionDef
  | classBase : Rule grammar classBase
  | classDef : Rule grammar grammar.classDef
  | ifElse : Rule grammar grammar.ifElse
  | whileLoop : Rule grammar grammar.whileLoop
  | forLoop : Rule grammar grammar.forLoop
  | worded {rest : Parser (StmtForm Stmt)} (hRest : Rule grammar rest) :
      Rule grammar (worded rest)
  | lineOrCompound : Rule grammar grammar.lineOrCompound

theorem Rule.composed
    {grammar : StmtGrammar}
    (hGrammar : grammar.Composed)
    {α : Type}
    {parser : Parser α}
    (hRule : grammar.Rule parser) :
    Parser.Composed parser := by
  induction hRule with
  | statements => exact hGrammar.statements
  | branch => exact hGrammar.branch
  | checkTarget unpacking target => exact composed_checkTarget _ _
  | dottedName => exact composed_dottedName
  | importAlias dotted => exact composed_importAlias dotted
  | importAliases dotted => exact composed_importAliases dotted
  | importFrom => exact composed_importFrom
  | expressionOrAssignment => exact composed_expressionOrAssignment
  | assertion => exact composed_assertion
  | statement => exact composed_statement
  | line => exact composed_line
  | statementsUntil isEnd isSkipped =>
      exact composed_statementsUntil hGrammar isEnd isSkipped
  | block => exact composed_block hGrammar
  | body => exact composed_body hGrammar
  | elseBody => exact composed_elseBody hGrammar
  | functionDef => exact composed_functionDef hGrammar
  | classBase => exact composed_classBase
  | classDef => exact composed_classDef hGrammar
  | ifElse => exact composed_ifElse hGrammar
  | whileLoop => exact composed_whileLoop hGrammar
  | forLoop => exact composed_forLoop hGrammar
  | worded _ ih => exact composed_worded ih
  | lineOrCompound => exact composed_lineOrCompound hGrammar

end StmtGrammar

------------------------------------------------------------
-- All Productions
------------------------------------------------------------

theorem composed_program : Parser.Composed program := by
  refine composed_currentSpan.bind fun start => ?_
  refine (StmtGrammar.composed_statementsUntil
    StmtGrammar.composed_top _ _).bind fun body => ?_
  split <;> exact .pure _

/-
  The productions of the grammar: those for expressions and for
  statements, at the top and at every level below it, and the
  one for programs.
-/
inductive Production : {α : Type} → Parser α → Prop
  | innerExpression {α : Type} {parser : Parser α} (count : Nat)
      (hRule : (ExprGrammar.levels count).Rule parser) :
      Production parser
  | expression {α : Type} {parser : Parser α}
      (hRule : ExprGrammar.top.Rule parser) :
      Production parser
  | innerStatement {α : Type} {parser : Parser α} (count : Nat)
      (hRule : (StmtGrammar.levels count).Rule parser) :
      Production parser
  | statement {α : Type} {parser : Parser α}
      (hRule : StmtGrammar.top.Rule parser) :
      Production parser
  | program : Production program

/- Every production is put together from steps. -/
theorem Production.composed
    {α : Type}
    {parser : Parser α}
    (hParser : Production parser) :
    Parser.Composed parser := by
  cases hParser with
  | innerExpression count hRule =>
      exact hRule.composed (ExprGrammar.composed_levels count)
  | expression hRule => exact hRule.composed ExprGrammar.composed_top
  | innerStatement count hRule =>
      exact hRule.composed (StmtGrammar.composed_levels count)
  | statement hRule => exact hRule.composed StmtGrammar.composed_top
  | program => exact composed_program

end SnippetGrader
