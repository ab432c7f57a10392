import SnippetGrader.Parsing.Expression
import SnippetGrader.Proofs.Parsing.Agreement

/-
  Expressions from tokens of the same kinds.

  Each rule reads the same expressions up to positions from
  tokens of the same kinds if the rules for inner expressions
  do, and so do the rules of every level.

  Key definitions include:
    * `ExprGrammar.Agrees`

  Key theorems include:
    * `ExprGrammar.agrees_step`
    * `ExprGrammar.agrees_top`
-/

namespace SnippetGrader

namespace ExprGrammar

open SnippetGrader.Parser

/- Rules for inner expressions for which only the kinds of tokens matter. -/
structure Agrees (grammar : ExprGrammar) : Prop where
  expression :
    Parser.Agrees Expr.erased grammar.expression grammar.expression
  notTest : Parser.Agrees Expr.erased grammar.notTest grammar.notTest
  bitOr : Parser.Agrees Expr.erased grammar.bitOr grammar.bitOr
  factor : Parser.Agrees Expr.erased grammar.factor grammar.factor

section Rules

variable {grammar : ExprGrammar}

------------------------------------------------------------
-- Starred Items and Tuples
------------------------------------------------------------

theorem agrees_starred
    (hGrammar : grammar.Agrees)
    {unstarred : Parser Expr}
    (hUnstarred : Parser.Agrees Expr.erased unstarred unstarred) :
    Parser.Agrees Expr.erased (grammar.starred unstarred)
      (grammar.starred unstarred) := by
  refine (agrees_check _).bindSame fun _ => .ite ?_ hUnstarred
  refine agrees_advance.bind fun _ _ _ => ?_
  refine hGrammar.bitOr.bind fun inner inner' hInner => .pure ?_
  simp [Expr.erased, ExprForm.erased, hInner]

theorem agrees_item
    (hGrammar : grammar.Agrees) :
    Parser.Agrees Expr.erased grammar.item grammar.item :=
  agrees_starred hGrammar hGrammar.expression

theorem agrees_orTuple
    {next : Parser Expr}
    (hNext : Parser.Agrees Expr.erased next next)
    (isEnd : TokenKind → Bool)
    {first first' : Expr}
    (hFirst : first.erased = first'.erased) :
    Parser.Agrees Expr.erased (orTuple isEnd next first)
      (orTuple isEnd next first') := by
  refine (agrees_check _).bindSame fun _ => .ite ?_ (.pure hFirst)
  have hStart : [first].map Expr.erased = [first'].map Expr.erased :=
    congrArg (fun expr => [expr]) hFirst
  refine (agrees_moreItems hNext isEnd hStart).bind
    fun items items' hItems => ?_
  refine agrees_previousSpan.bind fun _ _ _ => .pure ?_
  simp [Expr.erased, ExprForm.erased, hItems]

theorem agrees_exprList
    (hGrammar : grammar.Agrees) :
    Parser.Agrees Expr.erased grammar.exprList grammar.exprList :=
  (agrees_item hGrammar).bind fun _ _ hFirst =>
    agrees_orTuple (agrees_item hGrammar) _ hFirst

theorem agrees_targetList
    (hGrammar : grammar.Agrees) :
    Parser.Agrees Expr.erased grammar.targetList grammar.targetList :=
  (agrees_starred hGrammar hGrammar.bitOr).bind fun _ _ hFirst =>
    agrees_orTuple (agrees_starred hGrammar hGrammar.bitOr) _ hFirst

theorem agrees_refuseComprehension :
    Parser.Agrees id refuseComprehension refuseComprehension :=
  (agrees_check _).bindSame fun _ => .ite (agrees_refuse _ _ _) (.pure rfl)

------------------------------------------------------------
-- Parameters
------------------------------------------------------------

/- The parameters read so far without positions. -/
def ParamState.erased (state : ParamState) : ParamState :=
  { state with params := state.params.map Param.erased }

theorem ParamState.erased_inj
    {state state' : ParamState} :
    state.erased = state'.erased ↔
      state.params.map Param.erased = state'.params.map Param.erased ∧
        state.keywordOnly = state'.keywordOnly ∧
        state.seenSlash = state'.seenSlash ∧
        state.seenDefault = state'.seenDefault := by
  simp [erased]

theorem agrees_annotationSkipped
    (hGrammar : grammar.Agrees)
    (annotated : Bool) :
    Parser.Agrees id (grammar.skipAnnotation annotated)
      (grammar.skipAnnotation annotated) :=
  .ite
    ((agrees_eat _).bindSame fun _ =>
      .ite hGrammar.expression.discard (.pure rfl))
    (.pure rfl)

section States

variable {state state' : ParamState}

theorem agrees_slashParam
    (hState : state.erased = state'.erased) :
    Parser.Agrees ParamState.erased (slashParam state)
      (slashParam state') := by
  obtain ⟨hParams, hKeyword, hSlash, hDefault⟩ :=
    ParamState.erased_inj.mp hState
  have hEmpty : state.params.isEmpty = state'.params.isEmpty := by
    simpa using congrArg List.isEmpty hParams
  refine agrees_advance.bind fun _ _ _ => ?_
  rw [hSlash, hKeyword, hEmpty]
  refine .ite (agrees_refuseAt _ _ _ _) (.pure ?_)
  refine ParamState.erased_inj.mpr ⟨?_, rfl, rfl, hDefault⟩
  have hPositional :=
    congrArg
      (List.map fun param : Param Expr =>
        { param with kind := .positionalOnly }) hParams
  simpa [Param.erased, Function.comp_def] using hPositional

/- One more parameter. -/
theorem ParamState.map_erased_append
    (hState : state.erased = state'.erased)
    {param param' : Param Expr}
    (hParam : param.erased = param'.erased) :
    (state.params ++ [param]).map Param.erased =
      (state'.params ++ [param']).map Param.erased := by
  simp [(ParamState.erased_inj.mp hState).1, hParam]

theorem agrees_varKeywordParam
    (hGrammar : grammar.Agrees)
    (closing : Mark)
    (annotated : Bool)
    (hState : state.erased = state'.erased) :
    Parser.Agrees ParamState.erased
      (grammar.varKeywordParam closing annotated state)
      (grammar.varKeywordParam closing annotated state') := by
  refine agrees_advance.bind fun _ _ _ => ?_
  refine agrees_expectName.bind fun name name' hName => ?_
  refine (agrees_annotationSkipped hGrammar annotated).bindSame fun _ => ?_
  refine (agrees_eat _).discard.bindSame fun _ => ?_
  refine (agrees_check _).bindSame fun _ => .ite ?_ (agrees_refuse _ _ _)
  refine .pure (ParamState.erased_inj.mpr
    ⟨ParamState.map_erased_append hState ?_,
      (ParamState.erased_inj.mp hState).2⟩)
  simp [Param.erased, hName]

theorem agrees_starParam
    (hGrammar : grammar.Agrees)
    (closing : Mark)
    (annotated : Bool)
    (hState : state.erased = state'.erased) :
    Parser.Agrees ParamState.erased
      (grammar.starParam closing annotated state)
      (grammar.starParam closing annotated state') := by
  obtain ⟨hParams, hKeyword, hSlash, hDefault⟩ :=
    ParamState.erased_inj.mp hState
  refine agrees_advance.bind fun _ _ _ => ?_
  rw [hKeyword]
  refine .ite (agrees_refuseAt _ _ _ _) ?_
  refine agrees_peek.bindSame fun kind => ?_
  split
  · refine agrees_expectName.bind fun name name' hName => ?_
    refine (agrees_annotationSkipped hGrammar annotated).bindSame fun _ => ?_
    refine .pure (ParamState.erased_inj.mpr
      ⟨ParamState.map_erased_append hState ?_, rfl, hSlash, hDefault⟩)
    simp [Param.erased, hName]
  · refine .ite (agrees_refuseAt _ _ _ _) (.pure ?_)
    exact ParamState.erased_inj.mpr ⟨hParams, rfl, hSlash, hDefault⟩

theorem agrees_namedParam
    (hGrammar : grammar.Agrees)
    (annotated : Bool)
    (hState : state.erased = state'.erased) :
    Parser.Agrees ParamState.erased (grammar.namedParam annotated state)
      (grammar.namedParam annotated state') := by
  obtain ⟨hParams, hKeyword, hSlash, hDefault⟩ :=
    ParamState.erased_inj.mp hState
  refine agrees_expectName.bind fun name name' hName => ?_
  refine (agrees_annotationSkipped hGrammar annotated).bindSame fun _ => ?_
  refine (agrees_eat _).bindSame fun _ => ?_
  refine .iteBind hGrammar.expression.optional (.pure rfl)
    fun value value' hValue => ?_
  have hSome : value.isSome = value'.isSome := by
    simpa using congrArg Option.isSome hValue
  have hNone : value.isNone = value'.isNone := by
    simpa using congrArg Option.isNone hValue
  dsimp only
  rw [hKeyword, hDefault, hNone, hSome]
  refine .ite (agrees_refuseAt _ _ _ _) (.pure ?_)
  refine ParamState.erased_inj.mpr
    ⟨ParamState.map_erased_append hState ?_, rfl, hSlash, rfl⟩
  simp [Param.erased, hName, hValue]

end States

/- The first repeated name does not depend on positions. -/
theorem repeatedParam?_erased
    (earlier : List String)
    (params : List (Param Expr)) :
    repeatedParam? earlier (params.map Param.erased) =
      (repeatedParam? earlier params).map Param.erased := by
  induction params generalizing earlier with
  | nil => rfl
  | cons param rest ih =>
      have hName : param.erased.name.name = param.name.name := rfl
      rw [List.map_cons, repeatedParam?, repeatedParam?, hName, ih]
      split <;> rfl

theorem agrees_params
    (hGrammar : grammar.Agrees)
    (closing : Mark)
    (annotated : Bool) :
    Parser.Agrees (List.map Param.erased)
      (grammar.params closing annotated)
      (grammar.params closing annotated) := by
  have hStart : ParamState.erased {} = ParamState.erased {} := rfl
  refine (Parser.Agrees.loopSame hStart fun state state' hState => ?_).bind
    fun state state' hState => ?_
  · refine agrees_peek.bindSame fun kind => ?_
    split
    · refine (agrees_varKeywordParam hGrammar closing annotated
        hState).bind fun _ _ hNext => ?_
      exact .pure (congrArg Step.done hNext)
    · refine .ite (.pure (congrArg Step.done hState)) ?_
      dsimp only
      split
      · exact agrees_commaRound (agrees_slashParam hState)
      · exact agrees_commaRound (agrees_starParam hGrammar closing annotated hState)
      · exact agrees_commaRound (agrees_namedParam hGrammar annotated hState)
  · have hParams := (ParamState.erased_inj.mp hState).1
    have hRepeated := congrArg (repeatedParam? []) hParams
    rw [repeatedParam?_erased, repeatedParam?_erased] at hRepeated
    cases hFirst : repeatedParam? [] state.params with
    | none =>
        rw [hFirst, eq_comm, Option.map_none, Option.map_eq_none_iff]
          at hRepeated
        rw [hRepeated]
        exact .pure hParams
    | some param =>
        rw [hFirst] at hRepeated
        obtain ⟨param', hFirst', hParam⟩ :=
          Option.map_eq_some_iff.mp hRepeated.symm
        rw [hFirst']
        exact (agrees_reportAt _ _ _ _ _ _).bindSame
          fun _ => agrees_giveUp

------------------------------------------------------------
-- Arguments and Subscripts
------------------------------------------------------------

/- Arguments without positions. -/
def Arguments.erased (given : Arguments) : Arguments :=
  ⟨given.args.map Expr.erased, given.keywords.map KeywordArg.erased⟩

section Given

variable {given given' : Arguments}

theorem Arguments.erased_inj :
    given.erased = given'.erased ↔
      given.args.map Expr.erased = given'.args.map Expr.erased ∧
        given.keywords.map KeywordArg.erased =
          given'.keywords.map KeywordArg.erased := by
  simp [erased]

/- One more keyword argument. -/
theorem Arguments.erased_keyword
    (hGiven : given.erased = given'.erased)
    {keyword keyword' : KeywordArg Expr}
    (hKeyword : keyword.erased = keyword'.erased) :
    ({ given with keywords := given.keywords ++ [keyword] } :
        Arguments).erased =
      ({ given' with keywords := given'.keywords ++ [keyword'] } :
        Arguments).erased := by
  obtain ⟨hArgs, hKeywords⟩ := erased_inj.mp hGiven
  exact erased_inj.mpr ⟨hArgs, by simp [hKeywords, hKeyword]⟩

/- What is asked of the names of keyword arguments. -/
theorem Arguments.any_name
    (hGiven : given.erased = given'.erased)
    (asks : Option String → Bool) :
    (given.keywords.any fun keyword => asks (keyword.name.map (·.name))) =
      given'.keywords.any fun keyword =>
        asks (keyword.name.map (·.name)) := by
  have hKeywords :=
    congrArg
      (List.any · fun keyword => asks (keyword.name.map (·.name)))
      (erased_inj.mp hGiven).2
  simpa [KeywordArg.erased, Function.comp_def] using hKeywords

theorem agrees_unpackedArgument
    (hGrammar : grammar.Agrees)
    (hGiven : given.erased = given'.erased) :
    Parser.Agrees Arguments.erased (grammar.unpackedArgument given)
      (grammar.unpackedArgument given') := by
  refine agrees_advance.bind fun _ _ _ => ?_
  refine hGrammar.expression.bind fun value value' hValue => .pure ?_
  exact Arguments.erased_keyword hGiven (by simp [KeywordArg.erased, hValue])

theorem agrees_keywordArgument
    (hGrammar : grammar.Agrees)
    (id : String)
    (hGiven : given.erased = given'.erased) :
    Parser.Agrees Arguments.erased (grammar.keywordArgument id given)
      (grammar.keywordArgument id given') := by
  refine agrees_advance.bind fun token token' _ => ?_
  refine agrees_advance.discard.bindSame fun _ => ?_
  refine hGrammar.expression.bind fun value value' hValue => ?_
  have hRepeated :
      (given.keywords.any fun other => other.name.any (·.name == id)) =
        given'.keywords.any fun other => other.name.any (·.name == id) := by
    simpa [Option.any_map, Function.comp_def] using
      Arguments.any_name hGiven (Option.any (· == id))
  rw [hRepeated]
  refine .guardBind (agrees_reportSubject _ _ _ _ _) (.pure ?_)
  refine Arguments.erased_keyword hGiven ?_
  simp [KeywordArg.erased, hValue, Ident.erased]

theorem agrees_positionalArgument
    (hGrammar : grammar.Agrees)
    (hGiven : given.erased = given'.erased) :
    Parser.Agrees Arguments.erased (grammar.positionalArgument given)
      (grammar.positionalArgument given') := by
  obtain ⟨hArgs, hKeywords⟩ := Arguments.erased_inj.mp hGiven
  refine (agrees_item hGrammar).bind fun value value' hValue => ?_
  have hEmpty : given.keywords.isEmpty = given'.keywords.isEmpty := by
    simpa using congrArg List.isEmpty hKeywords
  have hStarred : value.isStarred = value'.isStarred := by
    simpa using congrArg Expr.isStarred hValue
  rw [hEmpty, hStarred]
  refine .guardBind (agrees_reportAt _ _ _ _ _ _) (.pure ?_)
  exact Arguments.erased_inj.mpr ⟨by simp [hArgs, hValue], hKeywords⟩

end Given

theorem agrees_arguments
    (hGrammar : grammar.Agrees)
    (openedAt openedAt' : Span) :
    Parser.Agrees Arguments.erased (grammar.arguments openedAt)
      (grammar.arguments openedAt') := by
  have hStart : Arguments.erased {} = Arguments.erased {} := rfl
  refine (Parser.Agrees.loopSame hStart fun given given' hGiven => ?_).bind
    fun given given' hGiven => ?_
  · refine agrees_peek.bindSame fun kind =>
      .ite (.pure (congrArg Step.done hGiven)) ?_
    refine (agrees_peekAhead 1).bindSame fun next => ?_
    dsimp only
    split
    · exact agrees_commaRound (agrees_unpackedArgument hGrammar hGiven)
    · exact agrees_commaRound (agrees_keywordArgument hGrammar _ hGiven)
    · exact agrees_commaRound (agrees_positionalArgument hGrammar hGiven)
  · exact (agrees_expectClosing _ _ _).discard.bindSame fun _ =>
      .pure hGiven

theorem agrees_sliceBound
    (hGrammar : grammar.Agrees) :
    Parser.Agrees (Option.map Expr.erased) grammar.sliceBound
      grammar.sliceBound := by
  refine agrees_peek.bindSame fun kind => ?_
  split
  · exact .pure rfl
  · exact .pure rfl
  · exact .pure rfl
  · exact hGrammar.expression.optional

theorem agrees_sliceRest
    (hGrammar : grammar.Agrees)
    (start start' : Span)
    {lower lower' : Option Expr}
    (hLower : lower.map Expr.erased = lower'.map Expr.erased) :
    Parser.Agrees Expr.erased (grammar.sliceRest start lower)
      (grammar.sliceRest start' lower') := by
  refine (agrees_expect _).discard.bindSame fun _ => ?_
  refine (agrees_sliceBound hGrammar).bind fun upper upper' hUpper => ?_
  refine (agrees_eat _).bindSame fun _ => ?_
  refine .iteBind (agrees_sliceBound hGrammar) (.pure rfl)
    fun step step' hStep => ?_
  refine agrees_previousSpan.bind fun _ _ _ => .pure ?_
  simp [Expr.erased, ExprForm.erased, hLower, hUpper, hStep]

theorem agrees_subscriptItem
    (hGrammar : grammar.Agrees) :
    Parser.Agrees Expr.erased grammar.subscriptItem
      grammar.subscriptItem := by
  refine agrees_currentSpan.bind fun start start' _ => ?_
  refine (agrees_check _).bindSame fun _ =>
    .ite (agrees_sliceRest hGrammar start start' rfl) ?_
  refine hGrammar.expression.bind fun index index' hIndex => ?_
  refine (agrees_check _).bindSame fun _ => .ite ?_ (.pure hIndex)
  exact agrees_sliceRest hGrammar start start' (congrArg some hIndex)

theorem agrees_subscriptIndex
    (hGrammar : grammar.Agrees) :
    Parser.Agrees Expr.erased grammar.subscriptIndex
      grammar.subscriptIndex :=
  (agrees_subscriptItem hGrammar).bind fun _ _ hFirst =>
    agrees_orTuple (agrees_subscriptItem hGrammar) _ hFirst

------------------------------------------------------------
-- Atoms
------------------------------------------------------------

theorem agrees_strings : Parser.Agrees Expr.erased strings strings := by
  refine agrees_currentSpan.bind fun start start' _ => ?_
  have hStart : id "" = id "" := rfl
  refine (Parser.Agrees.loopSame hStart fun text text' hText => ?_).bindSame
    fun text => ?_
  · rw [show text = text' from hText]
    refine agrees_peek.bindSame fun kind => ?_
    split
    · exact agrees_advance.discard.bindSame fun _ => .pure rfl
    · exact .pure rfl
  · exact agrees_previousSpan.bind fun _ _ _ => .pure rfl

theorem agrees_parenthesized
    (hGrammar : grammar.Agrees) :
    Parser.Agrees Expr.erased grammar.parenthesized
      grammar.parenthesized := by
  have hItem := agrees_item hGrammar
  refine agrees_advance.bind fun opening opening' _ => ?_
  refine (agrees_check _).bindSame fun _ =>
    .ite (agrees_advance.bind fun _ _ _ => .pure rfl) ?_
  refine hItem.bind fun first first' hFirst => ?_
  refine agrees_refuseComprehension.bindSame fun _ => ?_
  refine (agrees_eat _).bindSame fun _ => .ite (.pure hFirst) ?_
  have hStart : [first].map Expr.erased = [first'].map Expr.erased :=
    congrArg (fun expr => [expr]) hFirst
  refine (agrees_moreItems hItem _ hStart).bind
    fun items items' hItems => ?_
  refine (agrees_expectClosing _ _ _).bind fun _ _ _ => .pure ?_
  simp [Expr.erased, ExprForm.erased, hItems]

theorem agrees_listDisplay
    (hGrammar : grammar.Agrees) :
    Parser.Agrees Expr.erased grammar.listDisplay
      grammar.listDisplay := by
  have hItem :
      Parser.Agrees Expr.erased
        (do
          let item ← grammar.item
          refuseComprehension
          return item)
        (do
          let item ← grammar.item
          refuseComprehension
          return item) :=
    (agrees_item hGrammar).bind fun _ _ hItem =>
      agrees_refuseComprehension.bindSame fun _ => .pure hItem
  refine agrees_advance.bind fun opening opening' _ => ?_
  refine (agrees_itemsUntil hItem _).bind fun items items' hItems => ?_
  refine (agrees_expectClosing _ _ _).bind fun _ _ _ => .pure ?_
  simp [Expr.erased, ExprForm.erased, hItems]

theorem agrees_dictEntry
    (hGrammar : grammar.Agrees) :
    Parser.Agrees (Prod.map Expr.erased Expr.erased) grammar.dictEntry
      grammar.dictEntry := by
  refine hGrammar.expression.bind fun key key' hKey => ?_
  refine (agrees_expect _).discard.bindSame fun _ => ?_
  exact hGrammar.expression.bind fun value value' hValue =>
    .pure (congrArg₂ Prod.mk hKey hValue)

theorem agrees_braceDisplay
    (hGrammar : grammar.Agrees) :
    Parser.Agrees Expr.erased grammar.braceDisplay
      grammar.braceDisplay := by
  refine agrees_advance.bind fun opening opening' _ => ?_
  refine (agrees_check _).bindSame fun _ =>
    .ite (agrees_advance.bind fun _ _ _ => .pure rfl) ?_
  refine (agrees_item hGrammar).bind fun first first' hFirst => ?_
  refine agrees_refuseComprehension.bindSame fun _ => ?_
  have hClosed {form form' : ExprForm Expr}
      (hForm : form.erased = form'.erased) :
      Parser.Agrees Expr.erased
        (do
          let closing ← expectClosing .closeBrace opening.span
          return .mk (opening.span.merge closing.span) form)
        (do
          let closing ← expectClosing .closeBrace opening'.span
          return .mk (opening'.span.merge closing.span) form') := by
    refine (agrees_expectClosing _ _ _).bind fun _ _ _ => .pure ?_
    simp [Expr.erased, hForm]
  refine (agrees_eat _).bindSame fun _ => .ite ?_ ?_
  · refine hGrammar.expression.bind fun value value' hValue => ?_
    refine agrees_refuseComprehension.bindSame fun _ => ?_
    have hStart :
        [(first, value)].map (Prod.map Expr.erased Expr.erased) =
          [(first', value')].map (Prod.map Expr.erased Expr.erased) := by
      simp [hFirst, hValue]
    refine ((agrees_moreItems (agrees_dictEntry hGrammar) _ hStart).map
      fun entries entries' hEntries => ?_).bind fun _ _ hForm => hClosed hForm
    simp [ExprForm.erased, hEntries]
  · have hStart : [first].map Expr.erased = [first'].map Expr.erased :=
      congrArg (fun expr => [expr]) hFirst
    refine ((agrees_moreItems (agrees_item hGrammar) _ hStart).map
      fun items items' hItems => ?_).bind fun _ _ hForm => hClosed hForm
    simp [ExprForm.erased, hItems]

theorem agrees_literal
    (form : ExprForm Expr) :
    Parser.Agrees Expr.erased (literal form) (literal form) :=
  agrees_advance.bind fun _ _ _ => .pure rfl

theorem agrees_atom
    (hGrammar : grammar.Agrees) :
    Parser.Agrees Expr.erased grammar.atom grammar.atom := by
  refine agrees_peek.bindSame fun kind => ?_
  -- Six kinds of literals and names come before the displays.
  split
  iterate 6 exact agrees_literal _
  · exact agrees_strings
  · exact agrees_parenthesized hGrammar
  · exact agrees_listDisplay hGrammar
  · exact agrees_braceDisplay hGrammar
  · exact agrees_refuse _ _ _
  · exact agrees_refuse _ _ _

theorem agrees_primary
    (hGrammar : grammar.Agrees) :
    Parser.Agrees Expr.erased grammar.primary grammar.primary := by
  refine (agrees_atom hGrammar).bind fun first first' hFirst => ?_
  refine .loopSame hFirst fun object object' hObject => ?_
  refine agrees_peek.bindSame fun kind => ?_
  split
  · refine agrees_advance.bind fun opening opening' _ => ?_
    refine (agrees_arguments hGrammar _ _).bind
      fun given given' hGiven => ?_
    obtain ⟨hArgs, hKeywords⟩ := Arguments.erased_inj.mp hGiven
    refine agrees_previousSpan.bind fun _ _ _ => .pure ?_
    simp [Step.erased, Expr.erased, ExprForm.erased, hObject, hArgs,
      hKeywords]
  · refine agrees_advance.bind fun opening opening' _ => ?_
    refine (agrees_subscriptIndex hGrammar).bind
      fun index index' hIndex => ?_
    refine (agrees_expectClosing _ _ _).discard.bindSame fun _ => ?_
    refine agrees_previousSpan.bind fun _ _ _ => .pure ?_
    simp [Step.erased, Expr.erased, ExprForm.erased, hObject, hIndex]
  · refine agrees_advance.discard.bindSame fun _ => ?_
    refine agrees_expectName.bind fun attr attr' hAttr => .pure ?_
    simp [Step.erased, Expr.erased, ExprForm.erased, hObject, hAttr]
  · exact .pure (congrArg Step.done hObject)

------------------------------------------------------------
-- Operators
------------------------------------------------------------

theorem agrees_power
    (hGrammar : grammar.Agrees) :
    Parser.Agrees Expr.erased grammar.power grammar.power := by
  refine (agrees_primary hGrammar).bind fun base base' hBase => ?_
  refine (agrees_eat _).bindSame fun _ => .ite ?_ (.pure hBase)
  refine (agrees_nested hGrammar.factor).bind
    fun exponent exponent' hExponent => .pure ?_
  simp [Expr.erased, ExprForm.erased, hBase, hExponent]

theorem agrees_signed
    (hGrammar : grammar.Agrees) :
    Parser.Agrees Expr.erased grammar.signed grammar.signed := by
  refine agrees_peek.bindSame fun kind => ?_
  split
  · exact agrees_power hGrammar
  · refine agrees_advance.bind fun _ _ _ => ?_
    refine (agrees_nested hGrammar.factor).bind
      fun operand operand' hOperand => .pure ?_
    simp [Expr.erased, ExprForm.erased, hOperand]

theorem agrees_binaryLevel
    {operand : Parser Expr}
    (hOperand : Parser.Agrees Expr.erased operand operand)
    (opFor : TokenKind → Option BinaryOp) :
    Parser.Agrees Expr.erased (binaryLevel operand opFor)
      (binaryLevel operand opFor) := by
  refine hOperand.bind fun first first' hFirst => ?_
  refine .loopSame hFirst fun left left' hLeft => ?_
  refine agrees_peek.bindSame fun kind => ?_
  split
  · exact .pure (congrArg Step.done hLeft)
  · refine agrees_advance.discard.bindSame fun _ => ?_
    refine hOperand.bind fun right right' hRight => .pure ?_
    simp [Step.erased, Expr.erased, ExprForm.erased, hLeft, hRight]

/- So does any tower of levels. -/
theorem agrees_binary
    (hGrammar : grammar.Agrees) :
    Parser.Agrees Expr.erased grammar.binary grammar.binary := by
  have hTower (levels : List (TokenKind → Option BinaryOp))
      {operand : Parser Expr}
      (hOperand : Parser.Agrees Expr.erased operand operand) :
      Parser.Agrees Expr.erased (levels.foldl binaryLevel operand)
        (levels.foldl binaryLevel operand) := by
    induction levels generalizing operand with
    | nil => exact hOperand
    | cons level levels ih => exact ih (agrees_binaryLevel hOperand level)
  exact hTower binaryLevels (agrees_signed hGrammar)

theorem agrees_comparisonOp? :
    Parser.Agrees id comparisonOp? comparisonOp? := by
  have hSingle (op : CompareOp) :
      Parser.Agrees id (comparisonOp?.single op)
        (comparisonOp?.single op) :=
    agrees_advance.discard.bindSame fun _ => .pure rfl
  have hDouble (op : CompareOp) :
      Parser.Agrees id (comparisonOp?.double op)
        (comparisonOp?.double op) :=
    agrees_advance.discard.bindSame fun _ => hSingle op
  refine agrees_peek.bindSame fun kind => ?_
  refine (agrees_peekAhead 1).bindSame fun next => ?_
  split
  all_goals
    first
    | exact hSingle _
    | exact hDouble _
    | exact .pure rfl

theorem agrees_comparison
    (hGrammar : grammar.Agrees) :
    Parser.Agrees Expr.erased grammar.comparison grammar.comparison := by
  have hBinary := agrees_binary hGrammar
  refine hBinary.bind fun left left' hLeft => ?_
  have hStart :
      ([] : List (CompareOp × Expr)).map (Prod.map id Expr.erased) =
        [].map (Prod.map id Expr.erased) := rfl
  refine (Parser.Agrees.loopSame hStart fun rest rest' hRest => ?_).bind
    fun rest rest' hRest => ?_
  · refine agrees_comparisonOp?.bindSame fun op => ?_
    split
    · exact .pure (congrArg Step.done hRest)
    · refine hBinary.bind fun operand operand' hOperand => .pure ?_
      simp [Step.erased, hRest, hOperand]
  · have hEmpty : rest.isEmpty = rest'.isEmpty := by
      simpa using congrArg List.isEmpty hRest
    rw [hEmpty]
    refine .ite (.pure hLeft) ?_
    refine agrees_previousSpan.bind fun _ _ _ => .pure ?_
    simp [Expr.erased, ExprForm.erased, hLeft, hRest]

theorem agrees_negation
    (hGrammar : grammar.Agrees) :
    Parser.Agrees Expr.erased grammar.negation grammar.negation := by
  refine (agrees_check _).bindSame fun _ =>
    .ite ?_ (agrees_comparison hGrammar)
  refine agrees_advance.bind fun _ _ _ => ?_
  refine (agrees_nested hGrammar.notTest).bind
    fun operand operand' hOperand => .pure ?_
  simp [Expr.erased, ExprForm.erased, hOperand]

theorem agrees_booleanLevel
    {operand : Parser Expr}
    (hOperand : Parser.Agrees Expr.erased operand operand)
    (word : Keyword)
    (op : BoolOp) :
    Parser.Agrees Expr.erased (booleanLevel word op operand)
      (booleanLevel word op operand) := by
  refine hOperand.bind fun first first' hFirst => ?_
  refine (agrees_check _).bindSame fun _ => .ite ?_ (.pure hFirst)
  have hStart : [first].map Expr.erased = [first'].map Expr.erased :=
    congrArg (fun expr => [expr]) hFirst
  refine (Parser.Agrees.loopSame hStart fun values values' hValues => ?_).bind
    fun values values' hValues => ?_
  · refine (agrees_eat _).bindSame fun _ =>
      .ite ?_ (.pure (congrArg Step.done hValues))
    refine hOperand.bind fun value value' hValue => .pure ?_
    simp [Step.erased, hValues, hValue]
  · refine agrees_previousSpan.bind fun _ _ _ => .pure ?_
    simp [Expr.erased, ExprForm.erased, hValues]

theorem agrees_disjunction
    (hGrammar : grammar.Agrees) :
    Parser.Agrees Expr.erased grammar.disjunction grammar.disjunction :=
  agrees_booleanLevel
    (agrees_booleanLevel (agrees_negation hGrammar) .andWord .and)
    .orWord .or

------------------------------------------------------------
-- Whole Expressions
------------------------------------------------------------

theorem agrees_conditional
    (hGrammar : grammar.Agrees) :
    Parser.Agrees Expr.erased grammar.conditional grammar.conditional := by
  have hTest := agrees_disjunction hGrammar
  refine hTest.bind fun body body' hBody => ?_
  refine (agrees_eat _).bindSame fun _ => .ite ?_ (.pure hBody)
  refine hTest.bind fun test test' hTest => ?_
  refine (agrees_expect _).discard.bindSame fun _ => ?_
  refine hGrammar.expression.bind fun orelse orelse' hOrelse => .pure ?_
  simp [Expr.erased, ExprForm.erased, hBody, hTest, hOrelse]

theorem agrees_lambda
    (hGrammar : grammar.Agrees) :
    Parser.Agrees Expr.erased grammar.lambda grammar.lambda := by
  refine agrees_advance.bind fun _ _ _ => ?_
  refine (agrees_params hGrammar _ _).bind fun params params' hParams => ?_
  refine (agrees_expect _).discard.bindSame fun _ => ?_
  refine hGrammar.expression.bind fun body body' hBody => .pure ?_
  simp [Expr.erased, ExprForm.erased, hParams, hBody]

theorem agrees_step
    (hGrammar : grammar.Agrees) :
    grammar.step.Agrees where
  expression :=
    agrees_nested ((agrees_check _).bindSame fun _ =>
      .ite (agrees_lambda hGrammar) (agrees_conditional hGrammar))
  notTest := agrees_negation hGrammar
  bitOr := agrees_binary hGrammar
  factor := agrees_signed hGrammar

end Rules

theorem agrees_levels
    (count : Nat) :
    (levels count).Agrees := by
  induction count with
  | zero => exact ⟨.throw _, .throw _, .throw _, .throw _⟩
  | succ count ih =>
      exact agrees_step
        ⟨ih.expression, ih.notTest, ih.bitOr, ih.factor⟩

theorem agrees_top : top.Agrees where
  expression := by
    let family := fun count => (levels (count + 1)).expression
    exact agrees_remaining family
      fun count => (agrees_levels (count + 1)).expression
  notTest := by
    let family := fun count => (levels (count + 1)).notTest
    exact agrees_remaining family
      fun count => (agrees_levels (count + 1)).notTest
  bitOr := by
    let family := fun count => (levels (count + 1)).bitOr
    exact agrees_remaining family
      fun count => (agrees_levels (count + 1)).bitOr
  factor := by
    let family := fun count => (levels (count + 1)).factor
    exact agrees_remaining family
      fun count => (agrees_levels (count + 1)).factor

end ExprGrammar

end SnippetGrader
