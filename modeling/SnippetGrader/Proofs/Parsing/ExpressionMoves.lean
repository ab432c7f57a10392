import SnippetGrader.Proofs.Parsing.ExpressionExtents
import SnippetGrader.Proofs.Parsing.Moves

/-
  How the rules for expressions move over tokens.

  An expression that is read has at least one token. An inner
  expression starts after its surrounding one, so that levels
  for as many expressions as tokens are left do not run out.
  The span of an expression, and those of the parts that are
  refused as targets, are made of the spans of tokens.

  Key definitions include:
    * `TokenStream.Reportable`
    * `Parser.MovesExpr`, `ExprGrammar.MovesFrom`

  Key theorems include:
    * `ExprGrammar.movesFrom_levels`
    * `ExprGrammar.movesFrom_top`
-/

namespace SnippetGrader

------------------------------------------------------------
-- Spans of Expressions
------------------------------------------------------------

/- The parts that are targets if an expression is one. -/
def ExprForm.targetParts : ExprForm Expr → List Expr
  | .tuple items => items
  | .list items => items
  | .starred inner => [inner]
  | _ => []

namespace TokenStream

variable {stream : TokenStream}

/- An expression that can be reported, also as a faulty target. -/
structure Reportable (stream : TokenStream) (expr : Expr) : Prop where
  span : stream.sound expr.span
  faults :
    ∀ unpacking, ∀ fault ∈ targetFaults unpacking expr,
      stream.sound fault.2

theorem sound_targetListFaults
    {targets : List Expr}
    (hTargets : ∀ target ∈ targets, stream.Reportable target) :
    ∀ fault ∈ targetListFaults targets, stream.sound fault.2 := by
  induction targets with
  | nil => exact nofun
  | cons target targets ih =>
      rw [List.forall_mem_cons] at hTargets
      rw [targetListFaults]
      exact List.forall_mem_append.mpr
        ⟨hTargets.1.faults true, ih hTargets.2⟩

/- The faults of a target are at the target or at its parts. -/
theorem reportable_mk
    {span : Span}
    (hSpan : stream.sound span)
    {form : ExprForm Expr}
    (hParts : ∀ part ∈ form.targetParts, stream.Reportable part) :
    stream.Reportable (.mk span form) := by
  refine ⟨hSpan, fun unpacking => ?_⟩
  have hOne (message : String) :
      ∀ fault ∈ [(message, span)], stream.sound fault.2 :=
    List.forall_mem_singleton.mpr hSpan
  match form with
  | .name _ | .attribute _ _ | .subscript _ _ => exact nofun
  | .tuple items | .list items =>
      rw [targetFaults]
      split
      · exact sound_targetListFaults hParts
      · exact hOne _
  | .starred inner =>
      rw [targetFaults]
      split
      · exact (hParts inner (List.mem_singleton_self inner)).faults false
      · exact hOne _
  | .int _ | .float _ | .str _ | .bool _ | .none | .set _ | .dict _
  | .slice _ _ _ | .call _ _ _ | .binary _ _ _ | .unary _ _
  | .boolean _ _ | .compare _ _ | .conditional _ _ _ | .lambda _ _ =>
      exact hOne _

/- An expression without targets in it. -/
theorem reportable_of_span
    {span : Span}
    (hSpan : stream.sound span)
    {form : ExprForm Expr}
    (hParts : form.targetParts = []) :
    stream.Reportable (.mk span form) := by
  refine reportable_mk hSpan ?_
  rw [hParts]
  exact nofun

end TokenStream

namespace Parser

/- A parser that reads an expression from any token on. -/
def MovesExpr
    (stream : TokenStream)
    (start : Nat)
    (parser : Parser Expr) : Prop :=
  ∀ here, start ≤ here →
    Moves stream here parser fun expr index =>
      here < index ∧ stream.Reportable expr

theorem MovesExpr.mono
    {stream : TokenStream}
    {start later : Nat}
    {parser : Parser Expr}
    (hParser : MovesExpr stream start parser)
    (hLater : start ≤ later) :
    MovesExpr stream later parser :=
  fun here hHere => hParser here (hLater.trans hHere)

end Parser

namespace ExprGrammar

open SnippetGrader.Parser

variable {stream : TokenStream}

/- The rules for inner expressions, which move from any token on. -/
structure MovesFrom
    (stream : TokenStream)
    (start : Nat)
    (grammar : ExprGrammar) : Prop where
  expression : MovesExpr stream start grammar.expression
  notTest : MovesExpr stream start grammar.notTest
  bitOr : MovesExpr stream start grammar.bitOr
  factor : MovesExpr stream start grammar.factor

section Rules

variable {grammar : ExprGrammar}
variable {start : Nat}

theorem MovesFrom.mono
    (hGrammar : grammar.MovesFrom stream start)
    {later : Nat}
    (hLater : start ≤ later) :
    grammar.MovesFrom stream later :=
  ⟨hGrammar.expression.mono hLater, hGrammar.notTest.mono hLater,
    hGrammar.bitOr.mono hLater, hGrammar.factor.mono hLater⟩

/- A kind that is told apart from the end of the text. -/
theorem ne_endOfFile_of_eq
    {kind other : TokenKind}
    (hKind : kind = other)
    (hOther : (TokenKind.endOfFile == other) = false) :
    kind ≠ .endOfFile := by
  rintro rfl
  rw [← hKind] at hOther
  cases hOther

------------------------------------------------------------
-- Starred Items and Tuples
------------------------------------------------------------

theorem moves_starred
    (hGrammar : grammar.MovesFrom stream start)
    {unstarred : Parser Expr}
    (hUnstarred : MovesExpr stream start unstarred) :
    MovesExpr stream start (grammar.starred unstarred) := by
  intro here hHere
  refine (moves_check _).bind ?_
  rintro _ here _ ⟨rfl, rfl⟩
  refine .ite (fun hStar => ?_) fun _ => hUnstarred here hHere
  refine (moves_advance (TokenKind.ne_endOfFile_of_beq hStar rfl)).bind ?_
  rintro token _ _ ⟨rfl, hToken⟩
  refine (hGrammar.bitOr (here + 1) (by omega)).bind
    fun inner index _ ⟨hIndex, hInner⟩ => .pure ⟨by omega, ?_⟩
  exact TokenStream.reportable_mk
    (stream.merges _ _ hToken hInner.span)
    (List.forall_mem_singleton.mpr hInner)

theorem moves_item
    (hGrammar : grammar.MovesFrom stream start) :
    MovesExpr stream start grammar.item :=
  moves_starred hGrammar hGrammar.expression

/- Further items of a display or a list, all of which can be reported. -/
theorem moves_rowItems
    {item : Parser Expr}
    (hItem : MovesExpr stream start item)
    (isEnd : TokenKind → Bool)
    {first : Expr}
    (hFirst : stream.Reportable first) :
    Moves stream start (moreItems isEnd item [first])
      fun items _ => ∀ value ∈ items, stream.Reportable value :=
  moves_moreItems (List.forall_mem_singleton.mpr hFirst)
    fun index hIndex =>
      (hItem index hIndex.le).mono fun _ _ _ hValue => hValue.2

/- Further items, of which nothing is asked. -/
theorem moves_anyItems
    {α : Type}
    {item : Parser α}
    {isEnd : TokenKind → Bool}
    {first : List α}
    (hItem :
      ∀ index, start < index →
        Moves stream index item fun _ _ => True) :
    Moves stream start (moreItems isEnd item first) fun _ _ => True :=
  (moves_moreItems (fun _ _ => trivial) hItem).mono fun _ _ _ _ => trivial

theorem moves_orTuple
    {next : Parser Expr}
    (hNext : MovesExpr stream start next)
    (isEnd : TokenKind → Bool)
    {first : Expr}
    (hFirst : stream.Reportable first) :
    Moves stream start (orTuple isEnd next first)
      fun expr _ => stream.Reportable expr := by
  refine (moves_check _).bind ?_
  rintro _ here _ ⟨rfl, rfl⟩
  refine .ite (fun _ => ?_) fun _ => .pure hFirst
  refine (moves_rowItems hNext isEnd hFirst).bind fun items _ _ hItems => ?_
  refine moves_previousSpan.bind ?_
  rintro span _ _ ⟨rfl, hSpan⟩
  exact .pure (TokenStream.reportable_mk
    (stream.merges _ _ hFirst.span hSpan) hItems)

/- One item, or a tuple of several. -/
theorem moves_itemOrTuple
    {item : Parser Expr}
    (hItem : MovesExpr stream start item)
    (isEnd : TokenKind → Bool) :
    MovesExpr stream start (item >>= orTuple isEnd item) := by
  intro here hHere
  refine (hItem here hHere).bind fun first middle hMiddle ⟨hMoved, hFirst⟩ => ?_
  exact (moves_orTuple (hItem.mono (hHere.trans hMiddle)) isEnd hFirst).mono
    fun _ _ hIndex hExpr => ⟨hMoved.trans_le hIndex, hExpr⟩

theorem moves_exprList
    (hGrammar : grammar.MovesFrom stream start) :
    MovesExpr stream start grammar.exprList :=
  moves_itemOrTuple (moves_item hGrammar) endsExprList

theorem moves_targetList
    (hGrammar : grammar.MovesFrom stream start) :
    MovesExpr stream start grammar.targetList :=
  moves_itemOrTuple (moves_starred hGrammar hGrammar.bitOr) _

theorem moves_refuseComprehension :
    Moves stream start refuseComprehension fun _ index =>
      index = start := by
  refine (moves_check _).bind ?_
  rintro _ _ _ ⟨rfl, rfl⟩
  exact .ite (fun _ => moves_refuse _ _) fun _ => .pure rfl

------------------------------------------------------------
-- Parameters
------------------------------------------------------------

/- Parameters that can be reported. -/
def SoundParams (stream : TokenStream) (params : List (Param Expr)) : Prop :=
  ∀ param ∈ params, stream.sound param.span

theorem SoundParams.push
    {params : List (Param Expr)}
    (hParams : SoundParams stream params)
    {param : Param Expr}
    (hParam : stream.sound param.span) :
    SoundParams stream (params ++ [param]) :=
  List.forall_mem_append.mpr
    ⟨hParams, List.forall_mem_singleton.mpr hParam⟩

variable {state : ParamState}

theorem moves_annotationSkip
    (hGrammar : grammar.MovesFrom stream start)
    (annotated : Bool) :
    Moves stream start (grammar.skipAnnotation annotated)
      fun _ _ => True := by
  refine .ite (fun _ => ?_) fun _ => .pure trivial
  refine (moves_eat rfl).bind fun _ index hIndex _ =>
    .ite (fun _ => ?_) fun _ => .pure trivial
  exact (hGrammar.expression index hIndex).discard.mono
    fun _ _ _ _ => trivial

theorem moves_slashParam
    (hState : SoundParams stream state.params)
    (hSlash : stream.kind start = .mark .slash) :
    Moves stream start (slashParam state)
      fun next _ => SoundParams stream next.params := by
  refine (moves_advance (ne_endOfFile_of_eq hSlash rfl)).bind ?_
  rintro token _ _ ⟨rfl, hToken⟩
  refine .ite (fun _ => moves_refuseAt _ _ hToken) fun _ => .pure ?_
  exact List.forall_mem_map.mpr hState

theorem moves_varKeywordParam
    (hGrammar : grammar.MovesFrom stream start)
    (closing : Mark)
    (annotated : Bool)
    (hState : SoundParams stream state.params)
    (hStars : stream.kind start = .mark .doubleStar) :
    Moves stream start (grammar.varKeywordParam closing annotated state)
      fun next _ => SoundParams stream next.params := by
  refine (moves_advance (ne_endOfFile_of_eq hStars rfl)).bind ?_
  rintro token _ _ ⟨rfl, hToken⟩
  refine moves_expectName.bind ?_
  rintro name _ _ ⟨rfl, hName⟩
  refine (moves_annotationSkip (hGrammar.mono (by omega)) annotated).bind
    fun _ _ _ _ => ?_
  refine (moves_eat rfl).discard.bind fun _ _ _ _ => ?_
  refine (moves_check _).bind ?_
  rintro _ _ _ ⟨rfl, rfl⟩
  refine .ite (fun _ => .pure ?_) fun _ => moves_refuse _ _
  exact hState.push (stream.merges _ _ hToken hName)

theorem moves_starParam
    (hGrammar : grammar.MovesFrom stream start)
    (closing : Mark)
    (annotated : Bool)
    (hState : SoundParams stream state.params)
    (hStar : stream.kind start = .mark .star) :
    Moves stream start (grammar.starParam closing annotated state)
      fun next _ => SoundParams stream next.params := by
  refine (moves_advance (ne_endOfFile_of_eq hStar rfl)).bind ?_
  rintro token _ _ ⟨rfl, hToken⟩
  refine .ite (fun _ => moves_refuseAt _ _ hToken) fun _ => ?_
  refine moves_peek.bind ?_
  rintro _ _ _ ⟨rfl, rfl⟩
  split
  · refine moves_expectName.bind ?_
    rintro name _ _ ⟨rfl, hName⟩
    refine (moves_annotationSkip (hGrammar.mono (by omega)) annotated).bind
      fun _ _ _ _ => .pure ?_
    exact hState.push (stream.merges _ _ hToken hName)
  · exact .ite (fun _ => moves_refuseAt _ _ hToken) fun _ => .pure hState

theorem moves_namedParam
    (hGrammar : grammar.MovesFrom stream start)
    (annotated : Bool)
    (hState : SoundParams stream state.params) :
    Moves stream start (grammar.namedParam annotated state)
      fun next _ => SoundParams stream next.params := by
  refine moves_expectName.bind ?_
  rintro name _ _ ⟨rfl, hName⟩
  refine (moves_annotationSkip (hGrammar.mono (by omega)) annotated).bind
    fun _ later hLater _ => ?_
  refine (moves_eat rfl).bind fun _ here hHere _ => ?_
  have hAssigned :
      Moves stream here (some <$> grammar.expression)
        fun default _ =>
          ∀ value, default = some value → stream.sound value.span := by
    refine .map ((hGrammar.expression here (by omega)).mono
      fun value _ _ hValue => ?_)
    rintro _ ⟨⟩
    exact hValue.2.span
  refine .iteBind (fun _ => hAssigned) (fun _ => .pure nofun)
    fun default index hIndex hDefault =>
      .ite (fun _ => moves_refuseAt _ _ hName) fun _ => .pure ?_
  refine hState.push ?_
  cases default with
  | none => exact hName
  | some value => exact stream.merges _ _ hName (hDefault value rfl)

theorem sound_repeatedParam?
    {params : List (Param Expr)}
    (hParams : SoundParams stream params)
    {earlier : List String}
    {param : Param Expr}
    (hParam : repeatedParam? earlier params = some param) :
    stream.sound param.span := by
  induction params generalizing earlier with
  | nil => cases hParam
  | cons first params ih =>
      rw [SoundParams, List.forall_mem_cons] at hParams
      rw [repeatedParam?] at hParam
      split at hParam
      · cases hParam
        exact hParams.1
      · exact ih hParams.2 hParam

theorem moves_params
    (hGrammar : grammar.MovesFrom stream start)
    (closing : Mark)
    (annotated : Bool) :
    Moves stream start (grammar.params closing annotated)
      fun _ _ => True := by
  let sound := fun (state : ParamState) (_ : Nat) =>
    SoundParams stream state.params
  have hStep {here : Nat} {step : Parser ParamState}
      (hNext : Moves stream here step sound) :
      Moves stream here
        (do
          let next ← step
          if ← eat (.mark .comma) then return Step.again next
          return Step.done next)
        (RoundMoves here sound sound) := by
    refine hNext.bind fun next later hLater hParams => ?_
    refine (moves_eat rfl).bind fun _ comma _ hComma => ?_
    refine .ite (fun hFound => .pure ⟨?_, hParams⟩) fun _ => .pure hParams
    rw [hComma hFound]
    omega
  have hStart : sound {} start := nofun
  refine (moves_loop sound sound hStart
    fun state here hHere hState => ?_).bind fun state _ _ hState => ?_
  · have hLater := hGrammar.mono hHere
    refine moves_peek.bind ?_
    rintro _ here _ ⟨rfl, rfl⟩
    split
    · rename_i hStars
      exact (moves_varKeywordParam hLater closing annotated hState
        hStars).bind fun _ _ _ hParams => .pure hParams
    · refine .ite (fun _ => .pure hState) fun _ => ?_
      dsimp only
      split
      · rename_i hSlash
        exact hStep (moves_slashParam hState hSlash)
      · rename_i hStar
        exact hStep (moves_starParam hLater closing annotated hState hStar)
      · exact hStep (moves_namedParam hLater annotated hState)
  · split
    · exact .pure trivial
    · rename_i hParam
      exact moves_refuseAt _ _ (sound_repeatedParam? hState hParam)

------------------------------------------------------------
-- Arguments and Subscripts
------------------------------------------------------------

variable {given : Arguments}

theorem moves_unpackedArgument
    (hGrammar : grammar.MovesFrom stream start)
    (hStars : stream.kind start = .mark .doubleStar) :
    Moves stream start (grammar.unpackedArgument given)
      fun _ _ => True := by
  refine (moves_advance (ne_endOfFile_of_eq hStars rfl)).bind ?_
  rintro _ _ _ ⟨rfl, _⟩
  exact (hGrammar.expression _ (by omega)).bind fun _ _ _ _ => .pure trivial

theorem moves_keywordArgument
    (hGrammar : grammar.MovesFrom stream start)
    {id : String}
    (hName : stream.kind start = .name id)
    (hAssign : stream.kind (start + 1) = .mark .assign) :
    Moves stream start (grammar.keywordArgument id given)
      fun _ _ => True := by
  refine (moves_advance (ne_endOfFile_of_eq hName rfl)).bind ?_
  rintro token _ _ ⟨rfl, hToken⟩
  refine (moves_advance (ne_endOfFile_of_eq hAssign rfl)).discard.bind ?_
  rintro _ _ _ ⟨_, rfl, _⟩
  refine (hGrammar.expression _ (by omega)).bind fun _ _ _ _ => ?_
  refine .ite (fun _ => ?_) fun _ => .pure trivial
  exact (moves_reportSubject _ _ hToken _).bind fun _ _ _ _ => .pure trivial

theorem moves_positionalArgument
    (hGrammar : grammar.MovesFrom stream start) :
    Moves stream start (grammar.positionalArgument given)
      fun _ _ => True := by
  refine (moves_item hGrammar start le_rfl).bind
    fun value _ _ ⟨_, hValue⟩ => ?_
  refine .ite (fun _ => ?_) fun _ => .pure trivial
  exact (moves_reportAt _ _ hValue.span).bind fun _ _ _ _ => .pure trivial

theorem moves_arguments
    (hGrammar : grammar.MovesFrom stream start)
    (openedAt : Span) :
    Moves stream start (grammar.arguments openedAt) fun _ _ => True := by
  let anything := fun (_ : Arguments) (_ : Nat) => True
  have hStep {here : Nat} {step : Parser Arguments}
      (hNext : Moves stream here step anything) :
      Moves stream here
        (do
          let next ← step
          if ← eat (.mark .comma) then return Step.again next
          return Step.done next)
        (RoundMoves here anything anything) := by
    refine hNext.bind fun next later hLater _ => ?_
    refine (moves_eat rfl).bind fun _ comma _ hComma => ?_
    refine .ite (fun hFound => .pure ⟨?_, trivial⟩) fun _ => .pure trivial
    rw [hComma hFound]
    omega
  refine (moves_loop anything anything trivial
    fun given here hHere _ => ?_).bind fun given _ _ _ => ?_
  · have hLater := hGrammar.mono hHere
    refine moves_peek.bind ?_
    rintro _ here _ ⟨rfl, rfl⟩
    refine .ite (fun _ => .pure trivial) fun _ => ?_
    refine (moves_peekAhead 1).bind ?_
    rintro _ _ _ ⟨rfl, rfl⟩
    dsimp only
    split
    · rename_i hStars
      exact hStep (moves_unpackedArgument hLater hStars)
    · rename_i hName hAssign
      exact hStep (moves_keywordArgument hLater hName hAssign)
    · exact hStep (moves_positionalArgument hLater)
  · exact (moves_expectClosing _ _).discard.bind fun _ _ _ _ => .pure trivial

/- A bound of a slice, which may be left out. -/
theorem moves_sliceBound
    (hGrammar : grammar.MovesFrom stream start) :
    Moves stream start grammar.sliceBound fun _ _ => True := by
  refine moves_peek.bind ?_
  rintro _ here _ ⟨rfl, rfl⟩
  split
  · exact .pure trivial
  · exact .pure trivial
  · exact .pure trivial
  · exact .map ((hGrammar.expression here le_rfl).mono
      fun _ _ _ _ => trivial)

theorem moves_sliceRest
    (hGrammar : grammar.MovesFrom stream start)
    {first : Span}
    (hFirst : stream.sound first)
    (lower : Option Expr) :
    Moves stream start (grammar.sliceRest first lower) fun expr index =>
      start < index ∧ stream.Reportable expr := by
  refine (moves_expect rfl).discard.bind ?_
  rintro _ _ _ ⟨_, rfl, _⟩
  have hLater := hGrammar.mono (Nat.le_succ start)
  refine (moves_sliceBound hLater).bind fun upper middle hMiddle _ => ?_
  refine (moves_eat rfl).bind fun _ colon hColon _ => ?_
  have hBound := moves_sliceBound (hLater.mono (hMiddle.trans hColon))
  refine .iteBind (fun _ => hBound) (fun _ => .pure trivial)
    fun step index hIndex _ => ?_
  refine moves_previousSpan.bind ?_
  rintro span _ _ ⟨rfl, hSpan⟩
  exact .pure ⟨by omega,
    TokenStream.reportable_of_span (stream.merges _ _ hFirst hSpan) rfl⟩

theorem moves_subscriptItem
    (hGrammar : grammar.MovesFrom stream start) :
    MovesExpr stream start grammar.subscriptItem := by
  intro here hHere
  have hLater := hGrammar.mono hHere
  refine moves_currentSpan.bind ?_
  rintro first here _ ⟨rfl, hFirst⟩
  refine (moves_check _).bind ?_
  rintro _ here _ ⟨rfl, rfl⟩
  refine .ite (fun _ => moves_sliceRest hLater hFirst none) fun _ => ?_
  refine (hLater.expression here le_rfl).bind
    fun value index hIndex ⟨hMoved, hValue⟩ => ?_
  refine (moves_check _).bind ?_
  rintro _ _ _ ⟨rfl, rfl⟩
  refine .ite (fun _ => ?_) fun _ => .pure ⟨hMoved, hValue⟩
  exact (moves_sliceRest (hLater.mono hIndex) hFirst _).mono
    fun _ _ _ ⟨hRest, hExpr⟩ => ⟨hMoved.trans hRest, hExpr⟩

theorem moves_subscriptIndex
    (hGrammar : grammar.MovesFrom stream start) :
    MovesExpr stream start grammar.subscriptIndex :=
  moves_itemOrTuple (moves_subscriptItem hGrammar) _

------------------------------------------------------------
-- Atoms
------------------------------------------------------------

theorem moves_literal
    {form : ExprForm Expr}
    (hMore : stream.kind start ≠ .endOfFile)
    (hParts : form.targetParts = []) :
    Moves stream start (literal form) fun expr index =>
      start < index ∧ stream.Reportable expr := by
  refine (moves_advance hMore).bind ?_
  rintro token _ _ ⟨rfl, hToken⟩
  exact .pure ⟨Nat.lt_succ_self start,
    TokenStream.reportable_of_span hToken hParts⟩

/- At least one string is read where one comes next. -/
theorem moves_strings
    {part : String}
    (hString : stream.kind start = .str part) :
    Moves stream start strings fun expr index =>
      start < index ∧ stream.Reportable expr := by
  refine moves_currentSpan.bind ?_
  rintro span first _ ⟨rfl, hFirst⟩
  refine (moves_loop (fun _ _ => True) (fun _ index => first < index)
    trivial fun written here hLater _ => ?_).bind
    fun written index _ hIndex => ?_
  · refine moves_peek.bind ?_
    rintro _ here _ ⟨rfl, rfl⟩
    split
    · rename_i hMore
      refine (moves_advance (ne_endOfFile_of_eq hMore rfl)).discard.bind ?_
      rintro _ _ _ ⟨_, rfl, _⟩
      exact .pure ⟨Nat.lt_succ_self here, trivial⟩
    · rename_i hOther
      refine .pure (lt_of_le_of_ne hLater ?_)
      rintro rfl
      exact hOther part hString
  · refine moves_previousSpan.bind ?_
    rintro last _ _ ⟨rfl, hLast⟩
    exact .pure ⟨hIndex,
      TokenStream.reportable_of_span (stream.merges _ _ hFirst hLast) rfl⟩

/- The bracket that ends an expression in brackets. -/
theorem moves_closed
    {closing : Mark}
    {openedAt : Span}
    (hOpened : stream.sound openedAt)
    {form : ExprForm Expr}
    (hParts : ∀ part ∈ form.targetParts, stream.Reportable part) :
    Moves stream start
      (do
        let token ← expectClosing closing openedAt
        return Expr.mk (openedAt.merge token.span) form)
      fun expr index => start < index ∧ stream.Reportable expr := by
  refine (moves_expectClosing _ _).bind ?_
  rintro token _ _ ⟨rfl, hToken⟩
  exact .pure ⟨Nat.lt_succ_self start,
    TokenStream.reportable_mk (stream.merges _ _ hOpened hToken) hParts⟩

variable (hGrammar : grammar.MovesFrom stream (start + 1))

include hGrammar

theorem moves_parenthesized
    (hOpen : stream.kind start = .mark .openParen) :
    Moves stream start grammar.parenthesized fun expr index =>
      start < index ∧ stream.Reportable expr := by
  have hItem := moves_item hGrammar
  refine (moves_advance (ne_endOfFile_of_eq hOpen rfl)).bind ?_
  rintro opening _ _ ⟨rfl, hOpening⟩
  refine (moves_check _).bind ?_
  rintro _ _ _ ⟨rfl, rfl⟩
  refine .ite (fun hClose => ?_) fun _ => ?_
  · refine (moves_advance (TokenKind.ne_endOfFile_of_beq hClose rfl)).bind ?_
    rintro closing _ _ ⟨rfl, hClosing⟩
    exact .pure ⟨by omega, TokenStream.reportable_of_span
      (stream.merges _ _ hOpening hClosing) rfl⟩
  refine (hItem _ le_rfl).bind fun first middle _ ⟨hMiddle, hFirst⟩ => ?_
  refine moves_refuseComprehension.bind ?_
  rintro _ _ _ rfl
  refine (moves_eat rfl).bind fun _ here hHere _ => ?_
  refine .ite (fun _ => .pure ⟨by omega, hFirst⟩) fun _ => ?_
  refine (moves_rowItems (hItem.mono (by omega)) _ hFirst).bind
    fun items index hIndex hItems => ?_
  refine Moves.mono (moves_closed hOpening ?_)
    fun _ _ _ ⟨hLast, hExpr⟩ => ⟨by omega, hExpr⟩
  exact hItems

theorem moves_listDisplay
    (hOpen : stream.kind start = .mark .openBracket) :
    Moves stream start grammar.listDisplay fun expr index =>
      start < index ∧ stream.Reportable expr := by
  have hItem {here : Nat} (hHere : start + 1 ≤ here) :
      Moves stream here
        (do
          let item ← grammar.item
          refuseComprehension
          return item)
        fun item _ => stream.Reportable item := by
    refine (moves_item hGrammar here hHere).bind
      fun item _ _ ⟨_, hItem⟩ => ?_
    exact moves_refuseComprehension.bind fun _ _ _ _ => .pure hItem
  refine (moves_advance (ne_endOfFile_of_eq hOpen rfl)).bind ?_
  rintro opening _ _ ⟨rfl, hOpening⟩
  refine (moves_itemsUntil fun index hIndex => hItem hIndex).bind
    fun items index hIndex hItems => ?_
  refine Moves.mono (moves_closed hOpening ?_)
    fun _ _ _ ⟨hLast, hExpr⟩ => ⟨by omega, hExpr⟩
  exact hItems

theorem moves_dictEntry
    {here : Nat}
    (hHere : start < here) :
    Moves stream here grammar.dictEntry fun _ _ => True := by
  refine (hGrammar.expression here hHere).bind fun key middle hMiddle _ => ?_
  refine (moves_expect rfl).discard.bind ?_
  rintro _ _ _ ⟨_, rfl, _⟩
  exact (hGrammar.expression _ (by omega)).bind
    fun _ _ _ _ => .pure trivial

theorem moves_braceDisplay
    (hOpen : stream.kind start = .mark .openBrace) :
    Moves stream start grammar.braceDisplay fun expr index =>
      start < index ∧ stream.Reportable expr := by
  refine (moves_advance (ne_endOfFile_of_eq hOpen rfl)).bind ?_
  rintro opening _ _ ⟨rfl, hOpening⟩
  refine (moves_check _).bind ?_
  rintro _ _ _ ⟨rfl, rfl⟩
  refine .ite (fun hClose => ?_) fun _ => ?_
  · refine (moves_advance (TokenKind.ne_endOfFile_of_beq hClose rfl)).bind ?_
    rintro closing _ _ ⟨rfl, hClosing⟩
    exact .pure ⟨by omega, TokenStream.reportable_of_span
      (stream.merges _ _ hOpening hClosing) rfl⟩
  refine (moves_item hGrammar _ le_rfl).bind
    fun first middle _ ⟨hMiddle, _⟩ => ?_
  refine moves_refuseComprehension.bind ?_
  rintro _ _ _ rfl
  refine (moves_eat rfl).bind fun _ here hHere _ => ?_
  have hClosed {form : ExprForm Expr} {index : Nat}
      (hIndex : here ≤ index) (hForm : form.targetParts = []) :
      Moves stream index
        (do
          let closing ← expectClosing .closeBrace opening.span
          return Expr.mk (opening.span.merge closing.span) form)
        fun expr index => start < index ∧ stream.Reportable expr := by
    refine (moves_closed hOpening ?_).mono
      fun _ _ _ ⟨hLast, hExpr⟩ => ⟨by omega, hExpr⟩
    rw [hForm]
    exact nofun
  refine .ite (fun _ => ?_) fun _ => ?_
  · refine (hGrammar.expression _ (by omega)).bind
      fun value after hAfter _ => ?_
    refine moves_refuseComprehension.bind ?_
    rintro _ after _ rfl
    have hEntry (index : Nat) (hIndex : after < index) :=
      moves_dictEntry hGrammar (show start < index by omega)
    exact Moves.bind (.map ((moves_anyItems hEntry).mono fun _ _ _ _ => rfl))
      fun form index hIndex hForm => hClosed (by omega) hForm
  · have hItem (index : Nat) (hIndex : here < index) :=
      (moves_item hGrammar index (by omega)).mono fun _ _ _ _ => trivial
    exact Moves.bind (.map ((moves_anyItems hItem).mono fun _ _ _ _ => rfl))
      fun form index hIndex hForm => hClosed hIndex hForm

theorem moves_atom :
    Moves stream start grammar.atom fun expr index =>
      start < index ∧ stream.Reportable expr := by
  refine moves_peek.bind ?_
  rintro _ _ _ ⟨rfl, rfl⟩
  split
  case h_7 hString => exact moves_strings hString
  case h_8 hOpen => exact moves_parenthesized hGrammar hOpen
  case h_9 hOpen => exact moves_listDisplay hGrammar hOpen
  case h_10 hOpen => exact moves_braceDisplay hGrammar hOpen
  case h_11 => exact moves_refuse _ _
  case h_12 => exact moves_refuse _ _
  all_goals
    rename_i hKind
    exact moves_literal (ne_endOfFile_of_eq hKind rfl) rfl

/- An atom and what follows it. -/
theorem moves_primary :
    Moves stream start grammar.primary fun expr index =>
      start < index ∧ stream.Reportable expr := by
  refine (moves_atom hGrammar).bind fun first here hHere hFirst => ?_
  let placed := fun (object : Expr) (index : Nat) =>
    start < index ∧ stream.Reportable object
  refine moves_loop placed placed hFirst fun object middle hMiddle hObject => ?_
  have hMoved := hObject.1
  refine moves_peek.bind ?_
  rintro _ middle _ ⟨rfl, rfl⟩
  have hMerge {span : Span} {form : ExprForm Expr}
      (hSpan : stream.sound span) (hParts : form.targetParts = []) :
      stream.Reportable (.mk (object.span.merge span) form) :=
    TokenStream.reportable_of_span
      (stream.merges _ _ hObject.2.span hSpan) hParts
  split
  · rename_i hOpen
    refine (moves_advance (ne_endOfFile_of_eq hOpen rfl)).bind ?_
    rintro _ _ _ ⟨rfl, _⟩
    refine (moves_arguments (hGrammar.mono (by omega)) _).bind
      fun given index hIndex _ => ?_
    refine moves_previousSpan.bind ?_
    rintro span _ _ ⟨rfl, hSpan⟩
    exact .pure ⟨by omega, by omega, hMerge hSpan rfl⟩
  · rename_i hOpen
    refine (moves_advance (ne_endOfFile_of_eq hOpen rfl)).bind ?_
    rintro _ _ _ ⟨rfl, _⟩
    refine (moves_subscriptIndex (hGrammar.mono (by omega)) _ le_rfl).bind
      fun subscript index _ ⟨hIndex, _⟩ => ?_
    refine (moves_expectClosing _ _).discard.bind ?_
    rintro _ _ _ ⟨_, rfl, _⟩
    refine moves_previousSpan.bind ?_
    rintro span _ _ ⟨rfl, hSpan⟩
    exact .pure ⟨by omega, by omega, hMerge hSpan rfl⟩
  · rename_i hDot
    refine (moves_advance (ne_endOfFile_of_eq hDot rfl)).discard.bind ?_
    rintro _ _ _ ⟨_, rfl, _⟩
    refine moves_expectName.bind ?_
    rintro attr _ _ ⟨rfl, hAttr⟩
    exact .pure ⟨by omega, by omega, hMerge hAttr rfl⟩
  · exact .pure hObject

------------------------------------------------------------
-- Operators
------------------------------------------------------------

theorem moves_power :
    MovesExpr stream start grammar.power := by
  intro here hHere
  refine (moves_primary (hGrammar.mono (by omega))).bind
    fun base middle _ ⟨hMiddle, hBase⟩ => ?_
  refine (moves_eat rfl).bind fun _ after hAfter _ => ?_
  refine .ite (fun _ => ?_) fun _ => .pure ⟨by omega, hBase⟩
  refine (moves_nested (hGrammar.factor after (by omega))).bind
    fun exponent _ _ ⟨hIndex, hExponent⟩ => .pure ⟨by omega, ?_⟩
  exact TokenStream.reportable_of_span
    (stream.merges _ _ hBase.span hExponent.span) rfl

theorem moves_signed :
    MovesExpr stream start grammar.signed := by
  intro here hHere
  refine moves_peek.bind ?_
  rintro _ here _ ⟨rfl, rfl⟩
  split
  · exact moves_power hGrammar here hHere
  · rename_i op hOp
    have hMore : stream.kind here ≠ .endOfFile :=
      TokenKind.ne_endOfFile_of_solid (solid_of_signOp? hOp)
    refine (moves_advance hMore).bind ?_
    rintro token _ _ ⟨rfl, hToken⟩
    refine (moves_nested (hGrammar.factor _ (by omega))).bind
      fun operand _ _ ⟨hIndex, hOperand⟩ => .pure ⟨by omega, ?_⟩
    exact TokenStream.reportable_of_span
      (stream.merges _ _ hToken hOperand.span) rfl

omit hGrammar in
theorem moves_binaryLevel
    {operand : Parser Expr}
    (hOperand : MovesExpr stream start operand)
    {opFor : TokenKind → Option BinaryOp}
    (hEnd : opFor .endOfFile = none) :
    MovesExpr stream start (binaryLevel operand opFor) := by
  intro here hHere
  refine (hOperand here hHere).bind fun first after hAfter hFirst => ?_
  let placed := fun (left : Expr) (index : Nat) =>
    here < index ∧ stream.Reportable left
  refine moves_loop placed placed hFirst fun left middle hMiddle hLeft => ?_
  have hMoved := hLeft.1
  refine moves_peek.bind ?_
  rintro _ middle _ ⟨rfl, rfl⟩
  split
  · exact .pure hLeft
  · rename_i op hOp
    have hMore : stream.kind middle ≠ .endOfFile := by
      intro hLast
      rw [hLast, hEnd] at hOp
      cases hOp
    refine (moves_advance hMore).discard.bind ?_
    rintro _ _ _ ⟨_, rfl, _⟩
    refine (hOperand _ (by omega)).bind
      fun right _ _ ⟨hIndex, hRight⟩ => .pure ⟨by omega, by omega, ?_⟩
    exact TokenStream.reportable_of_span
      (stream.merges _ _ hLeft.2.span hRight.span) rfl

theorem moves_binary :
    MovesExpr stream start grammar.binary := by
  have hTower (levels : List (TokenKind → Option BinaryOp))
      (hEnd : ∀ level ∈ levels, level .endOfFile = none)
      {operand : Parser Expr}
      (hOperand : MovesExpr stream start operand) :
      MovesExpr stream start (levels.foldl binaryLevel operand) := by
    induction levels generalizing operand with
    | nil => exact hOperand
    | cons level levels ih =>
        rw [List.forall_mem_cons] at hEnd
        exact ih hEnd.2 (moves_binaryLevel hOperand hEnd.1)
  exact hTower binaryLevels (by simp [binaryLevels])
    (moves_signed hGrammar)

/- An operator of a comparison has at least one token. -/
omit hGrammar in
theorem moves_comparisonOp? :
    Moves stream start comparisonOp? fun op index =>
      op.isSome = true → start < index := by
  have hSingle {here : Nat} (op : CompareOp)
      (hFirst : stream.kind here ≠ .endOfFile) :
      Moves stream here (comparisonOp?.single op) fun op index =>
        op.isSome = true → here < index := by
    refine (moves_advance hFirst).discard.bind ?_
    rintro _ _ _ ⟨_, rfl, _⟩
    exact .pure fun _ => Nat.lt_succ_self here
  have hDouble {here : Nat} (op : CompareOp)
      (hFirst : stream.kind here ≠ .endOfFile)
      (hSecond : stream.kind (here + 1) ≠ .endOfFile) :
      Moves stream here (comparisonOp?.double op) fun op index =>
        op.isSome = true → here < index := by
    refine (moves_advance hFirst).discard.bind ?_
    rintro _ _ _ ⟨_, rfl, _⟩
    exact (hSingle op hSecond).mono
      fun _ _ hIndex _ _ => Nat.lt_of_succ_le hIndex
  refine moves_peek.bind ?_
  rintro _ here _ ⟨rfl, rfl⟩
  refine (moves_peekAhead 1).bind ?_
  rintro _ _ _ ⟨rfl, rfl⟩
  split
  case h_8 hNot hIn =>
      exact hDouble .notMember (ne_endOfFile_of_eq hNot rfl)
        (ne_endOfFile_of_eq hIn rfl)
  case h_9 hIs hNot =>
      exact hDouble .notSame (ne_endOfFile_of_eq hIs rfl)
        (ne_endOfFile_of_eq hNot rfl)
  case h_10 hIs _ => exact hSingle .same (ne_endOfFile_of_eq hIs rfl)
  case h_11 => exact .pure nofun
  all_goals
    rename_i hOp
    exact hSingle _ (ne_endOfFile_of_eq hOp rfl)

theorem moves_comparison :
    MovesExpr stream start grammar.comparison := by
  have hOperand := moves_binary hGrammar
  intro here hHere
  refine (hOperand here hHere).bind
    fun left middle hMiddle ⟨hMoved, hLeft⟩ => ?_
  let anything := fun (_ : List (CompareOp × Expr)) (_ : Nat) => True
  refine (moves_loop anything anything trivial
    fun rest after hAfter _ => ?_).bind fun rest index hIndex _ => ?_
  · refine moves_comparisonOp?.bind fun op last hLast hOp => ?_
    split
    · exact .pure trivial
    · have hMore := hOp rfl
      exact (hOperand last (by omega)).bind
        fun _ _ _ ⟨hRight, _⟩ => .pure ⟨by omega, trivial⟩
  · refine .ite (fun _ => .pure ⟨by omega, hLeft⟩) fun _ => ?_
    refine moves_previousSpan.bind ?_
    rintro span _ _ ⟨rfl, hSpan⟩
    exact .pure ⟨by omega, TokenStream.reportable_of_span
      (stream.merges _ _ hLeft.span hSpan) rfl⟩

theorem moves_negation :
    MovesExpr stream start grammar.negation := by
  intro here hHere
  refine (moves_check _).bind ?_
  rintro _ here _ ⟨rfl, rfl⟩
  refine .ite (fun hNot => ?_) fun _ => moves_comparison hGrammar here hHere
  refine (moves_advance (TokenKind.ne_endOfFile_of_beq hNot rfl)).bind ?_
  rintro token _ _ ⟨rfl, hToken⟩
  refine (moves_nested (hGrammar.notTest _ (by omega))).bind
    fun operand _ _ ⟨hIndex, hOperand⟩ => .pure ⟨by omega, ?_⟩
  exact TokenStream.reportable_of_span
    (stream.merges _ _ hToken hOperand.span) rfl

omit hGrammar in
theorem moves_booleanLevel
    {operand : Parser Expr}
    (hOperand : MovesExpr stream start operand)
    (word : Keyword)
    (op : BoolOp) :
    MovesExpr stream start (booleanLevel word op operand) := by
  intro here hHere
  refine (hOperand here hHere).bind
    fun first middle hMiddle ⟨hMoved, hFirst⟩ => ?_
  refine (moves_check _).bind ?_
  rintro _ middle _ ⟨rfl, rfl⟩
  refine .ite (fun _ => ?_) fun _ => .pure ⟨hMoved, hFirst⟩
  let anything := fun (_ : List Expr) (_ : Nat) => True
  refine (moves_loop anything anything trivial
    fun values after hAfter _ => ?_).bind fun values index hIndex _ => ?_
  · refine (moves_eat rfl).bind fun _ last hLast hWord => ?_
    refine .ite (fun hFound => ?_) fun _ => .pure trivial
    have hMore := hWord hFound
    exact (hOperand last (by omega)).bind
      fun _ _ _ ⟨hValue, _⟩ => .pure ⟨by omega, trivial⟩
  · refine moves_previousSpan.bind ?_
    rintro span _ _ ⟨rfl, hSpan⟩
    exact .pure ⟨by omega, TokenStream.reportable_of_span
      (stream.merges _ _ hFirst.span hSpan) rfl⟩

theorem moves_disjunction :
    MovesExpr stream start grammar.disjunction :=
  moves_booleanLevel
    (moves_booleanLevel (moves_negation hGrammar) .andWord .and)
    .orWord .or

------------------------------------------------------------
-- Whole Expressions
------------------------------------------------------------

theorem moves_conditional :
    MovesExpr stream start grammar.conditional := by
  have hOperand := moves_disjunction hGrammar
  intro here hHere
  refine (hOperand here hHere).bind
    fun body middle hMiddle ⟨hMoved, hBody⟩ => ?_
  refine (moves_eat rfl).bind fun _ after hAfter _ => ?_
  refine .ite (fun _ => ?_) fun _ => .pure ⟨by omega, hBody⟩
  refine (hOperand after (by omega)).bind fun test last hLast _ => ?_
  refine (moves_expect rfl).discard.bind ?_
  rintro _ _ _ ⟨_, rfl, _⟩
  refine (hGrammar.expression _ (by omega)).bind
    fun orelse _ _ ⟨hIndex, hOrelse⟩ => .pure ⟨by omega, ?_⟩
  exact TokenStream.reportable_of_span
    (stream.merges _ _ hBody.span hOrelse.span) rfl

theorem moves_lambda
    (hWord : stream.kind start ≠ .endOfFile) :
    Moves stream start grammar.lambda fun expr index =>
      start < index ∧ stream.Reportable expr := by
  refine (moves_advance hWord).bind ?_
  rintro token _ _ ⟨rfl, hToken⟩
  refine (moves_params hGrammar _ _).bind fun params middle hMiddle _ => ?_
  refine (moves_expect rfl).discard.bind ?_
  rintro _ _ _ ⟨_, rfl, _⟩
  refine (hGrammar.expression _ (by omega)).bind
    fun body _ _ ⟨hIndex, hBody⟩ => .pure ⟨by omega, ?_⟩
  exact TokenStream.reportable_of_span
    (stream.merges _ _ hToken hBody.span) rfl

/- The rules of a level move if those below do from the next token on. -/
theorem movesFrom_step :
    grammar.step.MovesFrom stream start where
  expression := by
    intro here hHere
    refine moves_nested ?_
    refine (moves_check _).bind ?_
    rintro _ here _ ⟨rfl, rfl⟩
    refine .ite (fun hWord => ?_) fun _ =>
      moves_conditional hGrammar here hHere
    exact moves_lambda (hGrammar.mono (by omega))
      (TokenKind.ne_endOfFile_of_beq hWord rfl)
  notTest := moves_negation hGrammar
  bitOr := moves_binary hGrammar
  factor := moves_signed hGrammar

end Rules

/-
  Levels for as many expressions as tokens are left are enough.
  With fewer of them a parser may run out of levels.
-/
theorem movesFrom_levels
    {count start : Nat}
    (hCount : stream.mayStall ∨ stream.size ≤ start + count) :
    (levels count).MovesFrom stream start := by
  induction count generalizing start with
  | zero =>
      have hNone :
          MovesExpr stream start (throw .stalled : Parser Expr) := by
        refine fun here hHere => .inside fun hInside => .throw fun _ => ?_
        exact hCount.resolve_right (by omega)
      exact ⟨hNone, hNone, hNone, hNone⟩
  | succ count ih =>
      have hBelow := ih (hCount.imp_right fun hSize => (by omega :
        stream.size ≤ start + 1 + count))
      exact movesFrom_step
        ⟨hBelow.expression, hBelow.notTest, hBelow.bitOr, hBelow.factor⟩

/- Rules with as many levels as tokens are left. -/
theorem movesExpr_remaining
    {start : Nat}
    {family : Nat → Parser Expr}
    (hFamily :
      ∀ here count, start ≤ here → stream.size ≤ here + count →
        MovesExpr stream here (family count)) :
    MovesExpr stream start
      fun cursor => family (cursor.remaining + 1) cursor := by
  intro here hHere cursor hCursor
  refine hFamily here _ hHere ?_ here le_rfl cursor hCursor
  rw [Cursor.remaining, hCursor.tokens, hCursor.index, TokenStream.size]
  omega

/- No expression runs out of levels. -/
theorem movesFrom_top
    (start : Nat) :
    top.MovesFrom stream start where
  expression := movesExpr_remaining fun _ _ _ hSize =>
    (movesFrom_levels (.inr hSize)).expression
  notTest := movesExpr_remaining fun _ _ _ hSize =>
    (movesFrom_levels (.inr hSize)).notTest
  bitOr := movesExpr_remaining fun _ _ _ hSize =>
    (movesFrom_levels (.inr hSize)).bitOr
  factor := movesExpr_remaining fun _ _ _ hSize =>
    (movesFrom_levels (.inr hSize)).factor


end ExprGrammar

end SnippetGrader
