import SnippetGrader.Proofs.Parsing.DisplayForms

/-
  Attributes, subscripts and calls are read back.

  They go on where the expression does that they follow. The
  brackets of a subscript hold an index, which may be a slice,
  or several with commas between them. Those of a call hold
  arguments, the ones with names or double stars last.

  Key definitions include:
    * `Expr.IndexPart`, `Expr.Index`
    * `ExprGrammar.argumentRound`

  Key theorems include:
    * `ExprForm.climbedAt_attribute`
    * `ExprForm.climbedAt_subscript`
    * `ExprForm.climbedAt_call`
-/

namespace SnippetGrader

open SnippetGrader.Parser SnippetGrader.ExprGrammar

namespace ExprForm

------------------------------------------------------------
-- Trailers
------------------------------------------------------------

/- What follows an object goes on where the object does. -/
theorem climbedAt_trailer
    {form : ExprForm Expr}
    {object : Expr}
    {opening : Mark}
    {trailer : List TokenKind}
    (hStrength : form.strength = Strength.primary)
    (hTokens :
      form.tokens =
        object.tokensAt Strength.primary ++ .mark opening :: trailer)
    (hNesting : object.nestingAt Strength.primary ≤ form.nesting)
    (hReach : (TokenKind.mark opening).reach ≤ Strength.primary + 1)
    (hObject : object.Whole)
    (hTrailer :
      ∀ n depth more (found : Expr),
        form.nesting ≤ depth →
          trailer.length < n →
            found.erased = object.erased →
              Reads ((levels n).trailerRound found) depth
                (.mark opening :: (trailer ++ more)) more
                (Step.GoesOn
                  (·.erased = (Expr.synthetic form).erased))) :
    (Expr.synthetic form).ClimbedAt Strength.primary := by
  intro n depth rest after holds hDepth hLength hStops hClimb
  have hWhole :
      (Expr.synthetic form).tokensAt Strength.primary = form.tokens :=
    Expr.tokensAt_of_tight hStrength.ge
  have hForm :
      (Expr.synthetic form).nestingAt Strength.primary = form.nesting :=
    Expr.nestingAt_of_tight hStrength.ge
  rw [hForm] at hDepth
  rw [hWhole, hTokens] at hLength ⊢
  simp only [List.length_append, List.length_cons] at hLength
  rw [List.append_assoc, List.cons_append]
  refine hObject.climbed (Or.inr rfl) _ _ _ _ _ (by omega) (by omega)
    ⟨_, _, rfl, hReach⟩ fun found hFound => ?_
  refine .again _ rest
    (hTrailer n depth rest found hDepth (by omega) hFound) ?_ hClimb
  simp only [List.length_cons, List.length_append]
  omega

theorem climbedAt_attribute
    {object : Expr}
    {attr : Ident}
    (hObject : object.Whole) :
    (Expr.synthetic (.attribute object attr)).ClimbedAt
      Strength.primary := by
  have hTokens :
      (ExprForm.attribute object attr).tokens =
        object.tokensAt Strength.primary ++
          [.mark .dot, .name attr.name] := by
    rw [tokens, lexemes, kindsOf_append]
    rfl
  refine climbedAt_trailer rfl hTokens le_rfl (by decide) hObject ?_
  intro n depth more found _ _ hFound
  refine .peek (.ofFalse Bool.false_ne_true
    (.ofFalse Bool.false_ne_true (.ofTrue rfl (.skip ?_))))
  refine .bind (.expectName attr.name) fun name hName => .pure ?_
  change Expr.erased (.mk _ _) = _
  rw [Expr.erased, erased, hFound, Ident.erased, hName]
  rfl

end ExprForm

------------------------------------------------------------
-- Parts of an Index
------------------------------------------------------------

/- What ends one of several parts is a comma or the closing mark. -/
def EndsPart (closing : Mark) (rest : List TokenKind) : Prop :=
  ∃ mark later,
    rest = .mark mark :: later ∧ (mark = .comma ∨ mark = closing)

/- The tokens of an optional expression. -/
def Expr.optionTokens (optional : Option Expr) : List TokenKind :=
  kindsOf (Expr.optionLexemes optional)

namespace Expr

theorem stops_endsPart
    {closing : Mark}
    {rest : List TokenKind}
    (hEnds : EndsPart closing rest)
    (hClosing : (TokenKind.mark closing).reach = 0) :
    Stops 0 rest := by
  obtain ⟨mark, later, rfl, rfl | rfl⟩ := hEnds
  · exact ⟨_, later, rfl, le_rfl⟩
  · exact ⟨_, later, rfl, hClosing.le⟩

/- An expression that is read back as one of several indices. -/
def IndexPart (expr : Expr) : Prop :=
  ∀ n depth,
    expr.itemNesting ≤ depth →
      (expr.tokensAt 0).length < n →
        ReadsItem (levels n).subscriptItem depth (tokensAt 0)
          (EndsPart .closeBracket) (· == .mark .closeBracket) erased expr

/- An expression that stands alone is an index. -/
theorem Whole.indexPart
    {expr : Expr}
    (hExpr : expr.Whole)
    (hPlain : expr.IsPlain) :
    expr.IndexPart := by
  intro n depth hDepth hLength
  obtain ⟨kind, later, lead, hTokens, hLead, -⟩ :=
    hExpr.leads (Nat.zero_le Strength.atom)
  have hOther {mark : Mark}
      (hMark : (TokenKind.mark mark).lead? = none) :
      ¬ (kind == .mark mark) = true :=
    Bool.eq_false_iff.mp (TokenKind.mark_of_lead hLead hMark)
  refine ⟨⟨kind, later, hTokens, Bool.eq_false_iff.mpr (hOther rfl)⟩, ?_⟩
  intro more hMore
  rw [itemNesting_of_plain hPlain] at hDepth
  have hRead :=
    hExpr.asExpression (Nat.zero_le _) hDepth hLength
      (stops_endsPart hMore rfl)
  unfold Recovers at hRead
  rw [hTokens, List.cons_append] at hRead ⊢
  refine .currentSpan fun start => .check (.ofFalse (hOther rfl) ?_)
  refine hRead.bind fun index hIndex => ?_
  obtain ⟨mark, others, rfl, rfl | rfl⟩ := hMore <;>
    exact .check (.ofFalse Bool.false_ne_true (.pure hIndex))

/- What ends a bound of a slice. -/
def EndsBound (rest : List TokenKind) : Prop :=
  ∃ mark later,
    rest = .mark mark :: later ∧
      (mark = .colon ∨ mark = .comma ∨ mark = .closeBracket)

theorem EndsBound.stops
    {rest : List TokenKind}
    (hEnds : EndsBound rest) :
    Stops 0 rest := by
  obtain ⟨mark, later, rfl, rfl | rfl | rfl⟩ := hEnds <;>
    exact ⟨_, later, rfl, le_rfl⟩

section Slices

variable {n depth : Nat}

/- A bound of a slice may be left out. -/
theorem reads_sliceBound
    {bound : Option Expr}
    (hBound : ∀ expr ∈ bound, expr.Whole)
    (hDepth : optionNesting bound ≤ depth)
    (hLength : (optionTokens bound).length < n)
    {more : List TokenKind}
    (hMore : EndsBound more) :
    Reads (levels n).sliceBound depth (optionTokens bound ++ more) more
      fun found => found.map erased = bound.map erased := by
  cases bound with
  | none =>
      obtain ⟨mark, later, rfl, rfl | rfl | rfl⟩ := hMore <;>
        exact .peek (.pure rfl)
  | some expr =>
      have hExpr := hBound expr rfl
      obtain ⟨kind, later, lead, hTokens, hLead, -⟩ :=
        hExpr.leads (Nat.zero_le Strength.atom)
      have hRead :=
        hExpr.asExpression (Nat.zero_le _) hDepth hLength hMore.stops
      unfold Recovers at hRead
      change Reads _ _ (expr.tokensAt 0 ++ more) _ _
      rw [hTokens, List.cons_append] at hRead ⊢
      have hSome :
          Reads (some <$> (levels n).expression) depth
            (kind :: (later ++ more)) more
            fun found => found.map erased = (some expr).map erased :=
        .map (hRead.mono fun _ hFound => congrArg some hFound)
      refine .peek ?_
      cases kind with
      | mark symbol =>
          cases symbol <;> first
            | exact hSome
            | cases hLead
      | _ => exact hSome

/- The tokens of a slice after its lower bound. -/
def sliceTokens (upper step : Option Expr) : List TokenKind :=
  .mark .colon ::
    (optionTokens upper ++
      if step.isSome then .mark .colon :: optionTokens step else [])

theorem tokensAt_slice
    (span : Span)
    (lower upper step : Option Expr) :
    (Expr.mk span (.slice lower upper step)).tokensAt 0 =
      optionTokens lower ++ sliceTokens upper step := by
  rw [tokensAt_of_tight (Nat.zero_le _), ExprForm.tokens,
    ExprForm.lexemes, kindsOf_append, kindsOf_token, kindsOf_append,
    sliceTokens]
  cases step <;> rfl

/- The second colon of a slice stands only before a step. -/
theorem reads_sliceRest
    {start : Span}
    {lower found upper step : Option Expr}
    (hLower : found.map erased = lower.map erased)
    (hBounds : ∀ expr ∈ upper.toList ++ step.toList, expr.Whole)
    (hUpper : optionNesting upper ≤ depth)
    (hStep : optionNesting step ≤ depth)
    (hLength : (sliceTokens upper step).length ≤ n)
    {more : List TokenKind}
    (hMore : EndsPart .closeBracket more) :
    Reads ((levels n).sliceRest start found) depth
      (sliceTokens upper step ++ more) more
      fun expr =>
        expr.erased = (synthetic (.slice lower upper step)).erased := by
  have hEnd : EndsBound more := by
    obtain ⟨mark, later, rfl, rfl | rfl⟩ := hMore <;>
      exact ⟨_, later, rfl, by simp⟩
  have hUpperWhole : ∀ expr ∈ upper, expr.Whole := fun expr hMem =>
    hBounds expr (List.mem_append_left _ (Option.mem_toList.mpr hMem))
  have hStepWhole : ∀ expr ∈ step, expr.Whole := fun expr hMem =>
    hBounds expr (List.mem_append_right _ (Option.mem_toList.mpr hMem))
  rw [sliceTokens] at hLength ⊢
  rw [List.cons_append, List.append_assoc]
  simp only [List.length_cons, List.length_append] at hLength
  refine .bind (.discard (.expect rfl)) fun _ _ => ?_
  have hResult {foundUpper foundStep : Option Expr}
      (hFoundUpper : foundUpper.map erased = upper.map erased)
      (hFoundStep : foundStep.map erased = step.map erased)
      (span : Span) :
      (Expr.mk span (.slice found foundUpper foundStep)).erased =
        (synthetic (.slice lower upper step)).erased := by
    simp only [erased, ExprForm.erased, synthetic, erasedOption_eq_map,
      hLower, hFoundUpper, hFoundStep]
  cases step with
  | none =>
      refine (reads_sliceBound hUpperWhole hUpper (show _ < n by omega)
        hEnd).bind fun foundUpper hFound => ?_
      obtain ⟨mark, later, rfl, hMark⟩ := hMore
      have hColon : (TokenKind.mark mark == .mark .colon) = false := by
        rcases hMark with rfl | rfl <;> rfl
      refine .leave hColon (.ofFalse Bool.false_ne_true ?_)
      refine .bind (show Reads _ _ _ (.mark mark :: later) (· = none) from
        .pure rfl) ?_
      rintro _ rfl
      exact .previousSpan fun span => .pure (hResult hFound rfl _)
  | some bound =>
      simp only [Option.isSome_some, if_true, List.length_cons] at hLength
      refine (reads_sliceBound hUpperWhole hUpper (show _ < n by omega)
        ⟨.colon, _, rfl, Or.inl rfl⟩).bind fun foundUpper hFound => ?_
      refine .eat rfl (.ofTrue rfl ?_)
      refine (reads_sliceBound hStepWhole hStep (show _ < n by omega)
        hEnd).bind fun foundStep hOther => ?_
      exact .previousSpan fun span => .pure (hResult hFound hOther _)

/- A slice starts with its lower bound or with a colon. -/
theorem indexPart_slice
    {span : Span}
    {lower upper step : Option Expr}
    (hBounds :
      ∀ expr ∈ lower.toList ++ upper.toList ++ step.toList,
        expr.Whole) :
    (Expr.mk span (.slice lower upper step)).IndexPart := by
  intro n depth hDepth hLength
  have hNesting :
      (Expr.mk span (.slice lower upper step)).itemNesting =
        max (optionNesting lower)
          (max (optionNesting upper) (optionNesting step)) :=
    Nat.zero_add _
  rw [hNesting] at hDepth
  rw [tokensAt_slice, List.length_append] at hLength
  have hLater : ∀ expr ∈ upper.toList ++ step.toList, expr.Whole := by
    intro expr hMem
    refine hBounds expr ?_
    rw [List.append_assoc]
    exact List.mem_append_right _ hMem
  have hRest {start : Span} {found : Option Expr}
      (hFound : found.map erased = lower.map erased)
      {more : List TokenKind}
      (hMore : EndsPart .closeBracket more) :
      Reads ((levels n).sliceRest start found) depth
        (sliceTokens upper step ++ more) more
        fun expr =>
          expr.erased =
            (Expr.mk span (.slice lower upper step)).erased :=
    reads_sliceRest hFound hLater (by omega) (by omega) (by omega) hMore
  cases lower with
  | none =>
      refine ⟨⟨_, _, tokensAt_slice span none upper step, rfl⟩, ?_⟩
      intro more hMore
      rw [tokensAt_slice]
      exact .currentSpan fun start => .check (.ofTrue rfl (hRest rfl hMore))
  | some bound =>
      have hBound := hBounds bound (by simp)
      obtain ⟨kind, later, lead, hTokens, hLead, -⟩ :=
        hBound.leads (Nat.zero_le Strength.atom)
      have hOther {mark : Mark}
          (hMark : (TokenKind.mark mark).lead? = none) :
          ¬ (kind == .mark mark) = true :=
        Bool.eq_false_iff.mp (TokenKind.mark_of_lead hLead hMark)
      have hWhole :
          (Expr.mk span (.slice (some bound) upper step)).tokensAt 0 =
            kind :: (later ++ sliceTokens upper step) := by
        rw [tokensAt_slice]
        change bound.tokensAt 0 ++ _ = _
        rw [hTokens, List.cons_append]
      refine
        ⟨⟨kind, _, hWhole, Bool.eq_false_iff.mpr (hOther rfl)⟩, ?_⟩
      intro more hMore
      have hRead :=
        @Whole.asExpression _ n depth (sliceTokens upper step ++ more)
          hBound 0 (Nat.zero_le _) ((le_max_left _ _).trans hDepth)
          ((Nat.le_add_right _ _).trans_lt hLength) ⟨_, _, rfl, le_rfl⟩
      unfold Recovers at hRead
      rw [hTokens, List.cons_append] at hRead
      rw [hWhole, List.cons_append, List.append_assoc]
      refine .currentSpan fun start => .check (.ofFalse (hOther rfl) ?_)
      refine hRead.bind fun found hFound => .check (.ofTrue rfl ?_)
      exact @hRest start (some found) (congrArg some hFound) _ hMore

end Slices

------------------------------------------------------------
-- Indices
------------------------------------------------------------

/- The tokens between the brackets of a subscript. -/
def indexTokens (expr : Expr) : List TokenKind :=
  kindsOf expr.indexLexemes

/- An expression that is read back between the brackets of a subscript. -/
def Index (expr : Expr) : Prop :=
  ∀ n depth more,
    expr.indexNesting ≤ depth →
      expr.indexTokens.length < n →
        Recovers (levels n).subscriptIndex depth expr.indexTokens
          (.mark .closeBracket :: more) expr

theorem indexTokens_single
    {expr : Expr}
    (hUnstarred : expr.isStarred = false)
    (hForm : ∀ items, expr.form = .tuple items → items = []) :
    expr.indexTokens = expr.tokensAt 0 ∧
      expr.indexNesting = expr.itemNesting := by
  obtain ⟨span, form⟩ := expr
  cases form with
  | tuple items =>
      rw [hForm items rfl]
      exact ⟨rfl, rfl⟩
  | starred value => cases hUnstarred
  | _ => exact ⟨rfl, rfl⟩

/- One index alone is the index. -/
theorem IndexPart.index
    {expr : Expr}
    (hExpr : expr.IndexPart)
    (hUnstarred : expr.isStarred = false)
    (hForm : ∀ items, expr.form = .tuple items → items = []) :
    expr.Index := by
  intro n depth more hDepth hLength
  obtain ⟨hTokens, hNesting⟩ := indexTokens_single hUnstarred hForm
  rw [hNesting] at hDepth
  rw [hTokens] at hLength ⊢
  refine ((hExpr n depth hDepth hLength).reads _
    ⟨.closeBracket, more, rfl, Or.inr rfl⟩).bind fun found hFound => ?_
  exact .check (.ofFalse Bool.false_ne_true (.pure hFound))

/- Several indices form a tuple without brackets. -/
theorem index_tuple
    {span : Span}
    {items : List Expr}
    (hLength : 2 ≤ items.length)
    (hItems : ∀ item ∈ items, item.IndexPart) :
    (Expr.mk span (.tuple items)).Index := by
  obtain ⟨first, second, later, rfl⟩ :
      ∃ first second later, items = first :: second :: later := by
    rcases items with _ | ⟨first, _ | ⟨second, later⟩⟩
    · cases hLength
    · exact absurd hLength (by simp)
    · exact ⟨first, second, later, rfl⟩
  intro n depth more hDepth hTokens
  have hNesting :
      (Expr.mk span (.tuple (first :: second :: later))).indexNesting =
        itemsNesting (first :: second :: later) := Nat.zero_add _
  have hIndex :
      (Expr.mk span (.tuple (first :: second :: later))).indexTokens =
        first.tokensAt 0 ++
          (second :: later).flatMap fun item =>
            .mark .comma :: item.tokensAt 0 := by
    have hItems :=
      ExprForm.intercalate_eq_flatMap [.mark .comma] (tokensAt 0) first
        (second :: later)
    rw [indexTokens, indexLexemes, kindsOf_commaSeparated,
      lexemesAll_eq_map, List.map_map]
    · exact hItems
    · nofun
  rw [hNesting] at hDepth
  rw [hIndex] at hTokens ⊢
  rw [List.length_append] at hTokens
  have hFirst :=
    (hItems first List.mem_cons_self n depth
      ((le_itemsNesting List.mem_cons_self).trans hDepth)
      (by omega)).reads
  have hLater :
      ∀ item ∈ second :: later,
        ReadsItem (levels n).subscriptItem depth (tokensAt 0)
          (EndsPart .closeBracket) (· == .mark .closeBracket) erased
          item := by
    intro item hMem
    have hMember := List.mem_cons_of_mem first hMem
    have hPart :=
      @ExprForm.length_le_flatMap _ _
        (fun item : Expr => TokenKind.mark .comma :: item.tokensAt 0) _ _
        hMem
    rw [List.length_cons] at hPart
    exact hItems item hMember n depth
      ((le_itemsNesting hMember).trans hDepth) (by omega)
  unfold Recovers
  rw [List.append_assoc]
  refine (hFirst _ ⟨.comma, _, rfl, Or.inl rfl⟩).bind fun found hFound =>
    .check (.ofTrue rfl ?_)
  refine .bind (reads_moreItems (fun _ => ⟨.comma, _, rfl, Or.inl rfl⟩)
    ⟨.closeBracket, _, rfl, Or.inr rfl⟩ rfl [found] hLater)
    fun items hRead => .previousSpan fun _ => .pure ?_
  rw [erased, ExprForm.erased, erasedAll_eq_map, hRead]
  simp [erased, ExprForm.erased, synthetic, hFound]

end Expr

/- A subscript is read with what stands between its brackets. -/
theorem ExprForm.climbedAt_subscript
    {object index : Expr}
    (hObject : object.Whole)
    (hIndex : index.Index) :
    (Expr.synthetic (.subscript object index)).ClimbedAt
      Strength.primary := by
  have hTokens :
      (ExprForm.subscript object index).tokens =
        object.tokensAt Strength.primary ++
          .mark .openBracket ::
            (index.indexTokens ++ [.mark .closeBracket]) := by
    rw [tokens, lexemes, kindsOf_append, kindsOf_enclosed]
    rfl
  refine climbedAt_trailer rfl hTokens (le_max_left _ _) le_rfl hObject ?_
  intro n depth more found hDepth hLength hFound
  rw [List.length_append] at hLength
  have hRead :=
    hIndex n depth more ((le_max_right _ _).trans hDepth) (by omega)
  rw [List.append_assoc]
  refine .peek (.ofFalse Bool.false_ne_true (.ofTrue rfl
    (.bind .advance fun opening _ => ?_)))
  refine hRead.bind fun other hOther => ?_
  refine .bind (.discard (.expectClosing _ _)) fun _ _ =>
    .previousSpan fun _ => .pure ?_
  change Expr.erased (.mk _ _) = _
  rw [Expr.erased, erased, hFound, hOther]
  rfl

------------------------------------------------------------
-- Arguments
------------------------------------------------------------

namespace ExprGrammar

variable {grammar : ExprGrammar}

/- One more argument, given the token it starts with and the next one. -/
def argument
    (grammar : ExprGrammar)
    (given : Arguments) :
    TokenKind → TokenKind → Parser Arguments
  | .mark .doubleStar, _ => grammar.unpackedArgument given
  | .name id, .mark .assign => grammar.keywordArgument id given
  | _, _ => grammar.positionalArgument given

/- One more argument and the comma after it, unless the last one is read. -/
def argumentRound
    (grammar : ExprGrammar)
    (given : Arguments) :
    Parser (Step Arguments Arguments) := do
  let kind ← peek
  if kind == .mark .closeParen then return .done given
  else
    let ahead ← peekAhead 1
    let given ← grammar.argument given kind ahead
    if ← eat (.mark .comma) then return .again given
    else return .done given

theorem arguments_eq
    (openedAt : Span) :
    grammar.arguments openedAt =
      loop ({} : Arguments) grammar.argumentRound >>= fun given =>
        discard (expectClosing .closeParen openedAt) >>= fun _ =>
          pure given := by
  unfold arguments
  congr 2
  funext given
  unfold argumentRound
  congr 1
  funext kind
  split
  · rfl
  · congr 1
    funext ahead
    cases kind with
    | mark symbol => cases symbol <;> rfl
    | name id =>
        cases ahead with
        | mark symbol => cases symbol <;> rfl
        | _ => rfl
    | _ => rfl

theorem argument_positional
    {given : Arguments}
    {kind ahead : TokenKind}
    (hKind : kind ≠ .mark .doubleStar)
    (hAhead : ∀ id, kind = .name id → ahead ≠ .mark .assign) :
    grammar.argument given kind ahead =
      grammar.positionalArgument given := by
  cases kind with
  | mark symbol =>
      cases symbol <;> first
        | rfl
        | exact absurd rfl hKind
  | name id =>
      cases ahead with
      | mark symbol =>
          cases symbol <;> first
            | rfl
            | exact absurd rfl (hAhead id rfl)
      | _ => rfl
  | _ => rfl

section Rounds

variable {given : Arguments}
variable {depth : Nat}
variable {tokens more : List TokenKind}
variable {holds : Arguments → Prop}

/- The next tokens are those of one more argument. -/
def StartsArgument
    (grammar : ExprGrammar)
    (given : Arguments)
    (depth : Nat)
    (tokens more : List TokenKind)
    (holds : Arguments → Prop) : Prop :=
  ∃ kind later,
    tokens = kind :: later ∧
      (kind == .mark .closeParen) = false ∧
        Reads (grammar.argument given kind (later.headD .endOfFile)) depth
          tokens more holds

theorem StartsArgument.goesOn
    (hStarts :
      StartsArgument grammar given depth tokens (.mark .comma :: more)
        holds) :
    Reads (grammar.argumentRound given) depth tokens more
      (Step.GoesOn holds) := by
  obtain ⟨kind, later, rfl, hKind, hRead⟩ := hStarts
  refine .peek (.ofFalse (Bool.eq_false_iff.mp hKind) (.peekAhead ?_))
  exact hRead.bind fun found hFound =>
    .eat rfl (.ofTrue rfl (.pure hFound))

theorem StartsArgument.endsWith
    {post : Arguments → Prop}
    (hStarts :
      StartsArgument grammar given depth tokens
        (.mark .closeParen :: more) holds)
    (hPost : ∀ found, holds found → post found) :
    Reads (grammar.argumentRound given) depth tokens
      (.mark .closeParen :: more) (Step.EndsWith post) := by
  obtain ⟨kind, later, rfl, hKind, hRead⟩ := hStarts
  refine .peek (.ofFalse (Bool.eq_false_iff.mp hKind) (.peekAhead ?_))
  exact hRead.bind fun found hFound =>
    .leave rfl (.ofFalse Bool.false_ne_true (.pure (hPost found hFound)))

end Rounds

end ExprGrammar

namespace Expr

/- A name at the start of an expression is not that of an argument. -/
def Unassigned (expr : Expr) : Prop :=
  ∀ id later,
    expr.tokensAt 0 = .name id :: later →
      later.head? ≠ some (.mark .assign)

/- An expression that is read back as an argument without a name. -/
structure Argument (n depth : Nat) (expr : Expr) : Prop where
  item : expr.Item
  unassigned : expr.Unassigned
  nested : expr.itemNesting ≤ depth
  fits : (expr.tokensAt 0).length < n

theorem Argument.starts
    {n depth : Nat}
    {arg : Expr}
    {given : Arguments}
    {more : List TokenKind}
    (hArg : arg.Argument n depth)
    (hNone : given.keywords = [])
    (hMore : EndsPart .closeParen more) :
    StartsArgument (levels n) given depth (arg.tokensAt 0 ++ more) more
      fun found =>
        found.keywords = given.keywords ∧
          ∃ value,
            value.erased = arg.erased ∧
              found.args = given.args ++ [value] := by
  obtain ⟨kind, later, hTokens, hKind⟩ :=
    @Item.lead_ne arg hArg.item .closeParen rfl (by decide)
  have hStars : kind ≠ .mark .doubleStar := by
    obtain ⟨_, _, hSame, hLead⟩ := hArg.item.leads
    rw [hTokens, List.cons.injEq] at hSame
    rintro rfl
    rw [← hSame.1] at hLead
    rcases hLead with hStar | ⟨lead, hLead⟩
    · cases hStar
    · cases hLead
  have hRead :=
    hArg.item.recovered n depth more hArg.nested hArg.fits
      (stops_endsPart hMore rfl)
  unfold Recovers at hRead
  rw [hTokens, List.cons_append] at hRead ⊢
  refine ⟨kind, later ++ more, rfl, hKind, ?_⟩
  rw [argument_positional hStars]
  · refine hRead.bind fun value hValue => .ofFalse ?_ (.pure ?_)
    · rw [hNone]
      exact Bool.false_ne_true
    · exact ⟨rfl, value, hValue, rfl⟩
  · rintro id rfl
    have hNext := hArg.unassigned id later hTokens
    cases later with
    | nil => obtain ⟨mark, others, rfl, rfl | rfl⟩ := hMore <;> nofun
    | cons next others => exact fun hSame => hNext (congrArg some hSame)

end Expr

namespace KeywordArg

/- The tokens of an argument with a name or with double stars. -/
def tokens (keyword : KeywordArg Expr) : List TokenKind :=
  kindsOf (Expr.lexemesOfKeyword keyword)

/- The names among the arguments. -/
def names (keywords : List (KeywordArg Expr)) : List String :=
  keywords.filterMap fun keyword => keyword.name.map (·.name)

theorem names_append
    (first second : List (KeywordArg Expr)) :
    names (first ++ second) = names first ++ names second :=
  List.filterMap_append

theorem names_erased
    (keywords : List (KeywordArg Expr)) :
    names (keywords.map erased) = names keywords := by
  rw [names, names, List.filterMap_map]
  congr 1
  funext keyword
  obtain ⟨name, value, span⟩ := keyword
  cases name <;> rfl

/- An argument that is read back. -/
structure Readable
    (n depth : Nat)
    (keyword : KeywordArg Expr) : Prop where
  value : keyword.value.Whole
  nested : 1 + keyword.value.nestingAt 0 ≤ depth
  fits : keyword.tokens.length < n

theorem Readable.starts
    {n depth : Nat}
    {keyword : KeywordArg Expr}
    {given : Arguments}
    {more : List TokenKind}
    (hKeyword : keyword.Readable n depth)
    (hNew :
      ∀ ident ∈ keyword.name, ident.name ∉ names given.keywords)
    (hMore : EndsPart .closeParen more) :
    StartsArgument (levels n) given depth (keyword.tokens ++ more) more
      fun found =>
        found.args = given.args ∧
          ∃ argument,
            erased argument = keyword.erased ∧
              found.keywords = given.keywords ++ [argument] := by
  obtain ⟨hWhole, hDepth, hLength⟩ := hKeyword
  obtain ⟨name, value, span⟩ := keyword
  have hRead :=
    @Expr.Whole.asExpression value n depth more hWhole 0 (Nat.zero_le _)
      hDepth
  cases name with
  | none =>
      have hValue := hRead (Nat.lt_of_succ_lt hLength)
        (Expr.stops_endsPart hMore rfl)
      refine ⟨_, _, rfl, rfl, ?_⟩
      refine .bind .advance fun start _ => ?_
      refine hValue.bind fun found hFound => .pure ?_
      refine ⟨rfl, _, ?_, rfl⟩
      simp [erased, hFound]
  | some ident =>
      have hValue := hRead (Nat.lt_of_succ_lt (Nat.lt_of_succ_lt hLength))
        (Expr.stops_endsPart hMore rfl)
      refine ⟨_, _, rfl, rfl, ?_⟩
      refine .bind .advance fun start _ => .skip ?_
      refine hValue.bind fun found hFound => .ofFalse ?_ (.pure ?_)
      · rw [List.any_eq_true]
        rintro ⟨other, hMem, hSame⟩
        obtain ⟨known, hKnown, hName⟩ := (Option.any_eq_true _ _).mp hSame
        refine hNew ident rfl (List.mem_filterMap.mpr ⟨other, hMem, ?_⟩)
        rw [hKnown, Option.map_some, eq_of_beq hName]
      · refine ⟨rfl, _, ?_, rfl⟩
        simp [erased, hFound, Ident.erased]

end KeywordArg

namespace ExprForm

/- The tokens of an argument of either kind. -/
def argumentTokens : Expr ⊕ KeywordArg Expr → List TokenKind :=
  Sum.elim (Expr.tokensAt 0) KeywordArg.tokens

section Calls

variable {n depth : Nat}
variable {args : List Expr}
variable {keywords : List (KeywordArg Expr)}

/- What is left of the arguments of a call, and what has been read. -/
def ArgumentsLeft
    (n depth : Nat)
    (args : List Expr)
    (keywords : List (KeywordArg Expr))
    (left : List (Expr ⊕ KeywordArg Expr))
    (given : Arguments) : Prop :=
  ∃ argsLeft keywordsLeft,
    left = argsLeft.map .inl ++ keywordsLeft.map .inr ∧
      ReadSoFar (Expr.Argument n depth) Expr.erased args argsLeft
          given.args ∧
        ReadSoFar (KeywordArg.Readable n depth) KeywordArg.erased keywords
            keywordsLeft given.keywords ∧
          (argsLeft ≠ [] → given.keywords = [])

/- Every round reads the first argument that is left. -/
theorem ArgumentsLeft.starts
    (hDistinct : (KeywordArg.names keywords).Nodup)
    {item : Expr ⊕ KeywordArg Expr}
    {left : List (Expr ⊕ KeywordArg Expr)}
    {given : Arguments}
    (hLeft : ArgumentsLeft n depth args keywords (item :: left) given)
    {more : List TokenKind}
    (hMore : EndsPart .closeParen more) :
    StartsArgument (levels n) given depth (argumentTokens item ++ more)
      more (ArgumentsLeft n depth args keywords left) := by
  obtain ⟨argsLeft, keywordsLeft, hItems, hArgs, hKeywords, hNone⟩ := hLeft
  rcases argsLeft with _ | ⟨arg, argsLeft⟩
  · rcases keywordsLeft with _ | ⟨keyword, keywordsLeft⟩
    · cases hItems
    · cases hItems
      have hNew :
          ∀ ident ∈ keyword.name,
            ident.name ∉ KeywordArg.names given.keywords := by
        intro ident hName hKnown
        rw [← KeywordArg.names_erased, ← hKeywords.2,
          KeywordArg.names_erased, KeywordArg.names_append] at hDistinct
        refine (List.nodup_append.mp hDistinct).2.2 ident.name hKnown
          ident.name ?_ rfl
        refine List.mem_filterMap.mpr ⟨keyword, List.mem_cons_self, ?_⟩
        rw [Option.mem_def.mp hName]
        rfl
      obtain ⟨kind, later, hTokens, hKind, hRead⟩ :=
        (hKeywords.1 keyword List.mem_cons_self).starts hNew hMore
      refine ⟨kind, later, hTokens, hKind, hRead.mono ?_⟩
      rintro found ⟨hSame, argument, hArgument, hFound⟩
      refine ⟨[], keywordsLeft, rfl, ?_, ?_, fun hSome => absurd rfl hSome⟩
      · rw [hSame]
        exact hArgs
      · rw [hFound]
        exact hKeywords.next hArgument
  · cases hItems
    have hEmpty := hNone (List.cons_ne_nil _ _)
    obtain ⟨kind, later, hTokens, hKind, hRead⟩ :=
      (hArgs.1 arg List.mem_cons_self).starts hEmpty hMore
    refine ⟨kind, later, hTokens, hKind, hRead.mono ?_⟩
    rintro found ⟨hSame, value, hValue, hFound⟩
    refine ⟨argsLeft, keywordsLeft, rfl, ?_, ?_, ?_⟩
    · rw [hFound]
      exact hArgs.next hValue
    · rw [hSame]
      exact hKeywords
    · rw [hSame]
      exact fun _ => hEmpty

/- The tokens of all arguments, with commas between them. -/
def argumentListTokens
    (args : List Expr)
    (keywords : List (KeywordArg Expr)) :
    List TokenKind :=
  [.mark .comma].intercalate
    ((args.map Sum.inl ++ keywords.map Sum.inr).map argumentTokens)

/- Arguments are read up to the closing bracket. -/
theorem reads_arguments
    (hArgs : ∀ arg ∈ args, arg.Argument n depth)
    (hKeywords : ∀ keyword ∈ keywords, keyword.Readable n depth)
    (hDistinct : (KeywordArg.names keywords).Nodup)
    (openedAt : Span)
    (rest : List TokenKind) :
    Reads ((levels n).arguments openedAt) depth
      (argumentListTokens args keywords ++ .mark .closeParen :: rest) rest
      fun given =>
        given.args.map Expr.erased = args.map Expr.erased ∧
          given.keywords.map KeywordArg.erased =
            keywords.map KeywordArg.erased := by
  have hAll {given : Arguments}
      (hNone : ArgumentsLeft n depth args keywords [] given) :
      given.args.map Expr.erased = args.map Expr.erased ∧
        given.keywords.map KeywordArg.erased =
          keywords.map KeywordArg.erased := by
    obtain ⟨argsLeft, keywordsLeft, hNil, hArgs, hKeywords, -⟩ := hNone
    obtain ⟨hNoArgs, hNoKeywords⟩ := List.append_eq_nil_iff.mp hNil.symm
    rw [List.map_eq_nil_iff] at hNoArgs hNoKeywords
    have hFirst := hArgs.2
    have hSecond := hKeywords.2
    rw [hNoArgs, List.append_nil] at hFirst
    rw [hNoKeywords, List.append_nil] at hSecond
    exact ⟨hFirst, hSecond⟩
  rw [arguments_eq]
  refine .bind (.rounds (ArgumentsLeft n depth args keywords) ?_ ?_ ?_
    ⟨args, keywords, rfl, ⟨hArgs, rfl⟩, ⟨hKeywords, rfl⟩, fun _ => rfl⟩)
    fun given hGiven => .bind (.discard (.expectClosing _ _)) fun _ _ =>
      .pure hGiven
  · intro given hNone
    exact .peek (.ofTrue rfl (.pure (hAll hNone)))
  · intro item given hLast
    exact (hLast.starts hDistinct
      ⟨.closeParen, rest, rfl, Or.inr rfl⟩).endsWith fun _ => hAll
  · intro item later given more hLeft _
    exact (hLeft.starts hDistinct
      ⟨.comma, more, rfl, Or.inl rfl⟩).goesOn

end Calls

------------------------------------------------------------
-- Calls
------------------------------------------------------------

theorem le_keywordsNesting
    {keywords : List (KeywordArg Expr)}
    {keyword : KeywordArg Expr}
    (hMem : keyword ∈ keywords) :
    1 + keyword.value.nestingAt 0 ≤ Expr.keywordsNesting keywords := by
  induction keywords with
  | nil => cases hMem
  | cons first rest ih =>
      obtain ⟨name, value, span⟩ := first
      rw [Expr.keywordsNesting]
      rcases List.mem_cons.mp hMem with rfl | hRest
      · exact le_max_left _ _
      · exact (ih hRest).trans (le_max_right _ _)

theorem tokens_call
    (callee : Expr)
    (args : List Expr)
    (keywords : List (KeywordArg Expr)) :
    (call callee args keywords).tokens =
      callee.tokensAt Strength.primary ++
        .mark .openParen ::
          (argumentListTokens args keywords ++ [.mark .closeParen]) := by
  rw [tokens, lexemes, kindsOf_append, kindsOf_enclosed,
    kindsOf_commaSeparated, Expr.lexemesAll_eq_map,
    Expr.keywordsLexemes_eq_map, argumentListTokens]
  simp only [List.map_append, List.map_map]
  rfl

/- A call is read with its arguments. -/
theorem climbedAt_call
    {callee : Expr}
    {args : List Expr}
    {keywords : List (KeywordArg Expr)}
    (hCallee : callee.Whole)
    (hArgs : ∀ arg ∈ args, arg.Item ∧ arg.Unassigned)
    (hKeywords : ∀ keyword ∈ keywords, keyword.value.Whole)
    (hDistinct : (KeywordArg.names keywords).Nodup) :
    (Expr.synthetic (.call callee args keywords)).ClimbedAt
      Strength.primary := by
  refine climbedAt_trailer rfl (tokens_call callee args keywords)
    (le_max_left _ _) le_rfl hCallee ?_
  intro n depth more found hDepth hLength hFound
  have hNesting :
      (call callee args keywords).nesting =
        max (callee.nestingAt Strength.primary)
          (max (Expr.itemsNesting args)
            (Expr.keywordsNesting keywords)) := rfl
  rw [hNesting] at hDepth
  rw [List.length_append] at hLength
  have hFits {item : Expr ⊕ KeywordArg Expr}
      (hMem : item ∈ args.map Sum.inl ++ keywords.map Sum.inr) :
      (argumentTokens item).length < n := by
    have hPart :=
      @length_le_intercalate _ _ [.mark .comma] argumentTokens _ _ hMem
    rw [argumentListTokens] at hLength
    omega
  have hArguments :=
    @reads_arguments n depth args keywords
      (fun arg hMem =>
        ⟨(hArgs arg hMem).1, (hArgs arg hMem).2,
          (Expr.le_itemsNesting hMem).trans (by omega),
          hFits (List.mem_append_left _ (List.mem_map_of_mem hMem))⟩)
      (fun keyword hMem =>
        ⟨hKeywords keyword hMem,
          (le_keywordsNesting hMem).trans (by omega),
          hFits (List.mem_append_right _ (List.mem_map_of_mem hMem))⟩)
      hDistinct
  rw [List.append_assoc]
  refine .peek (.ofTrue rfl (.bind .advance fun opening _ => ?_))
  refine (hArguments _ more).bind fun given hGiven =>
    .previousSpan fun _ => .pure ?_
  change Expr.erased (.mk _ _) = _
  rw [Expr.erased, erased, Expr.erasedAll_eq_map,
    Expr.erasedKeywords_eq_map, hFound, hGiven.1, hGiven.2]
  simp [Expr.erased, erased, Expr.synthetic]

end ExprForm

end SnippetGrader
