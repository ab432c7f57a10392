import SnippetGrader.Proofs.Parsing.Parameters

/-
  Expressions that are read are plain.

  Each rule yields plain expressions if the rules for inner
  expressions do, and so do the rules of every level.

  Key theorems include:
    * `ExprGrammar.sound_top`
-/

namespace SnippetGrader

namespace ExprGrammar

open SnippetGrader.Parser

section Rules

variable {grammar : ExprGrammar}

------------------------------------------------------------
-- Starred Items and Tuples
------------------------------------------------------------

theorem yields_starred
    (hGrammar : grammar.Sound)
    {unstarred : Parser Expr}
    (hUnstarred : Yields unstarred Expr.Plain) :
    Yields (grammar.starred unstarred) Expr.Plain := by
  refine (yields_check _).bind fun _ => .ite (fun _ => ?_) fun _ => ?_
  · refine yields_advance.bind fun _ => ?_
    refine hGrammar.bitOr.bind fun inner => .pure fun hInner _ _ => ?_
    exact Expr.plain_of_slots trivial rfl
      (by simpa [Node.exprSlots] using hInner)
  · exact hUnstarred.mono fun _ hValue _ => hValue

theorem yields_item
    (hGrammar : grammar.Sound) :
    Yields grammar.item Expr.Plain :=
  yields_starred hGrammar hGrammar.expression

/- What follows a first item: nothing, or the rest of a tuple. -/
theorem yields_orTuple
    {holds : Expr → Prop}
    {next : Parser Expr}
    (hNext : Yields next holds)
    (isEnd : TokenKind → Bool)
    (first : Expr) :
    Yields (orTuple isEnd next first) fun expr =>
      holds first →
        expr = first ∨
          ∃ span items,
            expr = .mk span (.tuple items) ∧
              ∀ item ∈ items, holds item := by
  refine (yields_check _).bind fun _ => .ite (fun _ => ?_) fun _ => ?_
  · refine (yields_moreItems hNext isEnd [first]).bind fun items => ?_
    refine yields_previousSpan.bind fun _ => .pure ?_
    intro _ hItems _ hFirst
    exact Or.inr ⟨_, items, rfl, (hItems (by simpa using hFirst)).2⟩
  · exact .pure fun _ _ => Or.inl rfl

theorem yields_plain_orTuple
    {next : Parser Expr}
    (hNext : Yields next Expr.Plain)
    (isEnd : TokenKind → Bool) :
    Yields (next >>= fun first => orTuple isEnd next first)
      Expr.Plain := by
  refine hNext.bind fun first => ?_
  refine (yields_orTuple hNext isEnd first).mono ?_
  intro expr hExpr hFirst
  rcases hExpr hFirst with rfl | ⟨span, items, rfl, hItems⟩
  · exact hFirst
  · exact Expr.plain_tuple hItems

theorem yields_exprList
    (hGrammar : grammar.Sound) :
    Yields grammar.exprList Expr.Plain :=
  yields_plain_orTuple (yields_item hGrammar) endsExprList

theorem yields_targetList
    (hGrammar : grammar.Sound) :
    Yields grammar.targetList Expr.Plain :=
  yields_plain_orTuple (yields_starred hGrammar hGrammar.bitOr) _

theorem yields_refuseComprehension :
    Yields refuseComprehension fun _ => True := by
  refine (yields_check _).bind fun _ => .ite (fun _ => ?_) fun _ => ?_
  · exact yields_refuse _ _
  · exact .pure fun _ => trivial

------------------------------------------------------------
-- Arguments and Subscripts
------------------------------------------------------------

/- Arguments that a call may have. -/
structure Arguments.Sound (given : Arguments) : Prop where
  args : ∀ arg ∈ given.args, arg.Plain
  keywords : ∀ keyword ∈ given.keywords, (Node.keyword keyword).Plain
  distinct :
    (given.keywords.filterMap fun keyword =>
      keyword.name.map (·.name)).Nodup

theorem plain_keyword
    {name : Option Ident}
    {value : Expr}
    {span : Span}
    (hName : ∀ ident, name = some ident → IsName ident.name)
    (hValue : value.Plain) :
    (Node.keyword ⟨name, value, span⟩).Plain := by
  refine Node.plain_of_children hName (fun _ hExpr => nomatch hExpr) ?_
  simpa [Node.children, Node.slots] using hValue

theorem yields_unpackedArgument
    (hGrammar : grammar.Sound)
    (given : Arguments) :
    Yields (grammar.unpackedArgument given) fun next =>
      given.Sound → next.Sound := by
  refine yields_advance.bind fun _ => ?_
  refine hGrammar.expression.bind fun value => .pure ?_
  intro hValue _ hGiven
  refine ⟨hGiven.args, ?_, ?_⟩
  · exact List.forall_mem_append.mpr
      ⟨hGiven.keywords, by simpa using plain_keyword (by simp) hValue⟩
  · simpa using hGiven.distinct

theorem yields_keywordArgument
    (hGrammar : grammar.Sound)
    (id : String)
    (given : Arguments) :
    Yields (grammar.keywordArgument id given) fun next =>
      IsName id → given.Sound → next.Sound := by
  refine yields_advance.bind fun token => ?_
  refine yields_advance.discard.bind fun _ => ?_
  refine hGrammar.expression.bind fun value => ?_
  refine .ite (fun _ => ?_) fun hNew => ?_
  · exact .afterReport (yields_reportSubject _ _ _ _) fun _ =>
      .pure trivial
  refine .pure fun hValue _ _ hName hGiven => ?_
  refine ⟨hGiven.args, ?_, ?_⟩
  · refine List.forall_mem_append.mpr ⟨hGiven.keywords, ?_⟩
    have hIdent :
        ∀ ident, some (⟨id, token.span⟩ : Ident) = some ident →
          IsName ident.name := by
      simpa using hName
    simpa using plain_keyword hIdent hValue
  · rw [List.filterMap_append, List.nodup_append]
    refine ⟨hGiven.distinct, by simp, ?_⟩
    intro other hOther new hSame
    obtain ⟨last, hLast, hSame⟩ := List.mem_filterMap.mp hSame
    rw [List.mem_singleton.mp hLast] at hSame
    cases hSame
    obtain ⟨keyword, hKeyword, hNamed⟩ := List.mem_filterMap.mp hOther
    obtain ⟨ident, hIdent, rfl⟩ := Option.map_eq_some_iff.mp hNamed
    rintro rfl
    apply hNew
    rw [List.any_eq_true]
    exact ⟨keyword, hKeyword, by simp [hIdent]⟩

theorem yields_positionalArgument
    (hGrammar : grammar.Sound)
    (given : Arguments) :
    Yields (grammar.positionalArgument given) fun next =>
      given.Sound → next.Sound := by
  refine (yields_item hGrammar).bind fun value => ?_
  refine .ite (fun _ => ?_) fun _ => ?_
  · exact .afterReport (yields_reportAt _ _ _) fun _ => .pure trivial
  refine .pure fun hValue hGiven => ⟨?_, hGiven.keywords, hGiven.distinct⟩
  exact List.forall_mem_append.mpr
    ⟨hGiven.args, by simpa using hValue⟩

theorem yields_arguments
    (hGrammar : grammar.Sound)
    (openedAt : Span) :
    Yields (grammar.arguments openedAt) Arguments.Sound := by
  have hStart : Arguments.Sound {} := ⟨nofun, nofun, List.nodup_nil⟩
  have hStep (given : Arguments) {holds : Prop}
      {step : Parser Arguments}
      (hNext :
        Yields step fun next => holds → given.Sound → next.Sound) :
      Yields
        (do
          let next ← step
          if ← eat (.mark .comma) then return Step.again next
          return Step.done next)
        fun outcome =>
          holds →
            RoundKeeps Arguments.Sound Arguments.Sound given outcome := by
    refine hNext.bind fun next => (yields_eat _).bind fun _ =>
      .ite (fun _ => ?_) fun _ => ?_
    · exact .pure fun _ hNext hHolds => hNext hHolds
    · exact .pure fun _ hNext hHolds => hNext hHolds
  refine (yields_loop Arguments.Sound Arguments.Sound hStart
    fun given => ?_).bind fun given => ?_
  · refine yields_peek.bind fun kind => .ite (fun _ => ?_) fun _ => ?_
    · exact .pure fun _ hGiven => hGiven
    refine (yields_peekAhead 1).bind fun next => ?_
    dsimp only
    split
    · exact (hStep given
        ((yields_unpackedArgument hGrammar given).mono
          fun _ hNext (_ : True) => hNext)).mono
        fun _ hRound _ _ => hRound trivial
    · exact (hStep given
        (yields_keywordArgument hGrammar _ given)).mono
        fun _ hRound _ hName => hRound hName
    · exact (hStep given
        ((yields_positionalArgument hGrammar given).mono
          fun _ hNext (_ : True) => hNext)).mono
        fun _ hRound _ _ => hRound trivial
  · exact (yields_expectClosing _ _).discard.bind fun _ =>
      .pure fun _ hGiven => hGiven

theorem yields_sliceBound
    (hGrammar : grammar.Sound) :
    Yields grammar.sliceBound fun bound =>
      ∀ expr, bound = some expr → expr.Plain := by
  refine yields_peek.bind fun kind => ?_
  split
  · exact .pure fun _ => nofun
  · exact .pure fun _ => nofun
  · exact .pure fun _ => nofun
  · refine .map (hGrammar.expression.mono fun value hValue _ => ?_)
    rintro expr ⟨⟩
    exact hValue

theorem yields_sliceRest
    (hGrammar : grammar.Sound)
    (start : Span)
    (lower : Option Expr) :
    Yields (grammar.sliceRest start lower) fun slice =>
      (∀ expr, lower = some expr → expr.Plain) →
        slice.IndexItem := by
  refine (yields_expect _).discard.bind fun _ => ?_
  refine (yields_sliceBound hGrammar).bind fun upper => ?_
  refine (yields_eat _).bind fun _ => ?_
  refine .iteBind (fun _ => yields_sliceBound hGrammar)
    (fun _ => .pure nofun) fun step => ?_
  refine yields_previousSpan.bind fun _ => .pure ?_
  intro _ hStep _ hUpper _ hLower
  exact Expr.indexItem_slice (by simpa using ⟨hLower, hUpper, hStep⟩)

theorem yields_subscriptItem
    (hGrammar : grammar.Sound) :
    Yields grammar.subscriptItem Expr.IndexItem := by
  refine yields_currentSpan.bind fun start => ?_
  refine (yields_check _).bind fun _ => .ite (fun _ => ?_) fun _ => ?_
  · exact (yields_sliceRest hGrammar start none).mono
      fun _ hSlice _ _ => hSlice nofun
  refine hGrammar.expression.bind fun index => ?_
  refine (yields_check _).bind fun _ => .ite (fun _ => ?_) fun _ => ?_
  · refine (yields_sliceRest hGrammar start (some index)).mono ?_
    intro slice hSlice _ hIndex _ _
    refine hSlice ?_
    rintro expr ⟨⟩
    exact hIndex
  · exact .pure fun _ hIndex _ _ => hIndex.indexItem

theorem yields_subscriptIndex
    (hGrammar : grammar.Sound) :
    Yields grammar.subscriptIndex Expr.Indexes := by
  have hItem := yields_subscriptItem hGrammar
  refine hItem.bind fun first => ?_
  refine (yields_orTuple hItem _ first).mono ?_
  intro expr hExpr hFirst
  rcases hExpr hFirst with rfl | ⟨span, items, rfl, hItems⟩
  · exact hFirst.everywhere
  · exact Expr.indexes_tuple hItems

------------------------------------------------------------
-- Atoms
------------------------------------------------------------

/- A form that holds no other expressions is plain if it reads back. -/
theorem yields_literal
    {form : ExprForm Expr}
    (hAnywhere : ∀ span, (Expr.mk span form).isIndexOnly = false)
    (hLeaf :
      ∀ slot ∈ Node.exprSlots form, Node.slotChildren slot.2 = []) :
    Yields (literal form) fun expr =>
      (∀ span, (Node.expr (.mk span form)).ReadsBack) → expr.Plain := by
  refine yields_advance.bind fun token => .pure fun _ hReads => ?_
  refine Expr.plain_of_slots (hReads _) (hAnywhere _) ?_
  intro slot hSlot child hChild
  rw [hLeaf slot hSlot] at hChild
  cases hChild

theorem yields_strings :
    Yields strings Expr.Plain := by
  refine yields_currentSpan.bind fun start => ?_
  refine (yields_loop (fun _ => True) (fun _ => True) trivial
    fun text => ?_).bind fun text => ?_
  · refine yields_peek.bind fun kind => ?_
    split
    · exact yields_advance.discard.bind fun _ =>
        .pure fun _ _ _ => trivial
    · exact .pure fun _ _ => trivial
  · refine yields_previousSpan.bind fun _ => .pure fun _ _ _ => ?_
    exact Expr.plain_of_slots trivial rfl
      (by simp [Node.exprSlots])

theorem yields_parenthesized
    (hGrammar : grammar.Sound) :
    Yields grammar.parenthesized Expr.Plain := by
  have hItem := yields_item hGrammar
  refine yields_advance.bind fun opening => ?_
  refine (yields_check _).bind fun _ => .ite (fun _ => ?_) fun _ => ?_
  · exact yields_advance.bind fun _ =>
      .pure fun _ _ _ => Expr.plain_tuple nofun
  refine hItem.bind fun first => ?_
  refine yields_refuseComprehension.bind fun _ => ?_
  refine (yields_eat _).bind fun _ => .ite (fun _ => ?_) fun _ => ?_
  · exact .pure fun _ _ hFirst _ _ => hFirst
  refine (yields_moreItems hItem _ [first]).bind fun items => ?_
  refine (yields_expectClosing _ _).bind fun _ => .pure ?_
  intro _ hItems _ _ hFirst _ _
  exact Expr.plain_tuple (hItems (by simpa using hFirst)).2

theorem yields_listDisplay
    (hGrammar : grammar.Sound) :
    Yields grammar.listDisplay Expr.Plain := by
  refine yields_advance.bind fun opening => ?_
  have hItem :
      Yields
        (do
          let item ← grammar.item
          refuseComprehension
          return item)
        Expr.Plain :=
    (yields_item hGrammar).bind fun item =>
      yields_refuseComprehension.bind fun _ => .pure fun _ hItem => hItem
  refine (yields_itemsUntil hItem _).bind fun items => ?_
  refine (yields_expectClosing _ _).bind fun _ => .pure ?_
  intro _ hItems _
  exact Expr.plain_of_slots trivial rfl
    (by simpa [Node.exprSlots] using hItems)

theorem yields_dictEntry
    (hGrammar : grammar.Sound) :
    Yields grammar.dictEntry fun entry =>
      entry.1.Plain ∧ entry.2.Plain := by
  refine hGrammar.expression.bind fun key => ?_
  refine (yields_expect _).discard.bind fun _ => ?_
  exact hGrammar.expression.bind fun value =>
    .pure fun hValue _ hKey => ⟨hKey, hValue⟩

theorem yields_dictForm
    (hGrammar : grammar.Sound)
    (isEnd : TokenKind → Bool)
    (key value : Expr) :
    Yields
      (ExprForm.dict <$> moreItems isEnd grammar.dictEntry [(key, value)])
      fun form =>
        key.Plain → value.Plain →
          ∀ span, (Expr.mk span form).Plain := by
  refine .map ((yields_moreItems (yields_dictEntry hGrammar) isEnd
    [(key, value)]).mono ?_)
  intro entries hEntries hKey hValue span
  have hAll := (hEntries (by simpa using ⟨hKey, hValue⟩)).2
  refine Expr.plain_of_slots trivial rfl ?_
  simp only [Node.exprSlots, List.forall_mem_cons,
    Node.slotChildren_exprsSlot, List.forall_mem_map,
    Expr.plain_node_iff]
  exact ⟨fun entry hEntry => (hAll entry hEntry).1,
    fun entry hEntry => (hAll entry hEntry).2,
    List.forall_mem_nil _⟩

theorem yields_setForm
    (hGrammar : grammar.Sound)
    (isEnd : TokenKind → Bool)
    (first : Expr) :
    Yields (ExprForm.set <$> moreItems isEnd grammar.item [first])
      fun form =>
        first.Plain → ∀ span, (Expr.mk span form).Plain := by
  refine .map ((yields_moreItems (yields_item hGrammar) isEnd
    [first]).mono ?_)
  intro items hItems hFirst span
  obtain ⟨hLength, hAll⟩ := hItems (by simpa using hFirst)
  refine Expr.plain_of_slots ?_ rfl
    (by simpa [Node.exprSlots] using hAll)
  rintro rfl
  simp at hLength

theorem yields_braceDisplay
    (hGrammar : grammar.Sound) :
    Yields grammar.braceDisplay Expr.Plain := by
  refine yields_advance.bind fun opening => ?_
  refine (yields_check _).bind fun _ => .ite (fun _ => ?_) fun _ => ?_
  · exact yields_advance.bind fun _ => .pure fun _ _ _ =>
      Expr.plain_of_slots trivial rfl (by simp [Node.exprSlots])
  refine (yields_item hGrammar).bind fun first => ?_
  refine yields_refuseComprehension.bind fun _ => ?_
  refine (yields_eat _).bind fun _ => .ite (fun _ => ?_) fun _ => ?_
  · refine hGrammar.expression.bind fun value => ?_
    refine yields_refuseComprehension.bind fun _ => ?_
    refine (yields_dictForm hGrammar _ first value).bind fun form => ?_
    refine (yields_expectClosing _ _).bind fun _ => .pure ?_
    intro _ hForm _ hValue _ _ hFirst _ _
    exact hForm hFirst hValue _
  · refine (yields_setForm hGrammar _ first).bind fun form => ?_
    refine (yields_expectClosing _ _).bind fun _ => .pure ?_
    intro _ hForm _ _ hFirst _ _
    exact hForm hFirst _

theorem yields_atom
    (hGrammar : grammar.Sound) :
    Yields grammar.atom Expr.Plain := by
  refine yields_peek.bind fun kind => ?_
  split
  · exact (yields_literal (fun _ => rfl) (by simp [Node.exprSlots])).mono
      fun _ hExpr hInt => hExpr fun _ => hInt
  · exact (yields_literal (fun _ => rfl) (by simp [Node.exprSlots])).mono
      fun _ hExpr hFloat => hExpr fun _ => hFloat
  · exact (yields_literal (fun _ => rfl) (by simp [Node.exprSlots])).mono
      fun _ hExpr _ => hExpr fun _ => trivial
  · exact (yields_literal (fun _ => rfl) (by simp [Node.exprSlots])).mono
      fun _ hExpr _ => hExpr fun _ => trivial
  · exact (yields_literal (fun _ => rfl) (by simp [Node.exprSlots])).mono
      fun _ hExpr _ => hExpr fun _ => trivial
  · exact (yields_literal (fun _ => rfl) (by simp [Node.exprSlots])).mono
      fun _ hExpr hName => hExpr fun _ => hName
  · exact yields_strings.mono fun _ hExpr _ => hExpr
  · exact (yields_parenthesized hGrammar).mono fun _ hExpr _ => hExpr
  · exact (yields_listDisplay hGrammar).mono fun _ hExpr _ => hExpr
  · exact (yields_braceDisplay hGrammar).mono fun _ hExpr _ => hExpr
  · exact yields_refuse _ _
  · exact yields_refuse _ _

theorem plain_call
    {span : Span}
    {callee : Expr}
    {given : Arguments}
    (hCallee : callee.Plain)
    (hGiven : given.Sound) :
    (Expr.mk span (.call callee given.args given.keywords)).Plain := by
  refine Expr.plain_of_slots hGiven.distinct rfl ?_
  simp only [Node.exprSlots, List.forall_mem_cons,
    Node.slotChildren_exprSlot, Node.slotChildren_exprsSlot,
    Node.slotChildren_nodes, List.forall_mem_map,
    Expr.plain_node_iff]
  exact ⟨⟨hCallee, List.forall_mem_nil _⟩, hGiven.args,
    hGiven.keywords, List.forall_mem_nil _⟩

theorem yields_primary
    (hGrammar : grammar.Sound) :
    Yields grammar.primary Expr.Plain := by
  refine (yields_atom hGrammar).bind fun first => ?_
  refine yields_loop (fun object => first.Plain → object.Plain) _
    (fun hFirst => hFirst) fun object => ?_
  refine yields_peek.bind fun kind => ?_
  split
  · refine yields_advance.bind fun opening => ?_
    refine (yields_arguments hGrammar _).bind fun given => ?_
    refine yields_previousSpan.bind fun _ => .pure ?_
    intro _ hGiven _ _ hObject hFirst
    exact plain_call (hObject hFirst) hGiven
  · refine yields_advance.bind fun opening => ?_
    refine (yields_subscriptIndex hGrammar).bind fun index => ?_
    refine (yields_expectClosing _ _).discard.bind fun _ => ?_
    refine yields_previousSpan.bind fun _ => .pure ?_
    intro _ _ hIndex _ _ hObject hFirst
    exact Expr.plain_subscript (hObject hFirst) hIndex
  · refine yields_advance.discard.bind fun _ => ?_
    refine yields_expectName.bind fun attr => .pure ?_
    intro hAttr _ _ hObject hFirst
    exact Expr.plain_of_slots hAttr rfl
      (by simpa [Node.exprSlots] using hObject hFirst)
  · exact .pure fun _ hObject => hObject

------------------------------------------------------------
-- Operators
------------------------------------------------------------

theorem plain_binary
    {span : Span}
    {left right : Expr}
    (hLeft : left.Plain)
    (hRight : right.Plain)
    (op : BinaryOp) :
    (Expr.mk span (.binary left op right)).Plain :=
  Expr.plain_of_slots trivial rfl
    (by simpa [Node.exprSlots] using ⟨hLeft, hRight⟩)

theorem plain_unary
    {span : Span}
    {operand : Expr}
    (hOperand : operand.Plain)
    (op : UnaryOp) :
    (Expr.mk span (.unary op operand)).Plain :=
  Expr.plain_of_slots trivial rfl
    (by simpa [Node.exprSlots] using hOperand)

theorem yields_power
    (hGrammar : grammar.Sound) :
    Yields grammar.power Expr.Plain := by
  refine (yields_primary hGrammar).bind fun base => ?_
  refine (yields_eat _).bind fun _ => .ite (fun _ => ?_) fun _ => ?_
  · refine (yields_nested hGrammar.factor).bind fun exponent => .pure ?_
    exact fun hExponent _ hBase => plain_binary hBase hExponent .pow
  · exact .pure fun _ hBase => hBase

theorem yields_signed
    (hGrammar : grammar.Sound) :
    Yields grammar.signed Expr.Plain := by
  refine yields_peek.bind fun kind => ?_
  split
  · exact (yields_power hGrammar).mono fun _ hExpr _ => hExpr
  · refine yields_advance.bind fun _ => ?_
    refine (yields_nested hGrammar.factor).bind fun operand => .pure ?_
    exact fun hOperand _ _ => plain_unary hOperand _

theorem yields_binaryLevel
    {operand : Parser Expr}
    (hOperand : Yields operand Expr.Plain)
    (opFor : TokenKind → Option BinaryOp) :
    Yields (binaryLevel operand opFor) Expr.Plain := by
  refine hOperand.bind fun first => ?_
  refine yields_loop (fun left => first.Plain → left.Plain) _
    (fun hFirst => hFirst) fun left => ?_
  refine yields_peek.bind fun kind => ?_
  split
  · exact .pure fun _ hLeft => hLeft
  · refine yields_advance.discard.bind fun _ => ?_
    refine hOperand.bind fun right => .pure ?_
    intro hRight _ _ hLeft hFirst
    exact plain_binary (hLeft hFirst) hRight _

/- So does any tower of levels. -/
theorem yields_binary
    (hGrammar : grammar.Sound) :
    Yields grammar.binary Expr.Plain := by
  have hTower (levels : List (TokenKind → Option BinaryOp))
      {operand : Parser Expr}
      (hOperand : Yields operand Expr.Plain) :
      Yields (levels.foldl binaryLevel operand) Expr.Plain := by
    induction levels generalizing operand with
    | nil => exact hOperand
    | cons level levels ih => exact ih (yields_binaryLevel hOperand level)
  exact hTower binaryLevels (yields_signed hGrammar)

theorem yields_comparisonOp? :
    Yields comparisonOp? fun _ => True := by
  have hSingle (op : CompareOp) :
      Yields (comparisonOp?.single op) fun _ => True :=
    yields_advance.discard.bind fun _ => .pure fun _ => trivial
  have hDouble (op : CompareOp) :
      Yields (comparisonOp?.double op) fun _ => True :=
    yields_advance.discard.bind fun _ =>
      (hSingle op).mono fun _ _ _ => trivial
  refine yields_peek.bind fun kind => ?_
  refine (yields_peekAhead 1).bind fun next => ?_
  split
  all_goals
    first
    | exact (hSingle _).mono fun _ _ _ _ => trivial
    | exact (hDouble _).mono fun _ _ _ _ => trivial
    | exact .pure fun _ _ => trivial

theorem yields_comparison
    (hGrammar : grammar.Sound) :
    Yields grammar.comparison Expr.Plain := by
  have hBinary := yields_binary hGrammar
  refine hBinary.bind fun left => ?_
  refine (yields_loop
    (fun rest : List (CompareOp × Expr) => ∀ step ∈ rest, step.2.Plain)
    (fun rest => ∀ step ∈ rest, step.2.Plain) (by simp)
    fun rest => ?_).bind fun rest => ?_
  · refine yields_comparisonOp?.bind fun op => ?_
    split
    · exact .pure fun _ hRest => hRest
    · refine hBinary.bind fun operand => .pure ?_
      intro hOperand _ hRest
      exact List.forall_mem_append.mpr
        ⟨hRest, by simpa using hOperand⟩
  · refine .ite (fun _ => ?_) fun hSome => ?_
    · exact .pure fun _ hLeft => hLeft
    · refine yields_previousSpan.bind fun _ => .pure ?_
      intro _ hRest hLeft
      refine Expr.plain_of_slots ?_ rfl ?_
      · intro hNone
        exact hSome (by simp [hNone])
      · simp only [Node.exprSlots, List.forall_mem_cons,
          Node.slotChildren_exprSlot, Node.slotChildren_leaves,
          Node.slotChildren_exprsSlot, List.forall_mem_map,
          Expr.plain_node_iff]
        exact ⟨⟨hLeft, List.forall_mem_nil _⟩,
          List.forall_mem_nil _, hRest, List.forall_mem_nil _⟩

theorem yields_negation
    (hGrammar : grammar.Sound) :
    Yields grammar.negation Expr.Plain := by
  refine (yields_check _).bind fun _ => .ite (fun _ => ?_) fun _ => ?_
  · refine yields_advance.bind fun _ => ?_
    refine (yields_nested hGrammar.notTest).bind fun operand => .pure ?_
    exact fun hOperand _ _ => plain_unary hOperand .not
  · exact (yields_comparison hGrammar).mono fun _ hExpr _ => hExpr

/- A further operand, if a word shows that there is one. -/
def moreValues
    (word : Keyword)
    (operand : Parser Expr)
    (values : List Expr) :
    Parser (Step (List Expr) (List Expr)) := do
  if ← eat (.keyword word) then return .again (values ++ [← operand])
  return .done values

theorem yields_moreValues
    {operand : Parser Expr}
    (hOperand : Yields operand Expr.Plain)
    (word : Keyword)
    (count : Nat)
    (start : List Expr) :
    Yields (loopFor (moreValues word operand) count start) fun values =>
      (∀ value ∈ start, value.Plain) →
        start.length ≤ values.length ∧ ∀ value ∈ values, value.Plain := by
  let invariant := fun values : List Expr =>
    (∀ value ∈ start, value.Plain) →
      start.length ≤ values.length ∧ ∀ value ∈ values, value.Plain
  have hStep (values : List Expr) :
      Yields (moreValues word operand values)
        (RoundKeeps invariant invariant values) := by
    refine (yields_eat _).bind fun _ => .ite (fun _ => ?_) fun _ => ?_
    · refine hOperand.bind fun value => .pure ?_
      intro hValue _ hValues hStart
      obtain ⟨hLength, hAll⟩ := hValues hStart
      refine ⟨?_, ?_⟩
      · rw [List.length_append]
        omega
      · exact List.forall_mem_append.mpr ⟨hAll, by simpa using hValue⟩
    · exact .pure fun _ hValues => hValues
  exact (yields_loopFor hStep count start).mono fun _ hValues =>
    hValues fun hStart => ⟨Nat.le_refl _, hStart⟩

/-
  Where a word shows a second operand, that operand is read.
  So there are at least two operands.
-/
theorem loop_moreValues_eq
    {word : Keyword}
    {cursor : Cursor}
    (hWord : (cursor.current.kind == .keyword word) = true)
    (operand : Parser Expr)
    (first : Expr) :
    loop [first] (moreValues word operand) cursor =
      (do
        discard advance
        let second ← operand
        loopFor (moreValues word operand) cursor.remaining
          [first, second]) cursor := by
  have hEat : eat (.keyword word) cursor = .ok true cursor.next := by
    rw [eat, run_bind]
    change (if (cursor.current.kind == .keyword word) = true then
      (discard advance >>= fun _ => pure true) else pure false) cursor = _
    rw [if_pos hWord]
    rfl
  have hStep :
      moreValues word operand [first] cursor =
        (operand >>= fun second =>
          pure (Step.again [first, second])) cursor.next := by
    rw [moreValues, run_bind, hEat]
    rfl
  have hLoop :
      loop [first] (moreValues word operand) cursor =
        loopFor (moreValues word operand) (cursor.remaining + 1)
          [first] cursor := rfl
  rw [hLoop, run_loopFor, hStep, run_bind, run_bind]
  have hAdvance :
      (discard advance : Parser Unit) cursor = .ok () cursor.next := rfl
  rw [hAdvance]
  simp only [run_bind]
  cases operand cursor.next <;> rfl

/- The operands after a first one that a word follows. -/
def valuesAfter
    (word : Keyword)
    (operand : Parser Expr)
    (first : Expr) :
    Parser (List Expr) := fun cursor =>
  (do
    discard advance
    let second ← operand
    loopFor (moreValues word operand) cursor.remaining
      [first, second]) cursor

theorem booleanLevel_eq
    (word : Keyword)
    (op : BoolOp)
    (operand : Parser Expr) :
    booleanLevel word op operand =
      (do
        let first ← operand
        if ← check (.keyword word) then
          let values ← valuesAfter word operand first
          return .mk (first.span.merge (← previousSpan))
            (.boolean op values)
        else return first) := by
  unfold booleanLevel
  congr 1
  funext first cursor
  rw [run_bind, run_bind]
  have hCheck :
      check (.keyword word) cursor =
        .ok (cursor.current.kind == .keyword word) cursor := rfl
  rw [hCheck]
  cases hWord : cursor.current.kind == .keyword word with
  | true =>
      simp only [if_true]
      rw [run_bind, run_bind, valuesAfter,
        ← loop_moreValues_eq hWord operand first]
      rfl
  | false => rfl

theorem yields_booleanLevel
    {operand : Parser Expr}
    (hOperand : Yields operand Expr.Plain)
    (word : Keyword)
    (op : BoolOp) :
    Yields (booleanLevel word op operand) Expr.Plain := by
  rw [booleanLevel_eq]
  refine hOperand.bind fun first => ?_
  refine (yields_check _).bind fun _ => .ite (fun _ => ?_) fun _ => ?_
  · have hCount (count : Nat) :
        Yields
          (do
            discard advance
            let second ← operand
            loopFor (moreValues word operand) count [first, second])
          fun values =>
            first.Plain →
              2 ≤ values.length ∧ ∀ value ∈ values, value.Plain := by
      refine yields_advance.discard.bind fun _ => ?_
      refine hOperand.bind fun second => ?_
      refine (yields_moreValues hOperand word count
        [first, second]).mono ?_
      intro values hValues hSecond _ hFirst
      exact hValues (by simpa using ⟨hFirst, hSecond⟩)
    have hValues :
        Yields (valuesAfter word operand first) fun values =>
          first.Plain →
            2 ≤ values.length ∧ ∀ value ∈ values, value.Plain :=
      yields_remaining hCount
    refine hValues.bind fun values => ?_
    refine yields_previousSpan.bind fun _ => .pure ?_
    intro _ hValues _ hFirst
    exact Expr.plain_of_slots (hValues hFirst).1 rfl
      (by simpa [Node.exprSlots] using (hValues hFirst).2)
  · exact .pure fun _ hFirst => hFirst

theorem yields_disjunction
    (hGrammar : grammar.Sound) :
    Yields grammar.disjunction Expr.Plain :=
  yields_booleanLevel
    (yields_booleanLevel (yields_negation hGrammar) .andWord .and)
    .orWord .or

------------------------------------------------------------
-- Whole Expressions
------------------------------------------------------------

theorem yields_conditional
    (hGrammar : grammar.Sound) :
    Yields grammar.conditional Expr.Plain := by
  have hTest := yields_disjunction hGrammar
  refine hTest.bind fun body => ?_
  refine (yields_eat _).bind fun _ => .ite (fun _ => ?_) fun _ => ?_
  · refine hTest.bind fun test => ?_
    refine (yields_expect _).discard.bind fun _ => ?_
    refine hGrammar.expression.bind fun orelse => .pure ?_
    intro hOrelse _ hTest _ hBody
    exact Expr.plain_of_slots trivial rfl
      (by simpa [Node.exprSlots] using ⟨hTest, hBody, hOrelse⟩)
  · exact .pure fun _ hBody => hBody

theorem yields_lambda
    (hGrammar : grammar.Sound) :
    Yields grammar.lambda Expr.Plain := by
  refine yields_advance.bind fun _ => ?_
  refine (yields_params hGrammar _ _).bind fun params => ?_
  refine (yields_expect _).discard.bind fun _ => ?_
  refine hGrammar.expression.bind fun body => .pure ?_
  intro hBody _ hParams _
  refine Expr.plain_of_slots hParams.1 rfl ?_
  simp only [Node.exprSlots, List.forall_mem_cons,
    Node.slotChildren_exprSlot, Node.slotChildren_nodes,
    List.forall_mem_map, Expr.plain_node_iff]
  exact ⟨hParams.2, ⟨hBody, List.forall_mem_nil _⟩,
    List.forall_mem_nil _⟩

theorem sound_step
    (hGrammar : grammar.Sound) :
    grammar.step.Sound where
  expression := by
    refine yields_nested ?_
    refine (yields_check _).bind fun _ => .ite (fun _ => ?_) fun _ => ?_
    · exact (yields_lambda hGrammar).mono fun _ hExpr _ => hExpr
    · exact (yields_conditional hGrammar).mono fun _ hExpr _ => hExpr
  notTest := yields_negation hGrammar
  bitOr := yields_binary hGrammar
  factor := yields_signed hGrammar

end Rules

theorem sound_levels
    (count : Nat) :
    (levels count).Sound := by
  induction count with
  | zero => exact ⟨.throw _, .throw _, .throw _, .throw _⟩
  | succ count ih =>
      exact sound_step
        ⟨ih.expression, ih.notTest, ih.bitOr, ih.factor⟩

theorem sound_top : top.Sound where
  expression := by
    let family := fun count => (levels (count + 1)).expression
    have hFamily : ∀ count, Yields (family count) Expr.Plain :=
      fun count => (sound_levels (count + 1)).expression
    exact yields_remaining hFamily
  notTest := by
    let family := fun count => (levels (count + 1)).notTest
    have hFamily : ∀ count, Yields (family count) Expr.Plain :=
      fun count => (sound_levels (count + 1)).notTest
    exact yields_remaining hFamily
  bitOr := by
    let family := fun count => (levels (count + 1)).bitOr
    have hFamily : ∀ count, Yields (family count) Expr.Plain :=
      fun count => (sound_levels (count + 1)).bitOr
    exact yields_remaining hFamily
  factor := by
    let family := fun count => (levels (count + 1)).factor
    have hFamily : ∀ count, Yields (family count) Expr.Plain :=
      fun count => (sound_levels (count + 1)).factor
    exact yields_remaining hFamily

end ExprGrammar

end SnippetGrader
