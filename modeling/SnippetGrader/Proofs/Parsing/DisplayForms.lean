import SnippetGrader.Proofs.Parsing.OperatorForms

/-
  Literals, names and displays are read back.

  An item of a display may start with a star. A tuple of one
  item has a comma before its closing bracket.

  Key definitions include:
    * `Expr.itemNesting`, `Expr.Item`

  Key theorems include:
    * `Expr.Whole.item`, `Expr.item_starred`
    * `ExprForm.recovered_list`, `ExprForm.recovered_tuple`
    * `ExprForm.recovered_set`, `ExprForm.recovered_dict`
-/

namespace SnippetGrader

open SnippetGrader.Parser SnippetGrader.ExprGrammar

------------------------------------------------------------
-- Single Tokens
------------------------------------------------------------

namespace ExprForm

theorem recovered_int
    (value : Int) :
    (int value).Recovered :=
  fun _ _ _ _ _ _ => .peek (.bind .advance fun _ _ => .pure rfl)

theorem recovered_float
    (value : Float) :
    (float value).Recovered :=
  fun _ _ _ _ _ _ => .peek (.bind .advance fun _ _ => .pure rfl)

theorem recovered_bool
    (value : Bool) :
    (bool value).Recovered := by
  intro n depth rest _ _ _
  cases value <;> exact .peek (.bind .advance fun _ _ => .pure rfl)

theorem recovered_none :
    ExprForm.none.Recovered :=
  fun _ _ _ _ _ _ => .peek (.bind .advance fun _ _ => .pure rfl)

theorem recovered_name
    (id : String) :
    (name id).Recovered :=
  fun _ _ _ _ _ _ => .peek (.bind .advance fun _ _ => .pure rfl)

/- A string is read alone, as no other one follows. -/
theorem recovered_str
    (value : String) :
    (str value).Recovered := by
  intro n depth rest _ _ hStops
  obtain ⟨kind, later, rfl, hReach⟩ := hStops
  change kind.reach ≤ Strength.atom at hReach
  refine .peek (.currentSpan fun start => ?_)
  refine .bind
    (.again (· = "" ++ value) (kind :: later) (.peek (.skip (.pure rfl)))
      (Nat.lt_succ_self _) fun text hText => .done (.peek ?_))
    fun text (hText : text = value) => .previousSpan fun _ => .pure ?_
  · rw [String.empty_append] at hText
    cases kind with
    | str _ => exact absurd hReach (Nat.not_succ_le_self _)
    | _ => exact .pure hText
  · rw [hText]
    rfl

end ExprForm

------------------------------------------------------------
-- Items
------------------------------------------------------------

namespace Expr

/- How deeply an item of a display nests. -/
def itemNesting (expr : Expr) : Nat :=
  expr.form.itemDepth + expr.form.nesting

/- What ends an item is a mark that no expression goes on with. -/
def EndsItem (rest : List TokenKind) : Prop :=
  ∃ mark later,
    rest = .mark mark :: later ∧ (TokenKind.mark mark).reach = 0

theorem EndsItem.stops
    {rest : List TokenKind}
    (hEnds : EndsItem rest) :
    Stops 0 rest := by
  obtain ⟨mark, later, rfl, hReach⟩ := hEnds
  exact ⟨_, later, rfl, hReach.le⟩

/- An expression that is read back as an item of a display. -/
structure Item (expr : Expr) : Prop where
  leads :
    ∃ kind later,
      expr.tokensAt 0 = kind :: later ∧
        (kind = .mark .star ∨ ∃ lead, kind.lead? = some lead)
  recovered :
    ∀ n depth rest,
      expr.itemNesting ≤ depth →
        (expr.tokensAt 0).length < n →
          Stops 0 rest →
            Recovers (levels n).item depth (expr.tokensAt 0) rest expr

theorem itemNesting_of_plain
    {expr : Expr}
    (hPlain : expr.IsPlain) :
    expr.itemNesting = 1 + expr.nestingAt 0 := by
  obtain ⟨span, form⟩ := expr
  rw [nestingAt_of_tight (Nat.zero_le _)]
  have hDepth : form.itemDepth = 1 := by
    cases form with
    | starred value => cases hPlain.unstarred
    | slice lower upper step => cases hPlain.complete
    | _ => rfl
  rw [itemNesting, form_mk, hDepth]

/- An expression that stands alone is an item. -/
theorem Whole.item
    {expr : Expr}
    (hExpr : expr.Whole)
    (hPlain : expr.IsPlain) :
    expr.Item := by
  have hLeads := hExpr.leads (Nat.zero_le Strength.atom)
  refine ⟨?_, fun n depth rest hDepth hLength hStops => ?_⟩
  · obtain ⟨kind, later, lead, hTokens, hLead, -⟩ := hLeads
    exact ⟨kind, later, hTokens, Or.inr ⟨lead, hLead⟩⟩
  · rw [itemNesting_of_plain hPlain] at hDepth
    exact reads_unstarred hLeads
      (hExpr.asExpression (Nat.zero_le _) hDepth hLength hStops)

/- So is an operand after a star. -/
theorem item_starred
    {span : Span}
    {value : Expr}
    (hValue : value.Whole) :
    (Expr.mk span (.starred value)).Item := by
  have hTokens :
      (Expr.mk span (.starred value)).tokensAt 0 =
        .mark .star :: value.tokensAt Strength.bitOr :=
    tokensAt_of_tight (Nat.zero_le _)
  refine ⟨⟨_, _, hTokens, Or.inl rfl⟩, ?_⟩
  intro n depth rest hDepth hLength hStops
  have hNesting :
      (Expr.mk span (.starred value)).itemNesting =
        value.nestingAt Strength.bitOr := Nat.zero_add _
  rw [hNesting] at hDepth
  rw [hTokens, List.length_cons] at hLength
  rw [hTokens]
  obtain ⟨n, rfl⟩ : ∃ less, n = less + 1 := ⟨n - 1, by omega⟩
  have hRule :=
    hValue.atRule (show Strength.bitOr ≤ Strength.atom by decide) hDepth
      (show _ ≤ n by omega) (hStops.mono (Nat.zero_le _))
  refine .check (.ofTrue rfl (.bind .advance fun start _ => ?_))
  refine hRule.bind fun inner hInner => .pure ?_
  rw [erased, ExprForm.erased, hInner]
  rfl

/- No item starts with the mark that closes a display. -/
theorem Item.lead_ne
    {expr : Expr}
    (hExpr : expr.Item)
    {closing : Mark}
    (hClosing : (TokenKind.mark closing).lead? = none)
    (hStar : closing ≠ .star) :
    ∃ kind later,
      expr.tokensAt 0 = kind :: later ∧
        (kind == .mark closing) = false := by
  obtain ⟨kind, later, hTokens, hLead⟩ := hExpr.leads
  refine ⟨kind, later, hTokens, ?_⟩
  rcases hLead with rfl | ⟨lead, hLead⟩
  · rw [Bool.eq_false_iff]
    intro hSame
    exact hStar (TokenKind.mark.inj (TokenKind.eq_of_beq_mark hSame)).symm
  · exact TokenKind.mark_of_lead hLead hClosing

/- An item is read between commas, up to a mark that closes a display. -/
theorem Item.readsItem
    {expr : Expr}
    (hExpr : expr.Item)
    {n depth : Nat}
    (hDepth : expr.itemNesting ≤ depth)
    (hLength : (expr.tokensAt 0).length < n)
    {closing : Mark}
    (hClosing : (TokenKind.mark closing).lead? = none)
    (hStar : closing ≠ .star) :
    ReadsItem (levels n).item depth (tokensAt 0) EndsItem
      (· == .mark closing) erased expr :=
  ⟨hExpr.lead_ne hClosing hStar, fun more hMore =>
    hExpr.recovered n depth more hDepth hLength hMore.stops⟩

theorem le_itemsNesting
    {items : List Expr}
    {item : Expr}
    (hMem : item ∈ items) :
    item.itemNesting ≤ itemsNesting items := by
  induction items with
  | nil => cases hMem
  | cons first rest ih =>
      obtain ⟨span, form⟩ := first
      rw [itemsNesting]
      rcases List.mem_cons.mp hMem with rfl | hRest
      · exact le_max_left _ _
      · exact (ih hRest).trans (le_max_right _ _)

end Expr

------------------------------------------------------------
-- Displays
------------------------------------------------------------

namespace ExprForm

/- An item that no comprehension follows. -/
theorem reads_itemAlone
    {grammar : ExprGrammar}
    {depth : Nat}
    {before more : List TokenKind}
    {holds : Expr → Prop}
    (hItem : Reads grammar.item depth before more holds)
    (hMore : Expr.EndsItem more) :
    Reads
      (do
        let item ← grammar.item
        refuseComprehension
        return item)
      depth before more holds := by
  obtain ⟨mark, later, rfl, -⟩ := hMore
  exact hItem.bind fun value hValue =>
    (Expr.reads_noComprehension rfl).bind fun _ _ => .pure hValue

theorem length_le_intercalate
    {α β : Type}
    {separator : List β}
    {texts : α → List β}
    {items : List α}
    {item : α}
    (hMem : item ∈ items) :
    (texts item).length ≤
      (separator.intercalate (items.map texts)).length := by
  cases items with
  | nil => cases hMem
  | cons first rest =>
      rw [intercalate_eq_flatMap, List.length_append]
      rcases List.mem_cons.mp hMem with rfl | hRest
      · omega
      · have hPart :=
          @length_le_flatMap _ _ (fun part => separator ++ texts part) _ _
            hRest
        rw [List.length_append] at hPart
        omega

/- Items of a display, and the tokens between its brackets. -/
theorem kindsOf_items
    (opening closing : Mark)
    (items : List Expr) :
    kindsOf
        (enclosed opening closing
          (commaSeparated (Expr.lexemesAll 0 items))) =
      .mark opening ::
        ([.mark .comma].intercalate (items.map (Expr.tokensAt 0)) ++
          [.mark closing]) := by
  rw [kindsOf_enclosed, kindsOf_commaSeparated, Expr.lexemesAll_eq_map,
    List.map_map]
  rfl

theorem recovered_list
    {items : List Expr}
    (hItems : ∀ item ∈ items, item.Item) :
    (list items).Recovered := by
  intro n depth rest hDepth hLength _
  have hTokens := kindsOf_items .openBracket .closeBracket items
  change (list items).tokens = _ at hTokens
  change Expr.itemsNesting items ≤ depth at hDepth
  rw [hTokens] at hLength ⊢
  rw [List.length_cons, List.length_append] at hLength
  have hEach :
      ∀ item ∈ items,
        ReadsItem
          (do
            let item ← (levels n).item
            refuseComprehension
            return item)
          depth (Expr.tokensAt 0) Expr.EndsItem
          (· == .mark .closeBracket) Expr.erased item := by
    intro item hMem
    have hPart :=
      @length_le_intercalate _ _ [TokenKind.mark .comma] (Expr.tokensAt 0)
        _ _ hMem
    have hItem :=
      @Expr.Item.readsItem _ (hItems item hMem) n depth
        ((Expr.le_itemsNesting hMem).trans hDepth) (by omega)
        .closeBracket rfl (by decide)
    exact ⟨hItem.starts, fun more hMore =>
      reads_itemAlone (hItem.reads more hMore) hMore⟩
  unfold Recovers
  rw [List.cons_append, List.append_assoc, List.singleton_append]
  refine .peek (.bind .advance fun opening _ => ?_)
  refine .bind (reads_itemsUntil (fun _ => ⟨_, _, rfl, rfl⟩)
    ⟨_, _, rfl, rfl⟩ (by decide) hEach) fun found hFound => ?_
  refine .bind (.expectClosing _ _) fun closing _ => .pure ?_
  rw [Expr.erased, erased, Expr.erasedAll_eq_map, hFound]
  simp [Expr.erased, erased, Expr.synthetic]

/- The first item of a display that is not empty. -/
theorem reads_firstItem
    {n depth : Nat}
    {first : Expr}
    {more after : List TokenKind}
    {closing : Mark}
    {early : Parser Expr}
    {next : Expr → Parser Expr}
    {post : Expr → Prop}
    (hFirst : first.Item)
    (hDepth : first.itemNesting ≤ depth)
    (hLength : (first.tokensAt 0).length < n)
    (hClosing : (TokenKind.mark closing).lead? = Option.none)
    (hStar : closing ≠ .star)
    (hMore : Expr.EndsItem more)
    (hNext :
      ∀ value : Expr, value.erased = first.erased →
        Reads (next value) depth more after post) :
    Reads
      (do
        if ← check (.mark closing) then early
        else
          let value ← (levels n).item
          refuseComprehension
          next value)
      depth (first.tokensAt 0 ++ more) after post := by
  obtain ⟨kind, later, hTokens, hOther⟩ := hFirst.lead_ne hClosing hStar
  have hItem := hFirst.recovered n depth more hDepth hLength hMore.stops
  unfold Recovers at hItem
  rw [hTokens, List.cons_append] at hItem ⊢
  obtain ⟨mark, others, rfl, -⟩ := hMore
  refine .check (.ofFalse (Bool.eq_false_iff.mp hOther)
    (hItem.bind fun value hValue => ?_))
  exact (Expr.reads_noComprehension rfl).bind fun _ _ =>
    hNext value hValue

/- The items of a display after its first one. -/
theorem readsItem_later
    {n depth : Nat}
    {first : Expr}
    {later : List Expr}
    {closing : Mark}
    (hItems : ∀ item ∈ first :: later, item.Item)
    (hDepth : Expr.itemsNesting (first :: later) ≤ depth)
    (hLength :
      (later.flatMap fun item =>
        TokenKind.mark .comma :: item.tokensAt 0).length < n)
    (hClosing : (TokenKind.mark closing).lead? = Option.none)
    (hStar : closing ≠ .star) :
    ∀ item ∈ later,
      ReadsItem (levels n).item depth (Expr.tokensAt 0) Expr.EndsItem
        (· == .mark closing) Expr.erased item := by
  intro item hMem
  have hMember := List.mem_cons_of_mem first hMem
  have hPart :=
    @length_le_flatMap _ _
      (fun item : Expr => TokenKind.mark .comma :: item.tokensAt 0) _ _
      hMem
  rw [List.length_cons] at hPart
  exact (hItems item hMember).readsItem
    ((Expr.le_itemsNesting hMember).trans hDepth) (by omega) hClosing hStar

/- Items with commas between them, as they come up after each other. -/
theorem tokens_items
    (opening closing : Mark)
    (first : Expr)
    (later : List Expr)
    (rest : List TokenKind) :
    kindsOf
          (enclosed opening closing
            (commaSeparated (Expr.lexemesAll 0 (first :: later)))) ++
        rest =
      .mark opening ::
        (first.tokensAt 0 ++
          ((later.flatMap fun item => .mark .comma :: item.tokensAt 0) ++
            .mark closing :: rest)) := by
  rw [kindsOf_items, intercalate_eq_flatMap]
  simp only [List.cons_append, List.append_assoc, List.nil_append]

/- A tuple is told from an expression in brackets by its commas. -/
theorem recovered_tuple
    {items : List Expr}
    (hItems : ∀ item ∈ items, item.Item) :
    (tuple items).Recovered := by
  intro n depth rest hDepth hLength _
  change Expr.itemsNesting items ≤ depth at hDepth
  rcases items with _ | ⟨first, later⟩
  · exact .peek (.bind .advance fun opening _ =>
      .check (.ofTrue rfl (.bind .advance fun closing _ => .pure rfl)))
  have hFirst := hItems first List.mem_cons_self
  have hNested :=
    (@Expr.le_itemsNesting (first :: later) _ List.mem_cons_self).trans
      hDepth
  rcases later with _ | ⟨second, others⟩
  · have hTokens :
        (tuple [first]).tokens =
          .mark .openParen ::
            (first.tokensAt 0 ++ [.mark .comma, .mark .closeParen]) := by
      rw [tokens, lexemes, kindsOf_enclosed, kindsOf_append,
        List.append_assoc]
      rfl
    rw [hTokens] at hLength ⊢
    simp only [List.length_cons, List.length_append] at hLength
    unfold Recovers
    rw [List.cons_append, List.append_assoc]
    refine .peek (.bind .advance fun opening _ => ?_)
    refine reads_firstItem hFirst hNested (by omega) rfl (by decide)
      ⟨_, _, rfl, rfl⟩ fun value hValue => ?_
    refine .leave rfl (.ofFalse Bool.false_ne_true ?_)
    refine .bind (reads_lastComma rfl _) ?_
    rintro _ rfl
    refine .bind (.expectClosing _ _) fun closing _ => .pure ?_
    simp [Expr.erased, erased, Expr.synthetic, hValue]
  · have hTokens :=
      tokens_items .openParen .closeParen first (second :: others) rest
    change (tuple (first :: second :: others)).tokens ++ rest = _ at hTokens
    have hWhole := congrArg List.length hTokens
    simp only [List.length_cons, List.length_append] at hWhole
    unfold Recovers
    rw [hTokens]
    refine .peek (.bind .advance fun opening _ => ?_)
    refine reads_firstItem hFirst hNested (by omega) rfl (by decide)
      ⟨_, _, rfl, rfl⟩ fun value hValue => ?_
    refine .leave rfl (.ofFalse Bool.false_ne_true ?_)
    refine .bind (reads_moreItems (fun _ => ⟨_, _, rfl, rfl⟩)
      ⟨_, _, rfl, rfl⟩ rfl [value]
      (readsItem_later hItems hDepth (by omega) rfl (by decide)))
      fun found hFound => ?_
    refine .bind (.expectClosing _ _) fun closing _ => .pure ?_
    rw [Expr.erased, erased, Expr.erasedAll_eq_map, hFound]
    simp [Expr.erased, erased, Expr.synthetic, hValue]

/- A set has at least one item. -/
theorem recovered_set
    {items : List Expr}
    (hSome : items ≠ [])
    (hItems : ∀ item ∈ items, item.Item) :
    (set items).Recovered := by
  intro n depth rest hDepth hLength _
  change Expr.itemsNesting items ≤ depth at hDepth
  obtain ⟨first, later, rfl⟩ := List.exists_cons_of_ne_nil hSome
  have hNested :=
    (@Expr.le_itemsNesting (first :: later) _ List.mem_cons_self).trans
      hDepth
  have hTokens := tokens_items .openBrace .closeBrace first later rest
  change (set (first :: later)).tokens ++ rest = _ at hTokens
  have hWhole := congrArg List.length hTokens
  simp only [List.length_cons, List.length_append] at hWhole
  have hRest :
      ∃ mark more,
        ((later.flatMap fun item => .mark .comma :: item.tokensAt 0) ++
            TokenKind.mark .closeBrace :: rest) =
          .mark mark :: more ∧
        (TokenKind.mark mark).reach = 0 ∧ mark ≠ .colon := by
    cases later <;> exact ⟨_, _, rfl, rfl, by decide⟩
  unfold Recovers
  rw [hTokens]
  refine .peek (.bind .advance fun opening _ => ?_)
  obtain ⟨mark, more, hMark, hReach, hColon⟩ := hRest
  refine reads_firstItem (hItems first List.mem_cons_self) hNested
    (by omega) rfl (by decide) ⟨_, _, hMark, hReach⟩ fun value hValue => ?_
  have hItems :=
    @reads_moreItems _ _ Expr.erased (Expr.tokensAt 0) Expr.EndsItem
      (levels n).item (· == .mark .closeBrace) depth
      (.mark .closeBrace) rest (fun _ => ⟨_, _, rfl, rfl⟩)
      ⟨_, _, rfl, rfl⟩ rfl [value] later
      (readsItem_later hItems hDepth (by omega) rfl (by decide))
  rw [hMark] at hItems ⊢
  have hOther :
      (TokenKind.mark mark == TokenKind.mark .colon) = false := by
    rw [Bool.eq_false_iff]
    exact fun hSame =>
      hColon (TokenKind.mark.inj (TokenKind.eq_of_beq_mark hSame))
  refine .leave hOther (.ofFalse Bool.false_ne_true ?_)
  refine .bind (.map (hItems.mono fun found hFound => ?_))
    fun form (hForm : form.erased = (set (first :: later)).erased) =>
      .bind (.expectClosing _ _) fun closing _ => .pure ?_
  · rw [erased, erased, Expr.erasedAll_eq_map, Expr.erasedAll_eq_map,
      hFound]
    simp [hValue]
  · rw [Expr.erased, hForm]
    rfl

theorem le_entriesNesting
    {entries : List (Expr × Expr)}
    {entry : Expr × Expr}
    (hMem : entry ∈ entries) :
    1 + entry.1.nestingAt 0 ≤ Expr.entriesNesting entries ∧
      1 + entry.2.nestingAt 0 ≤ Expr.entriesNesting entries := by
  induction entries with
  | nil => cases hMem
  | cons first rest ih =>
      obtain ⟨key, value⟩ := first
      rw [Expr.entriesNesting]
      rcases List.mem_cons.mp hMem with rfl | hRest
      · exact
          ⟨(le_max_left _ _).trans (le_max_left _ _),
            (le_max_right _ _).trans (le_max_left _ _)⟩
      · have hLater := ih hRest
        exact
          ⟨hLater.1.trans (le_max_right _ _),
            hLater.2.trans (le_max_right _ _)⟩

/- The tokens of an entry of a dictionary. -/
def entryTokens (entry : Expr × Expr) : List TokenKind :=
  entry.1.tokensAt 0 ++ .mark .colon :: entry.2.tokensAt 0

theorem kindsOf_lexemesOfEntry
    (entry : Expr × Expr) :
    kindsOf (Expr.lexemesOfEntry entry) = entryTokens entry := by
  rw [Expr.lexemesOfEntry, kindsOf_append]
  rfl

/- An entry is read with its key and its value. -/
theorem readsItem_entry
    {n depth : Nat}
    {entry : Expr × Expr}
    (hKey : entry.1.Whole)
    (hValue : entry.2.Whole)
    (hKeyDepth : 1 + entry.1.nestingAt 0 ≤ depth)
    (hValueDepth : 1 + entry.2.nestingAt 0 ≤ depth)
    (hLength : (entryTokens entry).length < n) :
    ReadsItem (levels n).dictEntry depth entryTokens Expr.EndsItem
      (· == .mark .closeBrace) (Prod.map Expr.erased Expr.erased)
      entry := by
  rw [entryTokens, List.length_append, List.length_cons] at hLength
  refine ⟨?_, fun more hMore => ?_⟩
  · obtain ⟨kind, later, lead, hTokens, hLead, -⟩ :=
      hKey.leads (Nat.zero_le Strength.atom)
    refine
      ⟨kind, later ++ .mark .colon :: entry.2.tokensAt 0, ?_,
        TokenKind.mark_of_lead hLead rfl⟩
    rw [entryTokens, hTokens, List.cons_append]
  · rw [entryTokens, List.append_assoc, List.cons_append]
    refine (hKey.asExpression (Nat.zero_le _) hKeyDepth
      (show _ < n by omega) ⟨_, _, rfl, le_rfl⟩).bind fun key hFound => ?_
    refine .bind (.discard (.expect rfl)) fun _ _ => ?_
    refine (hValue.asExpression (Nat.zero_le _) hValueDepth
      (show _ < n by omega) hMore.stops).bind fun value hOther => .pure ?_
    exact Prod.ext hFound hOther

/- A display whose first item has a colon after it is a dictionary. -/
theorem recovered_dict
    {entries : List (Expr × Expr)}
    (hEntries :
      ∀ entry ∈ entries,
        entry.1.IsPlain ∧ entry.1.Whole ∧ entry.2.Whole) :
    (dict entries).Recovered := by
  intro n depth rest hDepth hLength _
  change Expr.entriesNesting entries ≤ depth at hDepth
  rcases entries with _ | ⟨first, later⟩
  · exact .peek (.bind .advance fun opening _ =>
      .check (.ofTrue rfl (.bind .advance fun closing _ => .pure rfl)))
  have hTokens :
      (dict (first :: later)).tokens ++ rest =
        .mark .openBrace ::
          (first.1.tokensAt 0 ++
            .mark .colon ::
              (first.2.tokensAt 0 ++
                ((later.flatMap fun entry =>
                    .mark .comma :: entryTokens entry) ++
                  .mark .closeBrace :: rest))) := by
    rw [tokens, lexemes, kindsOf_enclosed, kindsOf_commaSeparated,
      Expr.entryLexemes_eq_map, List.map_map,
      show kindsOf ∘ Expr.lexemesOfEntry = entryTokens from
        funext kindsOf_lexemesOfEntry,
      intercalate_eq_flatMap, entryTokens]
    simp only [List.cons_append, List.append_assoc, List.nil_append]
  have hWhole := congrArg List.length hTokens
  simp only [List.length_cons, List.length_append] at hWhole
  obtain ⟨hPlain, hKey, hValue⟩ := hEntries first List.mem_cons_self
  have hNested :=
    @le_entriesNesting (first :: later) _ List.mem_cons_self
  have hEnds :
      Expr.EndsItem
        ((later.flatMap fun entry => .mark .comma :: entryTokens entry) ++
          .mark .closeBrace :: rest) := by
    cases later <;> exact ⟨_, _, rfl, rfl⟩
  unfold Recovers
  rw [hTokens]
  refine .peek (.bind .advance fun opening _ => ?_)
  refine reads_firstItem (hKey.item hPlain)
    (by rw [Expr.itemNesting_of_plain hPlain]; omega) (by omega) rfl
    (by decide) ⟨_, _, rfl, rfl⟩ fun key hFound => ?_
  refine .eat rfl (.ofTrue rfl ?_)
  refine (hValue.asExpression (Nat.zero_le _) (show _ ≤ depth by omega)
    (show _ < n by omega) hEnds.stops).bind fun value hOther => ?_
  have hEach :
      ∀ entry ∈ later,
        ReadsItem (levels n).dictEntry depth entryTokens Expr.EndsItem
          (· == .mark .closeBrace) (Prod.map Expr.erased Expr.erased)
          entry := by
    intro entry hMem
    have hMember := List.mem_cons_of_mem first hMem
    obtain ⟨-, hKey, hValue⟩ := hEntries entry hMember
    have hDepths := le_entriesNesting hMember
    have hPart :=
      @length_le_flatMap _ _
        (fun entry => TokenKind.mark .comma :: entryTokens entry) _ _ hMem
    rw [List.length_cons] at hPart
    exact readsItem_entry hKey hValue (by omega) (by omega) (by omega)
  have hItems :=
    @reads_moreItems _ _ (Prod.map Expr.erased Expr.erased) entryTokens
      Expr.EndsItem (levels n).dictEntry (· == .mark .closeBrace) depth
      (.mark .closeBrace) rest (fun _ => ⟨_, _, rfl, rfl⟩)
      ⟨_, _, rfl, rfl⟩ rfl [(key, value)] later hEach
  obtain ⟨mark, more, hMark, -⟩ := hEnds
  rw [hMark] at hItems ⊢
  refine .bind (Expr.reads_noComprehension rfl) fun _ _ => ?_
  refine .bind (.map (hItems.mono fun found hRead => ?_))
    fun form (hForm : form.erased = (dict (first :: later)).erased) =>
      .bind (.expectClosing _ _) fun closing _ => .pure ?_
  · rw [erased, erased, Expr.erasedEntries_eq_map,
      Expr.erasedEntries_eq_map, hRead]
    simp [Prod.map, hFound, hOther]
  · rw [Expr.erased, hForm]
    rfl

end ExprForm

end SnippetGrader
