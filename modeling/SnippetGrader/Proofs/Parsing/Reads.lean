import SnippetGrader.Proofs.Parsing.Yields

/-
  What a parser reads.

  A parser reads some of the tokens that come next if it moves
  past them, reports nothing and yields a value with a given
  property. It may need several levels of nesting for that.

  Key definitions include:
    * `Cursor.upcoming`
    * `Parser.Reads`

  Key theorems include:
    * `Parser.Reads.bind`, `Parser.Reads.nested`
    * `Parser.Reads.again`, `Parser.Reads.done`
    * `Parser.Reads.rounds`
-/

namespace SnippetGrader

------------------------------------------------------------
-- Upcoming Tokens
------------------------------------------------------------

namespace Cursor

/- The kinds of the tokens that have not been read. -/
def upcoming (cursor : Cursor) : List TokenKind :=
  (cursor.tokens.toList.drop cursor.index).map (·.kind)

/- Another place among the same tokens. -/
def moved (cursor : Cursor) (index : Nat) : Cursor :=
  { cursor with index := index }

variable {cursor : Cursor}
variable {kind : TokenKind}
variable {rest : List TokenKind}

theorem length_upcoming
    (cursor : Cursor) :
    cursor.upcoming.length = cursor.remaining := by
  simp [upcoming, remaining]

/- The first upcoming token, and those after it. -/
theorem upcoming_eq_cons
    (hUpcoming : cursor.upcoming = kind :: rest) :
    ∃ token,
      cursor.tokens[cursor.index]? = some token ∧
        token.kind = kind ∧
          (cursor.moved (cursor.index + 1)).upcoming = rest := by
  unfold upcoming at hUpcoming
  cases hDrop : cursor.tokens.toList.drop cursor.index with
  | nil =>
      rw [hDrop] at hUpcoming
      cases hUpcoming
  | cons token later =>
      rw [hDrop, List.map_cons, List.cons.injEq] at hUpcoming
      refine ⟨token, ?_, hUpcoming.1, ?_⟩
      · rw [← Array.getElem?_toList, ← List.head?_drop, hDrop]
        rfl
      · unfold upcoming moved
        rw [← List.tail_drop, hDrop]
        exact hUpcoming.2

theorem current_kind
    (hUpcoming : cursor.upcoming = kind :: rest) :
    cursor.current.kind = kind := by
  obtain ⟨token, hToken, hKind, -⟩ := upcoming_eq_cons hUpcoming
  unfold current
  rw [hToken]
  exact hKind

theorem ahead_one
    (hUpcoming : cursor.upcoming = kind :: rest) :
    cursor.ahead 1 = rest.headD .endOfFile := by
  obtain ⟨token, -, -, hRest⟩ := upcoming_eq_cons hUpcoming
  unfold ahead
  unfold upcoming moved at hRest
  rw [← hRest, ← Array.getElem?_toList, ← List.head?_drop]
  cases cursor.tokens.toList.drop (cursor.index + 1) <;> rfl

theorem next_eq
    (hUpcoming : cursor.upcoming = kind :: rest) :
    cursor.next = cursor.moved (cursor.index + 1) := by
  obtain ⟨token, hToken, -, -⟩ := upcoming_eq_cons hUpcoming
  obtain ⟨hBound, -⟩ := Array.getElem?_eq_some_iff.mp hToken
  unfold next
  rw [if_pos hBound]
  rfl

end Cursor

------------------------------------------------------------
-- Kinds of Tokens
------------------------------------------------------------

namespace TokenKind

/- A token is compared with a mark or a word by its kind. -/
theorem eq_of_beq_mark
    {kind : TokenKind}
    {mark : Mark}
    (hSame : (kind == .mark mark) = true) :
    kind = .mark mark := by
  cases kind with
  | mark other => exact congrArg TokenKind.mark (eq_of_beq hSame)
  | _ => cases hSame

theorem eq_of_beq_keyword
    {kind : TokenKind}
    {word : Keyword}
    (hSame : (kind == .keyword word) = true) :
    kind = .keyword word := by
  cases kind with
  | keyword other => exact congrArg TokenKind.keyword (eq_of_beq hSame)
  | _ => cases hSame

theorem beq_mark
    (mark : Mark) :
    (TokenKind.mark mark == .mark mark) = true :=
  beq_self_eq_true mark

theorem beq_keyword
    (word : Keyword) :
    (TokenKind.keyword word == .keyword word) = true :=
  beq_self_eq_true word

end TokenKind

namespace Parser

variable {α β σ : Type}

------------------------------------------------------------
-- What a Parser Reads
------------------------------------------------------------

/-
  A parser that yields a value with a property where some tokens
  come next, and moves to where others do.
-/
def Reads
    (parser : Parser α)
    (depth : Nat)
    (before after : List TokenKind)
    (holds : α → Prop) : Prop :=
  ∀ cursor : Cursor,
    cursor.upcoming = before →
      cursor.exprDepth + depth ≤ maxExprDepth →
        ∃ value index,
          parser cursor = .ok value (cursor.moved index) ∧
            (cursor.moved index).upcoming = after ∧ holds value

/- A round that is the last one of a loop. -/
def Step.EndsWith (holds : α → Prop) : Step σ α → Prop
  | .again _ => False
  | .done value => holds value

/- A round that another one follows. -/
def Step.GoesOn (keeps : σ → Prop) : Step σ α → Prop
  | .again state => keeps state
  | .done _ => False

namespace Reads

variable {parser other : Parser α}
variable {depth : Nat}
variable {before middle after : List TokenKind}
variable {holds post : α → Prop}
variable {kind : TokenKind}
variable {rest : List TokenKind}

theorem mono
    (hParser : Reads parser depth before after holds)
    (hPost : ∀ value, holds value → post value) :
    Reads parser depth before after post := by
  intro cursor hBefore hDepth
  obtain ⟨value, index, hRun, hAfter, hValue⟩ :=
    hParser cursor hBefore hDepth
  exact ⟨value, index, hRun, hAfter, hPost value hValue⟩

theorem pure
    {value : α}
    (hValue : holds value) :
    Reads (Pure.pure value) depth after after holds :=
  fun cursor hBefore _ => ⟨value, cursor.index, rfl, hBefore, hValue⟩

/- What the second of two parsers reads may rest on the first value. -/
theorem bind
    {next : α → Parser β}
    {post : β → Prop}
    (hFirst : Reads parser depth before middle holds)
    (hNext :
      ∀ value, holds value →
        Reads (next value) depth middle after post) :
    Reads (parser >>= next) depth before after post := by
  intro cursor hBefore hDepth
  obtain ⟨value, index, hRun, hMiddle, hValue⟩ :=
    hFirst cursor hBefore hDepth
  obtain ⟨result, last, hRest, hAfter, hResult⟩ :=
    hNext value hValue (cursor.moved index) hMiddle hDepth
  refine ⟨result, last, ?_, hAfter, hResult⟩
  rw [run_bind, hRun]
  exact hRest

theorem map
    {change : α → β}
    {post : β → Prop}
    (hParser :
      Reads parser depth before after fun value => post (change value)) :
    Reads (change <$> parser) depth before after post := by
  rw [map_eq_pure_bind]
  exact hParser.bind fun value hValue => .pure hValue

theorem discard
    (hParser : Reads parser depth before after holds) :
    Reads (Functor.discard parser) depth before after fun _ => True :=
  (hParser.mono fun _ _ => trivial).map

theorem ofTrue
    {condition : Prop}
    [Decidable condition]
    (hCondition : condition)
    (hParser : Reads parser depth before after holds) :
    Reads (if condition then parser else other) depth before after
      holds := by
  rwa [if_pos hCondition]

theorem ofFalse
    {condition : Prop}
    [Decidable condition]
    (hCondition : ¬ condition)
    (hOther : Reads other depth before after holds) :
    Reads (if condition then parser else other) depth before after
      holds := by
  rwa [if_neg hCondition]

------------------------------------------------------------
-- Steps
------------------------------------------------------------

/- What looks at the place only goes on from it. -/
theorem look
    {look : Cursor → α}
    {next : α → Parser β}
    {post : β → Prop}
    (hNext : ∀ value, Reads (next value) depth before after post) :
    Reads ((do return look (← get)) >>= next) depth before after post :=
  fun cursor => hNext (look cursor) cursor

theorem peek
    {next : TokenKind → Parser β}
    {post : β → Prop}
    (hNext : Reads (next kind) depth (kind :: rest) after post) :
    Reads (Parser.peek >>= next) depth (kind :: rest) after post := by
  intro cursor hBefore hDepth
  have hRun := hNext cursor hBefore hDepth
  rw [← Cursor.current_kind hBefore] at hRun
  exact hRun

theorem peekAhead
    {next : TokenKind → Parser β}
    {post : β → Prop}
    (hNext :
      Reads (next (rest.headD .endOfFile)) depth (kind :: rest) after
        post) :
    Reads (Parser.peekAhead 1 >>= next) depth (kind :: rest) after
      post := by
  intro cursor hBefore hDepth
  have hRun := hNext cursor hBefore hDepth
  rw [← Cursor.ahead_one hBefore] at hRun
  exact hRun

theorem advance :
    Reads Parser.advance depth (kind :: rest) rest fun _ => True := by
  intro cursor hBefore hDepth
  obtain ⟨token, -, -, hRest⟩ := Cursor.upcoming_eq_cons hBefore
  refine ⟨cursor.current, cursor.index + 1, ?_, hRest, trivial⟩
  change EStateM.Result.ok cursor.current cursor.next = _
  rw [Cursor.next_eq hBefore]

/- A token is read and forgotten. -/
theorem skip
    {next : Unit → Parser β}
    {post : β → Prop}
    (hNext : Reads (next ()) depth rest after post) :
    Reads (Functor.discard Parser.advance >>= next) depth (kind :: rest)
      after post :=
  advance.discard.bind fun _ _ => hNext

theorem currentSpan
    {next : Span → Parser β}
    {post : β → Prop}
    (hNext : ∀ span, Reads (next span) depth before after post) :
    Reads (Parser.currentSpan >>= next) depth before after post :=
  look hNext

theorem previousSpan
    {next : Span → Parser β}
    {post : β → Prop}
    (hNext : ∀ span, Reads (next span) depth before after post) :
    Reads (Parser.previousSpan >>= next) depth before after post :=
  look hNext

theorem check
    {expected : TokenKind}
    {next : Bool → Parser β}
    {post : β → Prop}
    (hNext :
      Reads (next (kind == expected)) depth (kind :: rest) after post) :
    Reads (Parser.check expected >>= next) depth (kind :: rest) after
      post := by
  intro cursor hBefore hDepth
  have hRun := hNext cursor hBefore hDepth
  rw [← Cursor.current_kind hBefore] at hRun
  exact hRun

/- A token that comes next is eaten. -/
theorem eat
    {expected : TokenKind}
    {next : Bool → Parser β}
    {post : β → Prop}
    (hSame : (kind == expected) = true)
    (hNext : Reads (next true) depth rest after post) :
    Reads (Parser.eat expected >>= next) depth (kind :: rest) after
      post := by
  have hEat :
      Reads (Parser.eat expected) depth (kind :: rest) rest
        (· = true) :=
    check (ofTrue hSame (skip (pure rfl)))
  exact hEat.bind fun value hValue => hValue ▸ hNext

/- Another token is left. -/
theorem leave
    {expected : TokenKind}
    {next : Bool → Parser β}
    {post : β → Prop}
    (hOther : (kind == expected) = false)
    (hNext : Reads (next false) depth (kind :: rest) after post) :
    Reads (Parser.eat expected >>= next) depth (kind :: rest) after
      post := by
  have hLeave :
      Reads (Parser.eat expected) depth (kind :: rest) (kind :: rest)
        (· = false) :=
    check (ofFalse (by rw [hOther]; exact Bool.false_ne_true) (pure rfl))
  exact hLeave.bind fun value hValue => hValue ▸ hNext

theorem expect
    {expected : TokenKind}
    (hSame : (kind == expected) = true) :
    Reads (Parser.expect expected) depth (kind :: rest) rest
      fun _ => True :=
  check (ofTrue hSame advance)

theorem expectClosing
    (closing : Mark)
    (openedAt : Span) :
    Reads (Parser.expectClosing closing openedAt) depth
      (.mark closing :: rest) rest fun _ => True :=
  check (ofTrue (TokenKind.beq_mark closing) advance)

theorem expectName
    (id : String) :
    Reads Parser.expectName depth (.name id :: rest) rest
      (·.name = id) :=
  peek (advance.bind fun _ _ => pure rfl)

------------------------------------------------------------
-- Nesting and Repetition
------------------------------------------------------------

/- A parser that runs one level deeper needs that level. -/
theorem nested
    (hParser : Reads parser depth before after holds) :
    Reads (Parser.nested parser) (depth + 1) before after holds := by
  intro cursor hBefore hDepth
  obtain ⟨value, index, hRun, hAfter, hValue⟩ :=
    hParser { cursor with exprDepth := cursor.exprDepth + 1 } hBefore
      (by
        change cursor.exprDepth + 1 + depth ≤ maxExprDepth
        omega)
  refine ⟨value, index, ?_, hAfter, hValue⟩
  have hShallow : ¬ cursor.exprDepth ≥ maxExprDepth := by omega
  have hGet : (get : Parser Cursor) cursor = .ok cursor cursor := rfl
  rw [Parser.nested, run_bind, hGet]
  refine (congrFun (if_neg hShallow) cursor).trans ?_
  simp only [hRun]
  rfl

variable {step : σ → Parser (Step σ α)}
variable {state : σ}

/- More rounds do not change how a loop ends. -/
theorem loopFor_mono
    {fuel : Nat}
    {cursor last : Cursor}
    {value : α}
    (hRun : loopFor step fuel state cursor = .ok value last)
    (more : Nat) :
    loopFor step (fuel + more) state cursor = .ok value last := by
  induction fuel generalizing state cursor with
  | zero => cases hRun
  | succ fuel ih =>
      rw [Nat.add_right_comm]
      rw [run_loopFor] at hRun ⊢
      cases hStep : step state cursor with
      | error failure after =>
          rw [hStep] at hRun
          cases hRun
      | ok outcome after =>
          rw [hStep] at hRun
          cases outcome with
          | again next => exact ih hRun
          | done result => exact hRun

/- A loop whose next round is its last one. -/
theorem done
    (hStep :
      Reads (step state) depth before after (Step.EndsWith holds)) :
    Reads (loop state step) depth before after holds := by
  intro cursor hBefore hDepth
  obtain ⟨outcome, index, hRun, hAfter, hOutcome⟩ :=
    hStep cursor hBefore hDepth
  cases outcome with
  | again next => cases hOutcome
  | done value =>
      refine ⟨value, index, ?_, hAfter, hOutcome⟩
      change loopFor step _ state cursor = _
      rw [run_loopFor, hRun]

/- A loop whose next round reads a token and goes on. -/
theorem again
    (keeps : σ → Prop)
    (between : List TokenKind)
    (hStep :
      Reads (step state) depth before between (Step.GoesOn keeps))
    (hLess : between.length < before.length)
    (hLoop :
      ∀ next, keeps next →
        Reads (loop next step) depth between after holds) :
    Reads (loop state step) depth before after holds := by
  intro cursor hBefore hDepth
  obtain ⟨outcome, index, hRun, hMiddle, hOutcome⟩ :=
    hStep cursor hBefore hDepth
  obtain ⟨next, rfl, hNext⟩ :
      ∃ next, outcome = .again next ∧ keeps next := by
    cases outcome with
    | again next => exact ⟨next, rfl, hOutcome⟩
    | done value => cases hOutcome
  obtain ⟨value, last, hLater, hAfter, hValue⟩ :=
    hLoop next hNext (cursor.moved index) hMiddle hDepth
  refine ⟨value, last, ?_, hAfter, hValue⟩
  have hFewer :
      (cursor.moved index).remaining + 1 ≤ cursor.remaining := by
    rw [← Cursor.length_upcoming, ← Cursor.length_upcoming, hMiddle,
      hBefore]
    omega
  obtain ⟨more, hMore⟩ := Nat.exists_eq_add_of_le hFewer
  change loopFor step _ state cursor = _
  rw [run_loopFor, hRun, hMore]
  exact loopFor_mono hLater more

------------------------------------------------------------
-- Lists
------------------------------------------------------------

variable {ι : Type}
variable {texts : ι → List TokenKind}
variable {ends : List TokenKind → Prop}

/- A loop that reads one item of a list in each of its rounds. -/
theorem links
    (keeps : List ι → σ → Prop)
    (hSome : ∀ item, texts item ≠ [])
    (hEnds : ∀ item more, ends (texts item ++ more))
    (hRest : ends rest)
    (hNone :
      ∀ state, keeps [] state →
        Reads (step state) depth rest rest (Step.EndsWith holds))
    (hMore :
      ∀ item later state more, keeps (item :: later) state → ends more →
        Reads (step state) depth (texts item ++ more) more
          (Step.GoesOn (keeps later)))
    {items : List ι}
    (hState : keeps items state) :
    Reads (loop state step) depth (items.flatMap texts ++ rest) rest
      holds := by
  induction items generalizing state with
  | nil => exact done (hNone state hState)
  | cons item later ih =>
      have hAfter : ends (later.flatMap texts ++ rest) := by
        cases later with
        | nil => exact hRest
        | cons second others =>
            rw [List.flatMap_cons, List.append_assoc]
            exact hEnds second _
      rw [List.flatMap_cons, List.append_assoc]
      refine again _ _ (hMore item later state _ hState hAfter) ?_
        fun next hNext => ih hNext
      have hPositive := List.length_pos_of_ne_nil (hSome item)
      simp only [List.length_append]
      omega

/- A loop that reads a comma after every item but the last one. -/
theorem rounds
    (keeps : List ι → σ → Prop)
    (hNone :
      ∀ state, keeps [] state →
        Reads (step state) depth rest rest (Step.EndsWith holds))
    (hLast :
      ∀ item state, keeps [item] state →
        Reads (step state) depth (texts item ++ rest) rest
          (Step.EndsWith holds))
    (hMore :
      ∀ item later state more, keeps (item :: later) state →
        later ≠ [] →
          Reads (step state) depth
            (texts item ++ .mark .comma :: more) more
            (Step.GoesOn (keeps later)))
    {items : List ι}
    (hState : keeps items state) :
    Reads (loop state step) depth
      ([.mark .comma].intercalate (items.map texts) ++ rest) rest
      holds := by
  induction items generalizing state with
  | nil => exact done (hNone state hState)
  | cons item later ih =>
      cases later with
      | nil =>
          rw [List.map_singleton, List.intercalate_singleton]
          exact done (hLast item state hState)
      | cons second others =>
          rw [List.map_cons, List.map_cons,
            List.intercalate_cons_cons, List.append_assoc,
            List.append_assoc, List.singleton_append, ← List.map_cons]
          refine again _ _
            (hMore item _ state _ hState (List.cons_ne_nil _ _)) ?_
            fun next hNext => ih hNext
          simp only [List.length_append, List.length_cons]
          omega

end Reads

section Items

variable {γ : Type}
variable {view : α → γ}
variable {texts : α → List TokenKind}
variable {ends : List TokenKind → Prop}
variable {item : Parser α}
variable {isEnd : TokenKind → Bool}
variable {depth : Nat}
variable {kind : TokenKind}
variable {rest : List TokenKind}

/- An item that is read where another one or the end may follow. -/
structure ReadsItem
    (item : Parser α)
    (depth : Nat)
    (texts : α → List TokenKind)
    (ends : List TokenKind → Prop)
    (isEnd : TokenKind → Bool)
    (view : α → γ)
    (value : α) : Prop where
  starts :
    ∃ lead later, texts value = lead :: later ∧ isEnd lead = false
  reads :
    ∀ more, ends more →
      Reads item depth (texts value ++ more) more
        fun found => view found = view value

theorem ReadsItem.start
    {value : α}
    {more : List TokenKind}
    (hValue : ReadsItem item depth texts ends isEnd view value)
    (hMore : ends more) :
    ∃ lead later,
      texts value ++ more = lead :: later ∧
        isEnd lead = false ∧
          Reads item depth (lead :: later) more
            fun found => view found = view value := by
  obtain ⟨lead, later, hTexts, hLead⟩ := hValue.starts
  have hItem := hValue.reads more hMore
  rw [hTexts, List.cons_append] at hItem ⊢
  exact ⟨lead, later ++ more, rfl, hLead, hItem⟩

/- What a loop has read of a list of items, and what is left. -/
def ReadSoFar
    (good : α → Prop)
    (view : α → γ)
    (whole left found : List α) : Prop :=
  (∀ value ∈ left, good value) ∧
    (found ++ left).map view = whole.map view

theorem ReadSoFar.next
    {good : α → Prop}
    {whole left found : List α}
    {value read : α}
    (hFound : ReadSoFar good view whole (value :: left) found)
    (hRead : view read = view value) :
    ReadSoFar good view whole left (found ++ [read]) := by
  refine ⟨(List.forall_mem_cons.mp hFound.1).2, ?_⟩
  rw [← hFound.2]
  simp [hRead]

/- Items with a comma before each of them. -/
theorem reads_moreItems
    (hComma : ∀ more, ends (.mark .comma :: more))
    (hRest : ends (kind :: rest))
    (hKind : (kind == .mark .comma) = false)
    (first : List α)
    {items : List α}
    (hItems :
      ∀ value ∈ items,
        ReadsItem item depth texts ends isEnd view value) :
    Reads (moreItems isEnd item first) depth
      (items.flatMap (fun value => .mark .comma :: texts value) ++
        kind :: rest)
      (kind :: rest)
      fun found => found.map view = (first ++ items).map view := by
  refine Reads.links
    (ReadSoFar (ReadsItem item depth texts ends isEnd view) view
      (first ++ items))
    (fun _ => List.cons_ne_nil _ _) (fun _ _ => hComma _) hRest ?_ ?_
    ⟨hItems, rfl⟩
  · intro found hFound
    refine .leave hKind (.ofTrue rfl (.pure ?_))
    have hWhole := hFound.2
    rwa [List.append_nil] at hWhole
  · intro value left found more hFound hMore
    obtain ⟨lead, later, hTexts, hLead, hItem⟩ :=
      (hFound.1 value List.mem_cons_self).start hMore
    rw [List.cons_append, hTexts]
    refine .eat rfl (.ofFalse Bool.false_ne_true
      (.peek (.ofFalse (Bool.eq_false_iff.mp hLead) ?_)))
    exact hItem.bind fun read hRead => .pure (hFound.next hRead)

/- A comma before the end is read too. -/
theorem reads_lastComma
    (hEnd : isEnd kind = true)
    (first : List α) :
    Reads (moreItems isEnd item first) depth
      (.mark .comma :: kind :: rest) (kind :: rest) (· = first) :=
  .done (.eat rfl (.ofFalse Bool.false_ne_true
    (.peek (.ofTrue hEnd (.pure rfl)))))

/- Items with commas between them, up to a closing mark. -/
theorem reads_itemsUntil
    {closing : Mark}
    (hComma : ∀ more, ends (.mark .comma :: more))
    (hRest : ends (.mark closing :: rest))
    (hClosing : closing ≠ .comma)
    {items : List α}
    (hItems :
      ∀ value ∈ items,
        ReadsItem item depth texts ends (· == .mark closing) view
          value) :
    Reads (itemsUntil closing item) depth
      ([.mark .comma].intercalate (items.map texts) ++
        .mark closing :: rest)
      (.mark closing :: rest)
      fun found => found.map view = items.map view := by
  have hOther :
      (TokenKind.mark closing == TokenKind.mark .comma) = false := by
    rw [Bool.eq_false_iff]
    exact fun hSame =>
      hClosing (TokenKind.mark.inj (TokenKind.eq_of_beq_mark hSame))
  refine Reads.rounds
    (ReadSoFar (ReadsItem item depth texts ends (· == .mark closing) view)
      view items)
    ?_ ?_ ?_ ⟨hItems, rfl⟩
  · intro found hFound
    refine .check (.ofTrue (TokenKind.beq_mark closing) (.pure ?_))
    have hWhole := hFound.2
    rwa [List.append_nil] at hWhole
  · intro value found hFound
    obtain ⟨lead, later, hTexts, hLead, hItem⟩ :=
      (hFound.1 value List.mem_cons_self).start hRest
    rw [hTexts]
    refine .check (.ofFalse (Bool.eq_false_iff.mp hLead)
      (hItem.bind fun read hRead => ?_))
    refine .leave hOther (.ofFalse Bool.false_ne_true (.pure ?_))
    have hWhole := (hFound.next hRead).2
    rwa [List.append_nil] at hWhole
  · intro value left found more hFound _
    obtain ⟨lead, later, hTexts, hLead, hItem⟩ :=
      (hFound.1 value List.mem_cons_self).start (hComma more)
    rw [hTexts]
    refine .check (.ofFalse (Bool.eq_false_iff.mp hLead)
      (hItem.bind fun read hRead => ?_))
    exact .eat rfl (.ofTrue rfl (.pure (hFound.next hRead)))

end Items

end Parser

end SnippetGrader
