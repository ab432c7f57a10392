import SnippetGrader.Parsing.Expression
import SnippetGrader.Proofs.Parsing.Takes

/-
  Expressions that are read are in place.

  An expression starts with its first operand or with its first
  token, and it ends with its last operand or with the token
  before the place. The operands between them span other tokens,
  one after the other.

  Key definitions include:
    * `OrderedTokens.Stands`
    * `Parser.TakesExpr`, `ExprGrammar.Placed`

  Key theorems include:
    * `OrderedTokens.Stands.merge`, `OrderedTokens.Stands.mergeToken`
    * `ExprGrammar.placed_top`
-/

namespace SnippetGrader

------------------------------------------------------------
-- Placed Expressions
------------------------------------------------------------

namespace OrderedTokens

variable {text : OrderedTokens}
variable {start index i j k l : Nat}

/-
  An expression that spans tokens from one number up to another,
  the first of which is no mark of a line or a block.
-/
structure Stands
    (text : OrderedTokens)
    (low high : Nat)
    (expr : Expr) : Prop where
  solid : (text.token low).kind.isLayout = false
  between : text.Between low high (.expr expr)

theorem Stands.mono
    {expr : Expr}
    (hExpr : text.Stands start i expr)
    (hLater : i ≤ index) :
    text.Stands start index expr :=
  ⟨hExpr.solid, hExpr.between.mono le_rfl hLater⟩

/- An expression from a first operand to a last one. -/
theorem stands_merge
    {first last : Expr}
    {form : ExprForm Expr}
    (hSolid : (text.token start).kind.isLayout = false)
    (hFirst : text.Fills i j (.expr first))
    (hLast : text.Fills k l (.expr last))
    (hLow : start ≤ i)
    (hOrder : j < k)
    (hHigh : l < index)
    (hSlots : text.HoldsAll i (l + 1) (Node.exprSlots form)) :
    text.Stands start index
      (.mk (first.span.merge last.span) form) :=
  ⟨hSolid, between_merge rfl hFirst hLast hLow hOrder hHigh hSlots⟩

/- An expression from a first operand to the token before the place. -/
theorem stands_mergeToken
    {first : Expr}
    {form : ExprForm Expr}
    (hSolid : (text.token start).kind.isLayout = false)
    (hFirst : text.Fills i j (.expr first))
    (hLow : start ≤ i)
    (hOrder : j < index)
    (hIndex : index - 1 < text.size)
    (hSlots : text.HoldsAll i index (Node.exprSlots form)) :
    text.Stands start index
      (.mk (first.span.merge (text.token (index - 1)).span) form) :=
  ⟨hSolid, between_mergeToken rfl hFirst hLow hOrder hIndex hSlots⟩

/- An expression from its first token to a last operand. -/
theorem stands_opened
    {last : Expr}
    {form : ExprForm Expr}
    (hSolid : (text.token start).kind.isLayout = false)
    (hLast : text.Fills k l (.expr last))
    (hOrder : start < k)
    (hHigh : l < index)
    (hSlots : text.HoldsAll start (l + 1) (Node.exprSlots form)) :
    text.Stands start index
      (.mk ((text.token start).span.merge last.span) form) :=
  ⟨hSolid, between_opened rfl hSolid hLast hOrder hHigh hSlots⟩

/- An expression from its first token to the one before the place. -/
theorem stands_enclosed
    {form : ExprForm Expr}
    (hSolid : (text.token start).kind.isLayout = false)
    (hOrder : start < index)
    (hIndex : index - 1 < text.size)
    (hSlots : text.HoldsAll start index (Node.exprSlots form)) :
    text.Stands start index
      (.mk ((text.token start).span.merge
        (text.token (index - 1)).span) form) :=
  ⟨hSolid, between_enclosed rfl hSolid hOrder hIndex hSlots⟩

/- An expression of one token. -/
theorem stands_single
    {form : ExprForm Expr}
    (hSolid : (text.token start).kind.isLayout = false)
    (hIndex : start < text.size)
    (hSlots : text.HoldsAll start (start + 1) (Node.exprSlots form)) :
    text.Stands start (start + 1) (.mk (text.token start).span form) :=
  ⟨hSolid, between_of_slots (.single hIndex hSolid) le_rfl
    (Nat.lt_succ_self start) hSlots⟩

end OrderedTokens

namespace Parser

/- A parser of expressions that are in place. -/
def TakesExpr (text : OrderedTokens) (parser : Parser Expr) : Prop :=
  ∀ start, Takes text start parser fun expr index =>
    text.Stands start index expr

end Parser

namespace ExprGrammar

open SnippetGrader.Parser

variable {text : OrderedTokens}

/- The rules for inner expressions, of which all are in place. -/
structure Placed (text : OrderedTokens) (grammar : ExprGrammar) : Prop where
  expression : TakesExpr text grammar.expression
  notTest : TakesExpr text grammar.notTest
  bitOr : TakesExpr text grammar.bitOr
  factor : TakesExpr text grammar.factor

section Rules

variable {grammar : ExprGrammar}

------------------------------------------------------------
-- Starred Items and Tuples
------------------------------------------------------------

theorem takes_starred
    (hGrammar : grammar.Placed text)
    {unstarred : Parser Expr}
    (hUnstarred : TakesExpr text unstarred) :
    TakesExpr text (grammar.starred unstarred) := by
  intro start
  refine (takes_check _).bind ?_
  rintro _ here _ ⟨rfl, rfl⟩
  refine .ite (fun hStar => ?_) fun _ => hUnstarred here
  have hSolid := TokenKind.isLayout_of_beq hStar
  refine (takes_advance (TokenKind.ne_endOfFile_of_solid hSolid)).bind ?_
  rintro _ _ _ ⟨rfl, rfl⟩
  refine (hGrammar.bitOr (here + 1)).bind fun inner last _ hInner => ?_
  obtain ⟨i, j, hLow, hHigh, hFills⟩ := hInner.between
  refine .pure (OrderedTokens.stands_opened hSolid hFills hLow hHigh ?_)
  exact .cons (hFills.between.mono (by omega) le_rfl) .nil

theorem takes_item
    (hGrammar : grammar.Placed text) :
    TakesExpr text grammar.item :=
  takes_starred hGrammar hGrammar.expression

/- Items that follow a row of others are a row with them. -/
theorem takes_rowItem
    {item : Parser Expr}
    (hItem : TakesExpr text item)
    {low here : Nat}
    {items : List Expr}
    (hLow : low ≤ here)
    (hItems : text.Row low here (items.map .expr)) :
    Takes text here item fun value later =>
      text.Row low later ((items ++ [value]).map .expr) := by
  refine (hItem here).mono fun value later hLater hValue => ?_
  rw [List.map_append]
  exact hItems.append (.single hValue.between) hLow hLater

theorem takes_rowItems
    {item : Parser Expr}
    (hItem : TakesExpr text item)
    (isEnd : TokenKind → Bool)
    {low start : Nat}
    {first : List Expr}
    (hLow : low ≤ start)
    (hFirst : text.Row low start (first.map .expr)) :
    Takes text start (moreItems isEnd item first) fun items index =>
      text.Row low index (items.map .expr) :=
  takes_moreItems (fun items index => text.Row low index (items.map .expr))
    hFirst (fun _ _ _ hLater hItems => hItems.mono le_rfl hLater)
    fun _ _ hHere hItems => takes_rowItem hItem (hLow.trans hHere) hItems

/- Operands that are items of a tuple, or one that is not. -/
theorem takes_orTuple
    {next : Parser Expr}
    (hNext : TakesExpr text next)
    (isEnd : TokenKind → Bool)
    {start middle : Nat}
    {first : Expr}
    (hFirst : text.Stands start middle first) :
    Takes text middle (orTuple isEnd next first) fun expr index =>
      text.Stands start index expr := by
  refine (takes_check _).bind ?_
  rintro _ here _ ⟨rfl, rfl⟩
  refine .ite (fun _ => ?_) fun _ => .pure hFirst
  obtain ⟨hSolid, i, j, hLow, hHigh, hFills⟩ := hFirst
  have hRow : text.Row i here ([first].map .expr) :=
    .single (hFills.between.mono le_rfl hHigh)
  have hOrder := hFills.spans.order
  refine (takes_rowItems hNext isEnd (by omega) hRow).bind
    fun items last hLast hItems => ?_
  refine (takes_previousSpan (by omega)).bind ?_
  rintro _ _ _ ⟨rfl, hInside, rfl⟩
  exact .pure (OrderedTokens.stands_mergeToken hSolid hFills hLow
    (by omega) hInside (.cons hItems .nil))

theorem takes_exprList
    (hGrammar : grammar.Placed text) :
    TakesExpr text grammar.exprList := fun start =>
  (takes_item hGrammar start).bind fun _ _ _ hFirst =>
    takes_orTuple (takes_item hGrammar) endsExprList hFirst

theorem takes_targetList
    (hGrammar : grammar.Placed text) :
    TakesExpr text grammar.targetList := fun start =>
  have hTarget := takes_starred hGrammar hGrammar.bitOr
  (hTarget start).bind fun _ _ _ hFirst =>
    takes_orTuple hTarget _ hFirst

theorem takes_refuseComprehension
    {start : Nat} :
    Takes text start refuseComprehension fun _ index =>
      index = start := by
  refine (takes_check _).bind ?_
  rintro _ _ _ ⟨rfl, rfl⟩
  exact .ite (fun _ => takes_refuse _ _) fun _ => .pure rfl

------------------------------------------------------------
-- Parameters
------------------------------------------------------------

/- What a parameter is for does not matter to where it stands. -/
theorem fills_ofKind
    {i j : Nat}
    {param : Param Expr}
    (hParam : text.Fills i j (.param param))
    (kind : ParamKind) :
    text.Fills i j (.param { param with kind := kind }) := by
  have hHere := hParam.placed.atNode
  refine ⟨hParam.spans, ⟨?_, fun child hChild => ?_⟩⟩
  · refine ⟨hHere.real, hHere.proper, hHere.starts, hHere.ends,
      hHere.covers, ?_⟩
    simp [Node.slots, Node.identSlot, Node.symbolSlot, Node.optionSlot]
  · exact hParam.placed.atChild hChild

theorem row_ofKind
    {low high : Nat}
    {params : List (Param Expr)}
    (hParams : text.Row low high (params.map .param))
    (kind : ParamKind) :
    text.Row low high
      ((params.map fun param =>
        { param with kind := kind }).map .param) := by
  refine ⟨?_, ?_⟩
  · intro node hMem
    rw [List.map_map] at hMem
    obtain ⟨param, hParam, rfl⟩ := List.mem_map.mp hMem
    obtain ⟨i, j, hLow, hHigh, hFills⟩ :=
      hParams.between _ (List.mem_map_of_mem hParam)
    exact ⟨i, j, hLow, hHigh, fills_ofKind hFills kind⟩
  · rw [List.map_map]
    have hOrdered := List.pairwise_map.mp hParams.ordered
    exact hOrdered.map _ fun _ _ hPrecedes => hPrecedes

/- The parameters that have been read are in a row. -/
def ParamsTo
    (text : OrderedTokens)
    (low : Nat)
    (state : ParamState)
    (index : Nat) : Prop :=
  text.Row low index (state.params.map .param)

variable {low start : Nat}
variable {state : ParamState}

theorem takes_annotationSkipped
    (hGrammar : grammar.Placed text)
    (annotated : Bool) :
    Takes text start (grammar.skipAnnotation annotated)
      fun _ _ => True := by
  refine .ite (fun _ => ?_) fun _ => .pure trivial
  refine (takes_eat rfl).bind fun _ index _ _ =>
    .ite (fun _ => ?_) fun _ => .pure trivial
  exact (hGrammar.expression index).discard.mono fun _ _ _ _ => trivial

theorem ParamsTo.push
    {here later index : Nat}
    (hState : ParamsTo text low state here)
    (hLow : low ≤ here)
    (hLater : here ≤ later)
    {param : Param Expr}
    (hParam : text.Between later index (.param param))
    (hOrder : later ≤ index) :
    text.Row low index ((state.params ++ [param]).map .param) := by
  rw [List.map_append]
  exact hState.append (.single (hParam.mono hLater le_rfl)) hLow
    (hLater.trans hOrder)

theorem takes_slashParam
    (hState : ParamsTo text low state start)
    (hSlash : (text.token start).kind.isLayout = false) :
    Takes text start (slashParam state) (ParamsTo text low) := by
  refine (takes_advance (TokenKind.ne_endOfFile_of_solid hSlash)).bind ?_
  rintro _ _ _ ⟨rfl, rfl⟩
  refine .ite (fun _ => takes_refuseAt _ _ _) fun _ => .pure ?_
  exact (row_ofKind hState .positionalOnly).mono le_rfl
    (Nat.le_succ start)

/- A star or two and a name. -/
theorem between_starred
    {later index : Nat}
    (hStar : (text.token start).kind.isLayout = false)
    {name : Ident}
    (hName : text.Spans later later name.span)
    (hOrder : start < later)
    (hIndex : later < index)
    (kind : ParamKind) :
    text.Between start index
      (.param ⟨name, kind, none, (text.token start).span.merge name.span⟩) := by
  have hInside := hName.inside
  have hSpan :=
    (OrderedTokens.Spans.single (by omega) hStar).merge hName
      (by omega) (by omega)
  exact OrderedTokens.between_of_slots hSpan le_rfl hIndex
    (.cons trivial (.cons trivial (.cons OrderedTokens.holds_none .nil)))

theorem takes_varKeywordParam
    (hGrammar : grammar.Placed text)
    (closing : Mark)
    (annotated : Bool)
    (hLow : low ≤ start)
    (hState : ParamsTo text low state start)
    (hStar : (text.token start).kind.isLayout = false) :
    Takes text start (grammar.varKeywordParam closing annotated state)
      (ParamsTo text low) := by
  refine (takes_advance (TokenKind.ne_endOfFile_of_solid hStar)).bind ?_
  rintro _ _ _ ⟨rfl, rfl⟩
  refine takes_expectName.bind ?_
  rintro name _ _ ⟨rfl, hName⟩
  refine (takes_annotationSkipped hGrammar annotated).bind
    fun _ later hLater _ => ?_
  refine (takes_eat rfl).discard.bind fun _ comma hComma _ => ?_
  refine (takes_check _).bind ?_
  rintro _ _ _ ⟨rfl, rfl⟩
  refine .ite (fun _ => .pure ?_) fun _ => takes_refuse _ _
  exact hState.push hLow le_rfl
    (between_starred hStar hName (by omega) (by omega) _) (by omega)

theorem takes_starParam
    (hGrammar : grammar.Placed text)
    (closing : Mark)
    (annotated : Bool)
    (hLow : low ≤ start)
    (hState : ParamsTo text low state start)
    (hStar : (text.token start).kind.isLayout = false) :
    Takes text start (grammar.starParam closing annotated state)
      (ParamsTo text low) := by
  refine (takes_advance (TokenKind.ne_endOfFile_of_solid hStar)).bind ?_
  rintro _ _ _ ⟨rfl, rfl⟩
  refine .ite (fun _ => takes_refuseAt _ _ _) fun _ => ?_
  refine takes_peek.bind ?_
  rintro _ _ _ ⟨rfl, rfl⟩
  split
  · refine takes_expectName.bind ?_
    rintro name _ _ ⟨rfl, hName⟩
    refine (takes_annotationSkipped hGrammar annotated).bind
      fun _ later hLater _ => .pure ?_
    exact hState.push hLow le_rfl
      (between_starred hStar hName (by omega) (by omega) _) (by omega)
  · refine .ite (fun _ => takes_refuseAt _ _ _) fun _ => .pure ?_
    exact hState.mono le_rfl (by omega)

/- A name, perhaps with a default after it. -/
theorem between_named
    {later index : Nat}
    {name : Ident}
    (hName : text.Spans start start name.span)
    {default : Option Expr}
    (hOrder : start < later)
    (hLater : later ≤ index)
    (hDefault :
      ∀ value, default = some value → text.Stands later index value)
    (kind : ParamKind) :
    text.Between start index
      (.param ⟨name, kind, default,
        (default.map fun value => name.span.merge value.span).getD
          name.span⟩) := by
  cases default with
  | none =>
      exact OrderedTokens.between_of_slots hName le_rfl (by omega)
        (.cons trivial (.cons trivial (.cons OrderedTokens.holds_none .nil)))
  | some value =>
      obtain ⟨i, j, hLow, hHigh, hFills⟩ := (hDefault value rfl).between
      have hOrder := hFills.spans.order
      have hSpan := hName.merge hFills.spans (by omega) (by omega)
      refine OrderedTokens.between_of_slots hSpan le_rfl hHigh
        (.cons trivial (.cons trivial (.cons ?_ .nil)))
      rintro _ ⟨⟩
      exact hFills.between.mono (by omega) le_rfl

theorem takes_namedParam
    (hGrammar : grammar.Placed text)
    (annotated : Bool)
    (hLow : low ≤ start)
    (hState : ParamsTo text low state start) :
    Takes text start (grammar.namedParam annotated state)
      (ParamsTo text low) := by
  refine takes_expectName.bind ?_
  rintro name _ _ ⟨rfl, hName⟩
  refine (takes_annotationSkipped hGrammar annotated).bind
    fun _ later hLater _ => ?_
  refine (takes_eat rfl).bind fun _ here hHere _ => ?_
  have hAssigned :
      Takes text here (some <$> grammar.expression)
        fun default index =>
          ∀ value, default = some value →
            text.Stands here index value := by
    refine .map ((hGrammar.expression here).mono
      fun value index _ hValue => ?_)
    rintro _ ⟨⟩
    exact hValue
  refine .iteBind (fun _ => hAssigned) (fun _ => .pure nofun)
    fun default index hIndex hDefault =>
      .ite (fun _ => takes_refuseAt _ _ _) fun _ => .pure ?_
  exact hState.push hLow le_rfl
    (between_named hName (by omega) hIndex hDefault _) (by omega)

/- Parameters are in a row. -/
theorem takes_params
    (hGrammar : grammar.Placed text)
    (closing : Mark)
    (annotated : Bool) :
    Takes text start (grammar.params closing annotated)
      fun params index => text.Row start index (params.map .param) := by
  have hStep {here : Nat} {step : Parser ParamState}
      (hNext : Takes text here step (ParamsTo text start)) :
      Takes text here
        (do
          let next ← step
          if ← eat (.mark .comma) then return Step.again next
          return Step.done next)
        (RoundTakes (ParamsTo text start) (ParamsTo text start)) := by
    refine hNext.bind fun next later _ hParams => ?_
    refine (takes_eat rfl).bind fun _ comma hComma _ => ?_
    have hMore : ParamsTo text start next comma :=
      OrderedTokens.Row.mono hParams le_rfl hComma
    exact .ite (fun _ => .pure hMore) fun _ => .pure hMore
  have hStart : ParamsTo text start {} start := .nil
  refine (takes_loop (ParamsTo text start) (ParamsTo text start) hStart
    fun state here hLow hState => ?_).bind fun state index _ hState => ?_
  · refine takes_peek.bind ?_
    rintro _ _ _ ⟨rfl, rfl⟩
    split
    · rename_i hStars
      have hSolid := congrArg TokenKind.isLayout hStars
      exact (takes_varKeywordParam hGrammar closing annotated hLow hState
        hSolid).bind fun next _ _ hParams => .pure hParams
    · refine .ite (fun _ => .pure hState) fun _ => ?_
      dsimp only
      split
      · rename_i hSlash
        exact hStep (takes_slashParam hState
          (congrArg TokenKind.isLayout hSlash))
      · rename_i hStar
        exact hStep (takes_starParam hGrammar closing annotated hLow
          hState (congrArg TokenKind.isLayout hStar))
      · exact hStep (takes_namedParam hGrammar annotated hLow hState)
  · split
    · exact .pure hState
    · exact takes_refuseAt _ _ _

------------------------------------------------------------
-- Arguments and Subscripts
------------------------------------------------------------

/- The arguments that have been read are in rows. -/
structure ArgumentsTo
    (text : OrderedTokens)
    (low : Nat)
    (given : Arguments)
    (index : Nat) : Prop where
  args : text.Row low index (given.args.map .expr)
  keywords : text.Row low index (given.keywords.map .keyword)

variable {given : Arguments}

theorem ArgumentsTo.mono
    {index : Nat}
    (hGiven : ArgumentsTo text low given start)
    (hLater : start ≤ index) :
    ArgumentsTo text low given index :=
  ⟨hGiven.args.mono le_rfl hLater, hGiven.keywords.mono le_rfl hLater⟩

/- A keyword argument from its first token to its value. -/
theorem between_keyword
    {later index : Nat}
    (hSolid : (text.token start).kind.isLayout = false)
    {value : Expr}
    (hValue : text.Stands later index value)
    (hOrder : start < later)
    (name : Option Ident) :
    text.Between start index
      (.keyword ⟨name, value,
        (text.token start).span.merge value.span⟩) := by
  obtain ⟨i, j, hLow, hHigh, hFills⟩ := hValue.between
  exact OrderedTokens.between_opened rfl hSolid hFills (by omega) hHigh
    (.cons trivial
      (.cons (hFills.between.mono (by omega) le_rfl) .nil))

theorem ArgumentsTo.pushKeyword
    {index : Nat}
    (hGiven : ArgumentsTo text low given start)
    (hLow : low ≤ start)
    (hLater : start ≤ index)
    {keyword : KeywordArg Expr}
    (hKeyword : text.Between start index (.keyword keyword)) :
    ArgumentsTo text low
      { given with keywords := given.keywords ++ [keyword] } index := by
  refine ⟨hGiven.args.mono le_rfl hLater, ?_⟩
  rw [List.map_append]
  exact hGiven.keywords.append (.single hKeyword) hLow hLater

theorem takes_unpackedArgument
    (hGrammar : grammar.Placed text)
    (hLow : low ≤ start)
    (hGiven : ArgumentsTo text low given start)
    (hStars : (text.token start).kind.isLayout = false) :
    Takes text start (grammar.unpackedArgument given)
      (ArgumentsTo text low) := by
  refine (takes_advance (TokenKind.ne_endOfFile_of_solid hStars)).bind ?_
  rintro _ _ _ ⟨rfl, rfl⟩
  refine (hGrammar.expression _).bind fun value index hIndex hValue =>
    .pure ?_
  exact hGiven.pushKeyword hLow (by omega)
    (between_keyword hStars hValue (Nat.lt_succ_self start) none)

theorem takes_keywordArgument
    (hGrammar : grammar.Placed text)
    (id : String)
    (hLow : low ≤ start)
    (hGiven : ArgumentsTo text low given start)
    (hName : (text.token start).kind.isLayout = false)
    (hAssign : (text.token (start + 1)).kind.isLayout = false) :
    Takes text start (grammar.keywordArgument id given)
      (ArgumentsTo text low) := by
  refine (takes_advance (TokenKind.ne_endOfFile_of_solid hName)).bind ?_
  rintro _ _ _ ⟨rfl, rfl⟩
  refine (takes_advance
    (TokenKind.ne_endOfFile_of_solid hAssign)).discard.bind ?_
  rintro _ _ _ ⟨_, rfl, _⟩
  refine (hGrammar.expression _).bind fun value index hIndex hValue => ?_
  have hKeyword :=
    between_keyword hName hValue (by omega)
      (some ⟨id, (text.token start).span⟩)
  have hMore := hGiven.pushKeyword hLow (by omega) hKeyword
  refine .ite (fun _ => ?_) fun _ => .pure hMore
  refine (takes_reportSubject _ _ _ _).bind ?_
  rintro _ _ _ rfl
  exact .pure hMore

theorem takes_positionalArgument
    (hGrammar : grammar.Placed text)
    (hLow : low ≤ start)
    (hGiven : ArgumentsTo text low given start) :
    Takes text start (grammar.positionalArgument given)
      (ArgumentsTo text low) := by
  refine (takes_rowItem (takes_item hGrammar) hLow hGiven.args).bind
    fun value index hIndex hArgs => ?_
  have hMore :
      ArgumentsTo text low
        { given with args := given.args ++ [value] } index :=
    ⟨hArgs, hGiven.keywords.mono le_rfl hIndex⟩
  refine .ite (fun _ => ?_) fun _ => .pure hMore
  refine (takes_reportAt _ _ _).bind ?_
  rintro _ _ _ rfl
  exact .pure hMore

theorem takes_arguments
    (hGrammar : grammar.Placed text)
    (openedAt : Span) :
    Takes text start (grammar.arguments openedAt)
      fun given index =>
        start < index ∧ ArgumentsTo text start given index := by
  have hStep {here : Nat} {step : Parser Arguments}
      (hNext : Takes text here step (ArgumentsTo text start)) :
      Takes text here
        (do
          let next ← step
          if ← eat (.mark .comma) then return Step.again next
          return Step.done next)
        (RoundTakes (ArgumentsTo text start)
          (ArgumentsTo text start)) := by
    refine hNext.bind fun next later _ hGiven => ?_
    refine (takes_eat rfl).bind fun _ comma hComma _ => ?_
    have hMore := hGiven.mono hComma
    exact .ite (fun _ => .pure hMore) fun _ => .pure hMore
  have hStart : ArgumentsTo text start {} start := ⟨.nil, .nil⟩
  refine (takes_loop (ArgumentsTo text start) (ArgumentsTo text start)
    hStart fun given here hLow hGiven => ?_).bind
    fun given index hIndex hGiven => ?_
  · refine takes_peek.bind ?_
    rintro _ _ _ ⟨rfl, rfl⟩
    refine .ite (fun _ => .pure hGiven) fun _ => ?_
    refine (takes_peekAhead 1).bind ?_
    rintro _ _ _ ⟨rfl, rfl⟩
    dsimp only
    split
    · rename_i hStars
      exact hStep (takes_unpackedArgument hGrammar hLow hGiven
        (congrArg TokenKind.isLayout hStars))
    · rename_i hName hAssign
      exact hStep (takes_keywordArgument hGrammar _ hLow hGiven
        (congrArg TokenKind.isLayout hName)
        (congrArg TokenKind.isLayout hAssign))
    · exact hStep (takes_positionalArgument hGrammar hLow hGiven)
  · refine (takes_expectClosing _ _).discard.bind ?_
    rintro _ _ _ ⟨_, rfl, _⟩
    exact .pure ⟨by omega, hGiven.mono (Nat.le_succ _)⟩

/- A bound of a slice, if it is there. -/
theorem takes_sliceBound
    (hGrammar : grammar.Placed text) :
    Takes text start grammar.sliceBound fun bound index =>
      ∀ expr, bound = some expr → text.Stands start index expr := by
  refine takes_peek.bind ?_
  rintro _ _ _ ⟨rfl, rfl⟩
  split
  · exact .pure nofun
  · exact .pure nofun
  · exact .pure nofun
  · refine .map ((hGrammar.expression _).mono fun value _ _ hValue => ?_)
    rintro _ ⟨⟩
    exact hValue

theorem holds_optionSlot
    {high : Nat}
    {optional : Option Expr}
    (hOptional :
      ∀ expr, optional = some expr →
        text.Between low high (.expr expr)) :
    text.Holds low high (Node.optionSlot optional) := by
  intro node hMem
  obtain ⟨expr, hExpr, rfl⟩ := Option.map_eq_some_iff.mp hMem
  exact hOptional expr hExpr

theorem takes_sliceRest
    (hGrammar : grammar.Placed text)
    {here : Nat}
    (hLow : start ≤ here)
    (hSolid : (text.token start).kind.isLayout = false)
    {lower : Option Expr}
    (hLower :
      ∀ expr, lower = some expr →
        text.Between start here (.expr expr)) :
    Takes text here (grammar.sliceRest (text.token start).span lower)
      fun expr index => text.Stands start index expr := by
  refine (takes_expect rfl).discard.bind ?_
  rintro _ _ _ ⟨_, rfl, _⟩
  refine (takes_sliceBound hGrammar).bind fun upper middle hMiddle hUpper => ?_
  refine (takes_eat rfl).bind fun _ colon hColon _ => ?_
  refine .iteBind (fun _ => takes_sliceBound hGrammar)
    (fun _ => .pure nofun) fun step index hIndex hStep => ?_
  refine (takes_previousSpan (by omega)).bind ?_
  rintro _ _ _ ⟨rfl, hInside, rfl⟩
  refine .pure (OrderedTokens.stands_enclosed hSolid (by omega) hInside ?_)
  refine .cons (holds_optionSlot fun expr hExpr => ?_)
    (.cons (holds_optionSlot fun expr hExpr => ?_)
      (.cons (holds_optionSlot fun expr hExpr => ?_) .nil))
  · exact (hLower expr hExpr).mono le_rfl (by omega)
  · exact (hUpper expr hExpr).between.mono (by omega) (by omega)
  · exact (hStep expr hExpr).between.mono (by omega) le_rfl

theorem takes_subscriptItem
    (hGrammar : grammar.Placed text) :
    TakesExpr text grammar.subscriptItem := by
  intro start
  refine takes_currentSpan.bind ?_
  rintro _ _ _ ⟨rfl, rfl⟩
  refine (takes_check _).bind ?_
  rintro _ here _ ⟨rfl, rfl⟩
  refine .ite (fun hColon => ?_) fun _ => ?_
  · exact takes_sliceRest hGrammar le_rfl
      (TokenKind.isLayout_of_beq hColon) nofun
  refine (hGrammar.expression here).bind fun value index hIndex hValue => ?_
  refine (takes_check _).bind ?_
  rintro _ _ _ ⟨rfl, rfl⟩
  refine .ite (fun hColon => ?_) fun _ => .pure hValue
  refine takes_sliceRest hGrammar hIndex hValue.solid ?_
  rintro _ ⟨⟩
  exact hValue.between

theorem takes_subscriptIndex
    (hGrammar : grammar.Placed text) :
    TakesExpr text grammar.subscriptIndex := fun start =>
  have hItem := takes_subscriptItem hGrammar
  (hItem start).bind fun _ _ _ hFirst => takes_orTuple hItem _ hFirst

------------------------------------------------------------
-- Atoms
------------------------------------------------------------

/- A form without inner nodes spans one token. -/
theorem takes_literal
    {form : ExprForm Expr}
    (hSolid : (text.token start).kind.isLayout = false)
    (hLeaf : ∀ low high, text.HoldsAll low high (Node.exprSlots form)) :
    Takes text start (literal form) fun expr index =>
      text.Stands start index expr := by
  refine .inside fun hInside => ?_
  refine (takes_advance (TokenKind.ne_endOfFile_of_solid hSolid)).bind ?_
  rintro _ _ _ ⟨rfl, rfl⟩
  exact .pure (OrderedTokens.stands_single hSolid hInside (hLeaf _ _))

/- At least one string is read where one comes next. -/
theorem takes_strings
    {part : String}
    (hString : (text.token start).kind = .str part) :
    Takes text start strings fun expr index =>
      text.Stands start index expr := by
  have hSolid := congrArg TokenKind.isLayout hString
  refine takes_currentSpan.bind ?_
  rintro _ first _ ⟨rfl, rfl⟩
  refine (takes_loop (fun _ _ => True) (fun _ index => first < index)
    trivial fun written here hLater _ => ?_).bind
    fun written index _ hIndex => ?_
  · refine takes_peek.bind ?_
    rintro _ _ _ ⟨rfl, rfl⟩
    split
    · rename_i hMore
      refine (takes_advance (TokenKind.ne_endOfFile_of_solid
        (congrArg TokenKind.isLayout hMore))).discard.bind ?_
      rintro _ _ _ ⟨_, rfl, _⟩
      exact .pure trivial
    · rename_i hOther
      refine .pure (lt_of_le_of_ne hLater ?_)
      rintro rfl
      exact hOther part hString
  · refine (takes_previousSpan (by omega)).bind ?_
    rintro _ _ _ ⟨rfl, hInside, rfl⟩
    exact .pure (OrderedTokens.stands_enclosed hSolid hIndex hInside
      (.cons trivial .nil))

theorem takes_parenthesized
    (hGrammar : grammar.Placed text)
    (hOpen : (text.token start).kind.isLayout = false) :
    Takes text start grammar.parenthesized fun expr index =>
      text.Stands start index expr := by
  have hItem := takes_item hGrammar
  refine (takes_advance (TokenKind.ne_endOfFile_of_solid hOpen)).bind ?_
  rintro _ _ _ ⟨rfl, rfl⟩
  refine (takes_check _).bind ?_
  rintro _ _ _ ⟨rfl, rfl⟩
  refine .inside fun hInside => .ite (fun hClose => ?_) fun _ => ?_
  · refine (takes_advance (TokenKind.ne_endOfFile_of_beq hClose rfl)).bind ?_
    rintro _ _ _ ⟨rfl, rfl⟩
    exact .pure (OrderedTokens.stands_enclosed hOpen (by omega) hInside
      (.cons .nil .nil))
  refine (hItem _).bind fun first middle hMiddle hFirst => ?_
  refine takes_refuseComprehension.bind ?_
  rintro _ _ _ rfl
  refine (takes_eat rfl).bind fun _ here hHere _ => ?_
  refine .ite (fun _ => .pure ?_) fun _ => ?_
  · exact ⟨hOpen, hFirst.between.mono (Nat.le_succ start) hHere⟩
  have hRow : text.Row start here ([first].map .expr) :=
    .single (hFirst.between.mono (Nat.le_succ start) hHere)
  refine (takes_rowItems hItem _ (by omega) hRow).bind
    fun items index hIndex hItems => ?_
  refine .inside fun hInside => (takes_expectClosing _ _).bind ?_
  rintro _ _ _ ⟨rfl, rfl⟩
  exact .pure (OrderedTokens.stands_enclosed hOpen (by omega) hInside
    (.cons (hItems.mono le_rfl (Nat.le_succ index)) .nil))

theorem takes_listDisplay
    (hGrammar : grammar.Placed text)
    (hOpen : (text.token start).kind.isLayout = false) :
    Takes text start grammar.listDisplay fun expr index =>
      text.Stands start index expr := by
  have hItem :
      TakesExpr text do
        let item ← grammar.item
        refuseComprehension
        return item := by
    intro start
    refine (takes_item hGrammar start).bind fun item _ _ hItem => ?_
    refine takes_refuseComprehension.bind ?_
    rintro _ _ _ rfl
    exact .pure hItem
  refine (takes_advance (TokenKind.ne_endOfFile_of_solid hOpen)).bind ?_
  rintro _ _ _ ⟨rfl, rfl⟩
  refine (takes_itemsUntil
    (fun items index => text.Row (start + 1) index (items.map .expr))
    .nil (fun _ _ _ hLater hItems => hItems.mono le_rfl hLater)
    fun _ _ hHere hItems => takes_rowItem hItem hHere hItems).bind
    fun items index hIndex hItems => ?_
  refine .inside fun hInside => (takes_expectClosing _ _).bind ?_
  rintro _ _ _ ⟨rfl, rfl⟩
  exact .pure (OrderedTokens.stands_enclosed hOpen (by omega) hInside
    (.cons (hItems.mono (Nat.le_succ start) (Nat.le_succ index)) .nil))

/- The keys of entries are in a row, and so are the values. -/
structure EntriesTo
    (text : OrderedTokens)
    (low : Nat)
    (entries : List (Expr × Expr))
    (index : Nat) : Prop where
  keys : text.Row low index ((entries.map (·.1)).map .expr)
  values : text.Row low index ((entries.map (·.2)).map .expr)

theorem EntriesTo.mono
    {entries : List (Expr × Expr)}
    {index : Nat}
    (hEntries : EntriesTo text low entries start)
    (hLater : start ≤ index) :
    EntriesTo text low entries index :=
  ⟨hEntries.keys.mono le_rfl hLater, hEntries.values.mono le_rfl hLater⟩

theorem EntriesTo.push
    {entries : List (Expr × Expr)}
    {middle after index : Nat}
    (hEntries : EntriesTo text low entries start)
    (hLow : low ≤ start)
    {key value : Expr}
    (hKey : text.Stands start middle key)
    (hValue : text.Stands after index value)
    (hMiddle : start ≤ middle)
    (hAfter : middle ≤ after)
    (hIndex : after ≤ index) :
    EntriesTo text low (entries ++ [(key, value)]) index := by
  refine ⟨?_, ?_⟩
  · rw [List.map_append, List.map_append]
    exact hEntries.keys.append
      (.single (hKey.between.mono le_rfl (by omega))) hLow (by omega)
  · rw [List.map_append, List.map_append]
    exact hEntries.values.append
      (.single (hValue.between.mono (by omega) le_rfl)) hLow (by omega)

theorem takes_dictEntry
    (hGrammar : grammar.Placed text)
    {entries : List (Expr × Expr)}
    (hLow : low ≤ start)
    (hEntries : EntriesTo text low entries start) :
    Takes text start grammar.dictEntry fun entry index =>
      EntriesTo text low (entries ++ [entry]) index := by
  refine (hGrammar.expression start).bind fun key middle hMiddle hKey => ?_
  refine (takes_expect rfl).discard.bind ?_
  rintro _ _ _ ⟨_, rfl, _⟩
  refine (hGrammar.expression _).bind fun value index hIndex hValue =>
    .pure ?_
  exact hEntries.push hLow hKey hValue hMiddle (Nat.le_succ middle) hIndex

theorem takes_braceDisplay
    (hGrammar : grammar.Placed text)
    (hOpen : (text.token start).kind.isLayout = false) :
    Takes text start grammar.braceDisplay fun expr index =>
      text.Stands start index expr := by
  have hItem := takes_item hGrammar
  refine (takes_advance (TokenKind.ne_endOfFile_of_solid hOpen)).bind ?_
  rintro _ _ _ ⟨rfl, rfl⟩
  refine (takes_check _).bind ?_
  rintro _ _ _ ⟨rfl, rfl⟩
  refine .inside fun hInside => .ite (fun hClose => ?_) fun _ => ?_
  · refine (takes_advance (TokenKind.ne_endOfFile_of_beq hClose rfl)).bind ?_
    rintro _ _ _ ⟨rfl, rfl⟩
    exact .pure (OrderedTokens.stands_enclosed hOpen (by omega) hInside
      (.cons .nil (.cons .nil .nil)))
  refine (hItem _).bind fun first middle hMiddle hFirst => ?_
  refine takes_refuseComprehension.bind ?_
  rintro _ _ _ rfl
  refine (takes_eat rfl).bind fun _ here hHere _ => ?_
  have hClosed {form : ExprForm Expr} {index : Nat}
      (hIndex : here ≤ index)
      (hSlots : ∀ high, index ≤ high →
        text.HoldsAll start high (Node.exprSlots form)) :
      Takes text index
        (do
          let closing ← expectClosing .closeBrace (text.token start).span
          return Expr.mk
            ((text.token start).span.merge closing.span) form)
        fun expr index => text.Stands start index expr := by
    refine .inside fun hInside => (takes_expectClosing _ _).bind ?_
    rintro _ _ _ ⟨rfl, rfl⟩
    exact .pure (OrderedTokens.stands_enclosed hOpen (by omega) hInside
      (hSlots _ (Nat.le_succ index)))
  refine .ite (fun _ => ?_) fun _ => ?_
  · refine (hGrammar.expression _).bind fun value after hAfter hValue => ?_
    refine takes_refuseComprehension.bind ?_
    rintro _ after _ rfl
    have hNone : EntriesTo text (start + 1) [] (start + 1) := ⟨.nil, .nil⟩
    have hEntry :=
      hNone.push le_rfl hFirst hValue hMiddle hHere hAfter
    refine Takes.bind (.map ((takes_moreItems
      (EntriesTo text (start + 1)) hEntry (fun _ _ _ hLater hOld =>
        hOld.mono hLater) fun _ _ hLater hOld =>
          takes_dictEntry hGrammar (by omega) hOld).mono
      fun entries index _ hEntries high hHigh => ?_))
      fun form index hIndex hForm => hClosed (by omega) hForm
    have hAll := hEntries.mono hHigh
    exact .cons (hAll.keys.mono (Nat.le_succ start) le_rfl)
      (.cons (hAll.values.mono (Nat.le_succ start) le_rfl) .nil)
  · have hRow : text.Row start here ([first].map .expr) :=
      .single (hFirst.between.mono (Nat.le_succ start) hHere)
    refine Takes.bind (.map ((takes_rowItems hItem _ (by omega) hRow).mono
      fun items index _ hItems high hHigh => ?_))
      fun form index hIndex hForm => hClosed hIndex hForm
    exact .cons (hItems.mono le_rfl hHigh) .nil

theorem takes_atom
    (hGrammar : grammar.Placed text) :
    TakesExpr text grammar.atom := by
  intro start
  refine takes_peek.bind ?_
  rintro _ _ _ ⟨rfl, rfl⟩
  split
  case h_7 hString => exact takes_strings hString
  case h_8 hOpen =>
      exact takes_parenthesized hGrammar (congrArg TokenKind.isLayout hOpen)
  case h_9 hOpen =>
      exact takes_listDisplay hGrammar (congrArg TokenKind.isLayout hOpen)
  case h_10 hOpen =>
      exact takes_braceDisplay hGrammar (congrArg TokenKind.isLayout hOpen)
  case h_11 => exact takes_refuse _ _
  case h_12 => exact takes_refuse _ _
  all_goals
    rename_i hKind
    exact takes_literal (congrArg TokenKind.isLayout hKind)
      fun _ _ => .cons trivial .nil

/- An atom and what follows it. -/
theorem takes_primary
    (hGrammar : grammar.Placed text) :
    TakesExpr text grammar.primary := by
  intro start
  refine (takes_atom hGrammar start).bind fun first here hHere hFirst => ?_
  refine takes_loop
    (fun object index => text.Stands start index object)
    (fun object index => text.Stands start index object)
    hFirst fun object middle hMiddle hObject => ?_
  refine takes_peek.bind ?_
  rintro _ middle _ ⟨rfl, rfl⟩
  obtain ⟨hSolid, i, j, hLow, hHigh, hFills⟩ := id hObject
  have hOrder := hFills.spans.order
  split
  · rename_i hOpen
    refine (takes_advance (TokenKind.ne_endOfFile_of_solid
      (congrArg TokenKind.isLayout hOpen))).bind ?_
    rintro _ _ _ ⟨rfl, rfl⟩
    refine (takes_arguments hGrammar _).bind
      fun given index hIndex hGiven => ?_
    refine (takes_previousSpan (by omega)).bind ?_
    rintro _ _ _ ⟨rfl, hInside, rfl⟩
    exact .pure (OrderedTokens.stands_mergeToken hSolid hFills hLow
      (by omega) hInside
      (.cons (hFills.between.mono le_rfl (by omega))
        (.cons (hGiven.2.args.mono (by omega) le_rfl)
          (.cons (hGiven.2.keywords.mono (by omega) le_rfl) .nil))))
  · rename_i hOpen
    refine (takes_advance (TokenKind.ne_endOfFile_of_solid
      (congrArg TokenKind.isLayout hOpen))).bind ?_
    rintro _ _ _ ⟨rfl, rfl⟩
    refine (takes_subscriptIndex hGrammar _).bind
      fun subscript index hIndex hSubscript => ?_
    refine (takes_expectClosing _ _).discard.bind ?_
    rintro _ _ _ ⟨_, rfl, _⟩
    refine (takes_previousSpan (by omega)).bind ?_
    rintro _ _ _ ⟨rfl, hInside, rfl⟩
    exact .pure (OrderedTokens.stands_mergeToken hSolid hFills hLow
      (by omega) hInside
      (.cons (hFills.between.mono le_rfl (by omega))
        (.cons (hSubscript.between.mono (by omega) (by omega)) .nil)))
  · rename_i hDot
    refine (takes_advance (TokenKind.ne_endOfFile_of_solid
      (congrArg TokenKind.isLayout hDot))).discard.bind ?_
    rintro _ _ _ ⟨_, rfl, _⟩
    refine takes_expectName.bind ?_
    rintro attr _ _ ⟨rfl, hAttr⟩
    have hSpan := hFills.spans.merge hAttr (by omega) (by omega)
    refine .pure ⟨hSolid, OrderedTokens.between_of_slots hSpan hLow
      (by omega) (.cons ?_ (.cons trivial .nil))⟩
    exact hFills.between.mono le_rfl (by omega)
  · exact .pure hObject

------------------------------------------------------------
-- Operators
------------------------------------------------------------

/- An operation on two operands. -/
theorem stands_binary
    {middle after index : Nat}
    {left right : Expr}
    (hLeft : text.Stands start middle left)
    (hRight : text.Stands after index right)
    (hOrder : middle ≤ after)
    (op : BinaryOp) :
    text.Stands start index
      (.mk (left.span.merge right.span) (.binary left op right)) := by
  obtain ⟨hSolid, i, j, hLow, hMiddle, hFirst⟩ := hLeft
  obtain ⟨k, l, hAfter, hHigh, hLast⟩ := hRight.between
  have hFirstOrder := hFirst.spans.order
  have hLastOrder := hLast.spans.order
  exact OrderedTokens.stands_merge hSolid hFirst hLast hLow (by omega)
    hHigh
    (.cons (hFirst.between.mono le_rfl (by omega))
      (.cons trivial
        (.cons (hLast.between.mono (by omega) le_rfl) .nil)))

/- An operation on one operand. -/
theorem stands_unary
    {after index : Nat}
    {operand : Expr}
    (hSolid : (text.token start).kind.isLayout = false)
    (hOperand : text.Stands after index operand)
    (hOrder : start < after)
    (op : UnaryOp) :
    text.Stands start index
      (.mk ((text.token start).span.merge operand.span)
        (.unary op operand)) := by
  obtain ⟨k, l, hAfter, hHigh, hLast⟩ := hOperand.between
  have hLastOrder := hLast.spans.order
  exact OrderedTokens.stands_opened hSolid hLast (by omega) hHigh
    (.cons trivial
      (.cons (hLast.between.mono (by omega) le_rfl) .nil))

theorem takes_power
    (hGrammar : grammar.Placed text) :
    TakesExpr text grammar.power := by
  intro start
  refine (takes_primary hGrammar start).bind fun base middle _ hBase => ?_
  refine (takes_eat rfl).bind fun _ after hAfter _ => ?_
  refine .ite (fun _ => ?_) fun _ => .pure (hBase.mono hAfter)
  exact (takes_nested (hGrammar.factor after)).bind
    fun exponent _ _ hExponent =>
      .pure (stands_binary hBase hExponent hAfter .pow)

theorem solid_of_signOp?
    {kind : TokenKind}
    {op : UnaryOp}
    (hOp : signOp? kind = some op) :
    kind.isLayout = false := by
  cases kind <;> first | rfl | cases hOp

theorem takes_signed
    (hGrammar : grammar.Placed text) :
    TakesExpr text grammar.signed := by
  intro start
  refine takes_peek.bind ?_
  rintro _ here _ ⟨rfl, rfl⟩
  split
  · exact takes_power hGrammar here
  · rename_i op hOp
    have hSolid := solid_of_signOp? hOp
    refine (takes_advance (TokenKind.ne_endOfFile_of_solid hSolid)).bind ?_
    rintro _ _ _ ⟨rfl, rfl⟩
    exact (takes_nested (hGrammar.factor _)).bind
      fun operand _ _ hOperand =>
        .pure (stands_unary hSolid hOperand (Nat.lt_succ_self here) op)

theorem takes_binaryLevel
    {operand : Parser Expr}
    (hOperand : TakesExpr text operand)
    {opFor : TokenKind → Option BinaryOp}
    (hEnd : opFor .endOfFile = none) :
    TakesExpr text (binaryLevel operand opFor) := by
  intro start
  refine (hOperand start).bind fun first here _ hFirst => ?_
  refine takes_loop
    (fun left index => text.Stands start index left)
    (fun left index => text.Stands start index left)
    hFirst fun left middle _ hLeft => ?_
  refine takes_peek.bind ?_
  rintro _ middle _ ⟨rfl, rfl⟩
  split
  · exact .pure hLeft
  · rename_i op hOp
    have hMore : (text.token middle).kind ≠ .endOfFile := by
      intro hLast
      rw [hLast, hEnd] at hOp
      cases hOp
    refine (takes_advance hMore).discard.bind ?_
    rintro _ _ _ ⟨_, rfl, _⟩
    exact (hOperand _).bind fun right _ _ hRight =>
      .pure (stands_binary hLeft hRight (Nat.le_succ middle) op)

theorem takes_binary
    (hGrammar : grammar.Placed text) :
    TakesExpr text grammar.binary := by
  have hTower (levels : List (TokenKind → Option BinaryOp))
      (hEnd : ∀ level ∈ levels, level .endOfFile = none)
      {operand : Parser Expr}
      (hOperand : TakesExpr text operand) :
      TakesExpr text (levels.foldl binaryLevel operand) := by
    induction levels generalizing operand with
    | nil => exact hOperand
    | cons level levels ih =>
        rw [List.forall_mem_cons] at hEnd
        exact ih hEnd.2 (takes_binaryLevel hOperand hEnd.1)
  exact hTower binaryLevels (by simp [binaryLevels])
    (takes_signed hGrammar)

theorem takes_comparisonOp? :
    Takes text start comparisonOp? fun _ _ => True := by
  have hSingle {here : Nat} (op : CompareOp)
      (hFirst : (text.token here).kind.isLayout = false) :
      Takes text here (comparisonOp?.single op) fun _ _ => True := by
    refine (takes_advance
      (TokenKind.ne_endOfFile_of_solid hFirst)).discard.bind ?_
    exact fun _ _ _ _ => .pure trivial
  have hDouble {here : Nat} (op : CompareOp)
      (hFirst : (text.token here).kind.isLayout = false)
      (hSecond : (text.token (here + 1)).kind.isLayout = false) :
      Takes text here (comparisonOp?.double op) fun _ _ => True := by
    refine (takes_advance
      (TokenKind.ne_endOfFile_of_solid hFirst)).discard.bind ?_
    rintro _ _ _ ⟨_, rfl, _⟩
    exact hSingle op hSecond
  refine takes_peek.bind ?_
  rintro _ here _ ⟨rfl, rfl⟩
  refine (takes_peekAhead 1).bind ?_
  rintro _ _ _ ⟨rfl, rfl⟩
  split
  case h_8 hNot hIn =>
      exact hDouble .notMember (congrArg TokenKind.isLayout hNot)
        (congrArg TokenKind.isLayout hIn)
  case h_9 hIs hNot =>
      exact hDouble .notSame (congrArg TokenKind.isLayout hIs)
        (congrArg TokenKind.isLayout hNot)
  case h_10 hIs _ => exact hSingle .same (congrArg TokenKind.isLayout hIs)
  case h_11 => exact .pure trivial
  all_goals
    rename_i hOp
    exact hSingle _ (congrArg TokenKind.isLayout hOp)

theorem takes_comparison
    (hGrammar : grammar.Placed text) :
    TakesExpr text grammar.comparison := by
  have hOperand := takes_binary hGrammar
  intro start
  refine (hOperand start).bind fun left middle hMiddle hLeft => ?_
  let operandsTo := fun (rest : List (CompareOp × Expr)) (index : Nat) =>
    text.Row middle index ((rest.map (·.2)).map .expr)
  have hNone : operandsTo [] middle := .nil
  refine (takes_loop operandsTo operandsTo hNone
    fun rest here hHere hRest => ?_).bind fun rest index hIndex hRest => ?_
  · refine takes_comparisonOp?.bind fun op after hAfter _ => ?_
    split
    · exact .pure (OrderedTokens.Row.mono hRest le_rfl hAfter)
    · refine (hOperand after).bind fun right last hLast hRight => .pure ?_
      have hMore :
          text.Row middle last
            ((rest.map (·.2)).map .expr ++ [.expr right]) :=
        OrderedTokens.Row.append hRest
          (.single (hRight.between.mono hAfter le_rfl)) hHere
          (hAfter.trans hLast)
      simpa [RoundTakes, operandsTo] using hMore
  · refine .ite (fun _ => .pure (hLeft.mono hIndex)) fun _ => ?_
    obtain ⟨hSolid, i, j, hLow, hHigh, hFills⟩ := hLeft
    have hOrder := hFills.spans.order
    refine (takes_previousSpan (by omega)).bind ?_
    rintro _ _ _ ⟨rfl, hInside, rfl⟩
    exact .pure (OrderedTokens.stands_mergeToken hSolid hFills hLow
      (by omega) hInside
      (.cons (hFills.between.mono le_rfl (by omega))
        (.cons trivial
          (.cons (OrderedTokens.Row.mono hRest (by omega) le_rfl)
            .nil))))

theorem takes_negation
    (hGrammar : grammar.Placed text) :
    TakesExpr text grammar.negation := by
  intro start
  refine (takes_check _).bind ?_
  rintro _ here _ ⟨rfl, rfl⟩
  refine .ite (fun hNot => ?_) fun _ => takes_comparison hGrammar here
  have hSolid := TokenKind.isLayout_of_beq hNot
  refine (takes_advance (TokenKind.ne_endOfFile_of_solid hSolid)).bind ?_
  rintro _ _ _ ⟨rfl, rfl⟩
  exact (takes_nested (hGrammar.notTest _)).bind
    fun operand _ _ hOperand =>
      .pure (stands_unary hSolid hOperand (Nat.lt_succ_self here) .not)

theorem takes_booleanLevel
    {operand : Parser Expr}
    (hOperand : TakesExpr text operand)
    (word : Keyword)
    (op : BoolOp) :
    TakesExpr text (booleanLevel word op operand) := by
  intro start
  refine (hOperand start).bind fun first middle _ hFirst => ?_
  refine (takes_check _).bind ?_
  rintro _ middle _ ⟨rfl, rfl⟩
  refine .ite (fun _ => ?_) fun _ => .pure hFirst
  obtain ⟨hSolid, i, j, hLow, hHigh, hFills⟩ := hFirst
  have hOrder := hFills.spans.order
  let valuesTo := fun (values : List Expr) (index : Nat) =>
    text.Row i index (values.map .expr)
  have hStart : valuesTo [first] middle :=
    .single (hFills.between.mono le_rfl hHigh)
  refine (takes_loop valuesTo valuesTo hStart
    fun values here hHere hValues => ?_).bind
    fun values index hIndex hValues => ?_
  · refine (takes_eat rfl).bind fun _ after hAfter _ => ?_
    have hMore : valuesTo values after :=
      OrderedTokens.Row.mono hValues le_rfl hAfter
    refine .ite (fun _ => ?_) fun _ => .pure hMore
    exact (takes_rowItem hOperand (by omega) hMore).bind
      fun value _ _ hValue => .pure hValue
  · refine (takes_previousSpan (by omega)).bind ?_
    rintro _ _ _ ⟨rfl, hInside, rfl⟩
    exact .pure (OrderedTokens.stands_mergeToken hSolid hFills hLow
      (by omega) hInside (.cons trivial (.cons hValues .nil)))

theorem takes_disjunction
    (hGrammar : grammar.Placed text) :
    TakesExpr text grammar.disjunction :=
  takes_booleanLevel
    (takes_booleanLevel (takes_negation hGrammar) .andWord .and)
    .orWord .or

------------------------------------------------------------
-- Whole Expressions
------------------------------------------------------------

theorem takes_conditional
    (hGrammar : grammar.Placed text) :
    TakesExpr text grammar.conditional := by
  have hOperand := takes_disjunction hGrammar
  intro start
  refine (hOperand start).bind fun body middle _ hBody => ?_
  refine (takes_eat rfl).bind fun _ after hAfter _ => ?_
  refine .ite (fun _ => ?_) fun _ => .pure (hBody.mono hAfter)
  refine (hOperand after).bind fun test here hHere hTest => ?_
  refine (takes_expect rfl).discard.bind ?_
  rintro _ _ _ ⟨_, rfl, _⟩
  refine (hGrammar.expression _).bind fun orelse index hIndex hOrelse =>
    .pure ?_
  obtain ⟨hSolid, i, j, hLow, hMiddle, hFirst⟩ := hBody
  obtain ⟨k, l, hElse, hHigh, hLast⟩ := hOrelse.between
  have hFirstOrder := hFirst.spans.order
  have hLastOrder := hLast.spans.order
  exact OrderedTokens.stands_merge hSolid hFirst hLast hLow (by omega)
    hHigh
    (.cons (hTest.between.mono (by omega) (by omega))
      (.cons (hFirst.between.mono le_rfl (by omega))
        (.cons (hLast.between.mono (by omega) le_rfl) .nil)))

theorem takes_lambda
    (hGrammar : grammar.Placed text)
    (hWord : (text.token start).kind.isLayout = false) :
    Takes text start grammar.lambda fun expr index =>
      text.Stands start index expr := by
  refine (takes_advance (TokenKind.ne_endOfFile_of_solid hWord)).bind ?_
  rintro _ _ _ ⟨rfl, rfl⟩
  refine (takes_params hGrammar _ _).bind
    fun params middle hMiddle hParams => ?_
  refine (takes_expect rfl).discard.bind ?_
  rintro _ _ _ ⟨_, rfl, _⟩
  refine (hGrammar.expression _).bind fun body index _ hBody => .pure ?_
  obtain ⟨k, l, hColon, hHigh, hLast⟩ := hBody.between
  have hLastOrder := hLast.spans.order
  exact OrderedTokens.stands_opened hWord hLast (by omega) hHigh
    (.cons (hParams.mono (by omega) (by omega))
      (.cons (hLast.between.mono (by omega) le_rfl) .nil))

/- The rules of a level are in place if those of the one below are. -/
theorem placed_step
    (hGrammar : grammar.Placed text) :
    grammar.step.Placed text where
  expression := by
    intro start
    refine takes_nested ?_
    refine (takes_check _).bind ?_
    rintro _ here _ ⟨rfl, rfl⟩
    exact .ite
      (fun hWord =>
        takes_lambda hGrammar (TokenKind.isLayout_of_beq hWord))
      fun _ => takes_conditional hGrammar here
  notTest := takes_negation hGrammar
  bitOr := takes_binary hGrammar
  factor := takes_signed hGrammar

end Rules

theorem placed_levels
    (count : Nat) :
    (levels count).Placed text := by
  induction count with
  | zero =>
      exact ⟨fun _ => .throw _, fun _ => .throw _, fun _ => .throw _,
        fun _ => .throw _⟩
  | succ count ih =>
      exact placed_step
        ⟨ih.expression, ih.notTest, ih.bitOr, ih.factor⟩

/- Every expression that is read is in place. -/
theorem placed_top : top.Placed text where
  expression := fun start => takes_remaining fun count =>
    (placed_levels (count + 1)).expression start
  notTest := fun start => takes_remaining fun count =>
    (placed_levels (count + 1)).notTest start
  bitOr := fun start => takes_remaining fun count =>
    (placed_levels (count + 1)).bitOr start
  factor := fun start => takes_remaining fun count =>
    (placed_levels (count + 1)).factor start

end ExprGrammar

end SnippetGrader
