import SnippetGrader.Parsing.Cursor

/-
  The grammar of expressions.

  From loosest to tightest: `lambda`, `x if c else y`, `or`,
  `and`, `not`, comparisons, `|`, `^`, `&`, shifts, sums,
  products, signs, powers, and trailers. A power binds tighter
  than a sign on its left and looser than one on its right.

  The rules are written over the rules for inner expressions.
  An inner expression starts after its surrounding one, so a
  text of `n` tokens needs at most `n + 1` levels of rules.

  Key definitions include:
    * `ExprGrammar`, `ExprGrammar.top`
    * `ExprGrammar.exprList`, `ExprGrammar.targetList`
    * `ExprGrammar.params`
-/

namespace SnippetGrader

open SnippetGrader.Parser

/- The rules that an inner expression may start with. -/
structure ExprGrammar where
  expression : Parser Expr
  notTest : Parser Expr
  bitOr : Parser Expr
  factor : Parser Expr

namespace ExprGrammar

------------------------------------------------------------
-- Starred Items
------------------------------------------------------------

/- An item that may unpack a sequence: a star and an operand, or else. -/
def starred (grammar : ExprGrammar) (unstarred : Parser Expr) : Parser Expr := do
  if ← check (.mark .star) then
    let start := (← advance).span
    let inner ← grammar.bitOr
    return .mk (start.merge inner.span) (.starred inner)
  else unstarred

/- An item of a display, of a call or of a list of expressions. -/
def item (grammar : ExprGrammar) : Parser Expr :=
  grammar.starred grammar.expression

/- Items that follow a first one without brackets form a tuple. -/
def orTuple
    (isEnd : TokenKind → Bool)
    (next : Parser Expr)
    (first : Expr) :
    Parser Expr := do
  if ← check (.mark .comma) then
    let items ← moreItems isEnd next [first]
    return .mk (first.span.merge (← previousSpan)) (.tuple items)
  else return first

/- The operators that assign the result of an operation. -/
def augmentedOp? : TokenKind → Option BinaryOp
  | .mark .plusAssign => some .add
  | .mark .minusAssign => some .sub
  | .mark .starAssign => some .mul
  | .mark .slashAssign => some .div
  | .mark .doubleSlashAssign => some .floorDiv
  | .mark .percentAssign => some .mod
  | .mark .doubleStarAssign => some .pow
  | _ => none

/- The tokens that may follow the last comma of a list of expressions. -/
def endsExprList (kind : TokenKind) : Bool :=
  match kind with
  | .newline | .endOfFile => true
  | .mark .semicolon | .mark .assign | .mark .colon => true
  | .mark .closeParen | .mark .closeBracket | .mark .closeBrace => true
  | _ => (augmentedOp? kind).isSome

/- One expression, or several that form a tuple. -/
def exprList (grammar : ExprGrammar) : Parser Expr := do
  orTuple endsExprList grammar.item (← grammar.item)

/-
  One target of a loop, or several that form a tuple. A target
  is an operand, so that the word `in` ends it.
-/
def targetList (grammar : ExprGrammar) : Parser Expr := do
  let target := grammar.starred grammar.bitOr
  orTuple (· == .keyword .inWord) target (← target)

/- Refuses the word that would start a comprehension. -/
def refuseComprehension : Parser Unit := do
  if ← check (.keyword .forWord) then
    refuse .unsupportedForm
      "comprehensions and generator expressions are not supported"

------------------------------------------------------------
-- Parameters
------------------------------------------------------------

/- The parameters read so far, and which separators came before. -/
structure ParamState where
  params : List (Param Expr) := []
  keywordOnly : Bool := false
  seenSlash : Bool := false
  seenDefault : Bool := false

/- Reads an annotation, where one is allowed, and forgets it. -/
def skipAnnotation (grammar : ExprGrammar) (annotated : Bool) : Parser Unit := do
  if annotated then
    if ← eat (.mark .colon) then
      discard grammar.expression

/- A slash makes all parameters before it positional-only. -/
def slashParam (state : ParamState) : Parser ParamState := do
  let start := (← advance).span
  if state.seenSlash || state.keywordOnly || state.params.isEmpty then
    refuseAt .invalidParameters "invalid '/' in parameters" start
  else
    return { state with
      seenSlash := true
      params :=
        state.params.map fun param => { param with kind := .positionalOnly } }

/- The parameter that takes all other keyword arguments, which comes last. -/
def varKeywordParam
    (grammar : ExprGrammar)
    (closing : Mark)
    (annotated : Bool)
    (state : ParamState) :
    Parser ParamState := do
  let start := (← advance).span
  let name ← expectName
  grammar.skipAnnotation annotated
  let param : Param Expr := ⟨name, .varKeyword, none, start.merge name.span⟩
  discard (eat (.mark .comma))
  if ← check (.mark closing) then
    return { state with params := state.params ++ [param] }
  else
    refuse .invalidParameters "arguments cannot follow var-keyword argument"

/-
  A star: with a name the parameter that takes all other
  positional arguments, and alone only a separator.
-/
def starParam
    (grammar : ExprGrammar)
    (closing : Mark)
    (annotated : Bool)
    (state : ParamState) :
    Parser ParamState := do
  let start := (← advance).span
  if state.keywordOnly then
    refuseAt .invalidParameters "* argument may appear only once" start
  else
    match ← peek with
    | .name _ =>
        let name ← expectName
        grammar.skipAnnotation annotated
        let param : Param Expr :=
          ⟨name, .varPositional, none, start.merge name.span⟩
        return { state with
          keywordOnly := true
          params := state.params ++ [param] }
    | next =>
        if next == .mark closing || next == .mark .doubleStar then
          refuseAt .invalidParameters "named arguments must follow bare *" start
        else return { state with keywordOnly := true }

/- A named parameter, with or without a default. -/
def namedParam
    (grammar : ExprGrammar)
    (annotated : Bool)
    (state : ParamState) :
    Parser ParamState := do
  let name ← expectName
  grammar.skipAnnotation annotated
  let default ←
    if ← eat (.mark .assign) then some <$> grammar.expression else pure none
  if !state.keywordOnly && default.isNone && state.seenDefault then
    refuseAt .invalidParameters "non-default argument follows default argument"
      name.span
  else
    let span := (default.map fun value => name.span.merge value.span).getD name.span
    let kind : ParamKind :=
      if state.keywordOnly then .keywordOnly else .positionalOrKeyword
    return { state with
      seenDefault := state.seenDefault || (!state.keywordOnly && default.isSome)
      params := state.params ++ [⟨name, kind, default, span⟩] }

/- The first parameter that has the name of an earlier one. -/
def repeatedParam? : (earlier : List String) → List (Param Expr) → Option (Param Expr)
  | _, [] => none
  | earlier, param :: rest =>
      if earlier.contains param.name.name then some param
      else repeatedParam? (param.name.name :: earlier) rest

/- Parameters up to a closing mark, which is left. -/
def params
    (grammar : ExprGrammar)
    (closing : Mark)
    (annotated : Bool) :
    Parser (List (Param Expr)) := do
  let state ← loop ({} : ParamState) fun state => do
    match ← peek with
    | .mark .doubleStar =>
        return .done (← grammar.varKeywordParam closing annotated state)
    | kind =>
        if kind == .mark closing then return .done state
        let state ←
          match kind with
          | .mark .slash => slashParam state
          | .mark .star => grammar.starParam closing annotated state
          | _ => grammar.namedParam annotated state
        if ← eat (.mark .comma) then return .again state
        return .done state
  match repeatedParam? [] state.params with
  | none => return state.params
  | some param =>
      refuseAt .invalidParameters
        ("duplicate argument '" ++ param.name.name
          ++ "' in function definition")
        param.span

------------------------------------------------------------
-- Arguments and Subscripts
------------------------------------------------------------

/- The arguments of a call. -/
structure Arguments where
  args : List Expr := []
  keywords : List (KeywordArg Expr) := []

/- A mapping whose entries become keyword arguments. -/
def unpackedArgument
    (grammar : ExprGrammar)
    (given : Arguments) :
    Parser Arguments := do
  let start := (← advance).span
  let value ← grammar.expression
  let keyword : KeywordArg Expr := ⟨none, value, start.merge value.span⟩
  return { given with keywords := given.keywords ++ [keyword] }

/- A keyword argument, which no other may repeat. -/
def keywordArgument
    (grammar : ExprGrammar)
    (id : String)
    (given : Arguments) :
    Parser Arguments := do
  let name : Ident := ⟨id, (← advance).span⟩
  discard advance
  let value ← grammar.expression
  if given.keywords.any fun other => other.name.any (·.name == id) then
    reportSubject .repeatedKeyword ("keyword argument repeated: " ++ id)
      name.span id
  let keyword : KeywordArg Expr := ⟨some name, value, name.span.merge value.span⟩
  return { given with keywords := given.keywords ++ [keyword] }

/- A positional argument. Only an unpacked one may follow a keyword. -/
def positionalArgument
    (grammar : ExprGrammar)
    (given : Arguments) :
    Parser Arguments := do
  let value ← grammar.item
  if !given.keywords.isEmpty && !value.isStarred then
    reportAt .positionalAfterKeyword
      (if given.keywords.any fun other => other.name.isNone then
        "positional argument follows keyword argument unpacking"
      else "positional argument follows keyword argument")
      value.span
  return { given with args := given.args ++ [value] }

/- The arguments after an opening bracket, and the closing bracket. -/
def arguments (grammar : ExprGrammar) (openedAt : Span) : Parser Arguments := do
  let given ← loop ({} : Arguments) fun given => do
    let kind ← peek
    if kind == .mark .closeParen then return .done given
    let given ←
      match kind, (← peekAhead 1) with
      | .mark .doubleStar, _ => grammar.unpackedArgument given
      | .name id, .mark .assign => grammar.keywordArgument id given
      | _, _ => grammar.positionalArgument given
    if ← eat (.mark .comma) then return .again given
    return .done given
  discard (expectClosing .closeParen openedAt)
  return given

/- A bound of a slice, which may be left out. -/
def sliceBound (grammar : ExprGrammar) : Parser (Option Expr) := do
  match ← peek with
  | .mark .colon | .mark .comma | .mark .closeBracket => return none
  | _ => some <$> grammar.expression

/- The rest of a slice after its lower bound. -/
def sliceRest
    (grammar : ExprGrammar)
    (start : Span)
    (lower : Option Expr) :
    Parser Expr := do
  discard (expect (.mark .colon))
  let upper ← grammar.sliceBound
  let step ← if ← eat (.mark .colon) then grammar.sliceBound else pure none
  return .mk (start.merge (← previousSpan)) (.slice lower upper step)

/- An index or a slice. -/
def subscriptItem (grammar : ExprGrammar) : Parser Expr := do
  let start ← currentSpan
  if ← check (.mark .colon) then grammar.sliceRest start none
  else
    let index ← grammar.expression
    if ← check (.mark .colon) then grammar.sliceRest start (some index)
    else return index

/- What stands between the brackets of a subscript. -/
def subscriptIndex (grammar : ExprGrammar) : Parser Expr := do
  orTuple (· == .mark .closeBracket) grammar.subscriptItem
    (← grammar.subscriptItem)

------------------------------------------------------------
-- Atoms
------------------------------------------------------------

/- String literals that follow each other are one string. -/
def strings : Parser Expr := do
  let start ← currentSpan
  let text ← loop "" fun text => do
    match ← peek with
    | .str part =>
        discard advance
        return .again (text ++ part)
    | _ => return .done text
  return .mk (start.merge (← previousSpan)) (.str text)

/- An expression in parentheses, or a tuple. -/
def parenthesized (grammar : ExprGrammar) : Parser Expr := do
  let opening := (← advance).span
  if ← check (.mark .closeParen) then
    return .mk (opening.merge (← advance).span) (.tuple [])
  let first ← grammar.item
  refuseComprehension
  if ← eat (.mark .closeParen) then return first
  let items ← moreItems (· == .mark .closeParen) grammar.item [first]
  let closing ← expectClosing .closeParen opening
  return .mk (opening.merge closing.span) (.tuple items)

/- A list display. -/
def listDisplay (grammar : ExprGrammar) : Parser Expr := do
  let opening := (← advance).span
  let items ← itemsUntil .closeBracket do
    let item ← grammar.item
    refuseComprehension
    return item
  let closing ← expectClosing .closeBracket opening
  return .mk (opening.merge closing.span) (.list items)

/- A key and a value of a dict display. -/
def dictEntry (grammar : ExprGrammar) : Parser (Expr × Expr) := do
  let key ← grammar.expression
  discard (expect (.mark .colon))
  return (key, ← grammar.expression)

/- A dict display if it is empty or has a colon, and else a set display. -/
def braceDisplay (grammar : ExprGrammar) : Parser Expr := do
  let opening := (← advance).span
  if ← check (.mark .closeBrace) then
    return .mk (opening.merge (← advance).span) (.dict [])
  let first ← grammar.item
  refuseComprehension
  let form : ExprForm Expr ←
    if ← eat (.mark .colon) then
      let value ← grammar.expression
      refuseComprehension
      ExprForm.dict <$>
        moreItems (· == .mark .closeBrace) grammar.dictEntry [(first, value)]
    else
      ExprForm.set <$> moreItems (· == .mark .closeBrace) grammar.item [first]
  let closing ← expectClosing .closeBrace opening
  return .mk (opening.merge closing.span) form

/- An expression of a single token. -/
def literal (form : ExprForm Expr) : Parser Expr := do
  return .mk (← advance).span form

/- A literal, a name or an expression in brackets. -/
def atom (grammar : ExprGrammar) : Parser Expr := do
  match ← peek with
  | .int value => literal (.int value)
  | .float value => literal (.float value)
  | .keyword .trueWord => literal (.bool true)
  | .keyword .falseWord => literal (.bool false)
  | .keyword .noneWord => literal .none
  | .name id => literal (.name id)
  | .str _ => strings
  | .mark .openParen => grammar.parenthesized
  | .mark .openBracket => grammar.listDisplay
  | .mark .openBrace => grammar.braceDisplay
  | .reserved word =>
      refuse .unsupportedForm ("'" ++ word ++ "' is not supported")
  | other =>
      refuse .unexpectedToken
        ("invalid syntax: unexpected '" ++ other.text ++ "'")

/- An atom with calls, subscripts and attributes after it. -/
def primary (grammar : ExprGrammar) : Parser Expr := do
  loop (← grammar.atom) fun object => do
    match ← peek with
    | .mark .openParen =>
        let opening := (← advance).span
        let given ← grammar.arguments opening
        return .again
          (.mk (object.span.merge (← previousSpan))
            (.call object given.args given.keywords))
    | .mark .openBracket =>
        let opening := (← advance).span
        let index ← grammar.subscriptIndex
        discard (expectClosing .closeBracket opening)
        return .again
          (.mk (object.span.merge (← previousSpan)) (.subscript object index))
    | .mark .dot =>
        discard advance
        let attr ← expectName
        return .again
          (.mk (object.span.merge attr.span) (.attribute object attr))
    | _ => return .done object

------------------------------------------------------------
-- Operators
------------------------------------------------------------

/- A primary, perhaps raised to a power. -/
def power (grammar : ExprGrammar) : Parser Expr := do
  let base ← grammar.primary
  if ← eat (.mark .doubleStar) then
    let exponent ← nested grammar.factor
    return .mk (base.span.merge exponent.span) (.binary base .pow exponent)
  else return base

/- The operators before an operand that are no words. -/
def signOp? : TokenKind → Option UnaryOp
  | .mark .plus => some .pos
  | .mark .minus => some .neg
  | .mark .tilde => some .invert
  | _ => none

/- A power, perhaps with signs before it. -/
def signed (grammar : ExprGrammar) : Parser Expr := do
  match signOp? (← peek) with
  | none => grammar.power
  | some op =>
      let start := (← advance).span
      let operand ← nested grammar.factor
      return .mk (start.merge operand.span) (.unary op operand)

/- The operators of each level, from the tightest to the loosest. -/
def binaryLevels : List (TokenKind → Option BinaryOp) :=
  [fun
    | .mark .star => some .mul
    | .mark .atSign => some .matMul
    | .mark .slash => some .div
    | .mark .doubleSlash => some .floorDiv
    | .mark .percent => some .mod
    | _ => none,
   fun
    | .mark .plus => some .add
    | .mark .minus => some .sub
    | _ => none,
   fun
    | .mark .shiftLeft => some .shiftLeft
    | .mark .shiftRight => some .shiftRight
    | _ => none,
   fun
    | .mark .ampersand => some .bitAnd
    | _ => none,
   fun
    | .mark .caret => some .bitXor
    | _ => none,
   fun
    | .mark .pipe => some .bitOr
    | _ => none]

/- Operands with operators of one level between them, grouped to the left. -/
def binaryLevel
    (operand : Parser Expr)
    (opFor : TokenKind → Option BinaryOp) :
    Parser Expr := do
  loop (← operand) fun left => do
    match opFor (← peek) with
    | none => return .done left
    | some op =>
        discard advance
        let right ← operand
        return .again
          (.mk (left.span.merge right.span) (.binary left op right))

/- An expression of operators between two operands. -/
def binary (grammar : ExprGrammar) : Parser Expr :=
  binaryLevels.foldl binaryLevel grammar.signed

/- Reads an operator of a comparison, if one comes next. -/
def comparisonOp? : Parser (Option CompareOp) := do
  match ← peek, ← peekAhead 1 with
  | .mark .equal, _ => single .eq
  | .mark .notEqual, _ => single .notEq
  | .mark .less, _ => single .less
  | .mark .lessEq, _ => single .lessEq
  | .mark .greater, _ => single .greater
  | .mark .greaterEq, _ => single .greaterEq
  | .keyword .inWord, _ => single .member
  | .keyword .notWord, .keyword .inWord => double .notMember
  | .keyword .isWord, .keyword .notWord => double .notSame
  | .keyword .isWord, _ => single .same
  | _, _ => return none
where
  single (op : CompareOp) : Parser (Option CompareOp) := do
    discard advance
    return some op
  double (op : CompareOp) : Parser (Option CompareOp) := do
    discard advance
    single op

/- A chain of comparisons is one expression. -/
def comparison (grammar : ExprGrammar) : Parser Expr := do
  let left ← grammar.binary
  let rest ← loop ([] : List (CompareOp × Expr)) fun rest => do
    match ← comparisonOp? with
    | none => return .done rest
    | some op => return .again (rest ++ [(op, ← grammar.binary)])
  if rest.isEmpty then return left
  return .mk (left.span.merge (← previousSpan)) (.compare left rest)

/- A comparison, perhaps negated. -/
def negation (grammar : ExprGrammar) : Parser Expr := do
  if ← check (.keyword .notWord) then
    let start := (← advance).span
    let operand ← nested grammar.notTest
    return .mk (start.merge operand.span) (.unary .not operand)
  else grammar.comparison

/- Operands with one word between them are one expression. -/
def booleanLevel
    (word : Keyword)
    (op : BoolOp)
    (operand : Parser Expr) :
    Parser Expr := do
  let first ← operand
  if ← check (.keyword word) then
    let values ← loop [first] fun values => do
      if ← eat (.keyword word) then return .again (values ++ [← operand])
      return .done values
    return .mk (first.span.merge (← previousSpan)) (.boolean op values)
  else return first

/- Operands with `and` and `or` between them. -/
def disjunction (grammar : ExprGrammar) : Parser Expr :=
  booleanLevel .orWord .or (booleanLevel .andWord .and grammar.negation)

------------------------------------------------------------
-- Whole Expressions
------------------------------------------------------------

/- A choice between two expressions, or only one. -/
def conditional (grammar : ExprGrammar) : Parser Expr := do
  let body ← grammar.disjunction
  if ← eat (.keyword .ifWord) then
    let test ← grammar.disjunction
    discard (expect (.keyword .elseWord))
    let orelse ← grammar.expression
    return .mk (body.span.merge orelse.span) (.conditional test body orelse)
  else return body

/- A function without a name. -/
def lambda (grammar : ExprGrammar) : Parser Expr := do
  let start := (← advance).span
  let params ← grammar.params .colon false
  discard (expect (.mark .colon))
  let body ← grammar.expression
  return .mk (start.merge body.span) (.lambda params body)

/- The rules over given rules for inner expressions. -/
def step (grammar : ExprGrammar) : ExprGrammar where
  expression :=
    nested do
      if ← check (.keyword .lambdaWord) then grammar.lambda
      else grammar.conditional
  notTest := grammar.negation
  bitOr := grammar.binary
  factor := grammar.signed

/- The rules with a number of levels of inner expressions. -/
def levels : Nat → ExprGrammar
  | 0 =>
      { expression := throw .stalled
        notTest := throw .stalled
        bitOr := throw .stalled
        factor := throw .stalled }
  | n + 1 =>
      step
        { expression := fun cursor => (levels n).expression cursor
          notTest := fun cursor => (levels n).notTest cursor
          bitOr := fun cursor => (levels n).bitOr cursor
          factor := fun cursor => (levels n).factor cursor }

/- The rules with as many levels as the tokens that are left can need. -/
def top : ExprGrammar where
  expression := fun cursor => (levels (cursor.remaining + 1)).expression cursor
  notTest := fun cursor => (levels (cursor.remaining + 1)).notTest cursor
  bitOr := fun cursor => (levels (cursor.remaining + 1)).bitOr cursor
  factor := fun cursor => (levels (cursor.remaining + 1)).factor cursor

end ExprGrammar

end SnippetGrader
