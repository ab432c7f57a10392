import SnippetGrader.Parsing.Expression

/-
  The grammar of statements.

  A line holds statements with semicolons between them, and a
  compound statement has a block: the rest of its line, or
  indented lines. A faulty statement is skipped up to the end of
  its line, so that one reading finds many faults.

  Key definitions include:
    * `targetFaults`
    * `StmtGrammar`, `StmtGrammar.top`
-/

namespace SnippetGrader

open SnippetGrader.Parser

------------------------------------------------------------
-- Targets
------------------------------------------------------------

mutual

/-
  The faults of an expression that is to be assigned to, each
  with its place. Displays and stars are targets only where
  a value may be unpacked.
-/
def targetFaults (unpacking : Bool) : Expr → List (String × Span)
  | .mk _ (.name _) => []
  | .mk _ (.attribute _ _) => []
  | .mk _ (.subscript _ _) => []
  | .mk span (.tuple items) =>
      if unpacking then targetListFaults items
      else [("cannot assign to expression", span)]
  | .mk span (.list items) =>
      if unpacking then targetListFaults items
      else [("cannot assign to expression", span)]
  | .mk span (.starred inner) =>
      if unpacking then targetFaults false inner
      else [("cannot assign to expression", span)]
  | .mk span (.call _ _ _) => [("cannot assign to function call", span)]
  | .mk span _ => [("cannot assign to expression", span)]

/- The faults of all targets of a list. -/
def targetListFaults : List Expr → List (String × Span)
  | [] => []
  | target :: rest => targetFaults true target ++ targetListFaults rest

end

/- Reports every fault of a target. -/
def checkTarget (unpacking : Bool) (target : Expr) : Parser Unit :=
  (targetFaults unpacking target).forM fun (message, span) =>
    reportAt .invalidTarget message span

------------------------------------------------------------
-- Simple Statements
------------------------------------------------------------

namespace SimpleStmt

/- Whether a statement ends before a token. -/
def isEnd : TokenKind → Bool
  | .newline | .endOfFile | .mark .semicolon => true
  | _ => false

/- Reads a part that a statement may lack. -/
def orNothing (part : Parser Expr) : Parser (Option Expr) := do
  if isEnd (← peek) then return none
  return some (← part)

/- Names with dots between them. -/
def dottedName : Parser (String × Span) := do
  let first ← expectName
  loop (first.name, first.span) fun (name, span) => do
    if ← eat (.mark .dot) then
      let part ← expectName
      return .again (name ++ "." ++ part.name, span.merge part.span)
    return .done (name, span)

/- One imported name, perhaps bound to another. -/
def importAlias (dotted : Bool) : Parser Alias := do
  let (name, span) ←
    if dotted then dottedName
    else do
      let id ← expectName
      pure (id.name, id.span)
  if ← eat (.keyword .asWord) then
    let asName ← expectName
    return ⟨name, some asName, span.merge asName.span⟩
  return ⟨name, none, span⟩

/- Whether imported names end before a token. -/
def endsAliases : TokenKind → Bool
  | .newline | .mark .closeParen => true
  | _ => false

/- One or more imported names. -/
def importAliases (dotted : Bool) : Parser (List Alias) := do
  moreItems endsAliases (importAlias dotted) [← importAlias dotted]

/- Names imported from a module. -/
def importFrom : Parser Stmt := do
  let start := (← advance).span
  let (source, _) ← dottedName
  discard (expect (.keyword .importWord))
  if ← check (.mark .star) then
    refuse .unsupportedForm "wildcard imports are not supported"
  let names ←
    if ← check (.mark .openParen) then do
      let opening := (← advance).span
      let names ← importAliases false
      discard (expectClosing .closeParen opening)
      pure names
    else importAliases false
  return .mk (start.merge (← previousSpan)) (.importFrom source names)

/- An expression, or an assignment to one. -/
def expressionOrAssignment : Parser Stmt := do
  let first ← ExprGrammar.top.exprList
  match ExprGrammar.augmentedOp? (← peek) with
  | some op =>
      discard advance
      checkTarget false first
      let value ← ExprGrammar.top.exprList
      return .mk (first.span.merge value.span) (.augAssign first op value)
  | none =>
      if ← eat (.mark .assign) then
        let second ← ExprGrammar.top.exprList
        let (targets, value) ← loop ([first], second) fun (targets, value) => do
          if ← eat (.mark .assign) then
            return .again (targets ++ [value], ← ExprGrammar.top.exprList)
          return .done (targets, value)
        targets.forM (checkTarget true)
        return .mk (first.span.merge value.span) (.assign targets value)
      return .mk first.span (.expr first)

/- A statement that starts with a word and ends where it has been read. -/
def worded (rest : Parser (StmtForm Stmt)) : Parser Stmt := do
  let start := (← advance).span
  let form ← rest
  return .mk (start.merge (← previousSpan)) form

/- A condition that must hold, with a message if it does not. -/
def assertion : Parser (StmtForm Stmt) := do
  let test ← ExprGrammar.top.expression
  let message ←
    if ← eat (.mark .comma) then some <$> ExprGrammar.top.expression
    else pure none
  return .assert test message

/- A statement without a block. -/
def statement : Parser Stmt := do
  match ← peek with
  | .keyword .passWord => worded (return .pass)
  | .keyword .breakWord => worded (return .breakLoop)
  | .keyword .continueWord => worded (return .continueLoop)
  | .keyword .returnWord =>
      worded do return .ret (← orNothing ExprGrammar.top.exprList)
  | .keyword .raiseWord =>
      worded do return .raise (← orNothing ExprGrammar.top.expression)
  | .keyword .assertWord => worded assertion
  | .keyword .importWord =>
      worded do return .importModules (← importAliases true)
  | .keyword .fromWord => importFrom
  | .reserved word =>
      refuse .unsupportedForm ("'" ++ word ++ "' statements are not supported")
  | _ => expressionOrAssignment

/- A line of statements with semicolons between them. -/
def line : Parser (List Stmt) := do
  let statements ← loop [← statement] fun statements => do
    if !(← eat (.mark .semicolon)) then return .done statements
    match ← peek with
    | .newline | .endOfFile => return .done statements
    | _ => return .again (statements ++ [← statement])
  expectNewline
  return statements

end SimpleStmt

------------------------------------------------------------
-- Compound Statements
------------------------------------------------------------

/- The rules that a statement inside another may start with. -/
structure StmtGrammar where
  statements : Parser (List Stmt)
  branch : Parser Stmt

namespace StmtGrammar

/-
  Reads statements until the next token ends them or too many
  faults were found. Faulty statements are skipped.
-/
def statementsUntil
    (grammar : StmtGrammar)
    (isEnd : TokenKind → Bool)
    (isSkipped : TokenKind → Bool) :
    Parser (List Stmt) :=
  loop [] fun body => do
    let kind ← peek
    if isEnd kind || (← tooManyErrors) then return .done body
    if isSkipped kind then
      discard advance
      return .again body
    match ← attempt grammar.statements with
    | some statements => return .again (body ++ statements)
    | none =>
        synchronize
        return .again body

/- The body of a compound statement: a line, or an indented block. -/
def block (grammar : StmtGrammar) : Parser (List Stmt) := do
  if !(← eat .newline) then SimpleStmt.line
  else if !(← eat .indent) then
    refuse .expectedIndent "expected an indented block"
  else if (← get).blockDepth ≥ maxBlockDepth then
    refuseAt .nestingLimit
      ("blocks are nested deeper than " ++ toString maxBlockDepth ++ " levels")
      (← previousSpan)
  else
    inBlock do
      let body ←
        grammar.statementsUntil
          (fun kind => kind == .endOfFile || kind == .dedent)
          (· == .newline)
      discard (eat .dedent)
      return body

/- A body after its colon. -/
def body (grammar : StmtGrammar) : Parser (List Stmt) := do
  discard (expect (.mark .colon))
  grammar.block

/- The body after `else`, if there is one. -/
def elseBody (grammar : StmtGrammar) : Parser (List Stmt) := do
  if ← eat (.keyword .elseWord) then grammar.body
  else return []

/- The definition of a function. Annotations are read and forgotten. -/
def functionDef (grammar : StmtGrammar) : Parser (StmtForm Stmt) := do
  let name ← expectName
  let opening := (← expect (.mark .openParen)).span
  let params ← ExprGrammar.top.params .closeParen true
  discard (expectClosing .closeParen opening)
  if ← eat (.mark .arrow) then
    discard ExprGrammar.top.expression
  return .functionDef name params (← grammar.body)

/- A base of a class. Keyword arguments are refused here. -/
def classBase : Parser Expr := do
  match ← peek, ← peekAhead 1 with
  | .name _, .mark .assign =>
      refuse .unsupportedForm "class keyword arguments are not supported"
  | _, _ => ExprGrammar.top.expression

/- The definition of a class. -/
def classDef (grammar : StmtGrammar) : Parser (StmtForm Stmt) := do
  let name ← expectName
  let bases ←
    if ← check (.mark .openParen) then do
      let opening := (← advance).span
      let bases ← itemsUntil .closeParen classBase
      discard (expectClosing .closeParen opening)
      pure bases
    else pure []
  return .classDef name bases (← grammar.body)

/- A branch. One after `elif` is the alternative of the one before. -/
def ifElse (grammar : StmtGrammar) : Parser (StmtForm Stmt) := do
  let test ← ExprGrammar.top.expression
  let body ← grammar.body
  let orelse ←
    if ← check (.keyword .elifWord) then do
      pure [← grammar.branch]
    else grammar.elseBody
  return .branch test body orelse

/- A loop with a condition. -/
def whileLoop (grammar : StmtGrammar) : Parser (StmtForm Stmt) := do
  let test ← ExprGrammar.top.expression
  let body ← grammar.body
  return .whileLoop test body (← grammar.elseBody)

/- A loop over items. -/
def forLoop (grammar : StmtGrammar) : Parser (StmtForm Stmt) := do
  let target ← ExprGrammar.top.targetList
  checkTarget true target
  discard (expect (.keyword .inWord))
  let items ← ExprGrammar.top.exprList
  let body ← grammar.body
  return .forLoop target items body (← grammar.elseBody)

/- A compound statement, or a line of simple ones. -/
def lineOrCompound (grammar : StmtGrammar) : Parser (List Stmt) := do
  match ← peek with
  | .keyword .defWord => single grammar.functionDef
  | .keyword .classWord => single grammar.classDef
  | .keyword .ifWord => single grammar.ifElse
  | .keyword .whileWord => single grammar.whileLoop
  | .keyword .forWord => single grammar.forLoop
  | .indent => refuse .unexpectedIndent "unexpected indent"
  | _ => SimpleStmt.line
where
  single (rest : Parser (StmtForm Stmt)) : Parser (List Stmt) := do
    return [← SimpleStmt.worded rest]

/- The rules over given rules for inner statements. -/
def step (grammar : StmtGrammar) : StmtGrammar where
  statements := grammar.lineOrCompound
  branch := SimpleStmt.worded grammar.ifElse

/- The rules with a number of levels of inner statements. -/
def levels : Nat → StmtGrammar
  | 0 => { statements := throw .stalled, branch := throw .stalled }
  | n + 1 =>
      step
        { statements := fun cursor => (levels n).statements cursor
          branch := fun cursor => (levels n).branch cursor }

/- The rules with as many levels as the tokens that are left can need. -/
def top : StmtGrammar where
  statements := fun cursor => (levels (cursor.remaining + 1)).statements cursor
  branch := fun cursor => (levels (cursor.remaining + 1)).branch cursor

end StmtGrammar

end SnippetGrader
