import SnippetGrader.Source.Diagnostic
import SnippetGrader.Token.Basic
import SnippetGrader.Tree.Basic

/-
  A place in a list of tokens, and the steps that a parser takes
  from it.

  A parser reports what is wrong where it finds it and then
  fails, keeping its place. Whoever can go on from there does.
  A loop makes at most one round for each token that is left,
  and fails as stalled after that: a round that goes on has
  read a token.

  Key definitions include:
    * `Cursor`, `Parser`
    * `Parser.expect`, `Parser.expectClosing`
    * `Parser.nested`, `Parser.inBlock`
    * `Parser.loop`, `Parser.moreItems`, `Parser.itemsUntil`
    * `Parser.synchronize`
-/

namespace SnippetGrader

/- The greatest number of expressions inside each other. -/
def maxExprDepth : Nat := 64

/- The greatest number of indented blocks inside each other. -/
def maxBlockDepth : Nat := 32

------------------------------------------------------------
-- Cursors
------------------------------------------------------------

/-
  The tokens of a file, the number of them that have been read,
  the faults found so far, and how deeply the place is nested.
-/
structure Cursor where
  file : SourceFile
  tokens : Array Token
  index : Nat := 0
  errors : Diagnostics := {}
  exprDepth : Nat := 0
  blockDepth : Nat := 0
  deriving Inhabited

namespace Cursor

/- The next token. After the last token, that token stays. -/
def current (cursor : Cursor) : Token :=
  (cursor.tokens[cursor.index]?.or cursor.tokens.back?).getD
    ⟨.endOfFile, .point 1 1⟩

/- The kind of a later token. -/
def ahead (cursor : Cursor) (offset : Nat) : TokenKind :=
  (cursor.tokens[cursor.index + offset]?.map (·.kind)).getD .endOfFile

/- The span of the token read last. -/
def previousSpan (cursor : Cursor) : Span :=
  match cursor.index with
  | 0 => .point 1 1
  | index + 1 => (cursor.tokens[index]?.map (·.span)).getD (.point 1 1)

/- The number of tokens that have not been read. -/
def remaining (cursor : Cursor) : Nat :=
  cursor.tokens.size - cursor.index

/- The place after the next token. -/
def next (cursor : Cursor) : Cursor :=
  if cursor.index < cursor.tokens.size then
    { cursor with index := cursor.index + 1 }
  else cursor

/- Adds a fault. -/
def report (cursor : Cursor) (fault : Diagnostic) : Cursor :=
  { cursor with errors := cursor.errors.push fault }

end Cursor

------------------------------------------------------------
-- Parsers
------------------------------------------------------------

/- Why a parser fails: a fault was reported, or its steps ran out. -/
inductive Failure where
  | reported
  | stalled
  deriving DecidableEq, Repr, Inhabited

/- A parser reads tokens from a cursor. If it fails, it keeps its place. -/
abbrev Parser (α : Type) := EStateM Failure Cursor α

namespace Parser

variable {α σ : Type}

/- Fails after a fault was reported. -/
def giveUp : Parser α :=
  throw .reported

/- The kind of the next token. -/
def peek : Parser TokenKind :=
  return (← get).current.kind

/- The kind of a later token. -/
def peekAhead (offset : Nat) : Parser TokenKind :=
  return (← get).ahead offset

/- The span of the next token. -/
def currentSpan : Parser Span :=
  return (← get).current.span

/- The span of the token read last. -/
def previousSpan : Parser Span :=
  return (← get).previousSpan

/- Reads a token. -/
def advance : Parser Token :=
  modifyGet fun cursor => (cursor.current, cursor.next)

/- Whether the next token is of a given kind. -/
def check (kind : TokenKind) : Parser Bool :=
  return (← peek) == kind

/- Reads a token if it is of a given kind. -/
def eat (kind : TokenKind) : Parser Bool := do
  if ← check kind then
    discard advance
    return true
  return false

/- Whether the tokens end here. -/
def atEnd : Parser Bool :=
  check .endOfFile

/- Whether as many faults have been found as are stored. -/
def tooManyErrors : Parser Bool :=
  return (← get).errors.isFull

------------------------------------------------------------
-- Reports
------------------------------------------------------------

/- Reports a fault at a span. -/
def reportAt (code : ErrorCode) (message : String) (span : Span) : Parser Unit :=
  modify fun cursor =>
    cursor.report (Diagnostic.make cursor.file code message span)

/- Reports a fault about a name. -/
def reportSubject
    (code : ErrorCode)
    (message : String)
    (span : Span)
    (subject : String) :
    Parser Unit :=
  modify fun cursor =>
    cursor.report
      { Diagnostic.make cursor.file code message span with
        subject := some subject }

/- Reports a fault at the next token. -/
def report (code : ErrorCode) (message : String) : Parser Unit := do
  reportAt code message (← currentSpan)

/- Reports a fault at the next token and fails. -/
def refuse (code : ErrorCode) (message : String) : Parser α := do
  report code message
  giveUp

/- Reports a fault at a span and fails. -/
def refuseAt (code : ErrorCode) (message : String) (span : Span) : Parser α := do
  reportAt code message span
  giveUp

------------------------------------------------------------
-- Expected Tokens
------------------------------------------------------------

/- The report on a token that stands in the place of another. -/
def insteadOf (expected found : TokenKind) : String :=
  "expected '" ++ expected.text ++ "', got '" ++ found.text ++ "'"

/- Reads a token that must be of a given kind. -/
def expect (kind : TokenKind) : Parser Token := do
  if ← check kind then advance
  else refuse .unexpectedToken (insteadOf kind (← peek))

/- Reads the bracket that closes the one at a given span. -/
def expectClosing (closing : Mark) (openedAt : Span) : Parser Token := do
  if ← check (.mark closing) then advance
  else
    match ← peek with
    | .newline | .endOfFile =>
        refuse .unclosedBracket
          ("'" ++ closing.text ++ "' was never closed (opened at "
            ++ openedAt.text ++ ")")
    | found => refuse .unclosedBracket (insteadOf (.mark closing) found)

/- Reads a name. -/
def expectName : Parser Ident := do
  match ← peek with
  | .name id =>
      let token ← advance
      return { name := id, span := token.span }
  | found =>
      refuse .unexpectedToken ("expected a name, got '" ++ found.text ++ "'")

/- Reads the end of a line, which the end of the text is too. -/
def expectNewline : Parser Unit := do
  if ← eat .newline then return ()
  if ← atEnd then return ()
  refuse .unexpectedToken
    ("invalid syntax: unexpected '" ++ (← peek).text ++ "'")

------------------------------------------------------------
-- Nesting
------------------------------------------------------------

/- Runs a parser one level deeper in an expression, and comes back up. -/
def nested (parser : Parser α) : Parser α := do
  if (← get).exprDepth ≥ maxExprDepth then
    refuse .nestingLimit
      ("expression nesting is deeper than " ++ toString maxExprDepth
        ++ " levels")
  else fun cursor =>
    match parser { cursor with exprDepth := cursor.exprDepth + 1 } with
    | .ok value cursor' =>
        .ok value { cursor' with exprDepth := cursor'.exprDepth - 1 }
    | .error failure cursor' =>
        .error failure { cursor' with exprDepth := cursor'.exprDepth - 1 }

/- Runs a parser one block deeper, and comes back up. -/
def inBlock (parser : Parser α) : Parser α := fun cursor =>
  match parser { cursor with blockDepth := cursor.blockDepth + 1 } with
  | .ok value cursor' =>
      .ok value { cursor' with blockDepth := cursor'.blockDepth - 1 }
  | .error failure cursor' =>
      .error failure { cursor' with blockDepth := cursor'.blockDepth - 1 }

------------------------------------------------------------
-- Repetition
------------------------------------------------------------

/- What a step of a loop comes to. -/
inductive Step (σ α : Type) where
  | again (state : σ)
  | done (value : α)

/- Repeats a step until it is done, at most `fuel` times. -/
def loopFor (step : σ → Parser (Step σ α)) : (fuel : Nat) → σ → Parser α
  | 0, _ => throw .stalled
  | fuel + 1, state => do
      match ← step state with
      | .again state' => loopFor step fuel state'
      | .done value => return value

/- Repeats a step that reads a token whenever it is not done. -/
def loop (state : σ) (step : σ → Parser (Step σ α)) : Parser α := fun cursor =>
  loopFor step (cursor.remaining + 1) state cursor

/- Runs a parser, and goes on from its place if it reported a fault. -/
def attempt (parser : Parser α) : Parser (Option α) := fun cursor =>
  match parser cursor with
  | .ok value cursor' => .ok (some value) cursor'
  | .error .reported cursor' => .ok none cursor'
  | .error .stalled cursor' => .error .stalled cursor'

------------------------------------------------------------
-- Lists of Items
------------------------------------------------------------

/-
  Reads further items, each after a comma. A comma may also
  stand before the end, which the next token shows.
-/
def moreItems
    (isEnd : TokenKind → Bool)
    (item : Parser α)
    (first : List α) :
    Parser (List α) :=
  loop first fun items => do
    if !(← eat (.mark .comma)) then return .done items
    if isEnd (← peek) then return .done items
    return .again (items ++ [← item])

/- Reads items with commas between them, up to a closing mark. -/
def itemsUntil (closing : Mark) (item : Parser α) : Parser (List α) :=
  loop [] fun items => do
    if ← check (.mark closing) then return .done items
    let items := items ++ [← item]
    if ← eat (.mark .comma) then return .again items
    return .done items

------------------------------------------------------------
-- Recovery
------------------------------------------------------------

/-
  The number of tokens up to the start of the next line. Blocks
  that open on the way are passed over, and the end of the
  surrounding block is not.
-/
def tokensToNextLine : (depth : Nat) → List Token → Nat
  | _, [] => 0
  | depth, token :: rest =>
      match token.kind with
      | .endOfFile => 0
      | .newline => if depth == 0 then 1 else 1 + tokensToNextLine depth rest
      | .indent => 1 + tokensToNextLine (depth + 1) rest
      | .dedent => if depth == 0 then 0 else 1 + tokensToNextLine (depth - 1) rest
      | _ => 1 + tokensToNextLine depth rest

/- Moves to the start of the next line. -/
def synchronize : Parser Unit :=
  modify fun cursor =>
    { cursor with
      index :=
        cursor.index
          + tokensToNextLine 0 (cursor.tokens.toList.drop cursor.index) }

end Parser

end SnippetGrader
