import SnippetGrader.Source.Diagnostic
import SnippetGrader.Token.Literal

/-
  From text to tokens.

  Lines are joined inside brackets and after a backslash. Blank
  lines and comments leave no tokens. At the start of any other
  line its indentation is compared with that of the open blocks,
  and blocks are opened or closed accordingly. Reading stops
  once twenty faults have been found.

  Key definitions include:
    * `LexState`
    * `lex`
-/

namespace SnippetGrader

/- Tokens and the faults found among them. -/
structure Lexed where
  tokens : Array Token
  errors : Diagnostics
  deriving Inhabited

/-
  The state of a run: the bytes still to be read, what was found
  so far, the number of open brackets, and the indentation of
  the open blocks from the inside out.
-/
structure LexState where
  scanner : Scanner
  tokens : Array Token := #[]
  errors : Diagnostics := {}
  brackets : Nat := 0
  indents : List Nat := []
  lineStart : Bool := true
  deriving Inhabited

namespace LexState

------------------------------------------------------------
-- Emission
------------------------------------------------------------

/- Adds a token. -/
def push (state : LexState) (kind : TokenKind) (span : Span) : LexState :=
  { state with tokens := state.tokens.push ⟨kind, span⟩ }

/- Adds a fault. -/
def report
    (state : LexState)
    (file : SourceFile)
    (code : ErrorCode)
    (message : String)
    (span : Span) :
    LexState :=
  { state with
    errors := state.errors.push (Diagnostic.make file code message span) }

/- Moves the state to a later place. -/
def moveTo (state : LexState) (scanner : Scanner) : LexState :=
  { state with scanner := scanner }

/- The kind of the token found last. -/
def lastKind? (state : LexState) : Option TokenKind :=
  state.tokens.back?.map (·.kind)

/- Adds a token that spans from one place to another. -/
def emit
    (state : LexState)
    (first last : Scanner)
    (kind : TokenKind) :
    LexState :=
  (state.moveTo last).push kind (first.position.spanTo last.position)

------------------------------------------------------------
-- Indentation
------------------------------------------------------------

/- The width of a line's indentation; tab stops are eight columns apart. -/
def indentWidth : (width : Nat) → List UInt8 → Nat
  | width, [] => width
  | width, b :: rest =>
      if b == Byte.of ' ' then indentWidth (width + 1) rest
      else if b == Byte.of '\t' then indentWidth ((width / 8 + 1) * 8) rest
      else if b == 12 then indentWidth 0 rest
      else width

/- The bytes that indentation consists of. -/
def isIndentation (b : UInt8) : Bool :=
  b == Byte.of ' ' || b == Byte.of '\t' || b == 12

/- Whether a byte after the indentation makes a line blank. -/
def blanksLine (b : UInt8) : Bool :=
  b == 10 || b == 13 || b == Byte.of '#'

/-
  Reads the indentation of a line. A blank line is read whole,
  line feed included. Any other line opens a block, or closes
  blocks until one is as wide. If none is, that is a fault, and
  the width is taken for a block of its own. With the last fault
  that is stored, only one of the closed blocks leaves a token.
-/
def enterLine (state : LexState) (file : SourceFile) : LexState :=
  let scanner := state.scanner.skipWhile isIndentation
  let state' := { state with scanner := scanner, lineStart := false }
  match scanner.peek? with
  | none => state'
  | some b =>
      if blanksLine b then
        let afterLine := scanner.skipWhile (· != 10)
        { state' with scanner := afterLine.skip 1, lineStart := true }
      else
        let width := indentWidth 0 state.scanner.rest
        let current := state.indents.headD 0
        let span := scanner.position.point
        if width > current then
          { state'.push .indent span with indents := width :: state.indents }
        else
          let closed := state.indents.takeWhile (· > width)
          let left := state.indents.dropWhile (· > width)
          if closed.isEmpty then state'
          else if left.headD 0 == width then
            let closing :=
              closed.foldl (fun st _ => st.push .dedent span) state'
            { closing with indents := left }
          else
            let reported :=
              state'.report file .inconsistentDedent
                "unindent does not match any outer indentation level" span
            let shown := if reported.errors.isFull then closed.take 1 else closed
            let closing :=
              shown.foldl (fun st _ => st.push .dedent span) reported
            { closing with indents := width :: left }

------------------------------------------------------------
-- Tokens
------------------------------------------------------------

/- The marks of two or more characters, each with its bytes, longest first. -/
def longMarks : List (List UInt8 × Mark) :=
  [Mark.doubleStarAssign, .doubleSlashAssign, .doubleStar, .doubleSlash,
   .plusAssign, .minusAssign, .starAssign, .slashAssign, .percentAssign,
   .arrow, .equal, .notEqual, .lessEq, .greaterEq, .shiftLeft,
   .shiftRight].map fun mark => (mark.text.toList.map Byte.of, mark)

/- The marks of one character. -/
def shortMarks : List (UInt8 × Mark) :=
  [(Byte.of '+', .plus), (Byte.of '-', .minus), (Byte.of '*', .star),
   (Byte.of '/', .slash), (Byte.of '%', .percent), (Byte.of '@', .atSign),
   (Byte.of '&', .ampersand), (Byte.of '|', .pipe), (Byte.of '^', .caret),
   (Byte.of '~', .tilde), (Byte.of '<', .less), (Byte.of '>', .greater),
   (Byte.of '=', .assign), (Byte.of '(', .openParen),
   (Byte.of ')', .closeParen), (Byte.of '[', .openBracket),
   (Byte.of ']', .closeBracket), (Byte.of '\x7b', .openBrace),
   (Byte.of '\x7d', .closeBrace), (Byte.of ',', .comma),
   (Byte.of ':', .colon), (Byte.of '.', .dot), (Byte.of ';', .semicolon)]

/- The longest mark that bytes start with, and its length. -/
def mark? (bytes : List UInt8) : Option (Mark × Nat) :=
  match longMarks.find? fun entry => entry.1.isPrefixOf bytes with
  | some (written, mark) => some (mark, written.length)
  | none =>
      match bytes with
      | [] => none
      | b :: _ => (shortMarks.lookup b).map fun mark => (mark, 1)

/- The number of open brackets after a mark. A closing one without an opening one is ignored. -/
def bracketsAfter (brackets : Nat) : Mark → Nat
  | .openParen | .openBracket | .openBrace => brackets + 1
  | .closeParen | .closeBracket | .closeBrace => brackets - 1
  | _ => brackets

/- Reads a string whose first quote starts at `opening`. -/
def readString
    (state : LexState)
    (file : SourceFile)
    (first opening : Scanner)
    (quote : UInt8)
    (raw : Bool) :
    LexState :=
  let body := StringBody.read quote raw (opening.rest.drop 1)
  let last := opening.skipTo body.rest
  let state' :=
    if body.closed then state
    else
      state.report file .unterminatedString "unterminated string literal"
        (first.position.spanTo last.position)
  state'.emit first last (.str (Text.ofUtf8 body.content))

/- Reads a word: a string if it is the mark of one, else a keyword or name. -/
def readWord (state : LexState) (file : SourceFile) (first : Scanner) : LexState :=
  let last := first.skipWhile Byte.continuesWord
  let word := Text.ofUtf8 (first.read last)
  match last.peek? with
  | some b =>
      if (b == Byte.of '"' || b == Byte.of '\'') && opensString word then
        state.readString file first last b (isRawMark word)
      else
        state.emit first last ((TokenKind.ofWord? word).getD (.name word))
  | none => state.emit first last ((TokenKind.ofWord? word).getD (.name word))

/- Reads a number. -/
def readNumber (state : LexState) (file : SourceFile) (first : Scanner) : LexState :=
  let literal := NumberLiteral.read first.rest
  let last := first.skipTo literal.rest
  let state' :=
    match literal.fault with
    | none => state
    | some fault =>
        state.report file .invalidNumber fault.message
          (first.position.spanTo last.position)
  state'.emit first last literal.kind

/- Reads the end of a line, which counts only outside of brackets and after a token. -/
def readNewline (state : LexState) (first : Scanner) : LexState :=
  let state' := state.moveTo (first.skip 1)
  if state.brackets > 0 then state'
  else
    let state' := { state' with lineStart := true }
    match state.lastKind? with
    | none | some .newline => state'
    | some _ => state'.push .newline first.position.point

/- Reads a backslash, which must be the last character of its line. -/
def readContinuation (state : LexState) (file : SourceFile) (first : Scanner) : LexState :=
  let afterSlash := first.skip 1
  let last := (afterSlash.eat? 13).getD afterSlash
  match last.eat? 10 with
  | some nextLine => state.moveTo nextLine
  | none =>
      (state.moveTo last).report file .unexpectedCharacter
        "unexpected character after line continuation character"
        (first.position.spanTo last.position)

/- Reads a mark, or a character that no token starts with. -/
def readMark
    (state : LexState)
    (file : SourceFile)
    (first : Scanner)
    (b : UInt8) :
    LexState :=
  match mark? first.rest with
  | some (mark, length) =>
      { state.emit first (first.skip length) (.mark mark) with
        brackets := bracketsAfter state.brackets mark }
  | none =>
      let last := first.skip 1
      (state.moveTo last).report file .unexpectedCharacter
        ("invalid character '" ++ String.ofList [Char.ofNat b.toNat] ++ "'")
        (first.position.spanTo last.position)

/-
  Reads what stands at the next byte that is not a space: a
  token, a comment or the end of a line. Whether the text has
  ended is returned as well.
-/
def step (state : LexState) (file : SourceFile) : Bool × LexState :=
  let first := state.scanner.skipWhile Byte.isLineSpace
  match first.rest with
  | [] => (true, state.moveTo first)
  | b :: rest =>
      let nextIsDigit := (rest.head?.map Byte.isDigit).getD false
      (false,
        if b == 10 then state.readNewline first
        else if b == Byte.of '#' then state.moveTo (first.skipWhile (· != 10))
        else if b == Byte.of '\\' then state.readContinuation file first
        else if b == Byte.of '"' || b == Byte.of '\'' then
          state.readString file first first b false
        else if Byte.isDigit b || (b == Byte.of '.' && nextIsDigit) then
          state.readNumber file first
        else if Byte.startsWord b then state.readWord file first
        else state.readMark file first b)

/-
  Runs until the text ends or too many faults have been found.
  Every second step at least reads a byte, so that `fuel` of
  twice the length of the text is enough.
-/
def run (file : SourceFile) : (fuel : Nat) → LexState → LexState
  | 0, state => state
  | fuel + 1, state =>
      if state.errors.isFull then state
      else if state.lineStart && state.brackets == 0 then
        run file fuel (state.enterLine file)
      else
        match state.step file with
        | (true, state') => state'
        | (false, state') => run file fuel state'

/- Ends the last line, closes the open blocks and ends the text. -/
def finish (state : LexState) : Lexed :=
  let span := state.scanner.position.point
  let ended :=
    match state.lastKind? with
    | none | some .newline | some .dedent => state
    | some _ => state.push .newline span
  let closed := state.indents.foldl (fun st _ => st.push .dedent span) ended
  ⟨(closed.push .endOfFile span).tokens, state.errors⟩

end LexState

/- The tokens of a file. -/
def lex (file : SourceFile) : Lexed :=
  let bytes := Text.encodeUtf8 file.text
  (LexState.run file (2 * bytes.length + 4) { scanner := ⟨bytes, {}⟩ }).finish

end SnippetGrader
