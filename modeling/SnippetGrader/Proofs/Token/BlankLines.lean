import SnippetGrader.Proofs.Token.SameLine

/-
  Blank lines and lines with only a comment.

  Where a line is to be entered, a run passes over such a line
  and is then where it would have been without it. Up to there
  it goes in step with the run over the text without the line,
  since nothing that is read on a line depends on later lines;
  from there on both runs have the same bytes left.

  Key definitions include:
    * `BlankLine`
    * `LexState.Matches`, `ReadAlike`
    * `LexState.PassesTo`, `SourceFile.StartsLine`

  Key theorems include:
    * `LexState.Matches.round`
    * `LexState.Matches.passesTo`
    * `lex_blankLine`
-/

namespace SnippetGrader

------------------------------------------------------------
-- Blank Lines
------------------------------------------------------------

/- White space or a comment, up to the end of its line. -/
inductive BlankLine : List Char → Prop
  | empty :
      BlankLine ['\n']
  | returned :
      BlankLine ['\r', '\n']
  | comment
      {text : List Char}
      (hText : '\n' ∉ text) :
      BlankLine ('#' :: (text ++ ['\n']))
  | space
      {line : List Char}
      (hLine : BlankLine line) :
      BlankLine (' ' :: line)
  | tab
      {line : List Char}
      (hLine : BlankLine line) :
      BlankLine ('\t' :: line)

/- A line is blank by the byte after its indentation, and is the rest of it. -/
theorem BlankLine.bytes
    {line : List Char}
    (hLine : BlankLine line) :
    ∃ spaces b rest,
      line.flatMap String.utf8EncodeChar = spaces ++ (b :: rest) ∧
        (∀ space ∈ spaces, LexState.isIndentation space = true) ∧
          LexState.isIndentation b = false ∧
            LexState.blanksLine b = true ∧
              ∃ text, b :: rest = text ++ [10] ∧ 10 ∉ text := by
  induction hLine with
  | empty => exact ⟨[], 10, [], rfl, by simp, rfl, rfl, [], rfl, by simp⟩
  | returned =>
      exact ⟨[], 13, [10], rfl, by simp, rfl, rfl, [13], rfl, by simp⟩
  | @comment text hText =>
      have hNone : 10 ∉ text.flatMap String.utf8EncodeChar := by
        rw [List.mem_flatMap]
        rintro ⟨c, hChar, hMem⟩
        have hOther : c ≠ '\n' := by
          rintro rfl
          exact hText hChar
        have hCount := Text.count_utf8EncodeChar c
        rw [if_neg hOther] at hCount
        exact List.count_eq_zero.mp hCount hMem
      refine
        ⟨[], Byte.of '#', text.flatMap String.utf8EncodeChar ++ [10], ?_,
          by simp, rfl, rfl,
          Byte.of '#' :: text.flatMap String.utf8EncodeChar, rfl, ?_⟩
      · rw [List.flatMap_cons, List.flatMap_append]
        rfl
      · rw [List.mem_cons, not_or]
        exact ⟨by decide, hNone⟩
  | space _ ih =>
      obtain ⟨spaces, b, rest, hBytes, hSpaces, hFirst⟩ := ih
      refine ⟨Byte.of ' ' :: spaces, b, rest, ?_, ?_, hFirst⟩
      · rw [List.flatMap_cons, hBytes]
        rfl
      · exact List.forall_mem_cons.mpr ⟨rfl, hSpaces⟩
  | tab _ ih =>
      obtain ⟨spaces, b, rest, hBytes, hSpaces, hFirst⟩ := ih
      refine ⟨Byte.of '\t' :: spaces, b, rest, ?_, ?_, hFirst⟩
      · rw [List.flatMap_cons, hBytes]
        rfl
      · exact List.forall_mem_cons.mpr ⟨rfl, hSpaces⟩

/- A blank line leaves only the place behind it. -/
theorem LexState.enterLine_blank
    (state : LexState)
    (file : SourceFile)
    {line : List Char}
    (hLine : BlankLine line)
    {rest : List UInt8}
    (hRest :
      state.scanner.rest = line.flatMap String.utf8EncodeChar ++ rest) :
    ∃ last,
      last.rest = rest ∧
        state.enterLine file =
          { state with scanner := last, lineStart := true } := by
  obtain ⟨spaces, b, more, hBytes, hSpaces, hIndent, hBlank, text, hText,
    hNone⟩ := hLine.bytes
  rw [hBytes, List.append_assoc] at hRest
  have hFirst :
      (state.scanner.skipWhile isIndentation).rest = b :: more ++ rest := by
    simp only [Scanner.skipWhile, hRest]
    rw [List.dropWhile_append_of_pos hSpaces, List.cons_append,
      List.dropWhile_cons_of_neg (by simp [hIndent])]
  refine
    ⟨((state.scanner.skipWhile isIndentation).skipWhile (· != 10)).skip 1,
      ?_, ?_⟩
  · have hFeed :
        ((state.scanner.skipWhile isIndentation).skipWhile (· != 10)).rest =
          10 :: rest := by
      simp only [Scanner.skipWhile] at hFirst ⊢
      rw [hFirst, hText, List.append_assoc, List.dropWhile_append_of_pos]
      · rfl
      · intro c hMem
        rw [bne_iff_ne]
        rintro rfl
        exact hNone hMem
    exact Scanner.rest_skip hFeed
  · simp only [enterLine, Scanner.peek?, hFirst, List.cons_append,
      List.head?_cons]
    exact if_pos hBlank

------------------------------------------------------------
-- Two Texts
------------------------------------------------------------

/- The same bytes of two texts have been read. -/
def ReadAlike (bytes other rest rest' : List UInt8) : Prop :=
  ∃ read, bytes = read ++ rest ∧ other = read ++ rest'

namespace ReadAlike

variable {bytes other rest rest' last last' : List UInt8}

theorem refl
    (bytes other : List UInt8) :
    ReadAlike bytes other bytes other :=
  ⟨[], rfl, rfl⟩

theorem trans
    (hFirst : ReadAlike bytes other rest rest')
    (hLast : ReadAlike rest rest' last last') :
    ReadAlike bytes other last last' := by
  obtain ⟨read, rfl, rfl⟩ := hFirst
  obtain ⟨more, rfl, rfl⟩ := hLast
  exact ⟨read ++ more, (List.append_assoc ..).symm, (List.append_assoc ..).symm⟩

/- What has been read in between has been read alike as well. -/
theorem between
    (hFirst : ReadAlike bytes other rest rest')
    (hAll : ReadAlike bytes other last last')
    (hLast : last <:+ rest) :
    ReadAlike rest rest' last last' := by
  obtain ⟨read, rfl, rfl⟩ := hFirst
  obtain ⟨all, hBytes, hOther⟩ := hAll
  obtain ⟨more, rfl⟩ := hLast
  rw [← List.append_assoc] at hBytes
  obtain rfl := List.append_cancel_right hBytes
  rw [List.append_assoc] at hOther
  exact ⟨more, rfl, List.append_cancel_left hOther⟩

/- Where the same bytes are left of one text, they are left of the other one. -/
theorem rest_eq
    (hAlike : ReadAlike bytes bytes rest rest') :
    rest = rest' := by
  obtain ⟨read, rfl, hOther⟩ := hAlike
  exact List.append_cancel_left hOther

theorem cons
    (b : UInt8)
    (rest rest' : List UInt8) :
    ReadAlike (b :: rest) (b :: rest') rest rest' :=
  ⟨[b], rfl, rfl⟩

theorem dropWhile
    {p : UInt8 → Bool}
    (hSame : SameLine bytes other)
    (hFeed : p 10 = false) :
    ReadAlike bytes other (bytes.dropWhile p) (other.dropWhile p) := by
  refine ⟨bytes.takeWhile p, List.takeWhile_append_dropWhile.symm, ?_⟩
  rw [← hSame.takeWhile_eq hFeed]
  exact List.takeWhile_append_dropWhile.symm

/- A line is passed alike, together with its line feed. -/
theorem dropLine
    (hSame : SameLine bytes other) :
    ReadAlike bytes other ((bytes.dropWhile (· != 10)).drop 1)
      ((other.dropWhile (· != 10)).drop 1) := by
  have hLine := hSame.dropWhile (p := (· != 10)) rfl
  refine (dropWhile hSame (p := (· != 10)) rfl).trans ?_
  cases hDrop : bytes.dropWhile (· != 10) with
  | nil =>
      rw [hDrop] at hLine
      rw [hLine.eq_nil]
      exact refl _ _
  | cons b rest =>
      rw [hDrop] at hLine
      obtain ⟨rest', hOther, -⟩ := hLine.of_cons
      rw [hOther]
      exact cons b rest rest'

end ReadAlike

/- The codes of the faults that are stored. -/
def Diagnostics.codes (faults : Diagnostics) : List ErrorCode :=
  faults.stored.map (·.code)

namespace LexState

/- States of runs over two texts that have found the same. -/
structure Matches (state other : LexState) : Prop where
  kinds : other.kinds = state.kinds
  codes : other.errors.codes = state.errors.codes
  total : other.errors.total = state.errors.total
  brackets : other.brackets = state.brackets
  indents : other.indents = state.indents
  lineStart : other.lineStart = state.lineStart

/- States that have found the same in the same bytes of two texts. -/
structure Follows
    (bytes other : List UInt8)
    (next next' : LexState) :
    Prop where
  found : next.Matches next'
  read : ReadAlike bytes other next.scanner.rest next'.scanner.rest

section Steps

variable {file file' : SourceFile}
variable {state other next : LexState}
variable {first first' last last' : Scanner}
variable {b : UInt8}
variable {bytes bytes' rest rest' : List UInt8}

theorem Follows.before
    (hRead : ReadAlike bytes bytes' rest rest')
    {next' : LexState}
    (hFollows : Follows rest rest' next next') :
    Follows bytes bytes' next next' :=
  ⟨hFollows.found, hRead.trans hFollows.read⟩

theorem Matches.moveTo
    (hMatches : state.Matches other)
    (last last' : Scanner) :
    (state.moveTo last).Matches (other.moveTo last') :=
  ⟨hMatches.kinds, hMatches.codes, hMatches.total, hMatches.brackets,
    hMatches.indents, hMatches.lineStart⟩

theorem Matches.push
    (hMatches : state.Matches other)
    (kind : TokenKind)
    (span span' : Span) :
    (state.push kind span).Matches (other.push kind span') := by
  refine ⟨?_, hMatches.codes, hMatches.total, hMatches.brackets,
    hMatches.indents, hMatches.lineStart⟩
  rw [kinds_push, kinds_push, hMatches.kinds]

theorem Matches.emit
    (hMatches : state.Matches other)
    (first first' last last' : Scanner)
    (kind : TokenKind) :
    (state.emit first last kind).Matches (other.emit first' last' kind) :=
  (hMatches.moveTo last last').push kind _ _

theorem Matches.closeBlocks
    (hMatches : state.Matches other)
    (closed : List Nat)
    (span span' : Span) :
    (state.closeBlocks closed span).Matches
      (other.closeBlocks closed span') := by
  induction closed generalizing state other with
  | nil => exact hMatches
  | cons width closed ih => exact ih (hMatches.push .dedent _ _)

theorem Matches.withIndents
    (hMatches : state.Matches other)
    (indents : List Nat) :
    Matches { state with indents := indents }
      { other with indents := indents } :=
  ⟨hMatches.kinds, hMatches.codes, hMatches.total, hMatches.brackets, rfl,
    hMatches.lineStart⟩

theorem Matches.withLineStart
    (hMatches : state.Matches other)
    (lineStart : Bool) :
    Matches { state with lineStart := lineStart }
      { other with lineStart := lineStart } :=
  ⟨hMatches.kinds, hMatches.codes, hMatches.total, hMatches.brackets,
    hMatches.indents, rfl⟩

theorem Matches.report
    (hMatches : state.Matches other)
    (file file' : SourceFile)
    (code : ErrorCode)
    (message message' : String)
    (span span' : Span) :
    (state.report file code message span).Matches
      (other.report file' code message' span') := by
  refine ⟨hMatches.kinds, ?_, congrArg (· + 1) hMatches.total,
    hMatches.brackets, hMatches.indents, hMatches.lineStart⟩
  have hCodes := hMatches.codes
  have hLength := congrArg List.length hCodes
  simp only [Diagnostics.codes, List.length_map] at hCodes hLength
  simp only [LexState.report, Diagnostics.push, Diagnostics.codes, hLength]
  split
  · rw [List.map_append, List.map_append, hCodes]
    rfl
  · exact hCodes

theorem Matches.isFull
    (hMatches : state.Matches other) :
    other.errors.isFull = state.errors.isFull := by
  rw [Diagnostics.isFull, Diagnostics.isFull, hMatches.total]

theorem Matches.entersNext
    (hMatches : state.Matches other) :
    other.entersNext = state.entersNext := by
  rw [LexState.entersNext, LexState.entersNext, hMatches.lineStart,
    hMatches.brackets]

/- The start of a line. -/
theorem Matches.enterLine
    (hMatches : state.Matches other)
    (hSame : SameLine state.scanner.rest other.scanner.rest) :
    Follows state.scanner.rest other.scanner.rest (state.enterLine file)
      (other.enterLine file') := by
  have hSpaces : ReadAlike _ _ _ _ :=
    .dropWhile hSame (p := isIndentation) rfl
  have hRest := hSame.dropWhile (p := isIndentation) rfl
  have hWidth := hSame.indentWidth_eq 0
  have hMoved
      (lineStart : Bool)
      (last last' : Scanner) :
      Matches { state with scanner := last, lineStart := lineStart }
        { other with
          scanner := last'
          indents := state.indents
          lineStart := lineStart } :=
    ⟨hMatches.kinds, hMatches.codes, hMatches.total, hMatches.brackets, rfl,
      rfl⟩
  simp only [LexState.enterLine, Scanner.peek?]
  rw [hMatches.indents, hWidth]
  change SameLine (state.scanner.skipWhile isIndentation).rest
    (other.scanner.skipWhile isIndentation).rest at hRest
  change ReadAlike _ _ (state.scanner.skipWhile isIndentation).rest
    (other.scanner.skipWhile isIndentation).rest at hSpaces
  generalize state.scanner.skipWhile isIndentation = scanner at *
  generalize other.scanner.skipWhile isIndentation = scanner' at *
  have hEntered := hMoved false scanner scanner'
  rw [← hRest.head?_eq]
  split
  · exact ⟨hEntered, hSpaces⟩
  split
  · exact ⟨hMoved true _ _, hSpaces.trans (.dropLine hRest)⟩
  split
  · exact ⟨(hEntered.push .indent _ _).withIndents _, hSpaces⟩
  split
  · exact ⟨hEntered, hSpaces⟩
  split
  · refine ⟨(hEntered.closeBlocks _ _ _).withIndents _, ?_⟩
    change ReadAlike _ _ (LexState.closeBlocks _ _ _).scanner.rest
      (LexState.closeBlocks _ _ _).scanner.rest
    rw [scanner_closeBlocks, scanner_closeBlocks]
    exact hSpaces
  · have hReported :=
      hEntered.report file file' .inconsistentDedent
        "unindent does not match any outer indentation level"
        "unindent does not match any outer indentation level"
        scanner.position.point scanner'.position.point
    rw [hReported.isFull]
    refine ⟨(hReported.closeBlocks _ _ _).withIndents _, ?_⟩
    change ReadAlike _ _ (LexState.closeBlocks _ _ _).scanner.rest
      (LexState.closeBlocks _ _ _).scanner.rest
    rw [scanner_closeBlocks, scanner_closeBlocks]
    exact hSpaces

theorem Matches.readNewline
    (hMatches : state.Matches other)
    (hFirst : first.rest = 10 :: rest)
    (hFirst' : first'.rest = 10 :: rest') :
    Follows first.rest first'.rest (state.readNewline first)
      (other.readNewline first') := by
  have hMoved := hMatches.moveTo (first.skip 1) (first'.skip 1)
  have hStarted := hMoved.withLineStart true
  refine ⟨?_, ?_⟩
  · simp only [LexState.readNewline, lastKind?_eq, hMatches.brackets,
      hMatches.kinds]
    split
    · exact hMoved
    split
    · exact hStarted
    · exact hStarted
    · exact hStarted.push .newline _ _
  · rw [scanner_readNewline, scanner_readNewline, Scanner.rest_skip hFirst,
      Scanner.rest_skip hFirst', hFirst, hFirst']
    exact .cons 10 rest rest'

/- The next byte is eaten from both texts or from neither. -/
theorem eat?_sameLine
    (hSame : SameLine first.rest first'.rest)
    (b : UInt8) :
    first.eat? b = none ∧ first'.eat? b = none ∨
      ∃ last last',
        first.eat? b = some last ∧ first'.eat? b = some last' ∧
          ReadAlike first.rest first'.rest last.rest last'.rest ∧
            (b ≠ 10 → SameLine last.rest last'.rest) := by
  by_cases hNext : first.rest.head? = some b
  · obtain ⟨rest, hRest⟩ := List.head?_eq_some_iff.mp hNext
    rw [hRest] at hSame
    obtain ⟨rest', hRest', hLine⟩ := hSame.of_cons
    refine .inr
      ⟨_, _, Scanner.eat?_eq_some hRest, Scanner.eat?_eq_some hRest', ?_, ?_⟩
    · rw [Scanner.rest_skip hRest, Scanner.rest_skip hRest', hRest, hRest']
      exact .cons b rest rest'
    · rw [Scanner.rest_skip hRest, Scanner.rest_skip hRest']
      exact hLine
  · have hNext' := hNext
    rw [hSame.head?_eq] at hNext'
    rw [← beq_iff_eq] at hNext hNext'
    exact .inl ⟨if_neg hNext, if_neg hNext'⟩

theorem Matches.readContinuation
    (hMatches : state.Matches other)
    (hFirst : first.rest = Byte.of '\\' :: rest)
    (hFirst' : first'.rest = Byte.of '\\' :: rest')
    (hSame : SameLine rest rest') :
    Follows first.rest first'.rest (state.readContinuation file first)
      (other.readContinuation file' first') := by
  have hSlash :
      ReadAlike first.rest first'.rest (first.skip 1).rest
        (first'.skip 1).rest := by
    rw [Scanner.rest_skip hFirst, Scanner.rest_skip hFirst', hFirst, hFirst']
    exact .cons _ rest rest'
  rw [← Scanner.rest_skip hFirst, ← Scanner.rest_skip hFirst'] at hSame
  simp only [LexState.readContinuation]
  generalize first.skip 1 = slash at *
  generalize first'.skip 1 = slash' at *
  -- A carriage return may stand between the backslash and the line feed.
  obtain ⟨last, last', hLast, hLast', hRead, hLine⟩ :
      ∃ last last',
        (slash.eat? 13).getD slash = last ∧
          (slash'.eat? 13).getD slash' = last' ∧
            ReadAlike slash.rest slash'.rest last.rest last'.rest ∧
              SameLine last.rest last'.rest := by
    rcases eat?_sameLine hSame 13 with ⟨hNone, hNone'⟩ |
      ⟨last, last', hSome, hSome', hRead, hLine⟩
    · rw [hNone, hNone']
      exact ⟨_, _, rfl, rfl, .refl _ _, hSame⟩
    · rw [hSome, hSome']
      exact ⟨_, _, rfl, rfl, hRead, hLine (by decide)⟩
  rw [hLast, hLast']
  rcases eat?_sameLine hLine 10 with ⟨hNone, hNone'⟩ |
    ⟨next, next', hSome, hSome', hFeed, -⟩
  · rw [hNone, hNone']
    exact
      ⟨(hMatches.moveTo last last').report _ _ _ _ _ _ _, hSlash.trans hRead⟩
  · rw [hSome, hSome']
    exact ⟨hMatches.moveTo next next', (hSlash.trans hRead).trans hFeed⟩

/- What is left after a string is what is left after its body. -/
theorem rest_readString
    {opening : Scanner}
    {quote : UInt8}
    (hOpening : opening.rest = quote :: rest)
    (raw : Bool) :
    (state.readString file first opening quote raw).scanner.rest =
      (StringBody.read quote raw rest).rest := by
  obtain ⟨used, hUsed⟩ := StringBody.suffix_read quote raw rest
  have hBytes :
      opening.rest =
        (quote :: used) ++ (StringBody.read quote raw rest).rest := by
    rw [hOpening, List.cons_append, hUsed]
  have hDrop : opening.rest.drop 1 = rest := Scanner.rest_skip hOpening
  simp only [LexState.readString, hDrop]
  exact (Scanner.reaches_skipTo hBytes).2

/- A string, if the texts are the same up to the end of its last line. -/
theorem Matches.readString
    (hMatches : state.Matches other)
    {opening opening' : Scanner}
    {quote : UInt8}
    (hQuote : quote ≠ 10)
    (hOpening : opening.rest = quote :: rest)
    (hOpening' : opening'.rest = quote :: rest')
    (raw : Bool)
    (hAhead :
      ∃ left,
        ReadAlike opening.rest opening'.rest
            (state.readString file first opening quote raw).scanner.rest
            left ∧
          SameLine
            (state.readString file first opening quote raw).scanner.rest
            left) :
    Follows opening.rest opening'.rest
      (state.readString file first opening quote raw)
      (other.readString file' first' opening' quote raw) := by
  have hDrop : opening.rest.drop 1 = rest := Scanner.rest_skip hOpening
  have hDrop' : opening'.rest.drop 1 = rest' := Scanner.rest_skip hOpening'
  rw [rest_readString hOpening] at hAhead
  obtain ⟨left, hRead, hLine⟩ := hAhead
  -- The other string is made of the same bytes.
  have hOpened : ReadAlike opening.rest opening'.rest rest rest' := by
    rw [hOpening, hOpening']
    exact .cons quote rest rest'
  obtain ⟨more, hMore, hMore'⟩ :=
    hOpened.between hRead (StringBody.suffix_read quote raw rest)
  have hBody := StringBody.read_sameLine hQuote raw hMore hLine
  rw [← hMore'] at hBody
  refine ⟨?_, ?_⟩
  · simp only [LexState.readString, hDrop, hDrop', hBody]
    split
    · exact hMatches.emit _ _ _ _ _
    · exact (hMatches.report _ _ _ _ _ _ _).emit _ _ _ _ _
  · rw [rest_readString hOpening, rest_readString hOpening', hBody]
    exact hRead

theorem Matches.readWord
    (hMatches : state.Matches other)
    (hSame : SameLine first.rest first'.rest)
    (hAhead :
      ∃ left,
        ReadAlike first.rest first'.rest
            (state.readWord file first).scanner.rest left ∧
          SameLine (state.readWord file first).scanner.rest left) :
    Follows first.rest first'.rest (state.readWord file first)
      (other.readWord file' first') := by
  have hLine := hSame.dropWhile (p := Byte.continuesWord) rfl
  have hWord :
      ReadAlike first.rest first'.rest
        (first.skipWhile Byte.continuesWord).rest
        (first'.skipWhile Byte.continuesWord).rest :=
    .dropWhile hSame rfl
  have hRead' :
      first'.read (first'.skipWhile Byte.continuesWord) =
        first.read (first.skipWhile Byte.continuesWord) := by
    rw [read_skipWhile, read_skipWhile, hSame.takeWhile_eq rfl]
  change SameLine (first.skipWhile Byte.continuesWord).rest
    (first'.skipWhile Byte.continuesWord).rest at hLine
  simp only [LexState.readWord, hRead'] at hAhead ⊢
  generalize first.skipWhile Byte.continuesWord = last at *
  generalize first'.skipWhile Byte.continuesWord = last' at *
  generalize Text.ofUtf8 (first.read last) = word at *
  have hEmitted :
      Follows first.rest first'.rest
        (state.emit first last ((TokenKind.ofWord? word).getD (.name word)))
        (other.emit first' last'
          ((TokenKind.ofWord? word).getD (.name word))) :=
    ⟨hMatches.emit _ _ _ _ _, hWord⟩
  simp only [Scanner.peek?] at hAhead ⊢
  rw [← hLine.head?_eq]
  cases hNext : last.rest.head? with
  | none => exact hEmitted
  | some quote =>
      rw [hNext] at hAhead
      dsimp only at hAhead ⊢
      split
      · rename_i hOpens
        rw [if_pos hOpens] at hAhead
        obtain ⟨rest, hRest⟩ := List.head?_eq_some_iff.mp hNext
        have hQuote : quote ≠ 10 := by
          rintro rfl
          simp only [Bool.and_eq_true] at hOpens
          exact absurd hOpens.1 (by decide)
        obtain ⟨left, hAll, hLeft⟩ := hAhead
        rw [hRest] at hLine
        obtain ⟨rest', hRest', -⟩ := hLine.of_cons
        have hSuffix :
            (state.readString file first last quote
              (isRawMark word)).scanner.rest <:+ last.rest := by
          rw [rest_readString hRest, hRest]
          exact (StringBody.suffix_read ..).trans (List.suffix_cons _ _)
        exact
          (hMatches.readString hQuote hRest hRest' (isRawMark word)
            ⟨left, hWord.between hAll hSuffix, hLeft⟩).before hWord
      · exact hEmitted

theorem Matches.readNumber
    (hMatches : state.Matches other)
    (hFirst : first.rest = b :: rest)
    (hStarts : Byte.isDigit b = true ∨ b = Byte.of '.')
    (hSame : SameLine first.rest first'.rest) :
    Follows first.rest first'.rest (state.readNumber file first)
      (other.readNumber file' first') := by
  obtain ⟨read, -, hBytes, -⟩ := NumberLiteral.readsAscii_read hStarts rest
  rw [← hFirst] at hBytes
  obtain ⟨left, hBytes', hNumber⟩ := NumberLiteral.read_sameLine hSame hBytes
  have hLeft := (Scanner.reaches_skipTo hBytes).2
  have hLeft' := (Scanner.reaches_skipTo hBytes').2
  simp only [LexState.readNumber, hNumber]
  refine ⟨?_, ?_⟩
  · split
    · exact hMatches.emit _ _ _ _ _
    · exact (hMatches.report _ _ _ _ _ _ _).emit _ _ _ _ _
  · change ReadAlike _ _ (first.skipTo _).rest (first'.skipTo _).rest
    rw [hLeft, hLeft']
    exact ⟨read, hBytes, hBytes'⟩

theorem Matches.readMark
    (hMatches : state.Matches other)
    (hFirst : first.rest = b :: rest)
    (hFirst' : first'.rest = b :: rest')
    (hSame : SameLine first.rest first'.rest) :
    Follows first.rest first'.rest (state.readMark file first b)
      (other.readMark file' first' b) := by
  simp only [LexState.readMark, hSame.mark?_eq]
  cases hMark : mark? first.rest with
  | none =>
      refine ⟨(hMatches.moveTo _ _).report _ _ _ _ _ _ _, ?_⟩
      change ReadAlike _ _ (first.skip 1).rest (first'.skip 1).rest
      rw [Scanner.rest_skip hFirst, Scanner.rest_skip hFirst', hFirst,
        hFirst']
      exact .cons b rest rest'
  | some found =>
      obtain ⟨mark, length⟩ := found
      obtain ⟨written, after, hBytes, hLength, hNone⟩ := take_of_mark? hMark
      rw [hBytes] at hSame
      obtain ⟨after', hBytes', -⟩ := hSame.after hNone
      have hEmitted :=
        hMatches.emit first first' (first.skip length) (first'.skip length)
          (.mark mark)
      refine ⟨⟨hEmitted.kinds, hEmitted.codes, hEmitted.total, ?_,
        hEmitted.indents, hEmitted.lineStart⟩, ?_⟩
      · dsimp only
        rw [hMatches.brackets]
      · change ReadAlike _ _ (first.rest.drop length)
          (first'.rest.drop length)
        rw [hBytes, hBytes', ← hLength, List.drop_left, List.drop_left]
        exact ⟨written, rfl, rfl⟩

/- A string or a word does not lead to the start of a line. -/
theorem entersNext_readString
    {opening : Scanner}
    {quote : UInt8}
    {raw : Bool} :
    (state.readString file first opening quote raw).entersNext =
      state.entersNext := by
  simp only [LexState.readString]
  split <;> rfl

theorem entersNext_readWord :
    (state.readWord file first).entersNext = state.entersNext := by
  simp only [LexState.readWord]
  split
  · split
    · exact entersNext_readString
    · rfl
  · rfl

/-
  A step finds the same in both texts, if they are the same up
  to the end of the line on which it ends.
-/
theorem Matches.step
    (hMatches : state.Matches other)
    (hSame : SameLine state.scanner.rest other.scanner.rest)
    (hInside : state.entersNext = false)
    {ended : Bool}
    (hStep : state.step file = (ended, next))
    (hAhead :
      next.entersNext = false →
        ∃ left,
          ReadAlike state.scanner.rest other.scanner.rest next.scanner.rest
              left ∧
            SameLine next.scanner.rest left) :
    ∃ next',
      other.step file' = (ended, next') ∧
        Follows state.scanner.rest other.scanner.rest next next' := by
  have hSpaces :
      ReadAlike state.scanner.rest other.scanner.rest
        (state.scanner.skipWhile Byte.isLineSpace).rest
        (other.scanner.skipWhile Byte.isLineSpace).rest :=
    .dropWhile hSame rfl
  have hLine := hSame.dropWhile (p := Byte.isLineSpace) rfl
  change SameLine (state.scanner.skipWhile Byte.isLineSpace).rest
    (other.scanner.skipWhile Byte.isLineSpace).rest at hLine
  have hSuffix :
      ended = false →
        next.scanner.rest <:+
          (state.scanner.skipWhile Byte.isLineSpace).rest := by
    rintro rfl
    exact (finds_step hStep).rest_suffix
  simp only [LexState.step] at hStep ⊢
  generalize state.scanner.skipWhile Byte.isLineSpace = first at *
  generalize other.scanner.skipWhile Byte.isLineSpace = first' at *
  cases hFirst : first.rest with
  | nil =>
      have hFirst' : first'.rest = [] := by
        rw [hFirst] at hLine
        exact hLine.eq_nil
      rw [hFirst] at hStep
      obtain ⟨rfl, rfl⟩ := Prod.mk.inj hStep
      rw [hFirst']
      exact ⟨_, rfl, hMatches.moveTo first first', hSpaces⟩
  | cons b rest =>
      obtain ⟨rest', hFirst', hLater⟩ :
          ∃ rest', first'.rest = b :: rest' ∧
            (b ≠ 10 → SameLine rest rest') := by
        rw [hFirst] at hLine
        exact hLine.of_cons
      rw [hFirst] at hStep
      obtain ⟨rfl, hNext⟩ := Prod.mk.inj hStep
      rw [hFirst']
      refine ⟨_, rfl, .before hSpaces ?_⟩
      have hAhead' (hIn : next.entersNext = false) :
          ∃ left,
            ReadAlike first.rest first'.rest next.scanner.rest left ∧
              SameLine next.scanner.rest left := by
        obtain ⟨left, hRead, hLeft⟩ := hAhead hIn
        exact ⟨left, hSpaces.between hRead (hSuffix rfl), hLeft⟩
      clear hAhead hSuffix hSpaces
      subst hNext
      split
      · rename_i hFeed
        rw [beq_iff_eq.mp hFeed] at hFirst hFirst'
        exact hMatches.readNewline hFirst hFirst'
      rename_i hFeed
      have hByte : b ≠ 10 := fun hSame => hFeed (beq_iff_eq.mpr hSame)
      have hHead :
          (rest'.head?.map Byte.isDigit).getD false =
            (rest.head?.map Byte.isDigit).getD false := by
        rw [(hLater hByte).head?_eq]
      rw [hHead]
      rw [if_neg hFeed] at hAhead'
      split
      · exact ⟨hMatches.moveTo _ _, .dropWhile hLine rfl⟩
      rename_i hHash
      rw [if_neg hHash] at hAhead'
      split
      · rename_i hSlash
        rw [beq_iff_eq.mp hSlash] at hFirst hFirst'
        exact hMatches.readContinuation hFirst hFirst' (hLater hByte)
      rename_i hSlash
      rw [if_neg hSlash] at hAhead'
      split
      · rename_i hQuote
        rw [if_pos hQuote] at hAhead'
        exact hMatches.readString hByte hFirst hFirst' false
          (hAhead' (entersNext_readString.trans hInside))
      rename_i hQuote
      rw [if_neg hQuote] at hAhead'
      split
      · rename_i hNumber
        simp only [Bool.or_eq_true, Bool.and_eq_true, beq_iff_eq] at hNumber
        exact hMatches.readNumber hFirst (hNumber.imp id And.left) hLine
      rename_i hNumber
      rw [if_neg hNumber] at hAhead'
      split
      · rename_i hWord
        rw [if_pos hWord] at hAhead'
        exact hMatches.readWord hLine
          (hAhead' (entersNext_readWord.trans hInside))
      · exact hMatches.readMark hFirst hFirst' hLine

/- So does a round. -/
theorem Matches.round
    (hMatches : state.Matches other)
    (file' : SourceFile)
    (hSame : SameLine state.scanner.rest other.scanner.rest)
    {ended : Bool}
    (hRound : state.round file = (ended, next))
    (hAhead :
      next.entersNext = false →
        ∃ left,
          ReadAlike state.scanner.rest other.scanner.rest next.scanner.rest
              left ∧
            SameLine next.scanner.rest left) :
    ∃ next',
      other.round file' = (ended, next') ∧
        Follows state.scanner.rest other.scanner.rest next next' := by
  unfold LexState.round at hRound ⊢
  rw [hMatches.entersNext]
  split
  · rename_i hStart
    rw [if_pos hStart] at hRound
    obtain ⟨rfl, rfl⟩ := Prod.mk.inj hRound
    exact ⟨_, rfl, hMatches.enterLine hSame⟩
  · rename_i hInside
    rw [if_neg hInside] at hRound
    exact hMatches.step hSame (Bool.eq_false_iff.mpr hInside) hRound hAhead

/- Runs that have the same bytes left find the same. -/
theorem Matches.runsTo
    {ended : LexState}
    (hRun : RunsTo file state ended)
    (file' : SourceFile)
    (hMatches : state.Matches other)
    (hRest : other.scanner.rest = state.scanner.rest) :
    ∃ ended', RunsTo file' other ended' ∧ ended.Matches ended' := by
  have hRound {state other next : LexState} {last : Bool}
      (hMatches : state.Matches other)
      (hRest : other.scanner.rest = state.scanner.rest)
      (hRound : state.round file = (last, next)) :
      ∃ next',
        other.round file' = (last, next') ∧ next.Matches next' ∧
          next'.scanner.rest = next.scanner.rest := by
    have hSuffix : next.scanner.rest <:+ state.scanner.rest := by
      cases last with
      | true =>
          rw [(round_ended hRound).2]
          exact List.nil_suffix
      | false => exact rest_suffix_round hRound
    obtain ⟨read, hRead⟩ := hSuffix
    have hSame : SameLine state.scanner.rest other.scanner.rest := by
      rw [hRest]
      exact .same _
    obtain ⟨next', hRound', hFollows⟩ :=
      hMatches.round file' hSame hRound fun _ =>
        ⟨_, ⟨read, hRead.symm, hRest.trans hRead.symm⟩, .same _⟩
    have hLeft := hFollows.read
    rw [hRest] at hLeft
    exact ⟨next', hRound', hFollows.found, hLeft.rest_eq.symm⟩
  induction hRun generalizing other with
  | full hFull => exact ⟨other, .full (hMatches.isFull.trans hFull), hMatches⟩
  | ended hOpen hEnd =>
      obtain ⟨ended', hEnd', hMatches', -⟩ := hRound hMatches hRest hEnd
      exact ⟨ended', .ended (hMatches.isFull.trans hOpen) hEnd', hMatches'⟩
  | again hOpen hNext _ ih =>
      obtain ⟨next', hNext', hMatches', hRest'⟩ := hRound hMatches hRest hNext
      obtain ⟨ended', hRun', hEnd⟩ := ih hMatches' hRest'
      exact
        ⟨ended', .again (hMatches.isFull.trans hOpen) hNext' hRun', hEnd⟩

end Steps

------------------------------------------------------------
-- Up to a Line
------------------------------------------------------------

/- A part of a run, from one state to a later one. -/
inductive PassesTo (file : SourceFile) : LexState → LexState → Prop
  | here
      (state : LexState) :
      PassesTo file state state
  | again
      {state next last : LexState}
      (hOpen : state.errors.isFull = false)
      (hRound : state.round file = (false, next))
      (hRest : PassesTo file next last) :
      PassesTo file state last

section Parts

variable {file file' : SourceFile}
variable {state other next last : LexState}
variable {tail tail' : List UInt8}

/- A run of some rounds passes to the start of a line that it comes to. -/
theorem passesTo_run
    {rounds : Nat}
    (hStart : (run file rounds state).entersNext = true) :
    PassesTo file state (run file rounds state) := by
  induction rounds generalizing state with
  | zero => exact .here state
  | succ rounds ih =>
      simp only [run] at hStart ⊢
      split
      · exact .here state
      rename_i hOpen
      rw [if_neg hOpen] at hStart
      rw [Bool.not_eq_true] at hOpen
      split
      · rename_i hLine
        rw [if_pos hLine] at hStart
        exact .again hOpen (if_pos hLine) (ih hStart)
      rename_i hInside
      rw [if_neg hInside] at hStart
      have hRound : state.round file = state.step file := if_neg hInside
      cases hStep : state.step file with
      | mk ended next =>
          rw [hStep] at hStart hRound
          cases ended with
          | true =>
              obtain ⟨rfl, -⟩ := step_ended hStep
              exact absurd hStart hInside
          | false => exact .again hOpen hRound (ih hStart)

theorem PassesTo.runsTo
    {ended : LexState}
    (hPasses : PassesTo file state last)
    (hRun : RunsTo file last ended) :
    RunsTo file state ended := by
  induction hPasses with
  | here => exact hRun
  | again hOpen hRound _ ih => exact .again hOpen hRound (ih hRun)

theorem PassesTo.rest_suffix
    (hPasses : PassesTo file state last) :
    last.scanner.rest <:+ state.scanner.rest := by
  induction hPasses with
  | here => exact List.suffix_rfl
  | again _ hRound _ ih => exact ih.trans (rest_suffix_round hRound)

theorem PassesTo.roundsLeft_le
    (hPasses : PassesTo file state last) :
    last.roundsLeft ≤ state.roundsLeft := by
  induction hPasses with
  | here => exact le_rfl
  | again _ hRound _ ih => exact ih.trans (roundsLeft_lt hRound).le

/- The start of a line is the first state with its bytes left. -/
theorem PassesTo.eq_of_rest
    (hPasses : PassesTo file state last)
    (hStart : last.entersNext = true)
    (hRest : state.scanner.rest = last.scanner.rest) :
    state = last := by
  cases hPasses with
  | here => rfl
  | again _ hRound hRest' =>
      have hFewer := (roundsLeft_lt hRound).trans_le' hRest'.roundsLeft_le
      have hLine : last.lineStart = true := (Bool.and_eq_true_iff.mp hStart).1
      rw [roundsLeft, roundsLeft, hRest, hLine, if_pos rfl] at hFewer
      split at hFewer <;> omega

/-
  What is left of two texts that differ behind the end of a
  line: as much as is different, or more by whole lines.
-/
inductive WholeLines (tail tail' : List UInt8) :
    List UInt8 → List UInt8 → Prop
  | ended :
      WholeLines tail tail' tail tail'
  | before
      (lines : List UInt8) :
      WholeLines tail tail' (lines ++ 10 :: tail) (lines ++ 10 :: tail')

theorem WholeLines.eq_tail
    {bytes other : List UInt8}
    (hLines : WholeLines tail tail' bytes other)
    (hEnd : bytes = tail) :
    other = tail' := by
  cases hLines with
  | ended => rfl
  | before lines =>
      have hLength := congrArg List.length hEnd
      simp only [List.length_append, List.length_cons] at hLength
      omega

theorem WholeLines.sameLine
    {bytes other : List UInt8}
    (hLines : WholeLines tail tail' bytes other)
    (hMore : bytes ≠ tail) :
    SameLine bytes other := by
  cases hLines with
  | ended => exact absurd rfl hMore
  | before lines => exact .feed lines tail tail'

/- What is left later are whole lines again. -/
theorem WholeLines.later
    {bytes other rest : List UInt8}
    (hLines : WholeLines tail tail' bytes other)
    (hRest : rest <:+ bytes)
    (hTail : tail <:+ rest) :
    ∃ left,
      ReadAlike bytes other rest left ∧
        WholeLines tail tail' rest left := by
  cases hLines with
  | ended =>
      obtain rfl := hRest.eq_of_length_le hTail.length_le
      exact ⟨tail', .refl _ _, .ended⟩
  | before lines =>
      obtain ⟨read, hRead⟩ := hRest
      obtain ⟨more, rfl⟩ := hTail
      have hBytes : read ++ more ++ tail = lines ++ [10] ++ tail := by
        rw [List.append_assoc, hRead, List.append_assoc]
        rfl
      have hMore := List.append_cancel_right hBytes
      rcases List.eq_nil_or_concat' more with rfl | ⟨later, b, rfl⟩
      · refine ⟨tail', ⟨read, hRead.symm, ?_⟩, .ended⟩
        rw [List.append_nil] at hMore
        rw [hMore, List.append_assoc]
        rfl
      · rw [← List.append_assoc] at hMore
        obtain ⟨rfl, hFeed⟩ := List.append_inj' hMore rfl
        obtain rfl := List.singleton_injective hFeed
        refine ⟨later ++ 10 :: tail', ⟨read, hRead.symm, ?_⟩, ?_⟩
        · rw [List.append_assoc]
        · rw [List.append_assoc]
          exact .before later

/-
  Two texts that differ behind the end of a line are read alike
  up to the line after it, if that is where a line is entered.
-/
theorem Matches.passesTo
    (hPasses : PassesTo file state last)
    (file' : SourceFile)
    (hStart : last.entersNext = true)
    (hMatches : state.Matches other)
    (hLines :
      WholeLines last.scanner.rest tail' state.scanner.rest
        other.scanner.rest) :
    ∃ last',
      PassesTo file' other last' ∧ last.Matches last' ∧
        last'.scanner.rest = tail' := by
  induction hPasses generalizing other with
  | here => exact ⟨other, .here other, hMatches, hLines.eq_tail rfl⟩
  | @again state next last hOpen hRound hRest ih =>
      have hMore : state.scanner.rest ≠ last.scanner.rest := by
        intro hSame
        obtain rfl :=
          (PassesTo.again hOpen hRound hRest).eq_of_rest hStart hSame
        exact absurd hRest.roundsLeft_le (roundsLeft_lt hRound).not_ge
      obtain ⟨left, hRead, hLeft⟩ :=
        hLines.later (rest_suffix_round hRound) hRest.rest_suffix
      obtain ⟨next', hRound', hFollows⟩ :=
        hMatches.round file' (hLines.sameLine hMore) hRound
          fun hInside => by
            refine ⟨left, hRead, hLeft.sameLine fun hSame => ?_⟩
            rw [hRest.eq_of_rest hStart hSame, hStart] at hInside
            cases hInside
      obtain ⟨read, hBytes, hOther⟩ := hRead
      obtain ⟨read', hBytes', hOther'⟩ := hFollows.read
      obtain rfl := List.append_cancel_right (hBytes.symm.trans hBytes')
      rw [List.append_cancel_left (hOther.symm.trans hOther')] at hLeft
      obtain ⟨last', hPasses', hMatches', hTail⟩ :=
        ih hStart hFollows.found hLeft
      exact
        ⟨last', .again (hMatches.isFull.trans hOpen) hRound' hPasses',
          hMatches', hTail⟩

/- A run that enters a blank line goes on as one without it. -/
theorem Matches.runsTo_blank
    (hMatches : state.Matches other)
    (hStart : state.entersNext = true)
    (file' : SourceFile)
    {line : List Char}
    (hLine : BlankLine line)
    (hRest :
      other.scanner.rest =
        line.flatMap String.utf8EncodeChar ++ state.scanner.rest)
    (hRun : RunsTo file state last) :
    ∃ last', RunsTo file' other last' ∧ last.Matches last' := by
  cases hFull : state.errors.isFull with
  | true =>
      obtain rfl := hRun.unique (.full hFull)
      exact ⟨other, .full (hMatches.isFull.trans hFull), hMatches⟩
  | false =>
      obtain ⟨scanner, hScanner, hBlank⟩ :=
        other.enterLine_blank file' hLine hRest
      have hRound :
          other.round file' =
            (false, { other with scanner := scanner, lineStart := true }) := by
        rw [← hBlank]
        exact if_pos (hMatches.entersNext.trans hStart)
      have hLineStart : state.lineStart = true :=
        (Bool.and_eq_true_iff.mp hStart).1
      have hPassed :
          state.Matches { other with scanner := scanner, lineStart := true } :=
        ⟨hMatches.kinds, hMatches.codes, hMatches.total, hMatches.brackets,
          hMatches.indents, hLineStart.symm⟩
      obtain ⟨last', hRun', hEnd⟩ := hPassed.runsTo hRun file' hScanner
      exact ⟨last', .again (hMatches.isFull.trans hFull) hRound hRun', hEnd⟩

end Parts

/- The state in which a run over a file starts. -/
def start (file : SourceFile) : LexState :=
  { scanner := ⟨Text.encodeUtf8 file.text, {}⟩ }

end LexState

/-
  A run over a file comes to a place with this text behind it
  where it is to enter a line, outside of brackets and strings.
-/
def SourceFile.StartsLine (file : SourceFile) (rest : String) : Prop :=
  ∃ rounds,
    (LexState.run file rounds (.start file)).entersNext = true ∧
      (LexState.run file rounds (.start file)).scanner.rest =
        Text.encodeUtf8 rest

/- Text that ends with a line feed, or none, is whole lines. -/
theorem LexState.wholeLines_encodeUtf8
    {before : String}
    (hBefore : before = "" ∨ before.toList.getLast? = some '\n')
    (tail tail' : List UInt8) :
    WholeLines tail tail' (Text.encodeUtf8 before ++ tail)
      (Text.encodeUtf8 before ++ tail') := by
  rw [Text.encodeUtf8_eq]
  rcases hBefore with rfl | hFeed
  · exact .ended
  · obtain ⟨lines, hLines⟩ := List.getLast?_eq_some_iff.mp hFeed
    have hBytes :
        before.toList.flatMap String.utf8EncodeChar =
          lines.flatMap String.utf8EncodeChar ++ [10] := by
      rw [hLines, List.flatMap_append]
      rfl
    rw [hBytes, List.append_assoc, List.append_assoc]
    exact .before _

/-
  A blank line does not matter to the tokens of a text, nor to
  the faults that are found among them.
-/
theorem lex_blankLine
    (name before line rest : String)
    (hBefore : before = "" ∨ before.toList.getLast? = some '\n')
    (hStarts : SourceFile.StartsLine ⟨name, before ++ rest⟩ rest)
    (hLine : BlankLine line.toList) :
    (lex ⟨name, before ++ line ++ rest⟩).tokens.toList.map (·.kind) =
        (lex ⟨name, before ++ rest⟩).tokens.toList.map (·.kind) ∧
      (lex ⟨name, before ++ line ++ rest⟩).errors.codes =
        (lex ⟨name, before ++ rest⟩).errors.codes ∧
      (lex ⟨name, before ++ line ++ rest⟩).errors.total =
        (lex ⟨name, before ++ rest⟩).errors.total := by
  obtain ⟨rounds, hEnters, hRest⟩ := hStarts
  have hPasses := LexState.passesTo_run hEnters
  generalize LexState.run _ rounds _ = state at *
  -- Up to the place both texts are the same lines.
  have hLines :
      LexState.WholeLines state.scanner.rest
        (Text.encodeUtf8 line ++ Text.encodeUtf8 rest)
        (Text.encodeUtf8 (before ++ rest))
        (Text.encodeUtf8 (before ++ line ++ rest)) := by
    rw [hRest, Text.encodeUtf8_append, Text.encodeUtf8_append,
      Text.encodeUtf8_append, List.append_assoc]
    exact LexState.wholeLines_encodeUtf8 hBefore _ _
  have hStart :
      LexState.Matches (.start ⟨name, before ++ rest⟩)
        (.start ⟨name, before ++ line ++ rest⟩) :=
    ⟨rfl, rfl, rfl, rfl, rfl, rfl⟩
  obtain ⟨state', hPasses', hMatches, hTail⟩ :=
    hStart.passesTo hPasses ⟨name, before ++ line ++ rest⟩ hEnters hLines
  -- From there on the same bytes are left, once the line is passed.
  obtain ⟨last, hRun⟩ :
      ∃ last, LexState.RunsTo ⟨name, before ++ rest⟩ state last :=
    ⟨_, LexState.runsTo_run (Nat.lt_succ_self _)⟩
  rw [Text.encodeUtf8_eq line, ← hRest] at hTail
  obtain ⟨last', hRun', hEnd⟩ :=
    hMatches.runsTo_blank hEnters ⟨name, before ++ line ++ rest⟩ hLine hTail
      hRun
  obtain ⟨ended, hRuns, hLex⟩ := runsTo_lex ⟨name, before ++ rest⟩
  obtain ⟨ended', hRuns', hLex'⟩ := runsTo_lex ⟨name, before ++ line ++ rest⟩
  obtain rfl := hRuns.unique (hPasses.runsTo hRun)
  obtain rfl := hRuns'.unique (hPasses'.runsTo hRun')
  rw [hLex, hLex', LexState.kinds_finish, LexState.kinds_finish, hEnd.kinds,
    hEnd.indents]
  exact ⟨rfl, hEnd.codes, hEnd.total⟩

end SnippetGrader
