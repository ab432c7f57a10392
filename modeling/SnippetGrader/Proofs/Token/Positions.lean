import SnippetGrader.Proofs.Token.BlankLines
import SnippetGrader.Proofs.Token.Coverage

/-
  Where the tokens and the faults of a text are.

  At every byte of a run the line is one more than the line feeds
  that have been read, and the column one more than the
  characters that have been started since. So each token that
  does not mark a line or a block has the span of the bytes that
  a round read it from, and each fault starts at the character
  that the round reporting it came to. Tokens are apart: a token
  that ends at the start of a line is a string that was never
  closed, and then the line or the text ends there.

  Key definitions include:
    * `Position.behind`
    * `LexState.stage`, `LexState.ComesTo`
    * `Token.ReadAt`, `Diagnostic.ReportedAt`

  Key theorems include:
    * `Position.afterAll_start`, `LexState.behind_stage`
    * `LexState.meets_step`, `LexState.meets_round`
    * `lex_tokens_readAt`, `lex_errors_reportedAt`
    * `lex_tokens_apart`
-/

namespace SnippetGrader

------------------------------------------------------------
-- Positions
------------------------------------------------------------

namespace Position

/-
  Where a text goes on after some bytes: on the line after as
  many as have ended, and in the column after as many characters
  as have been started on it.
-/
def behind (read : List UInt8) : Position :=
  ⟨1 + read.count 10,
    1 + (read.reverse.takeWhile (· != 10)).countP
      fun b => !Byte.continuesChar b⟩

theorem afterAll_snoc
    (position : Position)
    (read : List UInt8)
    (b : UInt8) :
    position.afterAll (read ++ [b]) = (position.afterAll read).after b := by
  rw [afterAll, List.foldl_append]
  rfl

/- Counting byte by byte comes to the same. -/
theorem afterAll_start
    (read : List UInt8) :
    ({} : Position).afterAll read = behind read := by
  induction read using List.reverseRecOn with
  | nil => rfl
  | append_singleton read b ih =>
      rw [afterAll_snoc, ih, behind, behind, List.count_append,
        List.reverse_append, List.count_singleton, List.reverse_singleton,
        List.singleton_append, List.takeWhile_cons]
      unfold after
      by_cases hFeed : b = 10
      · simp [hFeed, Nat.add_assoc]
      · cases hStarts : Byte.continuesChar b with
        | true =>
            rw [Byte.continuesChar] at hStarts
            simp [hFeed, hStarts, Byte.continuesChar]
        | false =>
            rw [Byte.continuesChar] at hStarts
            simp [hFeed, hStarts, Byte.continuesChar, Nat.add_comm]

end Position

/- Bytes that start with a character which is not white space. -/
def StartsSolid (bytes : List UInt8) : Prop :=
  ∃ b ∈ bytes.head?,
    Byte.continuesChar b = false ∧ Byte.isLineSpace b = false ∧ b ≠ 10

------------------------------------------------------------
-- Marks of Lines and Blocks
------------------------------------------------------------

/- The tokens that do not mark lines, blocks or the end of a text. -/
def solidTokens (tokens : List Token) : List Token :=
  tokens.filter fun token => !token.kind.isLayout

/- Tokens and more of them, all of which mark lines and blocks. -/
def AddsLayout (tokens later : List Token) : Prop :=
  ∃ marks : List Token,
    (∀ mark ∈ marks, mark.kind.isLayout = true) ∧ later = tokens ++ marks

namespace AddsLayout

variable {tokens later : List Token}

theorem refl
    (tokens : List Token) :
    AddsLayout tokens tokens :=
  ⟨[], by simp, by simp⟩

theorem push
    (hAdds : AddsLayout tokens later)
    {mark : Token}
    (hMark : mark.kind.isLayout = true) :
    AddsLayout tokens (later ++ [mark]) := by
  obtain ⟨marks, hMarks, rfl⟩ := hAdds
  refine ⟨marks ++ [mark], ?_, List.append_assoc ..⟩
  intro other hMem
  rcases List.mem_append.mp hMem with hOld | hNew
  · exact hMarks other hOld
  · rw [List.mem_singleton.mp hNew]
    exact hMark

theorem close
    (hAdds : AddsLayout tokens later)
    (closed : Nat)
    (span : Span) :
    AddsLayout tokens (later ++ List.replicate closed ⟨.dedent, span⟩) := by
  obtain ⟨marks, hMarks, rfl⟩ := hAdds
  refine ⟨marks ++ List.replicate closed ⟨.dedent, span⟩, ?_,
    List.append_assoc ..⟩
  intro other hMem
  rcases List.mem_append.mp hMem with hOld | hNew
  · exact hMarks other hOld
  · rw [(List.mem_replicate.mp hNew).2]
    rfl

theorem solidTokens_eq
    (hAdds : AddsLayout tokens later) :
    solidTokens later = solidTokens tokens := by
  obtain ⟨marks, hMarks, rfl⟩ := hAdds
  rw [solidTokens, List.filter_append, solidTokens, List.append_right_eq_self,
    List.filter_eq_nil_iff]
  intro mark hMem
  simp [hMarks mark hMem]

/- A token that marks nothing was there before. -/
theorem getElem?
    (hAdds : AddsLayout tokens later)
    {index : Nat}
    {token : Token}
    (hToken : later[index]? = some token)
    (hSolid : token.kind.isLayout = false) :
    tokens[index]? = some token := by
  obtain ⟨marks, hMarks, rfl⟩ := hAdds
  rcases Nat.lt_or_ge index tokens.length with hOld | hNew
  · rwa [List.getElem?_append_left hOld] at hToken
  · rw [List.getElem?_append_right hNew] at hToken
    simp [hMarks token (List.mem_of_getElem? hToken)] at hSolid

end AddsLayout

------------------------------------------------------------
-- Where Tokens Stop
------------------------------------------------------------

/- A number stands on one line. -/
theorem NumberLiteral.onLine_read
    {bytes read : List UInt8}
    (hBytes : bytes = read ++ (NumberLiteral.read bytes).rest) :
    10 ∉ read := by
  intro hFeed
  obtain ⟨line, more, rfl, -⟩ := List.eq_append_cons_of_mem hFeed
  have hLine :=
    read_line line (more ++ (NumberLiteral.read bytes).rest)
  rw [← List.cons_append, ← List.append_assoc, ← hBytes] at hLine
  have hLength := congrArg (fun literal => literal.rest.length) hLine
  simp only [List.length_append, List.length_cons] at hLength
  omega

/- What is left of a string starts after its quote or ends the line. -/
def ClosedBy (quote : UInt8) (bytes rest : List UInt8) : Prop :=
  (∃ used, bytes = used ++ quote :: rest) ∨ ∀ b ∈ rest.head?, b = 10

theorem ClosedBy.later
    {quote : UInt8}
    {bytes rest : List UInt8}
    (hClosed : ClosedBy quote bytes rest)
    (read : List UInt8) :
    ClosedBy quote (read ++ bytes) rest := by
  rcases hClosed with ⟨used, rfl⟩ | hEnd
  · exact .inl ⟨read ++ used, (List.append_assoc ..).symm⟩
  · exact .inr hEnd

theorem StringBody.closedBy_readFrom
    (quote : UInt8)
    (triple raw : Bool)
    (content bytes : List UInt8) :
    ClosedBy quote bytes (readFrom quote triple raw content bytes).rest := by
  fun_induction readFrom quote triple raw content bytes with
  | case1 | case6 | case10 => exact .inr (by simp)
  | case2 content b rest hFeed =>
      refine .inr ?_
      rintro _ ⟨⟩
      rw [Bool.and_eq_true, beq_iff_eq] at hFeed
      exact hFeed.1
  | case3 content b rest _ hEnd =>
      rw [beq_iff_eq.mp hEnd]
      exact .inl ⟨[], rfl⟩
  | case4 content b rest _ _ _ hQuotes =>
      obtain ⟨after, rfl⟩ := List.isPrefixOf_iff_prefix.mp hQuotes
      exact .inl ⟨[b, quote], rfl⟩
  | case5 content b rest _ _ _ _ ih => exact ih.later [b]
  | case7 content b _ _ _ letter rest _ ih => exact ih.later [b, letter]
  | case8 content b _ _ _ letter rest _ _ ih => exact ih.later [b, letter]
  | case9 content b _ _ _ letter _ _ _ d d' rest ih =>
      exact ih.later [b, letter, d, d']
  | case11 content b _ _ _ letter rest _ _ _ _ _ ih =>
      exact ih.later [b, letter]
  | case12 content b _ _ _ letter rest _ _ _ _ ih =>
      exact ih.later [b, letter]
  | case13 content b rest _ _ _ ih => exact ih.later [b]

theorem StringBody.closedBy_read
    (quote : UInt8)
    (raw : Bool)
    (bytes : List UInt8) :
    ClosedBy quote bytes (read quote raw bytes).rest := by
  unfold read
  split
  · rename_i hQuotes
    obtain ⟨rest, rfl⟩ := List.isPrefixOf_iff_prefix.mp hQuotes
    exact (closedBy_readFrom quote true raw [] rest).later [quote, quote]
  · exact closedBy_readFrom quote false raw [] bytes

namespace Scanner

variable {lines : Nat}
variable {first last : Scanner}

/- Bytes are read up to one that fails the test. -/
theorem stop_skipWhile
    {scanner : Scanner}
    {test : UInt8 → Bool}
    {b : UInt8}
    (hHead : (scanner.skipWhile test).rest.head? = some b) :
    test b = false := by
  have hStop := List.head?_dropWhile_not test scanner.rest
  rw [show (scanner.rest.dropWhile test).head? = some b from hHead] at hStop
  exact hStop

/- A place within a line, or else one where the line or the text ends. -/
def Stops (scanner : Scanner) : Prop :=
  1 < scanner.position.col ∨ ∀ b ∈ scanner.rest.head?, b = 10

/- Bytes on one line leave its start. -/
theorem Sound.stops_onLine
    (hFirst : first.Sound lines)
    {read : List UInt8}
    (hReads : first.Reaches last read)
    (hPasses : first.Passes lines last)
    (hLine : 10 ∉ read) :
    last.Stops := by
  have hSame : first.position.line = last.position.line := by
    rw [hReads.position, Position.line_afterAll,
      List.count_eq_zero_of_not_mem hLine, Nat.add_zero]
  have hCol := hFirst.col
  rcases Prod.Lex.toLex_lt_toLex.mp hPasses.moves with hLines | ⟨-, hCols⟩
  · exact absurd hSame hLines.ne
  · exact .inl (hCol.trans_lt hCols)

/- A string is closed within a line, or it goes on to the end of one. -/
theorem Sound.stops_string
    (hFirst : first.Sound lines)
    {quote : UInt8}
    {rest : List UInt8}
    (hRest : first.rest = quote :: rest)
    (hFeed : quote ≠ 10)
    (hQuote : quote < 0x80)
    (raw : Bool) :
    (first.skipTo (StringBody.read quote raw rest).rest).Stops := by
  rcases StringBody.closedBy_read quote raw rest with ⟨used, hUsed⟩ | hEnd
  · have hBytes :
        first.rest =
          (quote :: used ++ [quote]) ++
            (StringBody.read quote raw rest).rest := by
      rw [hRest, List.append_assoc, List.cons_append, List.singleton_append,
        ← hUsed]
    have hReads := (reaches_skipTo hBytes).1
    have hStarts := Byte.continuesChar_of_ascii quote hQuote
    have hInside := Position.col_afterAll_pos hFirst.col (quote :: used)
    refine .inl ?_
    rw [Byte.continuesChar] at hStarts
    rw [hReads.position, Position.afterAll_snoc, Position.after,
      if_neg (by simpa using hFeed), hStarts]
    exact Nat.lt_succ_of_le hInside
  · obtain ⟨body, hBody⟩ := StringBody.suffix_read quote raw rest
    have hBytes :
        first.rest =
          (quote :: body) ++ (StringBody.read quote raw rest).rest := by
      rw [hRest, List.cons_append, hBody]
    refine .inr ?_
    rw [(reaches_skipTo hBytes).2]
    exact hEnd

end Scanner

namespace LexState

------------------------------------------------------------
-- What Rounds Report
------------------------------------------------------------

/- The state after at most one more fault, which starts at a position. -/
def ReportsAt
    (file : SourceFile)
    (first : Position)
    (state next : LexState) : Prop :=
  next.errors = state.errors ∨
    ∃ code message span,
      span.startLine = first.line ∧ span.startCol = first.col ∧
        next.errors =
          state.errors.push (Diagnostic.make file code message span)

/- What a step does that comes to something other than the end of a line. -/
structure Meets
    (file : SourceFile)
    (state : LexState)
    (first : Scanner)
    (next : LexState) : Prop where
  starts : ∃ b ∈ first.rest.head?, b ≠ 10
  reports : state.ReportsAt file first.position next
  stops : next.tokens = state.tokens ∨ next.scanner.Stops

section Steps

variable {lines : Nat}
variable {state next : LexState}
variable {first opening : Scanner}

theorem ne_feed_of_quote
    {b : UInt8}
    (hQuote : (b == Byte.of '"' || b == Byte.of '\'') = true) :
    b ≠ 10 := by
  simp only [Bool.or_eq_true, beq_iff_eq] at hQuote
  rcases hQuote with rfl | rfl <;> decide

theorem meets_readString
    (state : LexState)
    (file : SourceFile)
    (hStarts : ∃ b ∈ first.rest.head?, b ≠ 10)
    (hOpening : opening.Sound lines)
    {quote : UInt8}
    {rest : List UInt8}
    (hRest : opening.rest = quote :: rest)
    (hQuote : (quote == Byte.of '"' || quote == Byte.of '\'') = true)
    (raw : Bool) :
    state.Meets file first
      (state.readString file first opening quote raw) := by
  have hStops :=
    hOpening.stops_string hRest (ne_feed_of_quote hQuote)
      (ascii_of_quote hQuote) raw
  have hDrop : opening.rest.drop 1 = rest := by
    rw [hRest]
    rfl
  simp only [readString, hDrop]
  split
  · exact ⟨hStarts, .inl rfl, .inr hStops⟩
  · exact ⟨hStarts, .inr ⟨_, _, _, rfl, rfl, rfl⟩, .inr hStops⟩

theorem meets_readWord
    (state : LexState)
    (file : SourceFile)
    (hFirst : first.Sound lines)
    (hFeed : ∃ b ∈ first.rest.head?, b ≠ 10)
    {b : UInt8}
    {rest : List UInt8}
    (hRest : first.rest = b :: rest)
    (hStarts : Byte.startsWord b = true) :
    state.Meets file first (state.readWord file first) := by
  have hPasses := hFirst.passes_word hRest hStarts
  have hLine : 10 ∉ first.rest.takeWhile Byte.continuesWord :=
    fun hMem => absurd (List.mem_takeWhile_imp hMem) (by decide)
  have hStops :=
    hFirst.stops_onLine (first.reaches_skipWhile _) hPasses hLine
  simp only [readWord]
  split
  · rename_i quote hQuote
    obtain ⟨tail, hTail⟩ := List.head?_eq_some_iff.mp hQuote
    split
    · rename_i hOpens
      rw [Bool.and_eq_true] at hOpens
      exact meets_readString state file hFeed hPasses.sound hTail hOpens.1 _
    · exact ⟨hFeed, .inl rfl, .inr hStops⟩
  · exact ⟨hFeed, .inl rfl, .inr hStops⟩

theorem meets_readNumber
    (state : LexState)
    (file : SourceFile)
    (hFirst : first.Sound lines)
    (hFeed : ∃ b ∈ first.rest.head?, b ≠ 10)
    {b : UInt8}
    {rest : List UInt8}
    (hRest : first.rest = b :: rest)
    (hStarts : Byte.isDigit b = true ∨ b = Byte.of '.') :
    state.Meets file first (state.readNumber file first) := by
  have hPasses := hFirst.passes_number hRest hStarts
  obtain ⟨read, -, hBytes, -⟩ :=
    NumberLiteral.readsAscii_read hStarts rest
  rw [← hRest] at hBytes
  have hStops :=
    hFirst.stops_onLine (Scanner.reaches_skipTo hBytes).1 hPasses
      (NumberLiteral.onLine_read hBytes)
  simp only [readNumber]
  split
  · exact ⟨hFeed, .inl rfl, .inr hStops⟩
  · exact ⟨hFeed, .inr ⟨_, _, _, rfl, rfl, rfl⟩, .inr hStops⟩

theorem meets_readMark
    (state : LexState)
    (file : SourceFile)
    (hFirst : first.Sound lines)
    (hFeed : ∃ b ∈ first.rest.head?, b ≠ 10)
    (b : UInt8) :
    state.Meets file first (state.readMark file first b) := by
  simp only [readMark]
  split
  · rename_i mark length hMark
    obtain ⟨written, rest, hBytes, hLength, hLine⟩ := take_of_mark? hMark
    have hRead : first.rest.take length = written := by
      rw [hBytes, ← hLength]
      exact List.take_left
    have hReads := first.reaches_skip length
    rw [hRead] at hReads
    have hStops :=
      hFirst.stops_onLine hReads (hFirst.passes_mark hMark) hLine
    exact ⟨hFeed, .inl rfl, .inr hStops⟩
  · exact ⟨hFeed, .inr ⟨_, _, _, rfl, rfl, rfl⟩, .inl rfl⟩

theorem meets_readContinuation
    (state : LexState)
    (file : SourceFile)
    (hFeed : ∃ b ∈ first.rest.head?, b ≠ 10) :
    state.Meets file first (state.readContinuation file first) := by
  simp only [readContinuation]
  split
  · exact ⟨hFeed, .inl rfl, .inl rfl⟩
  · exact ⟨hFeed, .inr ⟨_, _, _, rfl, rfl, rfl⟩, .inl rfl⟩

/- A step that goes on comes to the end of a line or meets something. -/
theorem meets_step
    (hState : state.scanner.Sound lines)
    {file : SourceFile}
    (hStep : state.step file = (false, next)) :
    (∃ rest,
        (state.scanner.skipWhile Byte.isLineSpace).rest = 10 :: rest ∧
          next =
            state.readNewline
              (state.scanner.skipWhile Byte.isLineSpace)) ∨
      state.Meets file (state.scanner.skipWhile Byte.isLineSpace)
        next := by
  have hFirst := hState.skipWhile_ascii ascii_of_isLineSpace
  simp only [step] at hStep
  generalize state.scanner.skipWhile Byte.isLineSpace = first at *
  split at hStep
  · cases hStep
  rename_i b rest hRest
  obtain ⟨-, rfl⟩ := Prod.mk.inj hStep
  by_cases hByte : b = 10
  · subst hByte
    exact .inl ⟨rest, hRest, rfl⟩
  have hFeed : ∃ b ∈ first.rest.head?, b ≠ 10 :=
    ⟨b, by rw [hRest]; rfl, hByte⟩
  right
  rw [if_neg (by simpa using hByte)]
  split
  · exact ⟨hFeed, .inl rfl, .inl rfl⟩
  split
  · exact meets_readContinuation state file hFeed
  split
  · rename_i hQuote
    exact meets_readString state file hFeed hFirst hRest hQuote false
  split
  · rename_i hNumber
    simp only [Bool.or_eq_true, Bool.and_eq_true, beq_iff_eq] at hNumber
    exact meets_readNumber state file hFirst hFeed hRest
      (hNumber.imp id And.left)
  split
  · rename_i hWord
    exact meets_readWord state file hFirst hFeed hRest hWord
  · exact meets_readMark state file hFirst hFeed b

end Steps

/- A place that a state comes to after spaces. -/
structure ComesTo (state : LexState) (first : Scanner) : Prop where
  spaces :
    ∃ spaces,
      state.scanner.Reaches first spaces ∧
        ∀ b ∈ spaces, Byte.isLineSpace b = true
  starts : StartsSolid first.rest

section Rounds

variable {lines : Nat}
variable {file : SourceFile}
variable {state next : LexState}
variable {first : Scanner}

/- What is not spaces up to here is solid, unless a line ends here. -/
theorem comesTo_skipWhile
    (hFirst : (state.scanner.skipWhile Byte.isLineSpace).Sound lines)
    (hFeed :
      ∃ b ∈ (state.scanner.skipWhile Byte.isLineSpace).rest.head?,
        b ≠ 10) :
    state.ComesTo (state.scanner.skipWhile Byte.isLineSpace) := by
  obtain ⟨b, hHead, hByte⟩ := hFeed
  obtain ⟨rest, hRest⟩ := List.head?_eq_some_iff.mp hHead
  have hAligned := hFirst.aligned
  rw [hRest] at hAligned
  exact
    ⟨⟨_, state.scanner.reaches_skipWhile _,
      fun _ hMem => List.mem_takeWhile_imp hMem⟩,
      b, hHead, hAligned.head, Scanner.stop_skipWhile hHead, hByte⟩

theorem Byte.solid_of_indented :
    ∀ b, isIndentation b = false → blanksLine b = false →
      Byte.isLineSpace b = false ∧ b ≠ 10 := by
  intro b hIndentation hBlanks
  simp only [isIndentation, blanksLine, Bool.or_eq_false_iff,
    beq_eq_false_iff_ne] at hIndentation hBlanks
  obtain ⟨⟨hSpace, hTab⟩, hFeed⟩ := hIndentation
  refine ⟨?_, hBlanks.1.1⟩
  simp only [Byte.isLineSpace, Bool.or_eq_false_iff, beq_eq_false_iff_ne]
  exact ⟨⟨⟨hSpace, hTab⟩, hBlanks.1.2⟩, hFeed⟩

theorem errors_closeBlocks
    (state : LexState)
    (closed : List Nat)
    (span : Span) :
    (state.closeBlocks closed span).errors = state.errors := by
  rw [closeBlocks_eq]

/- A line is only reported at its first character. -/
theorem reports_enterLine
    (hState : state.scanner.Sound lines)
    (file : SourceFile) :
    (state.enterLine file).errors = state.errors ∨
      ∃ first,
        state.ComesTo first ∧
          state.ReportsAt file first.position (state.enterLine file) := by
  have hFirst := hState.skipWhile_ascii ascii_of_isIndentation
  have hReads := state.scanner.reaches_skipWhile isIndentation
  have hStop
      (b : UInt8)
      (hHead :
        (state.scanner.skipWhile isIndentation).rest.head? = some b) :
      isIndentation b = false :=
    Scanner.stop_skipWhile hHead
  have hSpaces :
      ∀ b ∈ state.scanner.rest.takeWhile isIndentation,
        Byte.isLineSpace b = true :=
    fun b hMem =>
      SnippetGrader.Byte.isLineSpace_of_isIndentation b
        (List.mem_takeWhile_imp hMem)
  simp only [enterLine]
  generalize state.scanner.skipWhile isIndentation = scanner at *
  split
  · exact .inl rfl
  rename_i b hNext
  split
  · exact .inl rfl
  rename_i hBlank
  split
  · exact .inl rfl
  split
  · exact .inl rfl
  split
  · exact .inl (errors_closeBlocks _ _ _)
  obtain ⟨rest, hRest⟩ := List.head?_eq_some_iff.mp hNext
  have hAligned := hFirst.aligned
  rw [hRest] at hAligned
  have hSolid :=
    Byte.solid_of_indented b (hStop b hNext) (Bool.eq_false_iff.mpr hBlank)
  exact .inr
    ⟨scanner, ⟨⟨_, hReads, hSpaces⟩, b, hNext, hAligned.head, hSolid⟩,
      .inr ⟨_, _, scanner.position.point, rfl, rfl,
        errors_closeBlocks _ _ _⟩⟩

theorem errors_readNewline
    (state : LexState)
    (first : Scanner) :
    (state.readNewline first).errors = state.errors := by
  simp only [readNewline]
  split
  · rfl
  · split <;> rfl

theorem addsLayout_readNewline
    (state : LexState)
    (first : Scanner) :
    AddsLayout state.tokens.toList
      (state.readNewline first).tokens.toList := by
  simp only [readNewline]
  split
  · exact .refl _
  · split
    · exact .refl _
    · exact .refl _
    · rw [LexState.push, Array.toList_push]
      exact (AddsLayout.refl _).push rfl

theorem Enters.addsLayout
    (hEnters : state.Enters next) :
    AddsLayout state.tokens.toList next.tokens.toList := by
  cases hEnters with
  | ended | blank | level => exact .refl _
  | deeper =>
      rw [LexState.push, Array.toList_push]
      exact (AddsLayout.refl _).push rfl
  | shallower | astray =>
      rw [closeBlocks_eq, Array.toList_append]
      exact (AddsLayout.refl _).close _ _

/- A fault that a round reports starts where it comes to. -/
theorem reports_round
    (hState : state.scanner.Sound lines)
    (hRound : state.round file = (false, next)) :
    next.errors = state.errors ∨
      ∃ first,
        state.ComesTo first ∧ state.ReportsAt file first.position next := by
  unfold round at hRound
  split at hRound
  · obtain ⟨-, rfl⟩ := Prod.mk.inj hRound
    exact reports_enterLine hState file
  · rcases meets_step hState hRound with ⟨rest, -, rfl⟩ | hMeets
    · exact .inl (errors_readNewline _ _)
    · have hFirst := hState.skipWhile_ascii ascii_of_isLineSpace
      exact .inr ⟨_, comesTo_skipWhile hFirst hMeets.starts, hMeets.reports⟩

/- A token that a round takes is read where it comes to. -/
theorem takes_round
    (hState : state.scanner.Sound lines)
    (hRound : state.round file = (false, next)) :
    AddsLayout state.tokens.toList next.tokens.toList ∨
      ∃ first kind read,
        state.ComesTo first ∧ state.TakesToken first kind read next ∧
          next.scanner.Stops := by
  rcases round_again hRound with ⟨-, hEnters⟩ | ⟨hInside, hFinds⟩
  · exact .inl hEnters.addsLayout
  have hStep : state.step file = (false, next) := by
    rwa [round, if_neg (by simp [hInside])] at hRound
  rcases meets_step hState hStep with ⟨rest, -, rfl⟩ | hMeets
  · exact .inl (addsLayout_readNewline _ _)
  have hFirst := hState.skipWhile_ascii ascii_of_isLineSpace
  have hComes := comesTo_skipWhile hFirst hMeets.starts
  cases hFinds with
  | token hToken =>
      refine .inr ⟨_, _, _, hComes, hToken, ?_⟩
      refine hMeets.stops.resolve_left fun hSame => ?_
      have hSize := congrArg Array.size (hToken.tokens.symm.trans hSame)
      simp at hSize
  | fault hFault =>
      rw [hFault.tokens]
      exact .inl (.refl _)
  | comment | joined => exact .inl (.refl _)
  | newline => exact .inl (addsLayout_readNewline _ _)

theorem Finds.reaches
    (hFinds : state.Finds first next) :
    ∃ read, first.Reaches next.scanner read := by
  cases hFinds with
  | token hToken => exact ⟨_, hToken.reaches⟩
  | fault hFault => exact ⟨_, hFault.reaches⟩
  | comment => exact ⟨_, first.reaches_skipWhile _⟩
  | joined _ hReaches => exact ⟨_, hReaches⟩
  | newline =>
      rw [scanner_readNewline]
      exact ⟨_, first.reaches_skip 1⟩

theorem Enters.reaches
    (hEnters : state.Enters next) :
    ∃ read, state.scanner.Reaches next.scanner read := by
  have hIndentation := state.scanner.reaches_skipWhile isIndentation
  cases hEnters with
  | ended | level | deeper => exact ⟨_, hIndentation⟩
  | shallower | astray =>
      rw [scanner_closeBlocks]
      exact ⟨_, hIndentation⟩
  | blank =>
      exact ⟨_, (hIndentation.trans (Scanner.reaches_skipWhile _ _)).trans
        (Scanner.reaches_skip _ 1)⟩

theorem reaches_round
    {ended : Bool}
    (hRound : state.round file = (ended, next)) :
    ∃ read, state.scanner.Reaches next.scanner read := by
  cases ended with
  | true =>
      obtain ⟨rfl, -⟩ := round_ended hRound
      exact ⟨_, state.scanner.reaches_skipWhile _⟩
  | false =>
      rcases round_again hRound with ⟨-, hEnters⟩ | ⟨-, hFinds⟩
      · exact hEnters.reaches
      · obtain ⟨read, hReads⟩ := hFinds.reaches
        exact ⟨_, (state.scanner.reaches_skipWhile _).trans hReads⟩

end Rounds

------------------------------------------------------------
-- Stages of a Run
------------------------------------------------------------

/- The state after a number of rounds of the run over a file. -/
def stage (file : SourceFile) (rounds : Nat) : LexState :=
  run file rounds (.start file)

theorem run_full
    {file : SourceFile}
    {state : LexState}
    (hFull : state.errors.isFull = true)
    (rounds : Nat) :
    run file rounds state = state := by
  cases rounds with
  | zero => rfl
  | succ rounds => simp only [run, hFull, if_true]

theorem run_round
    {file : SourceFile}
    {state next : LexState}
    {ended : Bool}
    (hOpen : state.errors.isFull = false)
    (hRound : state.round file = (ended, next))
    (rounds : Nat) :
    run file (rounds + 1) state =
      if ended then next else run file rounds next := by
  rw [round, entersNext] at hRound
  rw [run, if_neg (by simp [hOpen])]
  split at hRound
  · rename_i hStart
    obtain ⟨rfl, rfl⟩ := Prod.mk.inj hRound
    rw [if_pos hStart]
    rfl
  · rename_i hInside
    rw [if_neg hInside, hRound]
    cases ended <;> rfl

/- One round more is one round after the others, unless the run is over. -/
theorem run_succ
    (file : SourceFile)
    (rounds : Nat)
    (state : LexState) :
    run file (rounds + 1) state = run file rounds state ∨
      (run file rounds state).errors.isFull = false ∧
        ∃ ended,
          (run file rounds state).round file =
            (ended, run file (rounds + 1) state) := by
  induction rounds generalizing state with
  | zero =>
      cases hOpen : state.errors.isFull with
      | true => exact .inl (run_full hOpen 1)
      | false =>
          cases hRound : state.round file with
          | mk ended next =>
              refine .inr ⟨hOpen, ended, ?_⟩
              rw [run_round hOpen hRound]
              cases ended <;> exact hRound
  | succ rounds ih =>
      cases hOpen : state.errors.isFull with
      | true =>
          rw [run_full hOpen, run_full hOpen]
          exact .inl rfl
      | false =>
          cases hRound : state.round file with
          | mk ended next =>
              rw [run_round hOpen hRound, run_round hOpen hRound]
              cases ended with
              | true => exact .inl rfl
              | false => exact ih next

section Stages

variable {file : SourceFile}

theorem stage_succ
    (file : SourceFile)
    (rounds : Nat) :
    stage file (rounds + 1) = stage file rounds ∨
      (stage file rounds).errors.isFull = false ∧
        ∃ ended,
          (stage file rounds).round file =
            (ended, stage file (rounds + 1)) :=
  run_succ file rounds (.start file)

theorem inOrder_stage
    (file : SourceFile)
    (rounds : Nat) :
    (stage file rounds).InOrder file.lineCount :=
  inOrder_run file rounds
    ⟨Scanner.sound_start file, ⟨by simp [start], by simp [start], .nil⟩⟩

theorem reaches_stage
    (file : SourceFile)
    (rounds : Nat) :
    ∃ read,
      (start file).scanner.Reaches (stage file rounds).scanner read := by
  induction rounds with
  | zero => exact ⟨[], rfl, rfl⟩
  | succ rounds ih =>
      rcases stage_succ file rounds with hSame | ⟨-, ended, hRound⟩
      · rw [hSame]
        exact ih
      · obtain ⟨read, hReads⟩ := ih
        obtain ⟨more, hMore⟩ := reaches_round hRound
        exact ⟨_, hReads.trans hMore⟩

/- What a scanner from the start of a file has read gives its position. -/
theorem behind_of_reaches
    {scanner : Scanner}
    {read : List UInt8}
    (hReads : (start file).scanner.Reaches scanner read) :
    read ++ scanner.rest = Text.encodeUtf8 file.text ∧
      scanner.position = .behind read :=
  ⟨hReads.rest.symm,
    hReads.position.trans (Position.afterAll_start read)⟩

/- Every fault that the run finds is stored, since it stops at the cap. -/
theorem stored_stage
    (file : SourceFile)
    (rounds : Nat) :
    (stage file rounds).errors.stored.length =
        (stage file rounds).errors.total ∧
      (stage file rounds).errors.total ≤ maxErrors := by
  induction rounds with
  | zero => exact ⟨rfl, Nat.zero_le _⟩
  | succ rounds ih =>
      rcases stage_succ file rounds with hSame | ⟨hOpen, ended, hRound⟩
      · rw [hSame]
        exact ih
      · have hErrors :
            (stage file (rounds + 1)).errors = (stage file rounds).errors ∨
              ∃ fault,
                (stage file (rounds + 1)).errors =
                  (stage file rounds).errors.push fault := by
          cases ended with
          | true =>
              rw [(round_ended hRound).1]
              exact .inl rfl
          | false => exact errors_round hRound
        rcases hErrors with hSame | ⟨fault, hPush⟩
        · rw [hSame]
          exact ih
        · have hRoom : (stage file rounds).errors.total < maxErrors := by
            simpa [Diagnostics.isFull] using hOpen
          rw [hPush, Diagnostics.push, if_pos (by rwa [ih.1]),
            List.length_append, ih.1]
          exact ⟨rfl, hRoom⟩

end Stages

end LexState

------------------------------------------------------------
-- Where Tokens and Faults Are
------------------------------------------------------------

/-
  The token with a given index among those of a file is read from
  some bytes of it: a round of the run passes spaces, takes the
  token, and leaves what is after these bytes.
-/
structure Token.ReadAt
    (file : SourceFile)
    (index : Nat)
    (token : Token)
    (before read after : List UInt8) : Prop where
  bytes : before ++ (read ++ after) = Text.encodeUtf8 file.text
  starts : StartsSolid read
  span :
    token.span =
      (Position.behind before).spanTo (.behind (before ++ read))
  round :
    ∃ rounds spaces,
      (LexState.stage file rounds).scanner.rest =
          spaces ++ (read ++ after) ∧
        (∀ b ∈ spaces, Byte.isLineSpace b = true) ∧
          (LexState.stage file rounds).tokens.size = index ∧
            (LexState.stage file (rounds + 1)).tokens =
              (LexState.stage file rounds).tokens.push token ∧
            (LexState.stage file (rounds + 1)).scanner.rest = after

/-
  The fault with a given index among those that are found while
  a file is read stands before some bytes of it: a round of the
  run passes spaces and reports the fault.
-/
structure Diagnostic.ReportedAt
    (file : SourceFile)
    (index : Nat)
    (fault : Diagnostic)
    (before after : List UInt8) : Prop where
  bytes : before ++ after = Text.encodeUtf8 file.text
  starts : StartsSolid after
  line : fault.span.startLine = (Position.behind before).line
  col : fault.span.startCol = (Position.behind before).col
  made :
    ∃ code message span, fault = Diagnostic.make file code message span
  round :
    ∃ rounds spaces,
      (LexState.stage file rounds).scanner.rest = spaces ++ after ∧
        (∀ b ∈ spaces, Byte.isLineSpace b = true) ∧
          (LexState.stage file rounds).errors.stored.length = index ∧
            (LexState.stage file (rounds + 1)).errors =
              (LexState.stage file rounds).errors.push fault

namespace LexState

section Stages

variable {file : SourceFile}

/- A token that a round takes is read from the text. -/
theorem readAt_of_takes
    {rounds : Nat}
    {first : Scanner}
    {kind : TokenKind}
    {read : List UInt8}
    (hComes : (stage file rounds).ComesTo first)
    (hTaken :
      (stage file rounds).TakesToken first kind read
        (stage file (rounds + 1))) :
    ∃ before after,
      Token.ReadAt file (stage file rounds).tokens.size
        ⟨kind,
          first.position.spanTo
            (stage file (rounds + 1)).scanner.position⟩
        before read after := by
  obtain ⟨earlier, hEarlier⟩ := reaches_stage file rounds
  obtain ⟨⟨spaces, hSpaces, hBlank⟩, b, hHead, hStarts⟩ := hComes
  have hFirst := hEarlier.trans hSpaces
  have hLast := hFirst.trans hTaken.reaches
  refine ⟨earlier ++ spaces, (stage file (rounds + 1)).scanner.rest, ?_⟩
  refine ⟨?_, ⟨b, ?_, hStarts⟩, ?_, rounds, spaces, ?_, hBlank, rfl,
    hTaken.tokens, rfl⟩
  · rw [← List.append_assoc]
    exact (behind_of_reaches hLast).1
  · obtain ⟨c, more, rfl⟩ := List.exists_cons_of_ne_nil hTaken.read_ne
    rwa [hTaken.reaches.rest] at hHead
  · rw [(behind_of_reaches hFirst).2, (behind_of_reaches hLast).2]
  · rw [hSpaces.rest, hTaken.reaches.rest]

theorem reportedAt_of_comes
    {rounds : Nat}
    {first : Scanner}
    {code : ErrorCode}
    {message : String}
    {span : Span}
    (hComes : (stage file rounds).ComesTo first)
    (hLine : span.startLine = first.position.line)
    (hCol : span.startCol = first.position.col)
    (hPush :
      (stage file (rounds + 1)).errors =
        (stage file rounds).errors.push
          (Diagnostic.make file code message span)) :
    ∃ before after,
      Diagnostic.ReportedAt file (stage file rounds).errors.stored.length
        (Diagnostic.make file code message span) before after := by
  obtain ⟨earlier, hEarlier⟩ := reaches_stage file rounds
  obtain ⟨⟨spaces, hSpaces, hBlank⟩, hStarts⟩ := hComes
  have hFirst := behind_of_reaches (hEarlier.trans hSpaces)
  refine ⟨earlier ++ spaces, first.rest, hFirst.1, hStarts, ?_, ?_,
    ⟨code, message, span, rfl⟩, rounds, spaces, hSpaces.rest, hBlank, rfl,
    hPush⟩
  · rw [← hFirst.2]
    exact hLine
  · rw [← hFirst.2]
    exact hCol

theorem tokens_stage
    {rounds index : Nat}
    {token : Token}
    (hToken : (stage file rounds).tokens[index]? = some token)
    (hSolid : token.kind.isLayout = false) :
    ∃ before read after, token.ReadAt file index before read after := by
  induction rounds with
  | zero => simp [stage, run, start] at hToken
  | succ rounds ih =>
      rcases stage_succ file rounds with hSame | ⟨-, ended, hRound⟩
      · rw [hSame] at hToken
        exact ih hToken
      cases ended with
      | true =>
          rw [(round_ended hRound).1] at hToken
          exact ih hToken
      | false =>
          have hSound := (inOrder_stage file rounds).scanner
          rcases takes_round hSound hRound with
            hLayout | ⟨first, kind, read, hComes, hTaken, -⟩
          · rw [← Array.getElem?_toList] at hToken ih
            exact ih (hLayout.getElem? hToken hSolid)
          · rw [hTaken.tokens, Array.getElem?_push] at hToken
            split at hToken
            · rename_i hIndex
              cases hToken
              subst hIndex
              obtain ⟨before, after, hRead⟩ := readAt_of_takes hComes hTaken
              exact ⟨before, read, after, hRead⟩
            · exact ih hToken

theorem errors_stage
    {rounds index : Nat}
    {fault : Diagnostic}
    (hFault : (stage file rounds).errors.stored[index]? = some fault) :
    ∃ before after, fault.ReportedAt file index before after := by
  induction rounds with
  | zero => simp [stage, run, start] at hFault
  | succ rounds ih =>
      rcases stage_succ file rounds with hSame | ⟨-, ended, hRound⟩
      · rw [hSame] at hFault
        exact ih hFault
      cases ended with
      | true =>
          rw [(round_ended hRound).1] at hFault
          exact ih hFault
      | false =>
          have hSound := (inOrder_stage file rounds).scanner
          rcases reports_round hSound hRound with
            hSame | ⟨first, hComes, hSame | ⟨code, message, span, hLine,
              hCol, hPush⟩⟩
          · rw [hSame] at hFault
            exact ih hFault
          · rw [hSame] at hFault
            exact ih hFault
          · have hMade := reportedAt_of_comes hComes hLine hCol hPush
            rw [hPush, Diagnostics.push] at hFault
            dsimp only at hFault
            split at hFault
            · rcases Nat.lt_trichotomy index
                  (stage file rounds).errors.stored.length with
                hOld | rfl | hOver
              · rw [List.getElem?_append_left hOld] at hFault
                exact ih hFault
              · rw [List.getElem?_concat_length] at hFault
                cases hFault
                exact hMade
              · rw [List.getElem?_eq_none] at hFault
                · cases hFault
                · rw [List.length_append]
                  exact hOver
            · exact ih hFault

------------------------------------------------------------
-- Tokens Apart
------------------------------------------------------------

/-
  A state whose tokens are apart. A token that ends where the
  state has come to has a line or the text end there.
-/
structure Apart (state : LexState) : Prop where
  ends :
    ∀ token ∈ solidTokens state.tokens.toList,
      token.span.last < state.scanner.position.place ∨
        ∀ b ∈ state.scanner.rest.head?, b = 10
  ordered :
    (solidTokens state.tokens.toList).Pairwise fun token next =>
      token.span.last < next.span.first

end Stages

section Apart

variable {lines : Nat}
variable {state next : LexState}
variable {first last : Scanner}
variable {read : List UInt8}

/- Bytes that are read from the start of a character move on. -/
theorem place_lt_of_reads
    (hFirst : first.Sound lines)
    (hReads : first.Reaches last read)
    (hRead : read ≠ []) :
    first.position.place < last.position.place := by
  obtain ⟨b, more, rfl⟩ := List.exists_cons_of_ne_nil hRead
  have hAligned := hFirst.aligned
  rw [hReads.rest, List.cons_append] at hAligned
  rw [hReads.position]
  exact (first.position.place_lt_after hAligned.head).trans_le
    (Position.place_le_afterAll _ more)

/- No place with something solid is after spaces at the end of a line. -/
theorem ComesTo.inside
    (hComes : state.ComesTo first) :
    ¬∀ b ∈ state.scanner.rest.head?, b = 10 := by
  intro hEnd
  obtain ⟨⟨spaces, hSpaces, hBlank⟩, b, hHead, -, -, hByte⟩ := hComes
  rw [hSpaces.rest] at hEnd
  cases spaces with
  | nil => exact hByte (hEnd b hHead)
  | cons space spaces =>
      have hSpace := hBlank space List.mem_cons_self
      rw [hEnd space rfl] at hSpace
      cases hSpace

/- A line is entered where one ends by reading it whole, if there is one. -/
theorem Enters.lineEnd
    (hState : state.scanner.Sound lines)
    (hEnters : state.Enters next)
    (hEnd : ∀ b ∈ state.scanner.rest.head?, b = 10) :
    state.scanner.position.place < next.scanner.position.place ∨
      ∀ b ∈ next.scanner.rest.head?, b = 10 := by
  have hStays : state.afterIndentation.scanner.rest = state.scanner.rest := by
    change state.scanner.rest.dropWhile isIndentation = _
    cases hRest : state.scanner.rest with
    | nil => rfl
    | cons b rest =>
        rw [hRest] at hEnd
        rw [hEnd b rfl]
        rfl
  rw [← hStays] at hEnd
  cases hEnters with
  | ended | level | deeper => exact .inr hEnd
  | shallower | astray =>
      rw [scanner_closeBlocks]
      exact .inr hEnd
  | blank hRest hBlank =>
      have hShorter := length_afterLine_lt hRest
      have hReads :=
        ((state.scanner.reaches_skipWhile isIndentation).trans
          (Scanner.reaches_skipWhile _ (· != 10))).trans
            (Scanner.reaches_skip _ 1)
      refine .inl (place_lt_of_reads hState hReads fun hNone => ?_)
      have hRead := hReads.rest
      rw [hNone, List.nil_append, ← hStays] at hRead
      exact absurd (congrArg List.length hRead) hShorter.ne'

/- A round keeps the tokens apart. -/
theorem apart_round
    {file : SourceFile}
    (hState : state.InOrder lines)
    (hApart : state.Apart)
    (hRound : state.round file = (false, next)) :
    next.Apart := by
  have hBefore :
      ∀ token ∈ solidTokens state.tokens.toList,
        token.span.last ≤ state.scanner.position.place :=
    fun token hMem =>
      (hState.tokens.ends token (List.mem_of_mem_filter hMem)).ends
  rcases takes_round hState.scanner hRound with
    hLayout | ⟨first, kind, read, hComes, hTaken, hStops⟩
  · refine ⟨?_, by rw [hLayout.solidTokens_eq]; exact hApart.ordered⟩
    rw [hLayout.solidTokens_eq]
    intro token hMem
    obtain ⟨more, hMore⟩ := reaches_round hRound
    rcases hApart.ends token hMem with hEnds | hEnd
    · exact .inl (hEnds.trans_le hMore.place_le)
    · rcases round_again hRound with ⟨-, hEnters⟩ | ⟨-, hFinds⟩
      · exact (hEnters.lineEnd hState.scanner hEnd).imp_left
          (hBefore token hMem).trans_lt
      · obtain ⟨read, hReads⟩ := hFinds.reaches
        have hShorter := hFinds.length_lt
        have hSpaces :=
          state.scanner.reaches_skipWhile Byte.isLineSpace
        refine .inl ((hBefore token hMem).trans_lt
          (place_lt_of_reads hState.scanner (hSpaces.trans hReads) ?_))
        intro hNone
        obtain ⟨-, rfl⟩ := List.append_eq_nil_iff.mp hNone
        exact absurd (congrArg List.length hReads.rest) hShorter.ne'
  · obtain ⟨⟨spaces, hSpaces, -⟩, -⟩ := id hComes
    have hMoves :=
      place_lt_of_reads hState.scanner (hSpaces.trans hTaken.reaches)
        (by simp [hTaken.read_ne])
    have hSolid :
        solidTokens next.tokens.toList =
          solidTokens state.tokens.toList ++
            [⟨kind, first.position.spanTo next.scanner.position⟩] := by
      rw [hTaken.tokens, Array.toList_push, solidTokens, List.filter_append,
        List.filter_cons_of_pos (by simp [hTaken.solid]), List.filter_nil]
      rfl
    refine ⟨?_, ?_⟩
    · rw [hSolid]
      intro token hMem
      rcases List.mem_append.mp hMem with hOld | hNew
      · exact .inl ((hBefore token hOld).trans_lt hMoves)
      · rw [List.mem_singleton.mp hNew]
        refine hStops.imp_left fun hInside => ?_
        exact Prod.Lex.toLex_lt_toLex.mpr
          (.inr ⟨rfl, max_lt (Nat.sub_one_lt_of_lt hInside) hInside⟩)
    · rw [hSolid]
      refine List.pairwise_append.mpr
        ⟨hApart.ordered, List.pairwise_singleton _ _, ?_⟩
      intro token hMem other hOther
      rw [List.mem_singleton.mp hOther]
      have hEnds := (hApart.ends token hMem).resolve_right hComes.inside
      exact hEnds.trans_le hSpaces.place_le

theorem apart_stage
    (file : SourceFile)
    (rounds : Nat) :
    (stage file rounds).Apart := by
  induction rounds with
  | zero => exact ⟨by simp [stage, run, start, solidTokens], .nil⟩
  | succ rounds ih =>
      rcases stage_succ file rounds with hSame | ⟨-, ended, hRound⟩
      · rw [hSame]
        exact ih
      cases ended with
      | false => exact apart_round (inOrder_stage file rounds) ih hRound
      | true =>
          obtain ⟨more, hMore⟩ := reaches_round hRound
          obtain ⟨hLast, hEnd⟩ := round_ended hRound
          refine ⟨fun token hMem => .inr (by simp [hEnd]), ?_⟩
          rw [hLast]
          exact ih.ordered

end Apart

theorem addsLayout_finish
    (state : LexState) :
    AddsLayout state.tokens.toList state.finish.tokens.toList := by
  have hClosed (ended : LexState) (span : Span)
      (hEnded : AddsLayout state.tokens.toList ended.tokens.toList) :
      AddsLayout state.tokens.toList
        ((ended.closeBlocks state.indents span).push
          .endOfFile span).tokens.toList := by
    rw [closeBlocks_eq, push, Array.toList_push, Array.toList_append]
    exact (hEnded.close _ _).push rfl
  unfold finish
  dsimp only
  split
  · exact hClosed state _ (.refl _)
  · exact hClosed state _ (.refl _)
  · exact hClosed state _ (.refl _)
  · refine hClosed _ _ ?_
    rw [push, Array.toList_push]
    exact (AddsLayout.refl _).push rfl

end LexState

------------------------------------------------------------
-- Files
------------------------------------------------------------

/- The tokens of a file are those of the last stage, its blocks closed. -/
theorem lex_eq_stage
    (file : SourceFile) :
    ∃ rounds, lex file = (LexState.stage file rounds).finish :=
  ⟨_, rfl⟩

/- Each byte of a run is at the position behind the bytes before it. -/
theorem LexState.behind_stage
    (file : SourceFile)
    (rounds count : Nat) :
    ∃ read,
      read ++ ((stage file rounds).scanner.skip count).rest =
          Text.encodeUtf8 file.text ∧
        ((stage file rounds).scanner.skip count).position =
          .behind read := by
  obtain ⟨read, hReads⟩ := reaches_stage file rounds
  exact ⟨_, behind_of_reaches (hReads.trans (Scanner.reaches_skip _ count))⟩

theorem lex_tokens_readAt
    {file : SourceFile}
    {index : Nat}
    {token : Token}
    (hToken : (lex file).tokens[index]? = some token)
    (hSolid : token.kind.isLayout = false) :
    ∃ before read after, token.ReadAt file index before read after := by
  obtain ⟨rounds, hLex⟩ := lex_eq_stage file
  rw [hLex, ← Array.getElem?_toList] at hToken
  have hHere :=
    (LexState.stage file rounds).addsLayout_finish.getElem? hToken hSolid
  rw [Array.getElem?_toList] at hHere
  exact LexState.tokens_stage hHere hSolid

theorem lex_errors_reportedAt
    {file : SourceFile}
    {index : Nat}
    {fault : Diagnostic}
    (hFault : (lex file).errors.stored[index]? = some fault) :
    ∃ before after, fault.ReportedAt file index before after := by
  obtain ⟨rounds, hLex⟩ := lex_eq_stage file
  rw [hLex] at hFault
  exact LexState.errors_stage hFault

/- All faults that are found while a file is read are stored. -/
theorem lex_errors_stored
    (file : SourceFile) :
    (lex file).errors.stored.length = (lex file).errors.total ∧
      (lex file).errors.total ≤ maxErrors := by
  obtain ⟨rounds, hLex⟩ := lex_eq_stage file
  rw [hLex]
  exact LexState.stored_stage file rounds

theorem lex_tokens_apart
    (file : SourceFile) :
    (solidTokens (lex file).tokens.toList).Pairwise fun token next =>
      token.span.last < next.span.first := by
  obtain ⟨rounds, hLex⟩ := lex_eq_stage file
  rw [hLex, (LexState.stage file rounds).addsLayout_finish.solidTokens_eq]
  exact (LexState.apart_stage file rounds).ordered

end SnippetGrader
