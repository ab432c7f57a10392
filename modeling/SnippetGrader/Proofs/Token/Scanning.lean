import SnippetGrader.Proofs.Source.Extent
import SnippetGrader.Proofs.Token.Alignment

/-
  Scanners in the bytes of a text.

  A scanner never moves back, and it moves on with each byte that
  starts a character. Whatever it reads for a token, it stops at
  the start of a character, on one of the lines of the text.

  Key definitions include:
    * `Position.place`
    * `Scanner.Reaches`, `Scanner.Sound`, `Scanner.Passes`

  Key theorems include:
    * `Scanner.Sound.skipWhile_ascii`, `Scanner.Sound.skipWhile_before`
    * `Scanner.Sound.passes_word`, `Scanner.Sound.passes_number`
    * `Scanner.Sound.passes_string`, `Scanner.Sound.passes_mark`
-/

namespace SnippetGrader

------------------------------------------------------------
-- Positions
------------------------------------------------------------

namespace Position

/- Where a position is in the order of the text. -/
def place (position : Position) : ℕ ×ₗ ℕ :=
  toLex (position.line, position.col)

theorem place_le_after
    (position : Position)
    (b : UInt8) :
    position.place ≤ (position.after b).place := by
  unfold after
  split
  · exact Prod.Lex.toLex_le_toLex.mpr (.inl (Nat.lt_succ_self _))
  · split
    · exact le_rfl
    · exact Prod.Lex.toLex_le_toLex.mpr (.inr ⟨rfl, Nat.le_succ _⟩)

/- A byte that starts a character moves on. -/
theorem place_lt_after
    (position : Position)
    {b : UInt8}
    (hStarts : Byte.continuesChar b = false) :
    position.place < (position.after b).place := by
  unfold after
  split
  · exact Prod.Lex.toLex_lt_toLex.mpr (.inl (Nat.lt_succ_self _))
  · rw [Byte.continuesChar] at hStarts
    rw [hStarts]
    exact Prod.Lex.toLex_lt_toLex.mpr (.inr ⟨rfl, Nat.lt_succ_self _⟩)

theorem place_le_afterAll
    (position : Position)
    (bytes : List UInt8) :
    position.place ≤ (position.afterAll bytes).place := by
  induction bytes generalizing position with
  | nil => exact le_rfl
  | cons b bytes ih => exact (position.place_le_after b).trans (ih _)

/- The line feeds of a text count its lines. -/
theorem line_afterAll
    (position : Position)
    (bytes : List UInt8) :
    (position.afterAll bytes).line = position.line + bytes.count 10 := by
  induction bytes generalizing position with
  | nil => rfl
  | cons b bytes ih =>
      have hAfter :
          (position.after b).line =
            position.line + if b == 10 then 1 else 0 := by
        unfold after
        split
        · rfl
        · split <;> rfl
      change ((position.after b).afterAll bytes).line = _
      rw [ih, hAfter, List.count_cons]
      omega

theorem col_after_pos
    {position : Position}
    (hCol : 1 ≤ position.col)
    (b : UInt8) :
    1 ≤ (position.after b).col := by
  unfold after
  split
  · exact le_rfl
  · split
    · exact hCol
    · exact Nat.le_add_left 1 _

theorem col_afterAll_pos
    {position : Position}
    (hCol : 1 ≤ position.col)
    (bytes : List UInt8) :
    1 ≤ (position.afterAll bytes).col := by
  induction bytes generalizing position with
  | nil => exact hCol
  | cons b bytes ih => exact ih (col_after_pos hCol b)

theorem last_spanTo_le
    {first last : Position}
    (hCol : 1 ≤ last.col) :
    (first.spanTo last).last ≤ last.place := by
  refine Prod.Lex.toLex_le_toLex.mpr (.inr ⟨rfl, ?_⟩)
  exact max_le (Nat.sub_le _ 1) hCol

theorem first_spanTo_le_last
    {first last : Position}
    (hPlace : first.place < last.place) :
    (first.spanTo last).first ≤ (first.spanTo last).last := by
  rcases Prod.Lex.toLex_lt_toLex.mp hPlace with hLine | ⟨hLine, hCol⟩
  · exact Prod.Lex.toLex_le_toLex.mpr (.inl hLine)
  · exact Prod.Lex.toLex_le_toLex.mpr
      (.inr ⟨hLine, le_max_of_le_left (Nat.le_sub_one_of_lt hCol)⟩)

end Position

/- Bytes beyond ASCII continue words. -/
theorem Byte.ascii_of_not_continuesWord :
    ∀ b, continuesWord b = false → b < 0x80 := by
  intro b hByte
  simp only [continuesWord, startsWord, Bool.or_eq_false_iff,
    decide_eq_false_iff_not] at hByte
  exact UInt8.not_le.mp hByte.1.2

------------------------------------------------------------
-- Scanners
------------------------------------------------------------

namespace Scanner

/- One scanner gets to another one by reading some bytes. -/
structure Reaches (first last : Scanner) (read : List UInt8) : Prop where
  rest : first.rest = read ++ last.rest
  position : last.position = first.position.afterAll read

theorem reaches_skipWhile
    (scanner : Scanner)
    (test : UInt8 → Bool) :
    scanner.Reaches (scanner.skipWhile test)
      (scanner.rest.takeWhile test) :=
  ⟨List.takeWhile_append_dropWhile.symm, rfl⟩

theorem reaches_skip
    (scanner : Scanner)
    (count : Nat) :
    scanner.Reaches (scanner.skip count) (scanner.rest.take count) :=
  ⟨(List.take_append_drop count _).symm, rfl⟩

theorem reaches_skipTo
    {scanner : Scanner}
    {read suffix : List UInt8}
    (hRest : scanner.rest = read ++ suffix) :
    scanner.Reaches (scanner.skipTo suffix) read ∧
      (scanner.skipTo suffix).rest = suffix := by
  have hCount : scanner.rest.length - suffix.length = read.length := by
    rw [hRest, List.length_append, Nat.add_sub_cancel]
  have hSuffix : (scanner.skipTo suffix).rest = suffix := by
    rw [skipTo, hCount, skip, hRest]
    exact List.drop_left
  refine ⟨⟨by rw [hSuffix, hRest], ?_⟩, hSuffix⟩
  rw [skipTo, hCount, skip, hRest]
  exact congrArg _ List.take_left

theorem Reaches.trans
    {first middle last : Scanner}
    {read more : List UInt8}
    (hFirst : first.Reaches middle read)
    (hLast : middle.Reaches last more) :
    first.Reaches last (read ++ more) := by
  refine ⟨?_, ?_⟩
  · rw [hFirst.rest, hLast.rest, List.append_assoc]
  · rw [hLast.position, hFirst.position, Position.afterAll,
      Position.afterAll, Position.afterAll, List.foldl_append]

theorem Reaches.place_le
    {first last : Scanner}
    {read : List UInt8}
    (hReads : first.Reaches last read) :
    first.position.place ≤ last.position.place := by
  rw [hReads.position]
  exact Position.place_le_afterAll _ read

/-
  A scanner at the start of a character of a text with a given
  number of lines.
-/
structure Sound (lines : Nat) (scanner : Scanner) : Prop where
  aligned : Aligned scanner.rest
  lines : scanner.position.line + scanner.rest.count 10 = lines
  line : 1 ≤ scanner.position.line
  col : 1 ≤ scanner.position.col

/- A sound scanner that is further on than another one. -/
structure Passes (lines : Nat) (first last : Scanner) : Prop where
  sound : last.Sound lines
  moves : first.position.place < last.position.place

/- The start of a text. -/
theorem sound_start
    (file : SourceFile) :
    Sound file.lineCount ⟨Text.encodeUtf8 file.text, {}⟩ := by
  refine ⟨aligned_encodeUtf8 file.text, ?_, le_rfl, le_rfl⟩
  rw [SourceFile.lineCount, length_splitLines, Text.encodeUtf8_eq,
    Nat.add_comm]

namespace Sound

variable {lines : Nat}
variable {first last : Scanner}
variable {read : List UInt8}

theorem line_le
    (hFirst : first.Sound lines) :
    first.position.line ≤ lines := by
  rw [← hFirst.lines]
  exact Nat.le_add_right _ _

theorem after
    (hFirst : first.Sound lines)
    (hReads : first.Reaches last read)
    (hAligned : Aligned last.rest) :
    last.Sound lines := by
  have hLines := hFirst.lines
  have hLine := hFirst.line
  rw [hReads.rest, List.count_append] at hLines
  refine ⟨hAligned, ?_, ?_, ?_⟩
  · rw [hReads.position, Position.line_afterAll]
    omega
  · rw [hReads.position, Position.line_afterAll]
    omega
  · rw [hReads.position]
    exact Position.col_afterAll_pos hFirst.col read

theorem passes
    (hFirst : first.Sound lines)
    (hReads : first.Reaches last read)
    (hRead : read ≠ [])
    (hAligned : Aligned last.rest) :
    first.Passes lines last := by
  refine ⟨hFirst.after hReads hAligned, ?_⟩
  obtain ⟨b, more, rfl⟩ := List.exists_cons_of_ne_nil hRead
  have hHere := hFirst.aligned
  rw [hReads.rest, List.cons_append] at hHere
  rw [hReads.position]
  exact (first.position.place_lt_after hHere.head).trans_le
    (Position.place_le_afterAll _ more)

/- Bytes of ASCII are read as characters. -/
theorem after_ascii
    (hFirst : first.Sound lines)
    (hReads : first.Reaches last read)
    (hAscii : ∀ b ∈ read, b < 0x80) :
    last.Sound lines := by
  refine hFirst.after hReads (Aligned.after_ascii ?_ hAscii)
  rw [← hReads.rest]
  exact hFirst.aligned

theorem passes_ascii
    (hFirst : first.Sound lines)
    (hReads : first.Reaches last read)
    (hAscii : ∀ b ∈ read, b < 0x80)
    (hRead : read ≠ []) :
    first.Passes lines last :=
  hFirst.passes hReads hRead (hFirst.after_ascii hReads hAscii).aligned

theorem skipWhile_ascii
    (hFirst : first.Sound lines)
    {test : UInt8 → Bool}
    (hTest : ∀ b, test b = true → b < 0x80) :
    (first.skipWhile test).Sound lines :=
  hFirst.after_ascii (first.reaches_skipWhile test)
    (readsAscii_takeWhile hTest first.rest).2

/- A single byte of ASCII. -/
theorem passes_skip
    (hFirst : first.Sound lines)
    {b : UInt8}
    {rest : List UInt8}
    (hRest : first.rest = b :: rest)
    (hAscii : b < 0x80) :
    first.Passes lines (first.skip 1) := by
  have hRead : first.rest.take 1 = [b] := by
    rw [hRest]
    rfl
  refine hFirst.passes_ascii (first.reaches_skip 1) ?_ ?_
  · rw [hRead]
    exact List.forall_mem_singleton.mpr hAscii
  · rw [hRead]
    exact List.cons_ne_nil _ _

/- Bytes are read up to one of ASCII. -/
theorem skipWhile_before
    (hFirst : first.Sound lines)
    {test : UInt8 → Bool}
    (hTest : ∀ b, test b = false → b < 0x80) :
    (first.skipWhile test).Sound lines := by
  have hReads := first.reaches_skipWhile test
  have hAligned := hFirst.aligned
  rw [hReads.rest] at hAligned
  refine hFirst.after hReads (hAligned.before_ascii fun next hHead => ?_)
  refine hTest next ?_
  have hNext : (first.rest.dropWhile test).head? = some next := hHead
  have hNot := List.head?_dropWhile_not test first.rest
  rw [hNext] at hNot
  exact hNot

/- The rest of a line, and the line feed after it. -/
theorem skipLine
    (hFirst : first.Sound lines) :
    (first.skipWhile (· != 10)).Sound lines ∧
      ((first.skipWhile (· != 10)).skip 1).Sound lines := by
  have hBreak (b : UInt8) (hFeed : (b != 10) = false) : b = 10 := by
    simpa using hFeed
  have hLine : (first.skipWhile (· != 10)).Sound lines := by
    refine hFirst.skipWhile_before fun b hFeed => ?_
    rw [hBreak b hFeed]
    decide
  refine ⟨hLine, hLine.after_ascii (reaches_skip _ 1) ?_⟩
  intro b hMem
  have hNot := List.head?_dropWhile_not (· != 10) first.rest
  rw [skipWhile] at hMem
  rcases hRest : first.rest.dropWhile (· != 10) with _ | ⟨next, rest⟩
  · rw [hRest] at hMem
    cases hMem
  · rw [hRest] at hNot hMem
    rw [List.mem_singleton.mp hMem, hBreak next hNot]
    decide

theorem passes_word
    (hFirst : first.Sound lines)
    {b : UInt8}
    {rest : List UInt8}
    (hRest : first.rest = b :: rest)
    (hStarts : Byte.startsWord b = true) :
    first.Passes lines (first.skipWhile Byte.continuesWord) := by
  refine hFirst.passes (first.reaches_skipWhile _) ?_
    (hFirst.skipWhile_before Byte.ascii_of_not_continuesWord).aligned
  have hWord : Byte.continuesWord b = true := by
    rw [Byte.continuesWord, hStarts, Bool.true_or]
  rw [hRest, List.takeWhile_cons_of_pos hWord]
  exact List.cons_ne_nil _ _

theorem passes_number
    (hFirst : first.Sound lines)
    {b : UInt8}
    {rest : List UInt8}
    (hRest : first.rest = b :: rest)
    (hStarts : Byte.isDigit b = true ∨ b = Byte.of '.') :
    first.Passes lines
      (first.skipTo (NumberLiteral.read first.rest).rest) := by
  rw [hRest]
  obtain ⟨written, hWritten, hBytes, hAscii⟩ :=
    NumberLiteral.readsAscii_read hStarts rest
  rw [← hRest] at hBytes ⊢
  exact hFirst.passes_ascii (reaches_skipTo hBytes).1 hAscii hWritten

theorem passes_mark
    (hFirst : first.Sound lines)
    {mark : Mark}
    {length : Nat}
    (hMark : LexState.mark? first.rest = some (mark, length)) :
    first.Passes lines (first.skip length) :=
  have hRead := LexState.readsAscii_mark hMark
  hFirst.passes_ascii (first.reaches_skip length) hRead.2.2 hRead.1

/- A string, the first quote of which comes next. -/
theorem passes_string
    (hFirst : first.Sound lines)
    {quote : UInt8}
    {rest : List UInt8}
    (hRest : first.rest = quote :: rest)
    (hQuote : quote < 0x80)
    (raw : Bool) :
    first.Passes lines
      (first.skipTo (StringBody.read quote raw rest).rest) := by
  have hChain : rest.IsChain KeepsChars := by
    have hHere := hFirst.aligned.chain
    rw [hRest] at hHere
    exact hHere.suffix (List.suffix_cons _ _)
  obtain ⟨⟨body, hBody⟩, hAligned⟩ :=
    StringBody.leaves_read hQuote raw rest hChain
  have hBytes :
      first.rest =
        (quote :: body) ++ (StringBody.read quote raw rest).rest := by
    rw [hRest, List.cons_append, hBody]
  have hReads := reaches_skipTo hBytes
  refine hFirst.passes hReads.1 (List.cons_ne_nil _ _) ?_
  rw [hReads.2]
  exact hAligned

end Sound

theorem Passes.trans_le
    {lines : Nat}
    {first middle last : Scanner}
    (hPasses : middle.Passes lines last)
    (hPlace : first.position.place ≤ middle.position.place) :
    first.Passes lines last :=
  ⟨hPasses.sound, hPlace.trans_lt hPasses.moves⟩

end Scanner

end SnippetGrader
