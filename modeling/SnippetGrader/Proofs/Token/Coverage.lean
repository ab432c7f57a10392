import SnippetGrader.Proofs.Token.Rounds

/-
  No part of a text is lost.

  The bytes of a text are those of its tokens and its faults,
  white space, comments and backslashes that join lines. The
  only bytes that a run passes over are those of a line with a
  carriage return right after its indentation.

  Key definitions include:
    * `Piece`, `Accounted`
    * `ReturnLine`

  Key theorems include:
    * `LexState.RunsTo.accounted`
    * `lex_accounts`
-/

namespace SnippetGrader

------------------------------------------------------------
-- Pieces
------------------------------------------------------------

/- What a piece of a text that starts at a position was read as. -/
inductive Piece (lexed : Lexed) (first : Position) : List UInt8 → Prop
  | space
      {b : UInt8}
      (hSpace : Byte.isLineSpace b = true ∨ b = 10) :
      Piece lexed first [b]
  | comment
      {words : List UInt8}
      (hWords : 10 ∉ words) :
      Piece lexed first (Byte.of '#' :: words)
  | joint
      {ending : List UInt8}
      (hEnding : ending = [10] ∨ ending = [13, 10]) :
      Piece lexed first (Byte.of '\\' :: ending)
  | token
      {token : Token}
      {read : List UInt8}
      (hToken : token ∈ lexed.tokens)
      (hSolid : token.kind.isLayout = false)
      (hSpan : token.span = first.spanTo (first.afterAll read)) :
      Piece lexed first read
  | fault
      {fault : Diagnostic}
      {read : List UInt8}
      (hFault : fault ∈ lexed.errors.stored)
      (hSpan : fault.span = first.spanTo (first.afterAll read)) :
      Piece lexed first read

/- Bytes from a position on that consist of pieces and of what may be passed over. -/
inductive Accounted
    (lexed : Lexed)
    (passed : Position → List UInt8 → Prop) :
    Position → List UInt8 → Prop
  | nil
      {first : Position} :
      Accounted lexed passed first []
  | piece
      {first : Position}
      {read rest : List UInt8}
      (hPiece : Piece lexed first read)
      (hRest : Accounted lexed passed (first.afterAll read) rest) :
      Accounted lexed passed first (read ++ rest)
  | passed
      {first : Position}
      {read rest : List UInt8}
      (hPassed : passed first read)
      (hRest : Accounted lexed passed (first.afterAll read) rest) :
      Accounted lexed passed first (read ++ rest)

/- A line with more after a carriage return that stands next to its indentation. -/
structure ReturnLine (first : Position) (read : List UInt8) : Prop where
  starts : first.col = 1
  written :
    ∃ indentation words,
      (∀ b ∈ indentation, LexState.isIndentation b = true) ∧
        words ≠ [] ∧ 10 ∉ words ∧ read = indentation ++ 13 :: words

theorem Byte.isLineSpace_of_isIndentation :
    ∀ b, LexState.isIndentation b = true → isLineSpace b = true := by
  intro b hByte
  simp only [LexState.isIndentation, Bool.or_eq_true, beq_iff_eq] at hByte
  rcases hByte with (rfl | rfl) | rfl <;> rfl

/- What is left of a line that has been read up to its line feed. -/
theorem Scanner.rest_skipLine
    (scanner : Scanner) :
    (scanner.skipWhile (· != 10)).rest = [] ∨
      ∃ rest, (scanner.skipWhile (· != 10)).rest = 10 :: rest := by
  cases hRest : (scanner.skipWhile (· != 10)).rest with
  | nil => exact .inl rfl
  | cons b rest =>
      have hStop :=
        List.head?_dropWhile_not (· != 10) scanner.rest
      change (scanner.rest.dropWhile (· != 10)) = _ at hRest
      rw [hRest] at hStop
      simp only [List.head?_cons, bne_eq_false_iff_eq] at hStop
      exact .inr ⟨rest, by rw [hStop]⟩

section Pieces

variable {lexed : Lexed}
variable {passed : Position → List UInt8 → Prop}
variable {first last : Scanner}
variable {read : List UInt8}

/- What is accounted from a later place on is so from an earlier one. -/
theorem Accounted.of_reaches
    (hLast : Accounted lexed passed last.position last.rest)
    (hReaches : first.Reaches last read)
    (hPiece : Piece lexed first.position read) :
    Accounted lexed passed first.position first.rest := by
  rw [hReaches.rest]
  rw [hReaches.position] at hLast
  exact .piece hPiece hLast

theorem Accounted.of_passing
    (hLast : Accounted lexed passed last.position last.rest)
    (hReaches : first.Reaches last read)
    (hPassed : passed first.position read) :
    Accounted lexed passed first.position first.rest := by
  rw [hReaches.rest]
  rw [hReaches.position] at hLast
  exact .passed hPassed hLast

theorem Accounted.of_spaces
    {place : Position}
    {spaces rest : List UInt8}
    (hRest : Accounted lexed passed (place.afterAll spaces) rest)
    (hSpaces : ∀ b ∈ spaces, Byte.isLineSpace b = true ∨ b = 10) :
    Accounted lexed passed place (spaces ++ rest) := by
  induction spaces generalizing place with
  | nil => exact hRest
  | cons b spaces ih =>
      have hLater :=
        ih hRest fun other hMem => hSpaces other (List.mem_cons_of_mem _ hMem)
      have hPiece : Piece lexed place [b] :=
        .space (hSpaces b List.mem_cons_self)
      have hWhole : Accounted lexed passed place ([b] ++ (spaces ++ rest)) :=
        .piece hPiece hLater
      exact hWhole

/- Spaces that have been skipped count as white space. -/
theorem Accounted.of_skipWhile
    {test : UInt8 → Bool}
    (hTest : ∀ b, test b = true → Byte.isLineSpace b = true)
    (hLast :
      Accounted lexed passed (first.skipWhile test).position
        (first.skipWhile test).rest) :
    Accounted lexed passed first.position first.rest := by
  rw [(first.reaches_skipWhile test).rest]
  exact .of_spaces hLast fun b hMem =>
    .inl (hTest b (List.mem_takeWhile_imp hMem))

/- The line feed at the end of a line is white space, if there is one. -/
theorem Accounted.of_lineFeed
    (hNext :
      Accounted lexed passed ((first.skipWhile (· != 10)).skip 1).position
        ((first.skipWhile (· != 10)).skip 1).rest) :
    Accounted lexed passed (first.skipWhile (· != 10)).position
      (first.skipWhile (· != 10)).rest := by
  rcases first.rest_skipLine with hEnd | ⟨rest, hFeed⟩
  · rw [hEnd]
    exact .nil
  · refine hNext.of_reaches (Scanner.reaches_skip _ 1) ?_
    rw [hFeed]
    exact .space (.inr rfl)

end Pieces

namespace LexState

------------------------------------------------------------
-- Rounds
------------------------------------------------------------

/- A state in which lines are entered where they start. -/
structure Steady (state : LexState) : Prop where
  stored : state.errors.stored.length ≤ state.errors.total
  lineStart :
    state.lineStart = true →
      state.brackets = 0 ∧
        (state.scanner.position.col = 1 ∨ state.scanner.rest = [])

section Rounds

variable {file : SourceFile}
variable {state next last : LexState}
variable {lexed : Lexed}

/- A line feed is followed by the start of a line. -/
theorem col_skip_lineFeed
    {scanner : Scanner}
    {rest : List UInt8}
    (hRest : scanner.rest = 10 :: rest) :
    (scanner.skip 1).position.col = 1 := by
  simp [Scanner.skip, hRest, Position.afterAll, Position.after]

theorem steady_round
    (hState : state.Steady)
    (hRound : state.round file = (false, next)) :
    next.Steady where
  stored := by
    rcases errors_round hRound with hSame | ⟨fault, hPush⟩
    · rw [hSame]
      exact hState.stored
    · rw [hPush, Diagnostics.push]
      have hHere := hState.stored
      dsimp only
      split
      · rw [List.length_append, List.length_singleton]
        omega
      · omega
  lineStart hLine := by
    rcases round_again hRound with ⟨hStart, hEnters⟩ | ⟨hInside, hFinds⟩
    · have hNone := beq_iff_eq.mp (Bool.and_eq_true_iff.mp hStart).2
      cases hEnters with
      | ended | level | deeper => cases hLine
      | shallower | astray =>
          rw [closeBlocks_eq] at hLine
          cases hLine
      | blank =>
          refine ⟨hNone, ?_⟩
          rcases state.afterIndentation.scanner.rest_skipLine with
            hEnd | ⟨rest, hFeed⟩
          · exact .inr (by simp [Scanner.skip, hEnd])
          · exact .inl (col_skip_lineFeed hFeed)
    · have hWithin : state.lineStart = false := by
        refine Bool.eq_false_iff.mpr fun hStart => ?_
        simp [entersNext, hStart, (hState.lineStart hStart).1] at hInside
      cases hFinds with
      | token hToken => simp [hToken.lineStart, hWithin] at hLine
      | fault hFault => simp [hFault.lineStart, hWithin] at hLine
      | comment | joined => simp [moveTo, hWithin] at hLine
      | newline hRest =>
          rw [scanner_readNewline]
          refine ⟨?_, .inl (col_skip_lineFeed hRest)⟩
          simp only [readNewline] at hLine ⊢
          split at hLine
          · simp [moveTo, hWithin] at hLine
          · rename_i hNone
            split
            · omega
            · split <;> simp [push, moveTo] <;> omega

/- What a line is entered with is accounted, or it is a line to be passed over. -/
theorem Enters.accounted
    (hState : state.Steady)
    (hStart : state.lineStart = true)
    (hEnters : state.Enters next)
    (hNext :
      Accounted lexed ReturnLine next.scanner.position next.scanner.rest) :
    Accounted lexed ReturnLine state.scanner.position
      state.scanner.rest := by
  have hIndented
      (hLater :
        Accounted lexed ReturnLine
          (state.scanner.skipWhile isIndentation).position
          (state.scanner.skipWhile isIndentation).rest) :=
    Accounted.of_skipWhile Byte.isLineSpace_of_isIndentation hLater
  cases hEnters with
  | ended | level | deeper => exact hIndented hNext
  | shallower | astray =>
      rw [scanner_closeBlocks] at hNext
      exact hIndented hNext
  | @blank b rest hRest hBlank =>
      have hWords := state.afterIndentation.scanner.reaches_skipWhile (· != 10)
      have hNone :
          10 ∉ state.afterIndentation.scanner.rest.takeWhile (· != 10) :=
        fun hMem => by simpa using List.mem_takeWhile_imp hMem
      have hLine := Accounted.of_lineFeed hNext
      generalize state.afterIndentation.scanner.skipWhile (· != 10) = line
        at hWords hLine
      generalize state.afterIndentation.scanner.rest.takeWhile (· != 10) =
        words at hWords hNone
      have hFirst : b :: rest = words ++ line.rest :=
        hRest.symm.trans hWords.rest
      cases words with
      | nil =>
          rw [hWords.position] at hLine
          refine hIndented ?_
          change Accounted lexed ReturnLine _ state.afterIndentation.scanner.rest
          rw [hWords.rest]
          exact hLine
      | cons c words =>
          obtain ⟨rfl, -⟩ := List.cons.inj hFirst
          rw [List.mem_cons, not_or] at hNone
          simp only [blanksLine, Bool.or_eq_true, beq_iff_eq] at hBlank
          rcases hBlank with (rfl | rfl) | rfl
          · exact absurd rfl hNone.1
          · cases words with
            | nil =>
                exact hIndented
                  (hLine.of_reaches hWords (.space (.inl rfl)))
            | cons c words =>
                have hIndentation :=
                  state.scanner.reaches_skipWhile isIndentation
                refine hLine.of_passing (hIndentation.trans hWords)
                  ⟨?_, _, _, fun b hMem => List.mem_takeWhile_imp hMem,
                    List.cons_ne_nil _ _, hNone.2, rfl⟩
                refine (hState.lineStart hStart).2.resolve_right fun hEnd => ?_
                simp [afterIndentation, Scanner.skipWhile, hEnd] at hRest
          · exact hIndented
              (hLine.of_reaches hWords (.comment hNone.2))

/- What a step finds is accounted, together with the spaces before it. -/
theorem Finds.accounted
    (hState : state.Steady)
    (hFinds : state.Finds (state.scanner.skipWhile Byte.isLineSpace) next)
    (hTokens : next.tokens.toList ⊆ lexed.tokens.toList)
    (hStored : next.errors.stored ⊆ lexed.errors.stored)
    (hOpen : state.errors.total < maxErrors)
    (hNext :
      Accounted lexed ReturnLine next.scanner.position next.scanner.rest) :
    Accounted lexed ReturnLine state.scanner.position
      state.scanner.rest := by
  refine Accounted.of_skipWhile (fun _ hSpace => hSpace) ?_
  generalize state.scanner.skipWhile Byte.isLineSpace = first at *
  cases hFinds with
  | token hToken =>
      have hMem :=
        hTokens (by
          rw [hToken.tokens, Array.toList_push]
          exact List.mem_append_right _ List.mem_cons_self)
      refine hNext.of_reaches hToken.reaches
        (.token (Array.mem_toList_iff.mp hMem) hToken.solid ?_)
      rw [hToken.reaches.position]
  | fault hFault =>
      have hMem :=
        hStored (by
          rw [hFault.errors, Diagnostics.push]
          dsimp only
          rw [if_pos (lt_of_le_of_lt hState.stored hOpen)]
          exact List.mem_append_right _ List.mem_cons_self)
      refine hNext.of_reaches hFault.reaches (.fault hMem ?_)
      rw [hFault.span, hFault.reaches.position]
  | comment hRest =>
      refine hNext.of_reaches (first.reaches_skipWhile _) ?_
      rw [hRest, List.takeWhile_cons_of_pos (by decide)]
      exact .comment fun hMem => by
        simpa using List.mem_takeWhile_imp hMem
  | joined hEnding hReaches =>
      exact hNext.of_reaches hReaches (.joint hEnding)
  | newline hRest =>
      rw [scanner_readNewline] at hNext
      refine hNext.of_reaches (first.reaches_skip 1) ?_
      rw [hRest]
      exact .space (.inr rfl)

/- What a run reads is accounted by what its last state has found. -/
theorem RunsTo.accounted
    (hRun : RunsTo file state last)
    (hState : state.Steady)
    (hOpen : last.errors.isFull = false)
    (hTokens : last.tokens.toList ⊆ lexed.tokens.toList)
    (hStored : last.errors.stored ⊆ lexed.errors.stored) :
    Accounted lexed ReturnLine state.scanner.position
      state.scanner.rest := by
  induction hRun with
  | full hFull => simp [hFull] at hOpen
  | ended _ hRound =>
      obtain ⟨hLast, hEnd⟩ := round_ended hRound
      refine Accounted.of_skipWhile (fun _ hSpace => hSpace) ?_
      rw [hLast] at hEnd
      rw [show (Scanner.skipWhile _ Byte.isLineSpace).rest = [] from hEnd]
      exact .nil
  | again hHere hRound hRest ih =>
      have hNext := ih (steady_round hState hRound) hOpen hTokens hStored
      have hLater := hRest.extends
      rcases round_again hRound with ⟨hStart, hEnters⟩ | ⟨-, hFinds⟩
      · exact hEnters.accounted hState (Bool.and_eq_true_iff.mp hStart).1 hNext
      · refine hFinds.accounted hState
          (List.Subset.trans hLater.tokens.subset hTokens)
          (List.Subset.trans hLater.stored.subset hStored) ?_ hNext
        simpa [Diagnostics.isFull] using hHere

end Rounds

end LexState

/-
  A text with fewer faults than are stored is accounted by its
  tokens and its faults, but for lines with a carriage return
  next to their indentation.
-/
theorem lex_accounts
    (file : SourceFile)
    (hOpen : (lex file).errors.isFull = false) :
    Accounted (lex file) ReturnLine {} (Text.encodeUtf8 file.text) := by
  obtain ⟨last, hRun, hLex⟩ := runsTo_lex file
  rw [hLex] at hOpen ⊢
  exact hRun.accounted ⟨le_rfl, fun _ => ⟨rfl, .inl rfl⟩⟩ hOpen
    last.tokens_finish.subset (List.Subset.refl _)

/- A text with a comment, a joined line, and characters that no token starts with. -/
theorem lex_accounts_faults :
    (lex ⟨"a.py", "f(a) # b\n  \r\n$ \\\n'c"⟩).errors.isFull = false ∧
      Accounted (lex ⟨"a.py", "f(a) # b\n  \r\n$ \\\n'c"⟩) ReturnLine {}
        (Text.encodeUtf8 "f(a) # b\n  \r\n$ \\\n'c") := by
  have hOpen :
      (lex ⟨"a.py", "f(a) # b\n  \r\n$ \\\n'c"⟩).errors.isFull = false := by
    decide +kernel
  exact ⟨hOpen, lex_accounts _ hOpen⟩

/- Where there are neither tokens nor faults, there is only white space. -/
theorem Accounted.isSpace
    {lexed : Lexed}
    {first : Position}
    {bytes : List UInt8}
    (hBytes : Accounted lexed (fun _ _ => False) first bytes)
    (hTokens : ∀ token ∈ lexed.tokens, token.kind.isLayout = true)
    (hFaults : lexed.errors.stored = [])
    (hPlain : ∀ b ∈ bytes, b ≠ Byte.of '#' ∧ b ≠ Byte.of '\\') :
    ∀ b ∈ bytes, Byte.isLineSpace b = true ∨ b = 10 := by
  induction hBytes with
  | nil => simp
  | passed hPassed => exact hPassed.elim
  | piece hPiece hRest ih =>
      have hLater := ih fun b hMem => hPlain b (List.mem_append_right _ hMem)
      have hFirst := fun b hMem => hPlain b (List.mem_append_left _ hMem)
      cases hPiece with
      | space hSpace =>
          intro b hMem
          rcases List.mem_cons.mp hMem with rfl | hMem
          · exact hSpace
          · exact hLater b hMem
      | comment => exact absurd rfl (hFirst _ List.mem_cons_self).1
      | joint => exact absurd rfl (hFirst _ List.mem_cons_self).2
      | token hToken hSolid => simp [hTokens _ hToken] at hSolid
      | fault hFault => simp [hFaults] at hFault

/- A statement that leaves neither a token nor a fault. -/
theorem statement_passed_over :
    (lex ⟨"a.py", "\rx = 1\n"⟩).errors.isFull = false ∧
      ¬Accounted (lex ⟨"a.py", "\rx = 1\n"⟩) (fun _ _ => False) {}
        (Text.encodeUtf8 "\rx = 1\n") := by
  have hLexed :
      (lex ⟨"a.py", "\rx = 1\n"⟩).tokens.all (·.kind.isLayout) = true ∧
        (lex ⟨"a.py", "\rx = 1\n"⟩).errors.stored = [] ∧
        (lex ⟨"a.py", "\rx = 1\n"⟩).errors.isFull = false := by
    decide +kernel
  obtain ⟨hTokens, hFaults, hOpen⟩ := hLexed
  refine ⟨hOpen, fun hAccounted => ?_⟩
  have hSpace :=
    hAccounted.isSpace
      (fun token hMem => by
        obtain ⟨i, hIndex, rfl⟩ := Array.mem_iff_getElem.mp hMem
        exact Array.all_eq_true.mp hTokens i hIndex)
      hFaults (by decide +kernel) (Byte.of 'x') (by decide +kernel)
  revert hSpace
  decide

end SnippetGrader
