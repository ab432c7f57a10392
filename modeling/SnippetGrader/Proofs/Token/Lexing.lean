import SnippetGrader.Proofs.Source.Renaming
import SnippetGrader.Proofs.Token.Literals
import SnippetGrader.Token.Lexer

/-
  What a run over a text finds.

  Each step of a run adds only tokens that could have been read,
  and looks at the name of the file only to report a fault. So
  does the whole run.

  Key definitions include:
    * `LexState.Reads`

  Key theorems include:
    * `LexState.reads_run`
    * `readsBack_lex`, `lex_renamed`
-/

namespace SnippetGrader

namespace LexState

/- A state of a run over a file of another name. -/
def inFile (name : String) (state : LexState) : LexState :=
  { state with errors := state.errors.inFile name }

/- A state whose tokens could all have been read from a text. -/
def ReadsBack (state : LexState) : Prop :=
  ∀ token ∈ state.tokens, token.kind.ReadsBack

/- A step that keeps both in mind. -/
structure Reads (step : SourceFile → LexState → LexState) : Prop where
  inFile :
    ∀ name file state,
      step (file.renamed name) (state.inFile name) =
        (step file state).inFile name
  keeps :
    ∀ file state, state.ReadsBack → (step file state).ReadsBack

------------------------------------------------------------
-- Emission
------------------------------------------------------------

theorem readsBack_push
    {state : LexState}
    (hState : state.ReadsBack)
    (kind : TokenKind)
    (hKind : kind.ReadsBack)
    (span : Span) :
    (state.push kind span).ReadsBack := by
  intro token hMem
  rcases Array.mem_push.mp hMem with hEarlier | rfl
  · exact hState token hEarlier
  · exact hKind

theorem inFile_report
    (name : String)
    (state : LexState)
    (file : SourceFile)
    (code : ErrorCode)
    (message : String)
    (span : Span) :
    (state.inFile name).report (file.renamed name) code message span =
      (state.report file code message span).inFile name := by
  simp only [report, inFile, Diagnostics.inFile_push,
    Diagnostic.make_renamed]

/- Closing blocks adds tokens that anything may end with. -/
theorem readsBack_closeAll
    {state : LexState}
    (hState : state.ReadsBack)
    (closed : List Nat)
    (span : Span) :
    (closed.foldl (fun st _ => st.push .dedent span)
      state).ReadsBack := by
  induction closed generalizing state with
  | nil => exact hState
  | cons _ rest ih =>
      exact ih (readsBack_push hState .dedent trivial span)

theorem inFile_closeAll
    (name : String)
    (state : LexState)
    (closed : List Nat)
    (span : Span) :
    closed.foldl (fun st _ => st.push .dedent span)
        (state.inFile name) =
      (closed.foldl (fun st _ => st.push .dedent span)
        state).inFile name := by
  induction closed generalizing state with
  | nil => rfl
  | cons _ rest ih => exact ih (state.push .dedent span)

------------------------------------------------------------
-- Lines
------------------------------------------------------------

/- The state after the blocks that a narrower line closes. -/
theorem inFile_closing
    (name : String)
    (state : LexState)
    (closed left : List Nat)
    (span : Span) :
    { closed.foldl (fun st _ => st.push .dedent span)
        (state.inFile name) with indents := left } =
      ({ closed.foldl (fun st _ => st.push .dedent span)
          state with indents := left } : LexState).inFile name := by
  rw [inFile_closeAll]
  rfl

theorem reads_enterLine :
    Reads fun file state => state.enterLine file := by
  constructor
  · intro name file state
    have hScanner : (state.inFile name).scanner = state.scanner := rfl
    have hIndents : (state.inFile name).indents = state.indents := rfl
    simp only [enterLine, hScanner, hIndents]
    generalize hLater : state.scanner.skipWhile isIndentation = later
    let entered : LexState :=
      { state with scanner := later, lineStart := false }
    cases later.peek? with
    | none => rfl
    | some b =>
        by_cases hBlank : blanksLine b = true
        · simp only [hBlank, if_true]
          rfl
        simp only [hBlank, Bool.false_eq_true, if_false]
        generalize indentWidth 0 state.scanner.rest = width
        by_cases hWider : width > state.indents.headD 0
        · simp only [hWider, if_true]
          rfl
        simp only [hWider, if_false]
        generalize state.indents.takeWhile (· > width) = closed
        generalize state.indents.dropWhile (· > width) = left
        by_cases hSame : closed.isEmpty = true
        · simp only [hSame, if_true]
          rfl
        simp only [hSame, Bool.false_eq_true, if_false]
        by_cases hFound : (left.headD 0 == width) = true
        · simp only [hFound, if_true]
          exact inFile_closing name entered closed left _
        simp only [hFound, Bool.false_eq_true, if_false]
        have hReport :=
          inFile_report name entered file .inconsistentDedent
            "unindent does not match any outer indentation level"
            later.position.point
        have hClosing := inFile_closing name
          (entered.report file .inconsistentDedent
            "unindent does not match any outer indentation level"
            later.position.point)
        rw [← hReport] at hClosing
        exact hClosing _ _ _
  · intro file state hState
    simp only [enterLine]
    cases (state.scanner.skipWhile isIndentation).peek? with
    | none => exact hState
    | some b =>
        dsimp only
        split
        · exact hState
        · split
          · refine readsBack_push ?_ .indent trivial _
            exact hState
          · split
            · exact hState
            · split
              · intro token hMem
                refine readsBack_closeAll ?_ _ _ token hMem
                exact hState
              · intro token hMem
                refine readsBack_closeAll ?_ _ _ token hMem
                exact hState

------------------------------------------------------------
-- Tokens
------------------------------------------------------------

theorem reads_readString
    (first opening : Scanner)
    (quote : UInt8)
    (raw : Bool) :
    Reads fun file state =>
      state.readString file first opening quote raw := by
  constructor
  · intro name file state
    simp only [readString]
    split
    · rfl
    · rw [inFile_report]
      rfl
  · intro file state hState
    simp only [readString]
    refine readsBack_push ?_ (.str _) trivial _
    split
    · exact hState
    · exact hState

/- The bytes of a word are those that the run skips. -/
theorem read_skipWhile
    (scanner : Scanner)
    (test : UInt8 → Bool) :
    scanner.read (scanner.skipWhile test) =
      scanner.rest.takeWhile test := by
  unfold Scanner.read Scanner.skipWhile
  generalize scanner.rest = bytes
  have hSplit := List.takeWhile_append_dropWhile (p := test) (l := bytes)
  have hLength := congrArg List.length hSplit
  rw [List.length_append] at hLength
  have hTake :
      bytes.length - (bytes.dropWhile test).length =
        (bytes.takeWhile test).length := by
    omega
  dsimp only
  rw [hTake]
  exact (List.prefix_iff_eq_take.mp (List.takeWhile_prefix test)).symm

theorem reads_readWord
    {first : Scanner}
    {b : UInt8}
    {rest : List UInt8}
    (hFirst : first.rest = b :: rest)
    (hStarts : Byte.startsWord b = true) :
    Reads fun file state => state.readWord file first := by
  have hWord :
      first.read (first.skipWhile Byte.continuesWord) =
        b :: rest.takeWhile Byte.continuesWord := by
    rw [read_skipWhile, hFirst, List.takeWhile_cons_of_pos]
    rw [Byte.continuesWord, hStarts, Bool.true_or]
  have hKind :=
    readsBack_word hStarts fun b' hMem =>
      List.all_eq_true.mp
        (List.all_takeWhile (l := rest)) b' hMem
  constructor
  · intro name file state
    simp only [readWord]
    split
    · split
      · exact (reads_readString _ _ _ _).inFile name file state
      · rfl
    · rfl
  · intro file state hState
    simp only [readWord, hWord]
    split
    · split
      · exact (reads_readString _ _ _ _).keeps file state hState
      · exact readsBack_push hState _ hKind _
    · exact readsBack_push hState _ hKind _

theorem reads_readNumber
    {first : Scanner}
    {b : UInt8}
    {rest : List UInt8}
    (hFirst : first.rest = b :: rest)
    (hStarts : Byte.isDigit b = true ∨ b = Byte.of '.') :
    Reads fun file state => state.readNumber file first := by
  constructor
  · intro name file state
    simp only [readNumber]
    split
    · rfl
    · rw [inFile_report]
      rfl
  · intro file state hState
    simp only [readNumber, hFirst]
    refine readsBack_push ?_ _
      (NumberLiteral.readsBack_read hStarts rest) _
    split
    · exact hState
    · exact hState

theorem reads_readNewline
    (first : Scanner) :
    Reads fun _ state => state.readNewline first := by
  constructor
  · intro name file state
    have hBrackets :
        (state.inFile name).brackets = state.brackets := rfl
    have hLast : (state.inFile name).lastKind? = state.lastKind? := rfl
    simp only [readNewline, hBrackets, hLast]
    split
    · rfl
    · split <;> rfl
  · intro file state hState
    simp only [readNewline]
    split
    · exact hState
    · split
      · exact hState
      · exact hState
      · refine readsBack_push ?_ .newline trivial _
        exact hState

theorem reads_readContinuation
    (first : Scanner) :
    Reads fun file state => state.readContinuation file first := by
  constructor
  · intro name file state
    simp only [readContinuation]
    split
    · rfl
    · exact inFile_report name (state.moveTo _) file _ _ _
  · intro file state hState
    simp only [readContinuation]
    split
    · exact hState
    · exact hState

/- The longer marks by the codes of their characters. -/
theorem longMarks_eq :
    longMarks =
      [([42, 42, 61], .doubleStarAssign), ([47, 47, 61], .doubleSlashAssign),
       ([42, 42], .doubleStar), ([47, 47], .doubleSlash),
       ([43, 61], .plusAssign), ([45, 61], .minusAssign),
       ([42, 61], .starAssign), ([47, 61], .slashAssign),
       ([37, 61], .percentAssign), ([45, 62], .arrow), ([61, 61], .equal),
       ([33, 61], .notEqual), ([60, 61], .lessEq), ([62, 61], .greaterEq),
       ([60, 60], .shiftLeft), ([62, 62], .shiftRight)] :=
  rfl

theorem reads_readMark
    (first : Scanner)
    (b : UInt8) :
    Reads fun file state => state.readMark file first b := by
  constructor
  · intro name file state
    simp only [readMark]
    split
    · rfl
    · exact inFile_report name (state.moveTo _) file _ _ _
  · intro file state hState
    simp only [readMark]
    split
    · intro token hMem
      refine readsBack_push ?_ (.mark _) trivial _ token hMem
      exact hState
    · exact hState

------------------------------------------------------------
-- Runs
------------------------------------------------------------

theorem reads_ite
    {choice : Bool}
    {first second : SourceFile → LexState → LexState}
    (hFirst : Reads first)
    (hSecond : Reads second) :
    Reads fun file state =>
      if choice then first file state else second file state := by
  cases choice with
  | true => simpa using hFirst
  | false => simpa using hSecond

/- What stands at a byte that is not a space. -/
theorem reads_token
    {first : Scanner}
    {b : UInt8}
    {rest : List UInt8}
    (hFirst : first.rest = b :: rest) :
    Reads fun file state =>
      if b == 10 then state.readNewline first
      else if b == Byte.of '#' then
        state.moveTo (first.skipWhile (· != 10))
      else if b == Byte.of '\\' then state.readContinuation file first
      else if b == Byte.of '"' || b == Byte.of '\'' then
        state.readString file first first b false
      else if
          Byte.isDigit b ||
            (b == Byte.of '.' &&
              (rest.head?.map Byte.isDigit).getD false) then
        state.readNumber file first
      else if Byte.startsWord b then state.readWord file first
      else state.readMark file first b := by
  refine reads_ite (reads_readNewline first) ?_
  refine reads_ite ⟨fun _ _ _ => rfl, fun _ _ hState => hState⟩ ?_
  refine reads_ite (reads_readContinuation first) ?_
  refine reads_ite (reads_readString first first b false) ?_
  cases hNumber :
      Byte.isDigit b ||
        (b == Byte.of '.' &&
          (rest.head?.map Byte.isDigit).getD false) with
  | true =>
      refine reads_readNumber hFirst ?_
      simp only [Bool.or_eq_true, Bool.and_eq_true,
        beq_iff_eq] at hNumber
      exact hNumber.imp id And.left
  | false =>
      cases hWord : Byte.startsWord b with
      | true => exact reads_readWord hFirst hWord
      | false => exact reads_readMark first b

/- A step, whether or not the text ends with it. -/
theorem step_inFile
    (name : String)
    (file : SourceFile)
    (state : LexState) :
    (state.inFile name).step (file.renamed name) =
      ((state.step file).1, (state.step file).2.inFile name) := by
  have hScanner : (state.inFile name).scanner = state.scanner := rfl
  simp only [step, hScanner]
  cases hFirst : (state.scanner.skipWhile Byte.isLineSpace).rest with
  | nil => rfl
  | cons b rest =>
      exact congrArg (Prod.mk false)
        ((reads_token hFirst).inFile name file state)

theorem readsBack_step
    {state : LexState}
    (hState : state.ReadsBack)
    (file : SourceFile) :
    (state.step file).2.ReadsBack := by
  simp only [step]
  cases hFirst : (state.scanner.skipWhile Byte.isLineSpace).rest with
  | nil => exact hState
  | cons b rest => exact (reads_token hFirst).keeps file state hState

/- A run keeps what each of its steps keeps. -/
theorem reads_run
    (fuel : Nat) :
    Reads fun file state => run file fuel state := by
  induction fuel with
  | zero => exact ⟨fun _ _ _ => rfl, fun _ _ hState => hState⟩
  | succ fuel ih =>
      constructor
      · intro name file state
        have hFull :
            (state.inFile name).errors.isFull =
              state.errors.isFull := rfl
        have hStart :
            (state.inFile name).lineStart = state.lineStart := rfl
        have hBrackets :
            (state.inFile name).brackets = state.brackets := rfl
        have hLine :
            (state.inFile name).enterLine (file.renamed name) =
              (state.enterLine file).inFile name :=
          reads_enterLine.inFile name file state
        simp only [run, hFull, hStart, hBrackets, hLine, step_inFile]
        split
        · rfl
        · split
          · exact ih.inFile name file _
          · cases hStep : state.step file with
            | mk ended after =>
                cases ended with
                | true => rfl
                | false => exact ih.inFile name file after
      · intro file state hState
        simp only [run]
        split
        · exact hState
        · split
          · exact ih.keeps file _ (reads_enterLine.keeps file _ hState)
          · have hAfter := readsBack_step hState file
            cases hStep : state.step file with
            | mk ended after =>
                rw [hStep] at hAfter
                cases ended with
                | true => exact hAfter
                | false => exact ih.keeps file after hAfter

theorem finish_inFile
    (name : String)
    (state : LexState) :
    (state.inFile name).finish =
      ⟨state.finish.tokens, state.finish.errors.inFile name⟩ := by
  have hLast : (state.inFile name).lastKind? = state.lastKind? := rfl
  have hIndents : (state.inFile name).indents = state.indents := rfl
  have hScanner : (state.inFile name).scanner = state.scanner := rfl
  simp only [finish, hLast, hIndents, hScanner]
  generalize state.scanner.position.point = span
  have hClosed (ended : LexState) :
      ((state.indents.foldl (fun st _ => st.push .dedent span)
          (ended.inFile name)).push .endOfFile span).tokens =
        ((state.indents.foldl (fun st _ => st.push .dedent span)
          ended).push .endOfFile span).tokens := by
    rw [inFile_closeAll]
    rfl
  rw [Lexed.mk.injEq]
  refine ⟨?_, rfl⟩
  split
  · exact hClosed state
  · exact hClosed state
  · exact hClosed state
  · exact hClosed (state.push .newline span)

theorem readsBack_finish
    {state : LexState}
    (hState : state.ReadsBack) :
    ∀ token ∈ state.finish.tokens, token.kind.ReadsBack := by
  simp only [finish]
  refine readsBack_push (readsBack_closeAll ?_ _ _) .endOfFile trivial _
  split
  · exact hState
  · exact hState
  · exact hState
  · exact readsBack_push hState .newline trivial _

end LexState

------------------------------------------------------------
-- Texts
------------------------------------------------------------

/- All tokens of a file could have been read from a text. -/
theorem readsBack_lex
    (file : SourceFile) :
    ∀ token ∈ (lex file).tokens, token.kind.ReadsBack := by
  refine LexState.readsBack_finish ?_
  refine (LexState.reads_run _).keeps file _ ?_
  intro token hMem
  exact absurd hMem (Array.not_mem_empty token)

/- The tokens of a file do not depend on its name. -/
theorem lex_renamed
    (name : String)
    (file : SourceFile) :
    lex (file.renamed name) =
      ⟨(lex file).tokens, (lex file).errors.inFile name⟩ := by
  let bytes := Text.encodeUtf8 file.text
  have hRun :=
    (LexState.reads_run (2 * bytes.length + 4)).inFile name file
      { scanner := ⟨bytes, {}⟩ }
  have hFinish :=
    LexState.finish_inFile name
      (LexState.run file (2 * bytes.length + 4)
        { scanner := ⟨bytes, {}⟩ })
  rw [← hRun] at hFinish
  exact hFinish

end SnippetGrader
