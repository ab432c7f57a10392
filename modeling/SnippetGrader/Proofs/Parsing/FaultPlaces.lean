import SnippetGrader.Proofs.Parsing.StatementMoves
import SnippetGrader.Proofs.Source.Diagnostics
import SnippetGrader.Proofs.Source.Lines
import SnippetGrader.Proofs.Token.Positions

/-
  Where the faults of a text are.

  Every fault starts on a line of its text and quotes that line
  without its ending, whether it was found among the characters
  or among the tokens. With where tokens are, this is all that
  is reported of a position.

  Key definitions include:
    * `Diagnostic.Quotes`, `Diagnostics.Placed`
    * `TokenStream.ofFile`

  Key theorems include:
    * `placed_lex`, `placed_parseTokens`
    * `positions_exact`
-/

namespace SnippetGrader

------------------------------------------------------------
-- Quoted Lines
------------------------------------------------------------

/- A fault that starts on a line of a file and quotes it. -/
structure Diagnostic.Quotes
    (file : SourceFile)
    (fault : Diagnostic) : Prop where
  first : 1 ≤ fault.span.startLine
  last : fault.span.startLine ≤ file.lineCount
  line : file.LineAt fault.span.startLine fault.sourceLine

/- A capped list of faults, each of which quotes its line. -/
structure Diagnostics.Placed
    (file : SourceFile)
    (faults : Diagnostics) : Prop where
  capped : faults.Capped
  quotes : ∀ fault ∈ faults.stored, fault.Quotes file

section Faults

variable {file : SourceFile}
variable {faults : Diagnostics}

theorem Diagnostic.quotes_of_sourceLine
    {fault : Diagnostic}
    (hSource :
      fault.sourceLine = (file.line? fault.span.startLine).getD "")
    (hFirst : 1 ≤ fault.span.startLine)
    (hLast : fault.span.startLine ≤ file.lineCount) :
    fault.Quotes file := by
  obtain ⟨line, hLine⟩ := SourceFile.exists_line? hFirst hLast
  rw [hLine, Option.getD_some] at hSource
  rw [← hSource] at hLine
  exact ⟨hFirst, hLast, SourceFile.lineAt_of_line? hLine⟩

theorem Diagnostics.placed_empty :
    ({} : Diagnostics).Placed file :=
  ⟨rfl, fun _ hMem => (List.not_mem_nil hMem).elim⟩

theorem Diagnostics.Placed.push
    (hFaults : faults.Placed file)
    {fault : Diagnostic}
    (hFault : fault.Quotes file) :
    (faults.push fault).Placed file := by
  refine ⟨hFaults.capped.push fault, ?_⟩
  rw [Diagnostics.push]
  dsimp only
  split
  · intro other hMem
    rcases List.mem_append.mp hMem with hOld | hNew
    · exact hFaults.quotes other hOld
    · rw [List.mem_singleton.mp hNew]
      exact hFault
  · exact hFaults.quotes

end Faults

/- A fault among characters is on the line behind those before it. -/
theorem Diagnostic.ReportedAt.quotes
    {file : SourceFile}
    {index : Nat}
    {fault : Diagnostic}
    {before after : List UInt8}
    (hFault : fault.ReportedAt file index before after) :
    fault.Quotes file := by
  have hLine := hFault.line
  have hCount :
      file.lineCount = before.count 10 + after.count 10 + 1 := by
    rw [SourceFile.lineCount, length_splitLines, ← Text.encodeUtf8_eq,
      ← hFault.bytes, List.count_append]
  rw [Position.behind] at hLine
  dsimp only at hLine
  refine Diagnostic.quotes_of_sourceLine ?_ (by omega) (by omega)
  obtain ⟨code, message, span, rfl⟩ := hFault.made
  rfl

theorem placed_lex
    (file : SourceFile) :
    (lex file).errors.Placed file := by
  obtain ⟨hStored, hTotal⟩ := lex_errors_stored file
  refine ⟨?_, fun fault hMem => ?_⟩
  · rw [Diagnostics.Capped, hStored, Nat.min_eq_left hTotal]
  · obtain ⟨index, hIndex⟩ := List.mem_iff_getElem?.mp hMem
    obtain ⟨before, after, hFault⟩ := lex_errors_reportedAt hIndex
    exact hFault.quotes

------------------------------------------------------------
-- Faults among Tokens
------------------------------------------------------------

/- Tokens of a file, whose spans start on its lines. -/
def TokenStream.ofFile (file : SourceFile) : TokenStream where
  file := file
  tokens := (lex file).tokens
  ends := (OrderedTokens.ofFile file).ends
  sound span := 1 ≤ span.startLine ∧ span.startLine ≤ file.lineCount
  starts := ⟨le_rfl, List.length_pos_iff.mpr (splitLines_ne_nil _)⟩
  spans token hMem := by
    have hPlaced := (OrderedTokens.ofFile file).placed token hMem
    refine ⟨hPlaced.line, le_trans ?_ hPlaced.lines⟩
    exact Prod.Lex.monotone_fst _ _ hPlaced.proper
  merges first last hFirst hLast := by
    unfold Span.merge
    split
    · exact hLast
    · split
      · exact hFirst
      · dsimp only
        split
        · exact hFirst
        · exact hLast
  allows faults := faults.Placed file
  reports faults code message span subject hFaults hSpan :=
    hFaults.push
      (Diagnostic.quotes_of_sourceLine rfl hSpan.1 hSpan.2)
  mayStall := True

theorem placed_parseTokens
    (file : SourceFile) :
    (parseTokens file (lex file).tokens).errors.Placed file := by
  have hSome : 0 < (lex file).tokens.size := by
    obtain ⟨last, hLast, -⟩ := (OrderedTokens.ofFile file).ends
    exact Array.size_pos_of_mem (Array.mem_of_back? hLast)
  have hStart :
      (TokenStream.ofFile file).At 0
        { file := file, tokens := (lex file).tokens } :=
    ⟨rfl, rfl, rfl, hSome, Diagnostics.placed_empty⟩
  have hMoved := moves_program _ hStart
  unfold parseTokens
  cases hRun : program { file := file, tokens := (lex file).tokens } with
  | ok result after =>
      rw [hRun] at hMoved
      obtain ⟨index, -, hAfter, -⟩ := hMoved
      exact hAfter.errors
  | error failure after =>
      rw [hRun] at hMoved
      obtain ⟨-, index, -, hAfter⟩ := hMoved
      exact hAfter.errors

/- The faults among the characters of a file. -/
def SourceFile.charFaults (file : SourceFile) : Diagnostics :=
  (lex file).errors

/- The faults among the tokens of a file. -/
def SourceFile.tokenFaults (file : SourceFile) : Diagnostics :=
  (parseTokens file (lex file).tokens).errors

theorem placed_tokenFaults
    (file : SourceFile) :
    file.tokenFaults.Placed file := by
  unfold SourceFile.tokenFaults
  exact placed_parseTokens file

section Rejected

variable {file : SourceFile}
variable {errors : Diagnostics}

/- A text is rejected with the faults among its characters and its tokens. -/
theorem parseSource_eq_error :
    parseSource file.name file.text = .error errors ↔
      (file.charFaults.append file.tokenFaults).hasErrors = true ∧
        errors = (file.charFaults.append file.tokenFaults).sorted := by
  change
    (if (file.charFaults.append file.tokenFaults).hasErrors = true then
        Except.error (file.charFaults.append file.tokenFaults).sorted
      else .ok (parseTokens file (lex file).tokens).program) =
        .error errors ↔ _
  split
  · rename_i hFound
    simp [hFound, eq_comm]
  · rename_i hFound
    simp [hFound]

theorem quotes_of_parseSource
    (hErrors : parseSource file.name file.text = .error errors)
    {fault : Diagnostic}
    (hFault : fault ∈ errors.stored) :
    fault.Quotes file := by
  obtain ⟨-, rfl⟩ := parseSource_eq_error.mp hErrors
  rw [Diagnostics.sorted, List.mem_mergeSort,
    Diagnostics.stored_append] at hFault
  rcases List.mem_append.mp hFault with hLexed | hParsed
  · exact (placed_lex file).quotes fault hLexed
  · exact (placed_tokenFaults file).quotes fault
      (List.mem_of_mem_take hParsed)

end Rejected

------------------------------------------------------------
-- Positions
------------------------------------------------------------

/-
  Positions are exact. At every byte of the run over a file, the
  position is the one behind the bytes before it. Each token that
  does not mark a line or a block has the span of the bytes that
  it was read from, and each fault that is found among characters
  starts at the character it was found at. The tokens are in
  order and apart. Each fault of a text that is rejected quotes
  the line that it starts on.
-/
theorem positions_exact
    (file : SourceFile) :
    (∀ rounds count,
      ∃ read,
        read ++ ((LexState.stage file rounds).scanner.skip count).rest =
            Text.encodeUtf8 file.text ∧
          ((LexState.stage file rounds).scanner.skip count).position =
            .behind read) ∧
    (∀ (index : Nat) (token : Token),
      (lex file).tokens[index]? = some token →
        token.kind.isLayout = false →
          ∃ before read after,
            token.ReadAt file index before read after) ∧
    (lex file).errors.stored.length = (lex file).errors.total ∧
    (∀ (index : Nat) (fault : Diagnostic),
      (lex file).errors.stored[index]? = some fault →
        ∃ before after, fault.ReportedAt file index before after) ∧
    (∀ token ∈ solidTokens (lex file).tokens.toList,
      token.span.first ≤ token.span.last) ∧
    (solidTokens (lex file).tokens.toList).Pairwise
      (fun token next => token.span.last < next.span.first) ∧
    ∀ errors,
      parseSource file.name file.text = .error errors →
        ∀ fault ∈ errors.stored, fault.Quotes file := by
  refine ⟨LexState.behind_stage file,
    fun index token hToken hSolid => lex_tokens_readAt hToken hSolid,
    (lex_errors_stored file).1,
    fun index fault hFault => lex_errors_reportedAt hFault,
    fun token hMem => ?_, lex_tokens_apart file,
    fun errors hErrors fault hFault => quotes_of_parseSource hErrors hFault⟩
  have hToken := Array.mem_toList_iff.mp (List.mem_of_mem_filter hMem)
  exact ((OrderedTokens.ofFile file).placed token hToken).proper

/- A word beyond ASCII, a string on two lines, and a stray character. -/
theorem positions_exact_joined :
    let file : SourceFile := ⟨"a.py", "é = 'a\\\nb' $\n"⟩
    (∃ token before read after,
      (lex file).tokens[2]? = some token ∧
        token.kind.isLayout = false ∧
        token.span = ⟨1, 5, 2, 2⟩ ∧
        token.ReadAt file 2 before read after) ∧
    (∃ fault before after,
      (lex file).errors.stored[0]? = some fault ∧
        fault.ReportedAt file 0 before after) ∧
    ∃ errors,
      parseSource file.name file.text = .error errors ∧
        ∃ fault ∈ errors.stored,
          fault.span = ⟨2, 4, 2, 4⟩ ∧ fault.sourceLine = "b' $" ∧
            fault.Quotes file := by
  intro file
  obtain ⟨-, hTokens, -, hFaults, -, -, hRejected⟩ := positions_exact file
  refine ⟨?_, ?_, ?_⟩
  · have hFound :
        (lex file).tokens[2]?.any
          (fun token =>
            !token.kind.isLayout && token.span == ⟨1, 5, 2, 2⟩) = true := by
      decide +kernel
    cases hToken : (lex file).tokens[2]? with
    | none => simp [hToken] at hFound
    | some token =>
        rw [hToken, Option.any_some, Bool.and_eq_true, Bool.not_eq_true',
          beq_iff_eq] at hFound
        obtain ⟨before, read, after, hRead⟩ :=
          hTokens 2 token hToken hFound.1
        exact ⟨token, before, read, after, rfl, hFound.1, hFound.2, hRead⟩
  · have hFound : (lex file).errors.stored[0]?.isSome = true := by
      decide +kernel
    obtain ⟨fault, hFault⟩ := Option.isSome_iff_exists.mp hFound
    obtain ⟨before, after, hReported⟩ := hFaults 0 fault hFault
    exact ⟨fault, before, after, hFault, hReported⟩
  · have hFaulty :
        (file.charFaults.append file.tokenFaults).hasErrors = true := by
      decide +kernel
    have hErrors := parseSource_eq_error.mpr ⟨hFaulty, rfl⟩
    have hFound :
        ((file.charFaults.append file.tokenFaults).sorted.stored.any
          fun fault =>
            fault.span == ⟨2, 4, 2, 4⟩ && fault.sourceLine == "b' $") =
          true := by
      decide +kernel
    obtain ⟨fault, hMem, hHere⟩ := List.any_eq_true.mp hFound
    rw [Bool.and_eq_true, beq_iff_eq, beq_iff_eq] at hHere
    exact ⟨_, hErrors, fault, hMem, hHere.1, hHere.2,
      hRejected _ hErrors fault hMem⟩

end SnippetGrader
