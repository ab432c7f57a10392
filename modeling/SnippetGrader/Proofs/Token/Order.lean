import SnippetGrader.Proofs.Token.Lexing
import SnippetGrader.Proofs.Token.Scanning

/-
  The tokens of a text are in order.

  Each token ends before the next one starts. The marks of lines
  and blocks may stand where the token after them does, and any
  other token starts strictly before the next one. The last
  token is the end of the text.

  Key definitions include:
    * `TokenKind.isLayout`
    * `TokensTo`
    * `LexState.InOrder`
    * `OrderedTokens`

  Key theorems include:
    * `LexState.inOrder_step`, `LexState.inOrder_run`
    * `OrderedTokens.ofFile`
-/

namespace SnippetGrader

------------------------------------------------------------
-- Ordered Tokens
------------------------------------------------------------

/- The tokens that mark lines, blocks and the end of a text. -/
def TokenKind.isLayout : TokenKind → Bool
  | .newline | .indent | .dedent | .endOfFile => true
  | _ => false

namespace Token

/- A token that stands on the lines of a text. -/
structure Placed (lines : Nat) (token : Token) : Prop where
  line : 1 ≤ token.span.startLine
  proper : token.span.first ≤ token.span.last
  lines : token.span.endLine ≤ lines

/- A token that ends before a place, and usually starts before it. -/
structure EndsBy (place : ℕ ×ₗ ℕ) (token : Token) : Prop where
  ends : token.span.last ≤ place
  starts : token.kind.isLayout = false → token.span.first < place

/- A token that ends before another one, and usually starts before it. -/
def Before (token next : Token) : Prop :=
  token.EndsBy next.span.first

theorem EndsBy.mono
    {token : Token}
    {place later : ℕ ×ₗ ℕ}
    (hEnds : token.EndsBy place)
    (hLater : place ≤ later) :
    token.EndsBy later :=
  ⟨hEnds.ends.trans hLater,
    fun hSolid => (hEnds.starts hSolid).trans_le hLater⟩

end Token

/- Tokens in order, all of which end before a place. -/
structure TokensTo
    (lines : Nat)
    (tokens : List Token)
    (place : ℕ ×ₗ ℕ) : Prop where
  placed : ∀ token ∈ tokens, token.Placed lines
  ends : ∀ token ∈ tokens, token.EndsBy place
  ordered : tokens.Pairwise Token.Before

namespace TokensTo

variable {lines : Nat}
variable {tokens : List Token}
variable {place later : ℕ ×ₗ ℕ}

theorem mono
    (hTokens : TokensTo lines tokens place)
    (hLater : place ≤ later) :
    TokensTo lines tokens later :=
  ⟨hTokens.placed, fun token hMem => (hTokens.ends token hMem).mono hLater,
    hTokens.ordered⟩

/- A token may follow if it starts after the place of the others. -/
theorem push
    (hTokens : TokensTo lines tokens place)
    {token : Token}
    (hPlaced : token.Placed lines)
    (hStarts : place ≤ token.span.first)
    (hEnds : token.EndsBy later) :
    TokensTo lines (tokens ++ [token]) later := by
  have hLater : place ≤ later :=
    (hStarts.trans hPlaced.proper).trans hEnds.ends
  refine ⟨?_, ?_, ?_⟩
  · intro other hMem
    rcases List.mem_append.mp hMem with hOld | hNew
    · exact hTokens.placed other hOld
    · rw [List.mem_singleton.mp hNew]
      exact hPlaced
  · intro other hMem
    rcases List.mem_append.mp hMem with hOld | hNew
    · exact (hTokens.ends other hOld).mono hLater
    · rw [List.mem_singleton.mp hNew]
      exact hEnds
  · refine List.pairwise_append.mpr
      ⟨hTokens.ordered, List.pairwise_singleton _ _, ?_⟩
    intro other hMem next hNext
    rw [List.mem_singleton.mp hNext]
    exact (hTokens.ends other hMem).mono hStarts

end TokensTo

namespace LexState

------------------------------------------------------------
-- States
------------------------------------------------------------

/- A state at the start of a character, the tokens before it in order. -/
structure InOrder (lines : Nat) (state : LexState) : Prop where
  scanner : state.scanner.Sound lines
  tokens : TokensTo lines state.tokens.toList state.scanner.position.place

variable {lines : Nat}
variable {state : LexState}

/- Neither faults nor the state of lines and brackets matter. -/
theorem InOrder.of_same
    (hState : state.InOrder lines)
    {other : LexState}
    (hScanner : other.scanner = state.scanner)
    (hTokens : other.tokens = state.tokens) :
    other.InOrder lines := by
  refine ⟨?_, ?_⟩
  · rw [hScanner]
    exact hState.scanner
  · rw [hScanner, hTokens]
    exact hState.tokens

theorem InOrder.withIndents
    (hState : state.InOrder lines)
    (indents : List Nat) :
    { state with indents := indents }.InOrder lines :=
  ⟨hState.scanner, hState.tokens⟩

theorem InOrder.moveTo
    (hState : state.InOrder lines)
    {scanner : Scanner}
    (hSound : scanner.Sound lines)
    (hPlace : state.scanner.position.place ≤ scanner.position.place) :
    (state.moveTo scanner).InOrder lines :=
  ⟨hSound, hState.tokens.mono hPlace⟩

/- A token of what has just been passed. -/
theorem InOrder.emit
    (hState : state.InOrder lines)
    {first last : Scanner}
    (hSound : first.Sound lines)
    (hPlace : state.scanner.position.place ≤ first.position.place)
    (hPasses : first.Passes lines last)
    (kind : TokenKind) :
    (state.emit first last kind).InOrder lines := by
  refine ⟨hPasses.sound, ?_⟩
  change TokensTo lines (state.tokens.push _).toList _
  rw [Array.toList_push]
  refine hState.tokens.push ⟨hSound.line, ?_, hPasses.sound.line_le⟩
    hPlace ⟨?_, fun _ => hPasses.moves⟩
  · exact Position.first_spanTo_le_last hPasses.moves
  · exact Position.last_spanTo_le hPasses.sound.col

/- A mark of a line or a block at a place that has been read. -/
theorem InOrder.pushPoint
    (hState : state.InOrder lines)
    {scanner : Scanner}
    (hScanner : state.scanner = scanner)
    {kind : TokenKind}
    (hLayout : kind.isLayout = true) :
    (state.push kind scanner.position.point).InOrder lines := by
  subst hScanner
  refine ⟨hState.scanner, ?_⟩
  change TokensTo lines (state.tokens.push _).toList _
  rw [Array.toList_push]
  refine hState.tokens.push
    ⟨hState.scanner.line, le_rfl, hState.scanner.line_le⟩ le_rfl
    ⟨le_rfl, fun hSolid => ?_⟩
  rw [hLayout] at hSolid
  cases hSolid

theorem scanner_closeAll
    (closed : List Nat)
    (span : Span)
    (state : LexState) :
    (closed.foldl (fun st _ => st.push .dedent span) state).scanner =
      state.scanner := by
  induction closed generalizing state with
  | nil => rfl
  | cons width closed ih => exact ih _

/- Blocks are closed at a place that has been read. -/
theorem InOrder.closeAll
    (hState : state.InOrder lines)
    {scanner : Scanner}
    (hScanner : state.scanner = scanner)
    (closed : List Nat) :
    (closed.foldl (fun st _ => st.push .dedent scanner.position.point)
      state).InOrder lines := by
  induction closed generalizing state with
  | nil => exact hState
  | cons width closed ih =>
      rw [List.foldl_cons]
      exact ih (hState.pushPoint hScanner rfl) hScanner

------------------------------------------------------------
-- Lines
------------------------------------------------------------

theorem ascii_of_isIndentation :
    ∀ b, isIndentation b = true → b < 0x80 := by
  intro b hByte
  simp only [isIndentation, Bool.or_eq_true, beq_iff_eq] at hByte
  rcases hByte with (rfl | rfl) | rfl <;> decide

theorem ascii_of_isLineSpace :
    ∀ b, Byte.isLineSpace b = true → b < 0x80 := by
  intro b hByte
  simp only [Byte.isLineSpace, Bool.or_eq_true, beq_iff_eq] at hByte
  rcases hByte with ((rfl | rfl) | rfl) | rfl <;> decide

theorem inOrder_enterLine
    (hState : state.InOrder lines)
    (file : SourceFile) :
    (state.enterLine file).InOrder lines := by
  have hReads := state.scanner.reaches_skipWhile isIndentation
  have hSound := hState.scanner.skipWhile_ascii ascii_of_isIndentation
  have hMoved := hState.moveTo hSound hReads.place_le
  simp only [enterLine]
  generalize state.scanner.skipWhile isIndentation = scanner at *
  -- Nothing but the scanner matters to the tokens that follow.
  have hEntered {other : LexState}
      (hScanner : other.scanner = scanner)
      (hTokens : other.tokens = state.tokens) :
      other.InOrder lines :=
    hMoved.of_same hScanner hTokens
  cases scanner.peek? with
  | none => exact hEntered rfl rfl
  | some b =>
      dsimp only
      split
      · refine ⟨hSound.skipLine.2, hMoved.tokens.mono ?_⟩
        exact ((scanner.reaches_skipWhile _).trans
          (Scanner.reaches_skip _ 1)).place_le
      · split
        · refine InOrder.withIndents (InOrder.pushPoint ?_ ?_ rfl) _
          · exact hEntered rfl rfl
          · rfl
        · split
          · exact hEntered rfl rfl
          · split
            · refine InOrder.withIndents (InOrder.closeAll ?_ ?_ _) _
              · exact hEntered rfl rfl
              · rfl
            · refine InOrder.withIndents (InOrder.closeAll ?_ ?_ _) _
              · exact hEntered rfl rfl
              · rfl

------------------------------------------------------------
-- Tokens
------------------------------------------------------------

theorem inOrder_readString
    (hState : state.InOrder lines)
    (file : SourceFile)
    {first opening : Scanner}
    (hFirst : first.Sound lines)
    (hPlace : state.scanner.position.place ≤ first.position.place)
    (hOpening : opening.Sound lines)
    (hLater : first.position.place ≤ opening.position.place)
    {quote : UInt8}
    {rest : List UInt8}
    (hRest : opening.rest = quote :: rest)
    (hQuote : quote < 0x80)
    (raw : Bool) :
    (state.readString file first opening quote raw).InOrder lines := by
  have hPasses :=
    (hOpening.passes_string hRest hQuote raw).trans_le hLater
  have hBody : opening.rest.drop 1 = rest := by
    rw [hRest]
    rfl
  simp only [readString, hBody]
  refine InOrder.emit ?_ hFirst ?_ hPasses _
  · split
    · exact hState
    · exact hState.of_same rfl rfl
  · split
    · exact hPlace
    · exact hPlace

theorem ascii_of_quote
    {b : UInt8}
    (hQuote : (b == Byte.of '"' || b == Byte.of '\'') = true) :
    b < 0x80 := by
  simp only [Bool.or_eq_true, beq_iff_eq] at hQuote
  rcases hQuote with rfl | rfl <;> decide

theorem inOrder_readWord
    (hState : state.InOrder lines)
    (file : SourceFile)
    {first : Scanner}
    (hFirst : first.Sound lines)
    (hPlace : state.scanner.position.place ≤ first.position.place)
    {b : UInt8}
    {rest : List UInt8}
    (hRest : first.rest = b :: rest)
    (hStarts : Byte.startsWord b = true) :
    (state.readWord file first).InOrder lines := by
  have hPasses := hFirst.passes_word hRest hStarts
  have hWord (kind : TokenKind) := hState.emit hFirst hPlace hPasses kind
  simp only [readWord]
  split
  · rename_i quote hQuote
    split
    · rename_i hOpens
      rw [Bool.and_eq_true] at hOpens
      obtain ⟨tail, hTail⟩ := List.head?_eq_some_iff.mp hQuote
      exact inOrder_readString hState file hFirst hPlace hPasses.sound
        hPasses.moves.le hTail (ascii_of_quote hOpens.1) _
    · exact hWord _
  · exact hWord _

theorem inOrder_readNumber
    (hState : state.InOrder lines)
    (file : SourceFile)
    {first : Scanner}
    (hFirst : first.Sound lines)
    (hPlace : state.scanner.position.place ≤ first.position.place)
    {b : UInt8}
    {rest : List UInt8}
    (hRest : first.rest = b :: rest)
    (hStarts : Byte.isDigit b = true ∨ b = Byte.of '.') :
    (state.readNumber file first).InOrder lines := by
  simp only [readNumber]
  refine InOrder.emit ?_ hFirst ?_ (hFirst.passes_number hRest hStarts) _
  · split
    · exact hState
    · exact hState.of_same rfl rfl
  · split
    · exact hPlace
    · exact hPlace

theorem inOrder_readNewline
    (hState : state.InOrder lines)
    {first : Scanner}
    (hFirst : first.Sound lines)
    (hPlace : state.scanner.position.place ≤ first.position.place)
    {rest : List UInt8}
    (hRest : first.rest = 10 :: rest) :
    (state.readNewline first).InOrder lines := by
  have hPasses := hFirst.passes_skip hRest (by decide)
  have hMoved := hState.moveTo hPasses.sound (hPlace.trans hPasses.moves.le)
  simp only [readNewline]
  split
  · exact hMoved
  · split
    · exact hMoved.of_same rfl rfl
    · exact hMoved.of_same rfl rfl
    · refine ⟨hPasses.sound, ?_⟩
      change TokensTo lines (state.tokens.push _).toList _
      rw [Array.toList_push]
      exact hState.tokens.push ⟨hFirst.line, le_rfl, hFirst.line_le⟩
        hPlace ⟨hPasses.moves.le, fun _ => hPasses.moves⟩

/- A byte of ASCII is eaten as a character. -/
theorem sound_of_eat?
    {first last : Scanner}
    (hFirst : first.Sound lines)
    {b : UInt8}
    (hAscii : b < 0x80)
    (hEat : first.eat? b = some last) :
    last.Sound lines ∧ first.position.place ≤ last.position.place := by
  unfold Scanner.eat? at hEat
  split at hEat
  · rename_i hNext
    cases hEat
    obtain ⟨rest, hRest⟩ :=
      List.head?_eq_some_iff.mp (beq_iff_eq.mp hNext)
    have hPasses := hFirst.passes_skip hRest hAscii
    exact ⟨hPasses.sound, hPasses.moves.le⟩
  · cases hEat

theorem inOrder_readContinuation
    (hState : state.InOrder lines)
    (file : SourceFile)
    {first : Scanner}
    (hFirst : first.Sound lines)
    (hPlace : state.scanner.position.place ≤ first.position.place)
    {rest : List UInt8}
    (hRest : first.rest = Byte.of '\\' :: rest) :
    (state.readContinuation file first).InOrder lines := by
  have hSlash := hFirst.passes_skip hRest (by decide)
  have hLast :
      (((first.skip 1).eat? 13).getD (first.skip 1)).Sound lines ∧
        (first.skip 1).position.place ≤
          (((first.skip 1).eat? 13).getD
            (first.skip 1)).position.place := by
    cases hReturn : (first.skip 1).eat? 13 with
    | none => exact ⟨hSlash.sound, le_rfl⟩
    | some last => exact sound_of_eat? hSlash.sound (by decide) hReturn
  have hLater := hPlace.trans (hSlash.moves.le.trans hLast.2)
  simp only [readContinuation]
  split
  · rename_i next hFeed
    have hNext := sound_of_eat? hLast.1 (by decide) hFeed
    exact hState.moveTo hNext.1 (hLater.trans hNext.2)
  · exact (hState.moveTo hLast.1 hLater).of_same rfl rfl

theorem inOrder_readMark
    (hState : state.InOrder lines)
    (file : SourceFile)
    {first : Scanner}
    (hFirst : first.Sound lines)
    (hPlace : state.scanner.position.place ≤ first.position.place)
    {b : UInt8}
    {rest : List UInt8}
    (hRest : first.rest = b :: rest)
    (hStarts : Byte.startsWord b = false) :
    (state.readMark file first b).InOrder lines := by
  simp only [readMark]
  split
  · rename_i mark length hMark
    have hToken :=
      hState.emit hFirst hPlace (hFirst.passes_mark hMark) (.mark mark)
    exact ⟨hToken.scanner, hToken.tokens⟩
  · have hAscii : b < 0x80 := by
      rw [Byte.startsWord, Bool.or_eq_false_iff,
        decide_eq_false_iff_not] at hStarts
      exact UInt8.not_le.mp hStarts.2
    have hSkip := hFirst.passes_skip hRest hAscii
    exact (hState.moveTo hSkip.sound
      (hPlace.trans hSkip.moves.le)).of_same rfl rfl

------------------------------------------------------------
-- Runs
------------------------------------------------------------

theorem inOrder_step
    (hState : state.InOrder lines)
    (file : SourceFile) :
    (state.step file).2.InOrder lines := by
  have hSound := hState.scanner.skipWhile_ascii ascii_of_isLineSpace
  have hPlace :=
    (state.scanner.reaches_skipWhile Byte.isLineSpace).place_le
  simp only [step]
  generalize state.scanner.skipWhile Byte.isLineSpace = first at *
  split
  · exact hState.moveTo hSound hPlace
  · rename_i b rest hRest
    dsimp only
    split
    · rename_i hFeed
      rw [beq_iff_eq.mp hFeed] at hRest
      exact inOrder_readNewline hState hSound hPlace hRest
    split
    · exact hState.moveTo hSound.skipLine.1
        (hPlace.trans (first.reaches_skipWhile _).place_le)
    split
    · rename_i hSlash
      rw [beq_iff_eq.mp hSlash] at hRest
      exact inOrder_readContinuation hState file hSound hPlace hRest
    split
    · rename_i hQuote
      exact inOrder_readString hState file hSound hPlace hSound le_rfl
        hRest (ascii_of_quote hQuote) false
    split
    · rename_i hNumber
      refine inOrder_readNumber hState file hSound hPlace hRest ?_
      simp only [Bool.or_eq_true, Bool.and_eq_true,
        beq_iff_eq] at hNumber
      exact hNumber.imp id And.left
    split
    · rename_i hWord
      exact inOrder_readWord hState file hSound hPlace hRest hWord
    · rename_i hNoWord
      exact inOrder_readMark hState file hSound hPlace hRest
        (Bool.eq_false_iff.mpr hNoWord)

/- A run keeps what each of its steps keeps. -/
theorem inOrder_run
    (file : SourceFile)
    (fuel : Nat)
    (hState : state.InOrder lines) :
    (run file fuel state).InOrder lines := by
  induction fuel generalizing state with
  | zero => exact hState
  | succ fuel ih =>
      simp only [run]
      split
      · exact hState
      · split
        · exact ih (inOrder_enterLine hState file)
        · have hAfter := inOrder_step hState file
          cases hStep : state.step file with
          | mk ended after =>
              rw [hStep] at hAfter
              cases ended with
              | true => exact hAfter
              | false => exact ih hAfter

/- The text ends with a token for its end. -/
theorem inOrder_finish
    (hState : state.InOrder lines) :
    (∃ place, TokensTo lines state.finish.tokens.toList place) ∧
      ∃ last,
        state.finish.tokens.back? = some last ∧
          last.kind = .endOfFile := by
  have hEnded :
      ∃ ended : LexState,
        ended.InOrder lines ∧ ended.scanner = state.scanner ∧
          state.finish.tokens =
            ((state.indents.foldl
                (fun st _ =>
                  st.push .dedent state.scanner.position.point)
                ended).push .endOfFile
              state.scanner.position.point).tokens := by
    simp only [finish]
    split
    · exact ⟨_, hState, rfl, rfl⟩
    · exact ⟨_, hState, rfl, rfl⟩
    · exact ⟨_, hState, rfl, rfl⟩
    · exact ⟨_, hState.pushPoint rfl rfl, rfl, rfl⟩
  obtain ⟨ended, hOrder, hScanner, hTokens⟩ := hEnded
  have hClosed := hOrder.closeAll hScanner state.indents
  have hSame :=
    (scanner_closeAll state.indents state.scanner.position.point
      ended).trans hScanner
  rw [hTokens]
  exact ⟨⟨_, (hClosed.pushPoint hSame rfl).tokens⟩,
    _, Array.back?_push, rfl⟩

end LexState

------------------------------------------------------------
-- Texts
------------------------------------------------------------

/- Tokens in order, on the lines of a text, up to its end. -/
structure OrderedTokens where
  tokens : Array Token
  lines : Nat
  placed : ∀ token ∈ tokens, token.Placed lines
  ordered : tokens.toList.Pairwise Token.Before
  ends : ∃ last, tokens.back? = some last ∧ last.kind = .endOfFile

/- The tokens of a file are in order. -/
def OrderedTokens.ofFile (file : SourceFile) : OrderedTokens :=
  have hFinish :=
    LexState.inOrder_finish
      (LexState.inOrder_run file (2 * (Text.encodeUtf8 file.text).length + 4)
        ⟨Scanner.sound_start file, ⟨by simp, by simp, .nil⟩⟩)
  { tokens := (lex file).tokens
    lines := file.lineCount
    placed := fun token hMem =>
      hFinish.1.choose_spec.placed token (Array.mem_toList_iff.mpr hMem)
    ordered := hFinish.1.choose_spec.ordered
    ends := hFinish.2 }

end SnippetGrader
