import SnippetGrader.Proofs.Token.Order

/-
  The rounds of a run over a text.

  A round either enters a line or finds one thing after the
  spaces before it: a token, a fault, a comment, a joined line
  or the end of a line. There are only so many ways in which it
  changes the state, and each reads at least one byte or leaves
  the start of a line. So a run goes on until the text ends or
  too many faults have been found.

  Key definitions include:
    * `LexState.TakesToken`, `LexState.MeetsFault`
    * `LexState.Finds`, `LexState.Enters`
    * `LexState.round`, `LexState.RunsTo`
    * `LexState.Extends`

  Key theorems include:
    * `LexState.finds_step`, `LexState.enters_enterLine`
    * `LexState.round_again`, `LexState.RunsTo.keeps`
    * `runsTo_lex`
-/

namespace SnippetGrader

------------------------------------------------------------
-- Literals
------------------------------------------------------------

/- What is left after a string is the end of the bytes that it was read from. -/
theorem StringBody.suffix_readFrom
    (quote : UInt8)
    (triple raw : Bool)
    (content bytes : List UInt8) :
    (readFrom quote triple raw content bytes).rest <:+ bytes := by
  have hLater {rest bytes : List UInt8}
      (read : List UInt8)
      (hRest : rest <:+ bytes) :
      rest <:+ read ++ bytes :=
    hRest.trans (List.suffix_append _ _)
  fun_induction readFrom quote triple raw content bytes with
  | case1 | case6 | case10 => exact List.nil_suffix
  | case2 => exact List.suffix_rfl
  | case3 content b rest => exact List.suffix_cons b rest
  | case4 content b rest => exact hLater [b] (List.drop_suffix 2 rest)
  | case5 content b rest _ _ _ _ ih => exact hLater [b] ih
  | case7 content b _ _ _ letter rest _ ih => exact hLater [b, letter] ih
  | case8 content b _ _ _ letter rest _ _ ih => exact hLater [b, letter] ih
  | case9 content b _ _ _ letter _ _ _ d d' rest ih =>
      exact hLater [b, letter, d, d'] ih
  | case11 content b _ _ _ letter rest _ _ _ _ _ ih =>
      exact hLater [b, letter] ih
  | case12 content b _ _ _ letter rest _ _ _ _ ih =>
      exact hLater [b, letter] ih
  | case13 content b rest _ _ _ ih => exact hLater [b] ih

theorem StringBody.suffix_read
    (quote : UInt8)
    (raw : Bool)
    (bytes : List UInt8) :
    (read quote raw bytes).rest <:+ bytes := by
  unfold read
  split
  · exact (suffix_readFrom quote true raw [] _).trans (List.drop_suffix 2 bytes)
  · exact suffix_readFrom quote false raw [] bytes

/- The number of open brackets after a token. -/
def LexState.bracketsAfterKind (brackets : Nat) : TokenKind → Nat
  | .mark mark => bracketsAfter brackets mark
  | _ => brackets

/- A token that is no mark of any sort. -/
structure TokenKind.IsPlain (kind : TokenKind) : Prop where
  solid : kind.isLayout = false
  brackets : ∀ brackets, LexState.bracketsAfterKind brackets kind = brackets

theorem NumberLiteral.isPlain_read
    (bytes : List UInt8) :
    (read bytes).kind.IsPlain := by
  have hFinish (isFloat : Bool) (digits : List Char) (text : String)
      (rest : List UInt8) :
      (readDecimal.finish isFloat digits text rest).kind.IsPlain := by
    unfold readDecimal.finish
    split <;> split <;> exact ⟨rfl, fun _ => rfl⟩
  unfold read
  split
  · unfold readDecimal
    dsimp only
    split
    · split
      · exact ⟨rfl, fun _ => rfl⟩
      · exact hFinish _ _ _ _
    · exact hFinish _ _ _ _
  · unfold readBased
    dsimp only
    split <;> exact ⟨rfl, fun _ => rfl⟩

theorem TokenKind.isPlain_word
    (word : String) :
    ((ofWord? word).getD (.name word)).IsPlain := by
  unfold ofWord?
  split
  · exact ⟨rfl, fun _ => rfl⟩
  · split <;> exact ⟨rfl, fun _ => rfl⟩

theorem Scanner.reaches_eat?
    {first last : Scanner}
    {b : UInt8}
    (hEat : first.eat? b = some last) :
    first.Reaches last [b] := by
  unfold eat? at hEat
  split at hEat
  · rename_i hNext
    cases hEat
    obtain ⟨rest, hRest⟩ :=
      List.head?_eq_some_iff.mp (beq_iff_eq.mp hNext)
    have hSkip := first.reaches_skip 1
    rwa [hRest] at hSkip
  · cases hEat

theorem Diagnostics.push_ne
    {faults : Diagnostics}
    {fault : Diagnostic} :
    faults.push fault ≠ faults :=
  fun hSame => Nat.succ_ne_self _ (congrArg Diagnostics.total hSame)

namespace LexState

------------------------------------------------------------
-- What a Step Finds
------------------------------------------------------------

/- The state after a token that some bytes were read as. -/
structure TakesToken
    (state : LexState)
    (first : Scanner)
    (kind : TokenKind)
    (read : List UInt8)
    (next : LexState) :
    Prop where
  solid : kind.isLayout = false
  read_ne : read ≠ []
  reaches : first.Reaches next.scanner read
  tokens :
    next.tokens =
      state.tokens.push
        ⟨kind, first.position.spanTo next.scanner.position⟩
  errors :
    next.errors = state.errors ∨
      ∃ fault, next.errors = state.errors.push fault
  brackets : next.brackets = bracketsAfterKind state.brackets kind
  indents : next.indents = state.indents
  lineStart : next.lineStart = state.lineStart

/- The state after bytes that are no token and were reported. -/
structure MeetsFault
    (state : LexState)
    (first : Scanner)
    (fault : Diagnostic)
    (read : List UInt8)
    (next : LexState) :
    Prop where
  read_ne : read ≠ []
  reaches : first.Reaches next.scanner read
  span : fault.span = first.position.spanTo next.scanner.position
  tokens : next.tokens = state.tokens
  errors : next.errors = state.errors.push fault
  brackets : next.brackets = state.brackets
  indents : next.indents = state.indents
  lineStart : next.lineStart = state.lineStart

/- What a step finds at a place after the spaces, and the state after it. -/
inductive Finds (state : LexState) (first : Scanner) : LexState → Prop
  | token
      {kind : TokenKind}
      {read : List UInt8}
      {next : LexState}
      (hToken : state.TakesToken first kind read next) :
      Finds state first next
  | fault
      {fault : Diagnostic}
      {read : List UInt8}
      {next : LexState}
      (hFault : state.MeetsFault first fault read next) :
      Finds state first next
  | comment
      {rest : List UInt8}
      (hRest : first.rest = Byte.of '#' :: rest) :
      Finds state first (state.moveTo (first.skipWhile (· != 10)))
  | joined
      {ending : List UInt8}
      {last : Scanner}
      (hEnding : ending = [10] ∨ ending = [13, 10])
      (hReaches : first.Reaches last (Byte.of '\\' :: ending)) :
      Finds state first (state.moveTo last)
  | newline
      {rest : List UInt8}
      (hRest : first.rest = 10 :: rest) :
      Finds state first (state.readNewline first)

section Steps

variable {state next : LexState}
variable {first opening : Scanner}

/- A string, the letters before the quote of which have been read. -/
theorem takesToken_readString
    (state : LexState)
    (file : SourceFile)
    {letters : List UInt8}
    (hLetters : first.Reaches opening letters)
    {quote : UInt8}
    {rest : List UInt8}
    (hRest : opening.rest = quote :: rest)
    (raw : Bool) :
    ∃ value read,
      state.TakesToken first (.str value) read
        (state.readString file first opening quote raw) := by
  obtain ⟨body, hBody⟩ := StringBody.suffix_read quote raw rest
  have hBytes :
      opening.rest =
        (quote :: body) ++ (StringBody.read quote raw rest).rest := by
    rw [hRest, List.cons_append, hBody]
  have hReaches :=
    hLetters.trans (Scanner.reaches_skipTo hBytes).1
  have hDrop : opening.rest.drop 1 = rest := by
    rw [hRest]
    rfl
  simp only [readString, hDrop]
  split
  · exact ⟨_, _, rfl, by simp, hReaches, rfl, .inl rfl, rfl, rfl, rfl⟩
  · exact ⟨_, _, rfl, by simp, hReaches, rfl, .inr ⟨_, rfl⟩, rfl, rfl, rfl⟩

theorem takesToken_readWord
    (state : LexState)
    (file : SourceFile)
    {b : UInt8}
    {rest : List UInt8}
    (hRest : first.rest = b :: rest)
    (hStarts : Byte.startsWord b = true) :
    ∃ kind read,
      state.TakesToken first kind read (state.readWord file first) := by
  have hReaches := first.reaches_skipWhile Byte.continuesWord
  have hRead : first.rest.takeWhile Byte.continuesWord ≠ [] := by
    rw [hRest, List.takeWhile_cons_of_pos]
    · exact List.cons_ne_nil _ _
    · rw [Byte.continuesWord, hStarts, Bool.true_or]
  have hWord (word : String) :=
    TokenKind.isPlain_word word
  simp only [readWord]
  split
  · rename_i quote hQuote
    obtain ⟨tail, hTail⟩ := List.head?_eq_some_iff.mp hQuote
    split
    · obtain ⟨value, read, hString⟩ :=
        takesToken_readString state file hReaches hTail
          (isRawMark (Text.ofUtf8 (first.read (first.skipWhile Byte.continuesWord))))
      exact ⟨_, read, hString⟩
    · exact
        ⟨_, _, (hWord _).solid, hRead, hReaches, rfl, .inl rfl,
          ((hWord _).brackets _).symm, rfl, rfl⟩
  · exact
      ⟨_, _, (hWord _).solid, hRead, hReaches, rfl, .inl rfl,
        ((hWord _).brackets _).symm, rfl, rfl⟩

theorem takesToken_readNumber
    (state : LexState)
    (file : SourceFile)
    {b : UInt8}
    {rest : List UInt8}
    (hRest : first.rest = b :: rest)
    (hStarts : Byte.isDigit b = true ∨ b = Byte.of '.') :
    ∃ kind read,
      state.TakesToken first kind read (state.readNumber file first) := by
  obtain ⟨read, hRead, hBytes, -⟩ :=
    NumberLiteral.readsAscii_read hStarts rest
  rw [← hRest] at hBytes
  have hReaches := (Scanner.reaches_skipTo hBytes).1
  have hKind := NumberLiteral.isPlain_read first.rest
  simp only [readNumber]
  split
  · exact
      ⟨_, read, hKind.solid, hRead, hReaches, rfl, .inl rfl,
        (hKind.brackets _).symm, rfl, rfl⟩
  · exact
      ⟨_, read, hKind.solid, hRead, hReaches, rfl, .inr ⟨_, rfl⟩,
        (hKind.brackets _).symm, rfl, rfl⟩

/- A mark, or a character that no token starts with. -/
theorem finds_readMark
    (file : SourceFile)
    {b : UInt8}
    {rest : List UInt8}
    (hRest : first.rest = b :: rest) :
    state.Finds first (state.readMark file first b) := by
  simp only [readMark]
  split
  · rename_i mark length hMark
    exact .token
      ⟨rfl, (readsAscii_mark hMark).1, first.reaches_skip length, rfl,
        .inl rfl, rfl, rfl, rfl⟩
  · refine .fault ⟨?_, first.reaches_skip 1, rfl, rfl, rfl, rfl, rfl, rfl⟩
    rw [hRest]
    exact List.cons_ne_nil _ _

/- A backslash, which joins two lines or is reported. -/
theorem finds_readContinuation
    (file : SourceFile)
    {rest : List UInt8}
    (hRest : first.rest = Byte.of '\\' :: rest) :
    state.Finds first (state.readContinuation file first) := by
  have hSlash : first.Reaches (first.skip 1) [Byte.of '\\'] := by
    have hSkip := first.reaches_skip 1
    rwa [hRest] at hSkip
  simp only [readContinuation]
  cases hReturn : (first.skip 1).eat? 13 with
  | none =>
      cases hFeed : (first.skip 1).eat? 10 with
      | none =>
          simp only [Option.getD_none, hFeed]
          exact .fault
            ⟨List.cons_ne_nil _ _, hSlash, rfl, rfl, rfl, rfl, rfl, rfl⟩
      | some last =>
          simp only [Option.getD_none, hFeed]
          exact .joined (.inl rfl)
            (hSlash.trans (Scanner.reaches_eat? hFeed))
  | some middle =>
      have hMiddle := hSlash.trans (Scanner.reaches_eat? hReturn)
      cases hFeed : middle.eat? 10 with
      | none =>
          simp only [Option.getD_some, hFeed]
          exact .fault
            ⟨List.cons_ne_nil _ _, hMiddle, rfl, rfl, rfl, rfl, rfl, rfl⟩
      | some last =>
          simp only [Option.getD_some, hFeed]
          exact .joined (.inr rfl)
            (hMiddle.trans (Scanner.reaches_eat? hFeed))

/- A step that does not come to the end finds something. -/
theorem finds_step
    {file : SourceFile}
    (hStep : state.step file = (false, next)) :
    state.Finds (state.scanner.skipWhile Byte.isLineSpace) next := by
  simp only [step] at hStep
  generalize state.scanner.skipWhile Byte.isLineSpace = first at *
  split at hStep
  · cases hStep
  rename_i b rest hRest
  obtain ⟨-, rfl⟩ := Prod.mk.inj hStep
  split
  · rename_i hFeed
    rw [beq_iff_eq.mp hFeed] at hRest
    exact .newline hRest
  split
  · rename_i hHash
    rw [beq_iff_eq.mp hHash] at hRest
    exact .comment hRest
  split
  · rename_i hSlash
    rw [beq_iff_eq.mp hSlash] at hRest
    exact finds_readContinuation file hRest
  split
  · obtain ⟨value, read, hString⟩ :=
      takesToken_readString state file
        (first.reaches_skip 0) hRest false
    exact .token hString
  split
  · rename_i hNumber
    simp only [Bool.or_eq_true, Bool.and_eq_true, beq_iff_eq] at hNumber
    obtain ⟨kind, read, hToken⟩ :=
      takesToken_readNumber state file hRest
        (hNumber.imp id And.left)
    exact .token hToken
  split
  · rename_i hWord
    obtain ⟨kind, read, hToken⟩ :=
      takesToken_readWord state file hRest hWord
    exact .token hToken
  · exact finds_readMark file hRest

/- A step that comes to the end has passed the last spaces. -/
theorem step_ended
    {file : SourceFile}
    (hStep : state.step file = (true, next)) :
    next = state.moveTo (state.scanner.skipWhile Byte.isLineSpace) ∧
      next.scanner.rest = [] := by
  simp only [step] at hStep
  generalize state.scanner.skipWhile Byte.isLineSpace = first at *
  split at hStep
  · rename_i hRest
    obtain ⟨-, rfl⟩ := Prod.mk.inj hStep
    exact ⟨rfl, hRest⟩
  · cases hStep

end Steps

------------------------------------------------------------
-- How a Line Is Entered
------------------------------------------------------------

/- The state after the indentation of a line. -/
def afterIndentation (state : LexState) : LexState :=
  { state with
    scanner := state.scanner.skipWhile isIndentation
    lineStart := false }

/- Closes blocks at a place. -/
def closeBlocks (state : LexState) (closed : List Nat) (span : Span) : LexState :=
  closed.foldl (fun st _ => st.push .dedent span) state

/- What entering a line comes to. -/
inductive Enters (state : LexState) : LexState → Prop
  | ended
      (hRest : state.afterIndentation.scanner.rest = []) :
      Enters state state.afterIndentation
  | blank
      {b : UInt8}
      {rest : List UInt8}
      (hRest : state.afterIndentation.scanner.rest = b :: rest)
      (hBlank : blanksLine b = true) :
      Enters state
        { state with
          scanner :=
            (state.afterIndentation.scanner.skipWhile (· != 10)).skip 1
          lineStart := true }
  | level :
      Enters state state.afterIndentation
  | deeper
      {width : Nat}
      {span : Span} :
      Enters state
        { state.afterIndentation.push .indent span with
          indents := width :: state.indents }
  | shallower
      {closed left : List Nat}
      {span : Span}
      (hSplit : state.indents = closed ++ left) :
      Enters state
        { state.afterIndentation.closeBlocks closed span with
          indents := left }
  | astray
      {fault : Diagnostic}
      {shown left : List Nat}
      {span : Span} :
      Enters state
        { { state.afterIndentation with
            errors := state.errors.push fault }.closeBlocks shown span with
          indents := left }

theorem enters_enterLine
    (state : LexState)
    (file : SourceFile) :
    state.Enters (state.enterLine file) := by
  simp only [enterLine]
  split
  · rename_i hEnd
    exact .ended (List.head?_eq_none_iff.mp hEnd)
  · rename_i b hNext
    obtain ⟨rest, hRest⟩ := List.head?_eq_some_iff.mp hNext
    split
    · rename_i hBlank
      exact .blank hRest hBlank
    · split
      · exact .deeper
      · split
        · exact .level
        · split
          · exact .shallower List.takeWhile_append_dropWhile.symm
          · exact .astray

@[simp] theorem scanner_closeBlocks
    (state : LexState)
    (closed : List Nat)
    (span : Span) :
    (state.closeBlocks closed span).scanner = state.scanner :=
  scanner_closeAll closed span state

theorem closeBlocks_eq
    (state : LexState)
    (closed : List Nat)
    (span : Span) :
    state.closeBlocks closed span =
      { state with
        tokens :=
          state.tokens ++
            (List.replicate closed.length ⟨.dedent, span⟩).toArray } := by
  induction closed generalizing state with
  | nil => simp [closeBlocks]
  | cons width closed ih =>
      rw [closeBlocks, List.foldl_cons, ← closeBlocks, ih, push]
      congr 1
      apply Array.toList_inj.mp
      simp [List.replicate_succ]

------------------------------------------------------------
-- Rounds and Runs
------------------------------------------------------------

/- Whether a line is to be entered next. -/
def entersNext (state : LexState) : Bool :=
  state.lineStart && state.brackets == 0

/- One round of a run, and whether the text ends with it. -/
def round (state : LexState) (file : SourceFile) : Bool × LexState :=
  if state.entersNext then (false, state.enterLine file) else state.step file

/- A run from a state to the last one. -/
inductive RunsTo (file : SourceFile) : LexState → LexState → Prop
  | full
      {state : LexState}
      (hFull : state.errors.isFull = true) :
      RunsTo file state state
  | ended
      {state last : LexState}
      (hOpen : state.errors.isFull = false)
      (hRound : state.round file = (true, last)) :
      RunsTo file state last
  | again
      {state next last : LexState}
      (hOpen : state.errors.isFull = false)
      (hRound : state.round file = (false, next))
      (hRest : RunsTo file next last) :
      RunsTo file state last

section Runs

variable {file : SourceFile}
variable {state next last : LexState}

/- How many rounds are left at most: each byte takes two, and the start of a line one. -/
def roundsLeft (state : LexState) : Nat :=
  2 * state.scanner.rest.length + if state.lineStart then 1 else 0

theorem length_of_reaches
    {first last : Scanner}
    {read : List UInt8}
    (hReaches : first.Reaches last read) :
    first.rest.length = read.length + last.rest.length := by
  rw [hReaches.rest, List.length_append]

/- The rest of a line and its line feed, if there is any of them. -/
theorem length_afterLine_lt
    {scanner : Scanner}
    {b : UInt8}
    {rest : List UInt8}
    (hRest : scanner.rest = b :: rest) :
    ((scanner.skipWhile (· != 10)).skip 1).rest.length <
      scanner.rest.length := by
  have hLine := length_of_reaches (scanner.reaches_skipWhile (· != 10))
  have hSome : 0 < scanner.rest.length := by
    rw [hRest]
    exact Nat.succ_pos _
  have hFeed :
      ((scanner.skipWhile (· != 10)).skip 1).rest.length =
        (scanner.skipWhile (· != 10)).rest.length - 1 :=
    List.length_drop
  omega

@[simp] theorem scanner_readNewline
    (state : LexState)
    (first : Scanner) :
    (state.readNewline first).scanner = first.skip 1 := by
  simp only [readNewline]
  split
  · rfl
  · split <;> rfl

/- Whatever a step finds, it reads a byte. -/
theorem Finds.length_lt
    {first : Scanner}
    (hFinds : state.Finds first next) :
    next.scanner.rest.length < first.rest.length := by
  have hReads {last : Scanner} {read : List UInt8}
      (hReaches : first.Reaches last read) (hRead : read ≠ []) :
      last.rest.length < first.rest.length := by
    have hLength := length_of_reaches hReaches
    have hSome := List.length_pos_iff.mpr hRead
    omega
  cases hFinds with
  | token hToken => exact hReads hToken.reaches hToken.read_ne
  | fault hFault => exact hReads hFault.reaches hFault.read_ne
  | comment hRest =>
      refine hReads (first.reaches_skipWhile _) ?_
      rw [hRest, List.takeWhile_cons_of_pos (by decide)]
      exact List.cons_ne_nil _ _
  | joined hEnding hReaches =>
      exact hReads hReaches (List.cons_ne_nil _ _)
  | newline hRest =>
      rw [scanner_readNewline]
      refine hReads (first.reaches_skip 1) ?_
      rw [hRest]
      exact List.cons_ne_nil _ _

/- A round that goes on enters a line or finds something. -/
theorem round_again
    (hRound : state.round file = (false, next)) :
    state.entersNext = true ∧ state.Enters next ∨
      state.entersNext = false ∧
        state.Finds (state.scanner.skipWhile Byte.isLineSpace) next := by
  unfold round at hRound
  split at hRound
  · rename_i hStart
    obtain ⟨-, rfl⟩ := Prod.mk.inj hRound
    exact .inl ⟨hStart, state.enters_enterLine file⟩
  · rename_i hInside
    exact .inr ⟨Bool.eq_false_iff.mpr hInside, finds_step hRound⟩

/- A round that comes to the end has passed the last spaces. -/
theorem round_ended
    (hRound : state.round file = (true, last)) :
    last = state.moveTo (state.scanner.skipWhile Byte.isLineSpace) ∧
      last.scanner.rest = [] := by
  unfold round at hRound
  split at hRound
  · cases hRound
  · exact step_ended hRound

/- What is left after a round is the end of what was left before. -/
theorem Finds.rest_suffix
    {first : Scanner}
    (hFinds : state.Finds first next) :
    next.scanner.rest <:+ first.rest := by
  have hReads {last : Scanner} {read : List UInt8}
      (hReaches : first.Reaches last read) : last.rest <:+ first.rest := by
    rw [hReaches.rest]
    exact List.suffix_append _ _
  cases hFinds with
  | token hToken => exact hReads hToken.reaches
  | fault hFault => exact hReads hFault.reaches
  | comment => exact hReads (first.reaches_skipWhile _)
  | joined _ hReaches => exact hReads hReaches
  | newline =>
      rw [scanner_readNewline]
      exact hReads (first.reaches_skip 1)

theorem Enters.rest_suffix
    (hEnters : state.Enters next) :
    next.scanner.rest <:+ state.scanner.rest := by
  have hIndentation :
      state.afterIndentation.scanner.rest <:+ state.scanner.rest :=
    List.dropWhile_suffix isIndentation
  cases hEnters with
  | ended | level | deeper => exact hIndentation
  | shallower | astray =>
      rw [scanner_closeBlocks]
      exact hIndentation
  | blank =>
      exact ((List.drop_suffix 1 _).trans
        (List.dropWhile_suffix _)).trans hIndentation

theorem rest_suffix_round
    (hRound : state.round file = (false, next)) :
    next.scanner.rest <:+ state.scanner.rest := by
  rcases round_again hRound with ⟨-, hEnters⟩ | ⟨-, hFinds⟩
  · exact hEnters.rest_suffix
  · exact hFinds.rest_suffix.trans (List.dropWhile_suffix _)

/- A step reports at most one fault. -/
theorem Finds.errors
    {first : Scanner}
    (hFinds : state.Finds first next) :
    next.errors = state.errors ∨
      ∃ fault, next.errors = state.errors.push fault := by
  cases hFinds with
  | token hToken => exact hToken.errors
  | fault hFault => exact .inr ⟨_, hFault.errors⟩
  | comment | joined => exact .inl rfl
  | newline =>
      simp only [readNewline]
      split
      · exact .inl rfl
      · split <;> exact .inl rfl

theorem Enters.errors
    (hEnters : state.Enters next) :
    next.errors = state.errors ∨
      ∃ fault, next.errors = state.errors.push fault := by
  cases hEnters with
  | ended | blank | level | deeper => exact .inl rfl
  | shallower =>
      rw [closeBlocks_eq]
      exact .inl rfl
  | astray =>
      rw [closeBlocks_eq]
      exact .inr ⟨_, rfl⟩

theorem errors_round
    (hRound : state.round file = (false, next)) :
    next.errors = state.errors ∨
      ∃ fault, next.errors = state.errors.push fault := by
  rcases round_again hRound with ⟨-, hEnters⟩ | ⟨-, hFinds⟩
  · exact hEnters.errors
  · exact hFinds.errors

/- A later state keeps the tokens and the faults that were stored. -/
structure Extends (state next : LexState) : Prop where
  tokens : state.tokens.toList <+: next.tokens.toList
  stored : state.errors.stored <+: next.errors.stored
  total : state.errors.total ≤ next.errors.total

theorem Extends.refl
    (state : LexState) :
    state.Extends state :=
  ⟨List.prefix_rfl, List.prefix_rfl, le_rfl⟩

theorem Extends.trans
    (hFirst : state.Extends next)
    (hLast : next.Extends last) :
    state.Extends last :=
  ⟨hFirst.tokens.trans hLast.tokens, hFirst.stored.trans hLast.stored,
    hFirst.total.trans hLast.total⟩

theorem Finds.tokens
    {first : Scanner}
    (hFinds : state.Finds first next) :
    state.tokens.toList <+: next.tokens.toList := by
  cases hFinds with
  | token hToken =>
      rw [hToken.tokens, Array.toList_push]
      exact List.prefix_append _ _
  | fault hFault => rw [hFault.tokens]
  | comment | joined => exact List.prefix_rfl
  | newline =>
      simp only [readNewline]
      split
      · exact List.prefix_rfl
      · split
        · exact List.prefix_rfl
        · exact List.prefix_rfl
        · exact ⟨_, (Array.toList_push ..).symm⟩

theorem Enters.tokens
    (hEnters : state.Enters next) :
    state.tokens.toList <+: next.tokens.toList := by
  cases hEnters with
  | ended | blank | level => exact List.prefix_rfl
  | deeper => exact ⟨_, (Array.toList_push ..).symm⟩
  | shallower | astray =>
      rw [closeBlocks_eq]
      exact ⟨_, (Array.toList_append ..).symm⟩

theorem extends_round
    {ended : Bool}
    (hRound : state.round file = (ended, next)) :
    state.Extends next := by
  cases ended with
  | true =>
      obtain ⟨rfl, -⟩ := round_ended hRound
      exact ⟨List.prefix_rfl, List.prefix_rfl, le_rfl⟩
  | false =>
      have hTokens : state.tokens.toList <+: next.tokens.toList := by
        rcases round_again hRound with ⟨-, hEnters⟩ | ⟨-, hFinds⟩
        · exact hEnters.tokens
        · exact hFinds.tokens
      rcases errors_round hRound with hSame | ⟨fault, hPush⟩
      · exact ⟨hTokens, by rw [hSame], by rw [hSame]⟩
      · refine ⟨hTokens, ?_, ?_⟩
        · rw [hPush, Diagnostics.push]
          dsimp only
          split
          · exact List.prefix_append _ _
          · exact List.prefix_rfl
        · rw [hPush]
          exact Nat.le_succ _

/- If there are no faults after a round, it has found none. -/
theorem errors_round_eq
    (hRound : state.round file = (false, next))
    (hErrors : next.errors.hasErrors = false) :
    next.errors = state.errors := by
  rcases errors_round hRound with hSame | ⟨fault, hPush⟩
  · exact hSame
  · simp [hPush, Diagnostics.hasErrors, Diagnostics.push] at hErrors

/- A round leaves fewer rounds. -/
theorem roundsLeft_lt
    (hRound : state.round file = (false, next)) :
    next.roundsLeft < state.roundsLeft := by
  unfold roundsLeft
  rcases round_again hRound with ⟨hStart, hEnters⟩ | ⟨-, hFinds⟩
  · have hLine : state.lineStart = true :=
      (Bool.and_eq_true_iff.mp hStart).1
    have hIndentation :=
      length_of_reaches (state.scanner.reaches_skipWhile isIndentation)
    have hAfter :
        state.afterIndentation.scanner =
          state.scanner.skipWhile isIndentation := rfl
    rw [hLine]
    cases hEnters with
    | ended | level | deeper =>
        simp [afterIndentation, push]
        omega
    | shallower | astray =>
        rw [closeBlocks_eq]
        simp [afterIndentation]
        omega
    | blank hRest hBlank =>
        have hShorter := length_afterLine_lt hRest
        rw [hAfter] at hShorter
        simp only [hAfter, if_true]
        omega
  · have hSpaces :=
      length_of_reaches (state.scanner.reaches_skipWhile Byte.isLineSpace)
    have hFewer := hFinds.length_lt
    split <;> split <;> omega

theorem runsTo_run
    {fuel : Nat}
    (hFuel : state.roundsLeft < fuel) :
    RunsTo file state (run file fuel state) := by
  induction fuel generalizing state with
  | zero => omega
  | succ fuel ih =>
      simp only [run]
      split
      · rename_i hFull
        exact .full hFull
      rename_i hOpen
      rw [Bool.not_eq_true] at hOpen
      split
      · rename_i hStart
        have hRound : state.round file = (false, state.enterLine file) :=
          if_pos hStart
        have hFewer := roundsLeft_lt hRound
        exact .again hOpen hRound (ih (by omega))
      rename_i hInside
      have hRound : state.round file = state.step file := if_neg hInside
      cases hStep : state.step file with
      | mk ended next =>
          rw [hStep] at hRound
          cases ended with
          | true => exact .ended hOpen hRound
          | false =>
              have hFewer := roundsLeft_lt hRound
              exact .again hOpen hRound (ih (by omega))

/- A run has only one last state. -/
theorem RunsTo.unique
    {other : LexState}
    (hRun : RunsTo file state last)
    (hOther : RunsTo file state other) :
    last = other := by
  induction hRun with
  | full hFull =>
      cases hOther with
      | full => rfl
      | ended hOpen | again hOpen => simp [hFull] at hOpen
  | ended hOpen hRound =>
      cases hOther with
      | full hFull => simp [hFull] at hOpen
      | ended _ hRound' => simpa [hRound] using hRound'
      | again _ hRound' => simp [hRound] at hRound'
  | again hOpen hRound hRest ih =>
      cases hOther with
      | full hFull => simp [hFull] at hOpen
      | ended _ hRound' => simp [hRound] at hRound'
      | again _ hRound' hRest' =>
          rw [hRound] at hRound'
          obtain ⟨-, rfl⟩ := Prod.mk.inj hRound'
          exact ih hRest'

/- What every round keeps, a run keeps. -/
theorem RunsTo.keeps
    (hRun : RunsTo file state last)
    (holds : LexState → Prop)
    (hState : holds state)
    (hRounds :
      ∀ {state next ended},
        holds state → state.round file = (ended, next) → holds next) :
    holds last := by
  induction hRun with
  | full => exact hState
  | ended _ hRound => exact hRounds hState hRound
  | again _ hRound _ ih => exact ih (hRounds hState hRound)

theorem RunsTo.extends
    (hRun : RunsTo file state last) :
    state.Extends last :=
  hRun.keeps state.Extends (.refl state) fun hState hRound =>
    hState.trans (extends_round hRound)

end Runs

/- The tokens at the end are those of the last state and more. -/
theorem tokens_finish
    (state : LexState) :
    state.tokens.toList <+: state.finish.tokens.toList := by
  have hClosed (ended : LexState) (span : Span)
      (hEnded : state.tokens.toList <+: ended.tokens.toList) :
      state.tokens.toList <+:
        ((ended.closeBlocks state.indents span).push
          .endOfFile span).tokens.toList := by
    rw [closeBlocks_eq, push, Array.toList_push, Array.toList_append,
      List.append_assoc]
    exact hEnded.trans (List.prefix_append _ _)
  unfold finish
  dsimp only
  split
  · exact hClosed state _ List.prefix_rfl
  · exact hClosed state _ List.prefix_rfl
  · exact hClosed state _ List.prefix_rfl
  · exact hClosed _ _ ⟨_, (Array.toList_push ..).symm⟩

end LexState

/- The tokens of a file are those of the last state of a run over it. -/
theorem runsTo_lex
    (file : SourceFile) :
    ∃ last,
      LexState.RunsTo file
          { scanner := ⟨Text.encodeUtf8 file.text, {}⟩ } last ∧
        lex file = last.finish := by
  refine ⟨_, LexState.runsTo_run ?_, rfl⟩
  unfold LexState.roundsLeft
  dsimp only
  rw [if_pos rfl]
  omega

end SnippetGrader
