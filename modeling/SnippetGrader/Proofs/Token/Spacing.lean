import SnippetGrader.Proofs.Token.Spelling

/-
  Texts of spaced tokens are read back.

  A token may stand right before another one if the first byte
  of the second does not make the first longer. A text all of
  whose tokens are spaced in this way is read as them.

  Key definitions include:
    * `TokenKind.StartsWith`
    * `Lexeme.parts`, `IsSpaced`, `WrittenAs`

  Key theorems include:
    * `TokenKind.fits_of_parts`
    * `LexState.run_written`
    * `lex_written`
-/

namespace SnippetGrader

------------------------------------------------------------
-- First Bytes
------------------------------------------------------------

/- Whether the spelling of a token starts with a byte. -/
def TokenKind.StartsWith (b : UInt8) : TokenKind → Prop
  | .int _ | .float _ => Byte.isDigit b = true
  | .str _ => b = Byte.of '"' ∨ b = Byte.of '\''
  | .mark symbol => symbol.bytes.head? = some b
  | _ => Byte.startsWord b = true

/- No spelling is empty. -/
theorem TokenKind.exists_startsWith
    {kind : TokenKind}
    (hKind : kind.IsSpelled) :
    ∃ b rest,
      Text.encodeUtf8 kind.spelling = b :: rest ∧ kind.StartsWith b := by
  cases kind with
  | int value => exact LexState.encodeUtf8_int hKind.1
  | float value => exact LexState.encodeUtf8_float hKind
  | str value =>
      exact
        ⟨_, _, LexState.encodeUtf8_quotedWith (.inl rfl) value, .inl rfl⟩
  | name id =>
      obtain ⟨b, rest, hBytes, hStarts, -⟩ :=
        LexState.encodeUtf8_word hKind.2
      exact ⟨b, rest, hBytes, hStarts⟩
  | keyword word =>
      obtain ⟨b, rest, hBytes, hStarts, -⟩ :=
        LexState.encodeUtf8_word (LexState.isWord_keyword word).1
      exact ⟨b, rest, hBytes, hStarts⟩
  | mark symbol =>
      rw [symbol.encodeUtf8_spelling]
      cases symbol <;> exact ⟨_, _, rfl, rfl⟩
  | _ => cases hKind

/- Whatever a token is written as starts with a byte of its own. -/
theorem TokenKind.WrittenAs.exists_startsWith
    {kind : TokenKind}
    {text : String}
    (hWritten : kind.WrittenAs text)
    (hKind : kind.IsSpelled) :
    ∃ b rest,
      Text.encodeUtf8 text = b :: rest ∧ kind.StartsWith b := by
  cases hWritten with
  | spelling => exact TokenKind.exists_startsWith hKind
  | quoted hMark text =>
      refine ⟨_, _, LexState.encodeUtf8_quotedWith hMark text, ?_⟩
      exact hMark.imp (congrArg Byte.of) (congrArg Byte.of)

/- The bytes that a longer mark goes on with. -/
def Byte.extendsMark (b : UInt8) : Bool :=
  b == of '=' || b == of '>' || b == of '<' || b == of '*' || b == of '/'

/- Only such a byte makes a mark longer. -/
theorem Mark.fits_of_not_extends
    {mark : Mark}
    {b : UInt8}
    (hByte : Byte.extendsMark b = false)
    (hDot : mark = .dot → Byte.isDigit b = false) :
    mark.fits b = true := by
  have hTails :
      (LexState.longMarks.all fun entry =>
        entry.1.tail.all Byte.extendsMark) = true := by
    rw [LexState.longMarks_eq]
    rfl
  simp only [List.all_eq_true] at hTails
  have hBytes : mark.bytes ≠ [] := by
    cases mark <;> decide
  rw [fits, Bool.and_eq_true, List.all_eq_true]
  refine ⟨fun entry hEntry => ?_, ?_⟩
  · rw [Bool.not_eq_true', Bool.eq_false_iff]
    intro hLonger
    obtain ⟨later, hLater⟩ := List.isPrefixOf_iff_prefix.mp hLonger
    have hMem : b ∈ entry.1.tail := by
      obtain ⟨first, rest, hCons⟩ := List.exists_cons_of_ne_nil hBytes
      rw [← hLater, hCons]
      simp
    rw [hTails entry hEntry b hMem] at hByte
    cases hByte
  · by_cases hMark : mark = .dot
    · rw [hDot hMark, Bool.not_false, Bool.or_true]
    · simp [hMark]

/- The first bytes of words, numbers and strings do not. -/
theorem Byte.not_extends_of_startsWord :
    ∀ b,
      startsWord b = true →
        (!extendsMark b && !isDigit b) = true := by
  intro b hStarts
  have hDigit : isDigit b = false :=
    isDigit_eq_false hStarts (by decide)
  have hOthers := beq_eq_false hStarts
  simp (disch := decide) only [extendsMark, hDigit, hOthers,
    Bool.or_self, Bool.not_false, Bool.and_self]

theorem Byte.not_extends_of_isDigit :
    ∀ b, isDigit b = true → extendsMark b = false := by
  apply forall_of_digits
  decide

/- A token of another kind ends at the first byte of a mark. -/
theorem Mark.isBreak_of_mem
    {mark : Mark}
    {b : UInt8}
    (hByte : mark.bytes.head? = some b) :
    Byte.isBreak b = true ∧ (mark ≠ .dot → b ≠ Byte.of '.') := by
  cases mark <;>
    (cases hByte; exact ⟨by decide, by decide⟩)

------------------------------------------------------------
-- Neighbors
------------------------------------------------------------

namespace Lexeme

/- Whether a lexeme may stand right before another one. -/
def parts : Lexeme → Lexeme → Bool
  | .token (.mark first), .token (.mark second) =>
      second.bytes.head?.all first.fits
  | .token (.mark .dot), .token (.int _)
  | .token (.mark .dot), .token (.float _) => false
  | .token (.mark _), .token _ => true
  | .token (.int _), .token (.mark second) => second != .dot
  | .token _, .token (.mark _) => true
  | .token _, .token _ => false
  | _, _ => true

/- A lexeme that can be read back where it stands. -/
def IsSpelled : Lexeme → Prop
  | .token kind => kind.IsSpelled
  | .space => True

end Lexeme

/- Lexemes each of which may stand before the next one. -/
structure IsSpaced (lexemes : List Lexeme) : Prop where
  readable : ∀ lexeme ∈ lexemes, lexeme.IsSpelled
  parted : lexemes.IsChain fun first second => first.parts second = true

namespace TokenKind

variable {kind next : TokenKind}
variable {b : UInt8}
variable {rest : List UInt8}

/- A mark may stand before a byte that starts no mark. -/
theorem fits_mark_of_not_extends
    {mark : Mark}
    (hByte : Byte.extendsMark b = false)
    (hDot : mark = .dot → Byte.isDigit b = false) :
    (TokenKind.mark mark).Fits (b :: rest) := by
  rintro b' ⟨⟩
  exact Mark.fits_of_not_extends hByte hDot

/- A token keeps its own bytes if one follows that may. -/
theorem fits_of_parts
    (hKind : kind.IsSpelled)
    (hNext : next.IsSpelled)
    (hParts : Lexeme.parts (.token kind) (.token next) = true)
    (hStarts : next.StartsWith b) :
    kind.Fits (b :: rest) := by
  cases kind with
  | mark first =>
      cases next with
      | mark second =>
          rintro b' ⟨⟩
          have hHead : second.bytes.head? = some b := hStarts
          rw [Lexeme.parts, hHead] at hParts
          exact hParts
      | int value =>
          refine fits_mark_of_not_extends
            (Byte.not_extends_of_isDigit b hStarts) ?_
          rintro rfl
          cases hParts
      | float value =>
          refine fits_mark_of_not_extends
            (Byte.not_extends_of_isDigit b hStarts) ?_
          rintro rfl
          cases hParts
      | str value =>
          obtain rfl | rfl : b = Byte.of '"' ∨ b = Byte.of '\'' := hStarts
          · exact fits_mark_of_not_extends rfl fun _ => rfl
          · exact fits_mark_of_not_extends rfl fun _ => rfl
      | name _ | keyword _ =>
          have hByte := Byte.not_extends_of_startsWord b hStarts
          rw [Bool.and_eq_true, Bool.not_eq_true',
            Bool.not_eq_true'] at hByte
          exact fits_mark_of_not_extends hByte.1 fun _ => hByte.2
      | _ => cases hNext
  | int value =>
      cases next with
      | mark second =>
          obtain ⟨hBreak, hPoint⟩ := Mark.isBreak_of_mem hStarts
          rintro b' ⟨⟩
          exact ⟨hBreak, hPoint (bne_iff_ne.mp hParts)⟩
      | _ => cases hParts
  | float _ | str _ | name _ | keyword _ =>
      cases next with
      | mark second =>
          rintro b' ⟨⟩
          exact (Mark.isBreak_of_mem hStarts).1
      | _ => cases hParts
  | _ => cases hKind

/- Every token keeps its own bytes at the end and before a space. -/
theorem fits_nil :
    kind.Fits [] := by
  intro b hMem
  cases hMem

theorem fits_space :
    kind.Fits (Byte.of ' ' :: rest) := by
  cases kind with
  | mark symbol =>
      exact fits_mark_of_not_extends rfl fun _ => rfl
  | int value =>
      rintro b' ⟨⟩
      exact ⟨rfl, by decide⟩
  | _ =>
      rintro b' ⟨⟩
      rfl

end TokenKind

theorem Lexeme.encodeUtf8_space :
    Text.encodeUtf8 Lexeme.space.text = [Byte.of ' '] := by
  rw [Number.encodeUtf8_of_toList rfl]
  rfl

/- The texts that lexemes are written as, one after the other. -/
inductive WrittenAs : List Lexeme → String → Prop
  | nil : WrittenAs [] ""
  | space
      {rest : List Lexeme}
      {later : String}
      (hRest : WrittenAs rest later) :
      WrittenAs (.space :: rest) (Lexeme.space.text ++ later)
  | token
      {kind : TokenKind}
      {rest : List Lexeme}
      {text later : String}
      (hKind : kind.WrittenAs text)
      (hRest : WrittenAs rest later) :
      WrittenAs (.token kind :: rest) (text ++ later)

/- Lexemes are written as their spelling. -/
theorem writtenAs_spelled
    (lexemes : List Lexeme) :
    WrittenAs lexemes (spelled lexemes) := by
  induction lexemes with
  | nil => exact .nil
  | cons lexeme rest ih =>
      cases lexeme with
      | space => exact .space ih
      | token kind => exact .token (.spelling kind) ih

namespace WrittenAs

theorem append
    {first second : List Lexeme}
    {text later : String}
    (hFirst : WrittenAs first text)
    (hSecond : WrittenAs second later) :
    WrittenAs (first ++ second) (text ++ later) := by
  induction hFirst with
  | nil => rwa [List.nil_append, String.empty_append]
  | space hRest ih =>
      rw [String.append_assoc]
      exact .space ih
  | token hKind hRest ih =>
      rw [String.append_assoc]
      exact .token hKind ih

theorem ofToken
    {kind : TokenKind}
    {text : String}
    (hKind : kind.WrittenAs text) :
    WrittenAs [.token kind] text := by
  have hAlone : WrittenAs [.token kind] (text ++ "") := .token hKind .nil
  rwa [String.append_empty] at hAlone

theorem enclosed
    (opening closing : Mark)
    {lexemes : List Lexeme}
    {text : String}
    (hWritten : WrittenAs lexemes text) :
    WrittenAs (SnippetGrader.enclosed opening closing lexemes)
      (opening.text ++ text ++ closing.text) := by
  rw [String.append_assoc]
  exact .token (.spelling (.mark opening))
    (hWritten.append (ofToken (.spelling (.mark closing))))

/- Lists of lexemes with commas between them. -/
theorem commaSeparated
    {parts : List (List Lexeme)}
    {texts : List String}
    (hParts : List.Forall₂ WrittenAs parts texts) :
    WrittenAs (SnippetGrader.commaSeparated parts)
      (", ".intercalate texts) := by
  have hComma : WrittenAs commaLexemes ", " := writtenAs_spelled commaLexemes
  induction hParts with
  | nil => exact .nil
  | cons hFirst hRest ih =>
      cases hRest with
      | nil =>
          rw [SnippetGrader.commaSeparated, List.intercalate_singleton,
            String.intercalate_singleton]
          exact hFirst
      | cons hSecond hLater =>
          rw [SnippetGrader.commaSeparated, List.intercalate_cons_cons,
            String.intercalate_cons_cons]
          exact (hFirst.append hComma).append ih

end WrittenAs

namespace IsSpaced

variable {lexeme : Lexeme}
variable {kind : TokenKind}
variable {rest : List Lexeme}
variable {text : String}

theorem tail
    (hSpaced : IsSpaced (lexeme :: rest)) :
    IsSpaced rest :=
  ⟨fun later hMem => hSpaced.readable later (List.mem_cons_of_mem _ hMem),
    hSpaced.parted.tail⟩

/- The first token keeps its own bytes before those of the others. -/
theorem fits
    (hSpaced : IsSpaced (.token kind :: rest))
    (hWritten : WrittenAs rest text) :
    kind.Fits (Text.encodeUtf8 text) := by
  cases hWritten with
  | nil =>
      have hEmpty : Text.encodeUtf8 "" = [] :=
        Number.encodeUtf8_of_toList rfl
      rw [hEmpty]
      exact TokenKind.fits_nil
  | space hRest =>
      rw [Text.encodeUtf8_append, Lexeme.encodeUtf8_space]
      exact TokenKind.fits_space
  | token hNext hRest =>
      have hKind := hSpaced.readable _ List.mem_cons_self
      have hSpelled := hSpaced.tail.readable _ List.mem_cons_self
      obtain ⟨b, bytes, hBytes, hStarts⟩ :=
        hNext.exists_startsWith hSpelled
      rw [Text.encodeUtf8_append, hBytes, List.cons_append]
      exact TokenKind.fits_of_parts hKind hSpelled hSpaced.parted.rel
        hStarts

end IsSpaced

------------------------------------------------------------
-- Runs
------------------------------------------------------------

namespace LexState

variable {file : SourceFile}
variable {state : LexState}
variable {bytes : List UInt8}

/- What is read does not depend on the place before its first byte. -/
theorem readString_moveTo
    (scanner first opening : Scanner)
    (quote : UInt8)
    (raw : Bool) :
    (state.moveTo scanner).readString file first opening quote raw =
      state.readString file first opening quote raw := by
  simp only [readString]
  split <;> rfl

theorem readWord_moveTo
    (scanner first : Scanner) :
    (state.moveTo scanner).readWord file first =
      state.readWord file first := by
  simp only [readWord, readString_moveTo]
  rfl

theorem readNumber_moveTo
    (scanner first : Scanner) :
    (state.moveTo scanner).readNumber file first =
      state.readNumber file first := by
  simp only [readNumber]
  split <;> rfl

theorem readMark_moveTo
    (scanner first : Scanner)
    (b : UInt8) :
    (state.moveTo scanner).readMark file first b =
      state.readMark file first b := by
  simp only [readMark]
  split <;> rfl

theorem readContinuation_moveTo
    (scanner first : Scanner) :
    (state.moveTo scanner).readContinuation file first =
      state.readContinuation file first := by
  simp only [readContinuation]
  split <;> rfl

/- A step passes over a space. -/
theorem step_space
    (hRest : state.scanner.rest = Byte.of ' ' :: bytes) :
    state.step file =
      (state.moveTo (state.scanner.skip 1)).step file := by
  have hFirst :
      (state.scanner.skip 1).skipWhile Byte.isLineSpace =
        state.scanner.skipWhile Byte.isLineSpace := by
    unfold Scanner.skip Scanner.skipWhile
    rw [hRest]
    rfl
  have hPlace :
      (state.moveTo (state.scanner.skip 1)).scanner =
        state.scanner.skip 1 := rfl
  simp only [step, hPlace, hFirst]
  cases (state.scanner.skipWhile Byte.isLineSpace).rest with
  | nil => rfl
  | cons b rest =>
      simp only [readString_moveTo, readWord_moveTo, readNumber_moveTo,
        readMark_moveTo, readContinuation_moveTo]
      rfl

/- One step of a run inside a line. -/
theorem run_step
    {fuel : Nat}
    (hFull : state.errors.isFull = false)
    (hLine : state.lineStart = false)
    {after : LexState}
    (hStep : state.step file = (false, after)) :
    run file (fuel + 1) state = run file fuel after := by
  simp [run, hFull, hLine, hStep]

/- A run reads spaced tokens up to the end. -/
theorem run_written
    {lexemes : List Lexeme}
    {text : String}
    (hSpaced : IsSpaced lexemes)
    (hWritten : WrittenAs lexemes text)
    {fuel : Nat}
    (hFuel : lexemes.length ≤ fuel)
    (hRest : state.scanner.rest = Text.encodeUtf8 text)
    (hFull : state.errors.isFull = false)
    (hLine : state.lineStart = false) :
    ∃ scanner brackets found,
      run file (fuel + 1) state =
          { state with
            scanner := scanner
            brackets := brackets
            tokens := state.tokens ++ found } ∧
        found.toList.map (·.kind) = kindsOf lexemes := by
  induction hWritten generalizing state fuel with
  | nil =>
      have hEmpty : state.scanner.rest = [] :=
        hRest.trans (Number.encodeUtf8_of_toList rfl)
      refine
        ⟨state.scanner.skipWhile Byte.isLineSpace, state.brackets, #[],
          ?_, rfl⟩
      have hStep :
          state.step file =
            (true,
              state.moveTo
                (state.scanner.skipWhile Byte.isLineSpace)) := by
        unfold step Scanner.skipWhile
        simp [hEmpty]
      simp [run, hFull, hLine, hStep, moveTo]
  | @space rest later hLater ih =>
      rw [List.length_cons] at hFuel
      rw [Text.encodeUtf8_append, Lexeme.encodeUtf8_space,
        List.singleton_append] at hRest
      have hSkipped :
          run file (fuel + 1) state =
            run file (fuel + 1)
              (state.moveTo (state.scanner.skip 1)) := by
        have hFull' :
            (state.moveTo
              (state.scanner.skip 1)).errors.isFull = false := hFull
        have hLine' :
            (state.moveTo
              (state.scanner.skip 1)).lineStart = false := hLine
        simp [run, hFull, hLine, hFull', hLine', step_space hRest]
      have hPlace :
          (state.scanner.skip 1).rest = Text.encodeUtf8 later := by
        unfold Scanner.skip
        rw [hRest]
        rfl
      obtain ⟨scanner, brackets, found, hRun, hFound⟩ :=
        @ih (state.moveTo (state.scanner.skip 1)) hSpaced.tail fuel
          (by omega) hPlace hFull hLine
      exact ⟨scanner, brackets, found, hSkipped.trans hRun, hFound⟩
  | @token kind rest text later hKind hLater ih =>
      rw [List.length_cons] at hFuel
      rw [Text.encodeUtf8_append] at hRest
      obtain ⟨fuel, rfl⟩ : ∃ less, fuel = less + 1 :=
        ⟨fuel - 1, by omega⟩
      obtain ⟨last, span, brackets, hStep, hLast⟩ :=
        @stepsOver_written file state _ kind _
          (hSpaced.readable _ List.mem_cons_self) hKind hRest
          (hSpaced.fits hLater)
      obtain ⟨scanner, brackets', found, hRun, hFound⟩ :=
        @ih
          { state with
            scanner := last
            tokens := state.tokens.push ⟨kind, span⟩
            brackets := brackets }
          hSpaced.tail fuel (by omega) hLast hFull hLine
      refine ⟨scanner, brackets', #[⟨kind, span⟩] ++ found, ?_, ?_⟩
      · rw [run_step hFull hLine hStep, hRun,
          ← Array.append_assoc, Array.push_eq_append]
      · simpa using hFound

------------------------------------------------------------
-- Whole Texts
------------------------------------------------------------

/- A line that starts with a token has no indentation. -/
theorem not_indented_of_startsWith
    {kind : TokenKind}
    {b : UInt8}
    (hStarts : kind.StartsWith b) :
    isIndentation b = false ∧ blanksLine b = false := by
  have hWord
      (hWord : Byte.continuesWord b = true) :
      isIndentation b = false ∧ blanksLine b = false := by
    have hOthers := Byte.beq_eq_false hWord
    constructor
    · simp (disch := decide) only [isIndentation, hOthers, Bool.or_self]
    · simp (disch := decide) only [blanksLine, hOthers, Bool.or_self]
  cases kind with
  | int _ | float _ =>
      refine hWord ?_
      rw [Byte.continuesWord, hStarts, Bool.or_true]
  | str _ =>
      obtain rfl | rfl : b = Byte.of '"' ∨ b = Byte.of '\'' := hStarts
      · decide
      · decide
  | mark symbol =>
      cases symbol <;> (cases hStarts; decide)
  | _ =>
      refine hWord ?_
      rw [Byte.continuesWord, hStarts, Bool.true_or]

/- Entering a line without indentation opens and closes no block. -/
theorem enterLine_of_startsWith
    {kind : TokenKind}
    {b : UInt8}
    (hStarts : kind.StartsWith b)
    (hRest : state.scanner.rest = b :: bytes)
    (hIndents : state.indents = []) :
    state.enterLine file = { state with lineStart := false } := by
  obtain ⟨hIndentation, hBlank⟩ := not_indented_of_startsWith hStarts
  have hWidth : indentWidth 0 (b :: bytes) = 0 := by
    simp only [isIndentation, Bool.or_eq_false_iff] at hIndentation
    simp [indentWidth, hIndentation]
  have hPeek : state.scanner.peek? = some b := by
    rw [Scanner.peek?, hRest, List.head?_cons]
  unfold enterLine
  simp [skipWhile_of_head hRest hIndentation, hPeek, hBlank, hRest,
    hWidth, hIndents]

/- A token that is spelled ends no line. -/
theorem finish_of_last
    {kind : TokenKind}
    (hLast : state.lastKind? = some kind)
    (hKind : kind.IsSpelled)
    (hIndents : state.indents = []) :
    state.finish.tokens.toList.map (·.kind) =
        state.tokens.toList.map (·.kind) ++ [.newline, .endOfFile] ∧
      state.finish.errors = state.errors := by
  refine ⟨?_, rfl⟩
  unfold finish
  rw [hLast, hIndents]
  cases kind <;> first
    | cases hKind; done
    | simp [push]

end LexState

namespace IsSpaced

/- Every lexeme takes at least one byte. -/
theorem length_le
    {lexemes : List Lexeme}
    {text : String}
    (hSpaced : IsSpaced lexemes)
    (hWritten : WrittenAs lexemes text) :
    lexemes.length ≤ (Text.encodeUtf8 text).length := by
  induction hWritten with
  | nil => exact Nat.zero_le _
  | space hRest ih =>
      have hLater := ih hSpaced.tail
      rw [Text.encodeUtf8_append, List.length_append, List.length_cons,
        Lexeme.encodeUtf8_space, List.length_singleton]
      omega
  | token hKind hRest ih =>
      have hLater := ih hSpaced.tail
      obtain ⟨b, bytes, hBytes, -⟩ :=
        hKind.exists_startsWith (hSpaced.readable _ List.mem_cons_self)
      rw [Text.encodeUtf8_append, List.length_append, List.length_cons,
        hBytes, List.length_cons]
      omega

end IsSpaced

/- The last token among lexemes that are spelled. -/
theorem exists_last_kindsOf
    {kind : TokenKind}
    {rest : List Lexeme}
    (hSpelled :
      ∀ lexeme ∈ Lexeme.token kind :: rest, lexeme.IsSpelled) :
    ∃ last,
      (kindsOf (.token kind :: rest)).getLast? = some last ∧
        last.IsSpelled := by
  have hCons : kindsOf (.token kind :: rest) ≠ [] := by
    rw [kindsOf_token]
    exact List.cons_ne_nil _ _
  refine
    ⟨_, List.getLast?_eq_some_getLast hCons, ?_⟩
  have hMem := List.getLast_mem hCons
  obtain ⟨lexeme, hLexeme, hKind⟩ := List.mem_filterMap.mp hMem
  have hHere := hSpelled lexeme hLexeme
  cases lexeme with
  | space => cases hKind
  | token kind' =>
      cases hKind
      exact hHere

/- A run reads spaced tokens from the start of a text. -/
theorem LexState.run_text
    {file : SourceFile}
    {kind : TokenKind}
    {rest : List Lexeme}
    {text : String}
    (hSpaced : IsSpaced (.token kind :: rest))
    (hWritten : WrittenAs (.token kind :: rest) text)
    {bytes : List UInt8}
    (hText : bytes = Text.encodeUtf8 text)
    {fuel : Nat}
    (hFuel : bytes.length ≤ fuel) :
    ∃ scanner brackets found,
      run file (fuel + 2) { scanner := ⟨bytes, {}⟩ } =
          { scanner := scanner
            brackets := brackets
            tokens := found
            lineStart := false } ∧
        found.toList.map (·.kind) = kindsOf (.token kind :: rest) := by
  obtain ⟨b, first, hRest, hStarts⟩ :
      ∃ b first, bytes = b :: first ∧ kind.StartsWith b := by
    cases hWritten with
    | @token _ _ _ later hKind hLater =>
        obtain ⟨b, first, hBytes, hStarts⟩ :=
          hKind.exists_startsWith (hSpaced.readable _ List.mem_cons_self)
        refine ⟨b, first ++ Text.encodeUtf8 later, ?_, hStarts⟩
        rw [hText, Text.encodeUtf8_append, hBytes, List.cons_append]
  let start : LexState := { scanner := ⟨bytes, {}⟩ }
  have hEnter :
      start.enterLine file = { start with lineStart := false } :=
    enterLine_of_startsWith hStarts hRest rfl
  have hEntered :
      run file (fuel + 2) start =
        run file (fuel + 1) { start with lineStart := false } := by
    rw [← hEnter]
    rfl
  have hLength := hSpaced.length_le hWritten
  rw [← hText] at hLength
  obtain ⟨scanner, brackets, found, hRun, hFound⟩ :=
    @run_written file { start with lineStart := false } _ _ hSpaced hWritten
      fuel (by omega) hText rfl rfl
  refine ⟨scanner, brackets, found, ?_, hFound⟩
  rw [hEntered, hRun]
  simp [start]

/- Spaced tokens are read back from a text that they are written as. -/
theorem lex_written
    (name : String)
    {kind : TokenKind}
    {rest : List Lexeme}
    {text : String}
    (hSpaced : IsSpaced (.token kind :: rest))
    (hWritten : WrittenAs (.token kind :: rest) text) :
    (lex ⟨name, text⟩).tokens.toList.map (·.kind) =
        kindsOf (.token kind :: rest) ++ [.newline, .endOfFile] ∧
      (lex ⟨name, text⟩).errors = {} := by
  obtain ⟨last, hLast, hSpelled⟩ := exists_last_kindsOf hSpaced.readable
  obtain ⟨scanner, brackets, found, hRun, hFound⟩ :=
    @LexState.run_text ⟨name, text⟩ _ _ _ hSpaced hWritten
      (Text.encodeUtf8 text) rfl
      (2 * (Text.encodeUtf8 text).length + 2) (by omega)
  rw [lex, hRun]
  rw [← hFound] at hLast ⊢
  refine LexState.finish_of_last ?_ hSpelled rfl
  rw [← hLast, LexState.lastKind?, ← Array.getLast?_toList,
    List.getLast?_map]

end SnippetGrader
