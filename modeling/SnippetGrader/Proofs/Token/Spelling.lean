import SnippetGrader.Proofs.Token.Lexing
import SnippetGrader.Proofs.Token.Numerals
import SnippetGrader.Proofs.Tree.Lexemes

/-
  Tokens are read back from their spelling.

  One step of a run reads the spelling of a token as that token,
  if the byte after it does not make the token longer. So words
  and numbers need a byte that continues neither, and some marks
  a byte that no longer mark goes on with. A string is read back
  from between marks of either kind.

  Key definitions include:
    * `TokenKind.IsSpelled`, `TokenKind.WrittenAs`, `TokenKind.Fits`
    * `LexState.StepsOver`

  Key theorems include:
    * `LexState.stepsOver_spelling`, `LexState.stepsOver_written`
-/

namespace SnippetGrader

open LexState

------------------------------------------------------------
-- Spelled Tokens
------------------------------------------------------------

/- The marks that a string may stand between. -/
def IsQuote (mark : Char) : Prop :=
  mark = '"' ∨ mark = '\''

/- A token that its spelling is read as. -/
def TokenKind.IsSpelled : TokenKind → Prop
  | .int value => 0 ≤ value ∧ Number.inWord value = true
  | .float value => Number.Finite value
  | .name id => IsName id
  | .str _ | .keyword _ | .mark _ => True
  | _ => False

/-
  The texts that a token is written as: its spelling, and for a
  string its quoted forms with marks of either kind.
-/
inductive TokenKind.WrittenAs : TokenKind → String → Prop
  | spelling
      (kind : TokenKind) :
      kind.WrittenAs kind.spelling
  | quoted
      {mark : Char}
      (hMark : IsQuote mark)
      (text : String) :
      (TokenKind.str text).WrittenAs (Text.quotedWith mark text)

/- The bytes of a mark. -/
def Mark.bytes (mark : Mark) : List UInt8 :=
  mark.text.toList.map Byte.of

theorem Mark.encodeUtf8_spelling
    (mark : Mark) :
    Text.encodeUtf8 (TokenKind.mark mark).spelling = mark.bytes := by
  rw [Number.encodeUtf8_of_toList rfl]
  cases mark <;> rfl

/- Whether a mark keeps its own bytes if another one follows. -/
def Mark.fits (mark : Mark) (b : UInt8) : Bool :=
  (longMarks.all fun entry => !(mark.bytes ++ [b]).isPrefixOf entry.1) &&
    (mark != .dot || !Byte.isDigit b)

/- Whether a token keeps its own bytes if others follow. -/
def TokenKind.Fits (kind : TokenKind) (after : List UInt8) : Prop :=
  ∀ b ∈ after.head?,
    match kind with
    | .mark symbol => symbol.fits b = true
    | .int _ => Byte.isBreak b = true ∧ b ≠ Byte.of '.'
    | _ => Byte.isBreak b = true

/- Bytes that only a token starts with. -/
def Byte.isPlain (b : UInt8) : Bool :=
  !isLineSpace b && b != 10 && b != of '#' && b != of '\\'

theorem Byte.of_startsWord :
    ∀ b,
      startsWord b = true →
        (isPlain b && b != of '"' && b != of '\'' && !isDigit b &&
          b != of '.') = true := by
  intro b hStarts
  have hDigit : isDigit b = false :=
    isDigit_eq_false hStarts (by decide)
  have hOthers := beq_eq_false hStarts
  simp (disch := decide) only [isPlain, isLineSpace, bne, hDigit, hOthers,
    Bool.or_self, Bool.not_false, Bool.and_self]

theorem Byte.of_isDigit :
    ∀ b,
      isDigit b = true →
        (isPlain b && b != of '"' && b != of '\'') = true := by
  apply forall_of_digits
  decide

namespace LexState

/- One step reads a token of a kind, up to the bytes after it. -/
def StepsOver
    (file : SourceFile)
    (state : LexState)
    (kind : TokenKind)
    (after : List UInt8) : Prop :=
  ∃ last span brackets,
    state.step file =
        (false,
          { state with
            scanner := last
            tokens := state.tokens.push ⟨kind, span⟩
            brackets := brackets }) ∧
      last.rest = after

variable {file : SourceFile}
variable {state : LexState}
variable {b : UInt8}
variable {rest after : List UInt8}

theorem skipWhile_of_head
    {scanner : Scanner}
    {test : UInt8 → Bool}
    (hRest : scanner.rest = b :: rest)
    (hTest : test b = false) :
    scanner.skipWhile test = scanner := by
  obtain ⟨bytes, position⟩ := scanner
  subst hRest
  simp [Scanner.skipWhile, hTest, Position.afterAll]

/- A token that a step emits from its first byte on is stepped over. -/
theorem stepsOver_emit
    {kind : TokenKind}
    {last : Scanner}
    (hStep :
      state.step file = (false, state.emit state.scanner last kind))
    (hLast : last.rest = after) :
    StepsOver file state kind after :=
  ⟨last, _, state.brackets, hStep, hLast⟩

------------------------------------------------------------
-- First Bytes
------------------------------------------------------------

theorem step_word
    (hRest : state.scanner.rest = b :: rest)
    (hStarts : Byte.startsWord b = true) :
    state.step file = (false, state.readWord file state.scanner) := by
  have hByte := Byte.of_startsWord b hStarts
  simp only [Byte.isPlain, Bool.and_eq_true, Bool.not_eq_true',
    bne_iff_ne] at hByte
  obtain ⟨⟨⟨⟨⟨⟨⟨hSpace, hLine⟩, hComment⟩, hSlash⟩, hDouble⟩, hSingle⟩,
    hDigit⟩, hPoint⟩ := hByte
  simp only [step, skipWhile_of_head hRest hSpace, hRest]
  simp [hLine, hComment, hSlash, hDouble, hSingle, hDigit, hPoint,
    hStarts]

theorem step_number
    (hRest : state.scanner.rest = b :: rest)
    (hDigit : Byte.isDigit b = true) :
    state.step file = (false, state.readNumber file state.scanner) := by
  have hByte := Byte.of_isDigit b hDigit
  simp only [Byte.isPlain, Bool.and_eq_true, Bool.not_eq_true',
    bne_iff_ne] at hByte
  obtain ⟨⟨⟨⟨⟨hSpace, hLine⟩, hComment⟩, hSlash⟩, hDouble⟩, hSingle⟩ :=
    hByte
  simp only [step, skipWhile_of_head hRest hSpace, hRest]
  simp [hLine, hComment, hSlash, hDouble, hSingle, hDigit]

theorem step_string
    {mark : Char}
    (hMark : IsQuote mark)
    (hRest : state.scanner.rest = Byte.of mark :: rest) :
    state.step file =
      (false,
        state.readString file state.scanner state.scanner (Byte.of mark)
          false) := by
  have hSpace : Byte.isLineSpace (Byte.of mark) = false := by
    rcases hMark with rfl | rfl <;> decide
  simp only [step, skipWhile_of_head hRest hSpace, hRest]
  rcases hMark with rfl | rfl <;> rfl

/- Bytes that a mark starts with. A point is one unless a digit follows. -/
theorem step_mark
    (hRest : state.scanner.rest = b :: rest)
    (hPlain : Byte.isPlain b = true)
    (hOther :
      (b != Byte.of '"' && b != Byte.of '\'' && !Byte.isDigit b &&
        !Byte.startsWord b) = true)
    (hPoint :
      b = Byte.of '.' → (rest.head?.map Byte.isDigit).getD false = false) :
    state.step file = (false, state.readMark file state.scanner b) := by
  simp only [Byte.isPlain, Bool.and_eq_true, Bool.not_eq_true',
    bne_iff_ne] at hPlain hOther
  obtain ⟨⟨⟨hSpace, hLine⟩, hComment⟩, hSlash⟩ := hPlain
  obtain ⟨⟨⟨hDouble, hSingle⟩, hDigit⟩, hWord⟩ := hOther
  simp only [step, skipWhile_of_head hRest hSpace, hRest]
  have hNumber :
      (b == Byte.of '.' && (rest.head?.map Byte.isDigit).getD false) =
        false := by
    by_cases hDot : b = Byte.of '.'
    · rw [hPoint hDot, Bool.and_false]
    · simp [hDot]
  simp [hLine, hComment, hSlash, hDouble, hSingle, hDigit, hNumber, hWord]

------------------------------------------------------------
-- Words
------------------------------------------------------------

/- A text that is one word. -/
def IsWord (text : String) : Prop :=
  ∃ first rest,
    text.toList = first :: rest ∧
      Text.startsWord first = true ∧
        ∀ c ∈ rest, Text.continuesWord c = true

theorem startsWord_utf8EncodeChar
    {c : Char}
    (hStarts : Text.startsWord c = true)
    (hMem : b ∈ String.utf8EncodeChar c) :
    Byte.startsWord b = true := by
  rw [Byte.startsWord_iff]
  rcases Text.mem_utf8EncodeChar hMem with ⟨hSmall, hByte⟩ | hBeyond
  · rw [hByte]
    simp only [Text.startsWord, Bool.or_eq_true, decide_eq_true_eq,
      beq_iff_eq, Char.isAlpha, Char.isUpper, Char.isLower,
      Bool.and_eq_true, ge_iff_le, UInt32.le_iff_toNat_le] at hStarts
    have hCode : c.val.toNat = c.toNat := rfl
    rcases hStarts with (hAlpha | rfl) | hLarge
    · simp only [hCode] at hAlpha
      change
        65 ≤ c.toNat ∧ c.toNat ≤ 90 ∨ 97 ≤ c.toNat ∧ c.toNat ≤ 122
        at hAlpha
      omega
    · right
      right
      left
      rfl
    · omega
  · exact Or.inr (Or.inr (Or.inr hBeyond.2))

theorem continuesWord_utf8EncodeChar
    {c : Char}
    (hContinues : Text.continuesWord c = true)
    (hMem : b ∈ String.utf8EncodeChar c) :
    Byte.continuesWord b = true := by
  rw [Text.continuesWord, Bool.or_eq_true] at hContinues
  rw [Byte.continuesWord, Bool.or_eq_true]
  rcases hContinues with hStarts | hDigit
  · exact Or.inl (startsWord_utf8EncodeChar hStarts hMem)
  · rw [Byte.isDigit_iff]
    simp only [Char.isDigit, Bool.and_eq_true, decide_eq_true_eq,
      ge_iff_le, UInt32.le_iff_toNat_le] at hDigit
    have hCode : c.val.toNat = c.toNat := rfl
    rcases Text.mem_utf8EncodeChar hMem with ⟨_, hByte⟩ | ⟨hBeyond, _⟩
    · right
      rw [hByte]
      exact hDigit
    · exfalso
      change 48 ≤ c.toNat ∧ c.toNat ≤ 57 at hDigit
      omega

/- The bytes of a word. -/
theorem encodeUtf8_word
    {text : String}
    (hWord : IsWord text) :
    ∃ b rest,
      Text.encodeUtf8 text = b :: rest ∧
        Byte.startsWord b = true ∧
          ∀ b' ∈ b :: rest, Byte.continuesWord b' = true := by
  obtain ⟨first, chars, hText, hStarts, hContinues⟩ := hWord
  have hFirst : Text.continuesWord first = true := by
    rw [Text.continuesWord, hStarts, Bool.true_or]
  have hAll : ∀ b' ∈ Text.encodeUtf8 text, Byte.continuesWord b' = true := by
    intro b' hMem
    rw [Text.encodeUtf8_eq, hText, List.mem_flatMap] at hMem
    obtain ⟨c, hChar, hByte⟩ := hMem
    refine continuesWord_utf8EncodeChar ?_ hByte
    rcases List.mem_cons.mp hChar with rfl | hLater
    · exact hFirst
    · exact hContinues c hLater
  cases hBytes : Text.encodeUtf8 text with
  | nil =>
      have hEmpty := congrArg Text.decodeUtf8 hBytes
      rw [Text.decodeUtf8_encodeUtf8, hText] at hEmpty
      cases hEmpty
  | cons b rest =>
      refine ⟨b, rest, rfl, ?_, hBytes ▸ hAll⟩
      rw [Text.encodeUtf8_eq, hText, List.flatMap_cons] at hBytes
      refine startsWord_utf8EncodeChar hStarts ?_
      cases hChar : String.utf8EncodeChar first with
      | nil =>
          have hLength := String.length_utf8EncodeChar first
          rw [hChar] at hLength
          exact absurd hLength.symm first.utf8Size_pos.ne'
      | cons b' later =>
          rw [hChar, List.cons_append] at hBytes
          rw [(List.cons.inj hBytes).1]
          exact List.mem_cons_self

/- A word is read up to a byte that continues none. -/
theorem stepsOver_word
    {text : String}
    (hWord : IsWord text)
    (hRest : state.scanner.rest = Text.encodeUtf8 text ++ after)
    (hAfter : ∀ b ∈ after.head?, Byte.isBreak b = true) :
    StepsOver file state
      ((TokenKind.ofWord? text).getD (.name text)) after := by
  obtain ⟨b, bytes, hBytes, hStarts, hContinues⟩ := encodeUtf8_word hWord
  have hSplit :=
    Number.Numeral.split_append Byte.continuesWord after
      (hBytes ▸ hContinues)
      (by
        intro b' later hCons
        have hBreak := hAfter b' (by rw [hCons]; rfl)
        simp only [Byte.isBreak, Bool.and_eq_true,
          Bool.not_eq_true'] at hBreak
        exact hBreak.1.1)
  rw [← hRest] at hSplit
  have hLast :
      (state.scanner.skipWhile Byte.continuesWord).rest = after :=
    hSplit.2
  have hText :
      Text.ofUtf8
          (state.scanner.read
            (state.scanner.skipWhile Byte.continuesWord)) = text := by
    rw [read_skipWhile, hSplit.1, Text.ofUtf8_encodeUtf8]
  refine stepsOver_emit ?_ hLast
  rw [hBytes] at hRest
  rw [step_word hRest hStarts, readWord]
  rw [hText]
  unfold Scanner.peek?
  rw [hLast]
  cases after with
  | nil => rfl
  | cons b' later =>
      have hBreak := hAfter b' rfl
      simp only [Byte.isBreak, Bool.and_eq_true, bne_iff_ne] at hBreak
      simp [hBreak.1.2, hBreak.2]

------------------------------------------------------------
-- Strings
------------------------------------------------------------

open Number (bytesOf)

/- Bytes that a string between marks holds as they are. -/
def isLiteral (mark : Char) (b : UInt8) : Bool :=
  b != 10 && b != Byte.of mark && b != Byte.of '\\'

/- The bytes after an opening mark. -/
abbrev readQuoted (mark : Char) (content bytes : List UInt8) : StringBody :=
  StringBody.readFrom (Byte.of mark) false false content bytes

section Quotes

variable {mark : Char}

theorem readQuoted_literal
    (hLiteral : isLiteral mark b = true)
    (content rest : List UInt8) :
    readQuoted mark content (b :: rest) =
      readQuoted mark (b :: content) rest := by
  simp only [isLiteral, Bool.and_eq_true, bne_iff_ne] at hLiteral
  rw [readQuoted, StringBody.readFrom.eq_def]
  simp [hLiteral]

theorem readQuoted_literals
    {bytes : List UInt8}
    (hLiteral : ∀ b ∈ bytes, isLiteral mark b = true)
    (content rest : List UInt8) :
    readQuoted mark content (bytes ++ rest) =
      readQuoted mark (bytes.reverse ++ content) rest := by
  induction bytes generalizing content with
  | nil => rfl
  | cons b later ih =>
      rw [List.forall_mem_cons] at hLiteral
      rw [List.cons_append, readQuoted_literal hLiteral.1, ih hLiteral.2,
        List.reverse_cons, List.append_assoc, List.singleton_append]

/- An escape of one letter is read as the byte that it denotes. -/
theorem readQuoted_escape
    (hMark : IsQuote mark)
    {letter c : UInt8}
    (hLetter : letter ≠ 10 ∧ letter ≠ Byte.of 'x')
    (hEscape : simpleEscape? letter = some c)
    (content rest : List UInt8) :
    readQuoted mark content (Byte.of '\\' :: letter :: rest) =
      readQuoted mark (c :: content) rest := by
  have hSlash : Byte.of '\\' ≠ Byte.of mark := by
    rcases hMark with rfl | rfl <;> decide
  rw [readQuoted, StringBody.readFrom.eq_def]
  simp only [hLetter, hEscape, hSlash, beq_iff_eq, if_false,
    Bool.false_eq_true]
  rfl

theorem isLiteral_of_mem
    (hMark : IsQuote mark)
    {c : Char}
    (hSlash : c ≠ '\\')
    (hLine : c ≠ '\n')
    (hQuote : c ≠ mark)
    (hMem : b ∈ String.utf8EncodeChar c) :
    isLiteral mark b = true := by
  have hNot {other : Char}
      (hSmall : (Byte.of other).toNat = other.toNat ∧ other.toNat < 0x80)
      (hOther : c ≠ other) :
      b ≠ Byte.of other := by
    rintro rfl
    rcases Text.mem_utf8EncodeChar hMem with ⟨_, hSame⟩ | ⟨_, hBeyond⟩
    · have hCode : c.toNat = other.toNat := by omega
      exact hOther (by
        rw [← Char.ofNat_toNat c, hCode, Char.ofNat_toNat])
    · omega
  have hSmall :
      (Byte.of mark).toNat = mark.toNat ∧ mark.toNat < 0x80 := by
    rcases hMark with rfl | rfl <;> decide
  simp only [isLiteral, Bool.and_eq_true, bne_iff_ne]
  exact
    ⟨⟨@hNot '\n' (by decide) hLine, hNot hSmall hQuote⟩,
      @hNot '\\' (by decide) hSlash⟩

/- A character is read back from what is written for it. -/
theorem readQuoted_escaped
    (hMark : IsQuote mark)
    (c : Char)
    (content rest : List UInt8) :
    readQuoted mark content (bytesOf (Text.escaped mark c) ++ rest) =
      readQuoted mark ((bytesOf [c]).reverse ++ content) rest := by
  unfold Text.escaped
  split_ifs with hSlash hLine hTab hReturn hQuote
  · subst hSlash
    exact readQuoted_escape hMark (by decide) rfl content rest
  · subst hLine
    exact readQuoted_escape hMark (by decide) rfl content rest
  · subst hTab
    exact readQuoted_escape hMark (by decide) rfl content rest
  · subst hReturn
    exact readQuoted_escape hMark (by decide) rfl content rest
  · subst hQuote
    rcases hMark with rfl | rfl
    · exact readQuoted_escape (.inl rfl) (by decide) rfl content rest
    · exact readQuoted_escape (.inr rfl) (by decide) rfl content rest
  · apply readQuoted_literals
    intro b hMem
    refine isLiteral_of_mem hMark hSlash hLine hQuote ?_
    simpa [bytesOf] using hMem

/- The content of a string is read back, up to the closing mark. -/
theorem readQuoted_content
    (hMark : IsQuote mark)
    (chars : List Char)
    (content after : List UInt8) :
    readQuoted mark content
        (bytesOf (chars.flatMap (Text.escaped mark)) ++
          Byte.of mark :: after) =
      ⟨content.reverse ++ bytesOf chars, true, after⟩ := by
  induction chars generalizing content with
  | nil =>
      have hOther :
          Byte.of mark ≠ 10 ∧ Byte.of mark ≠ Byte.of '\\' := by
        rcases hMark with rfl | rfl <;> decide
      rw [readQuoted, StringBody.readFrom.eq_def]
      simp [bytesOf, hOther]
  | cons c rest ih =>
      have hBytes (first later : List Char) :
          bytesOf (first ++ later) = bytesOf first ++ bytesOf later :=
        List.flatMap_append
      rw [List.flatMap_cons, hBytes, List.append_assoc,
        readQuoted_escaped hMark, ih, List.reverse_append,
        List.reverse_reverse, List.append_assoc, ← hBytes]
      rfl

/- What is written for a character does not start with the mark. -/
theorem exists_escaped
    (hMark : IsQuote mark)
    (c : Char) :
    ∃ b rest,
      bytesOf (Text.escaped mark c) = b :: rest ∧ b ≠ Byte.of mark := by
  have hSlash : Byte.of '\\' ≠ Byte.of mark := by
    rcases hMark with rfl | rfl <;> decide
  unfold Text.escaped
  split_ifs with hSame hLine hTab hReturn hQuote
  · exact ⟨_, _, rfl, hSlash⟩
  · exact ⟨_, _, rfl, hSlash⟩
  · exact ⟨_, _, rfl, hSlash⟩
  · exact ⟨_, _, rfl, hSlash⟩
  · exact ⟨_, _, rfl, hSlash⟩
  · obtain ⟨b, rest, hBytes⟩ :=
      List.exists_cons_of_ne_nil
        (Number.bytesOf_ne_nil (List.cons_ne_nil c []))
    refine ⟨b, rest, hBytes, ?_⟩
    have hMem : b ∈ bytesOf [c] := hBytes ▸ List.mem_cons_self
    have hLiteral :=
      isLiteral_of_mem hMark hSame hLine hQuote
        (by simpa [bytesOf] using hMem)
    simp only [isLiteral, Bool.and_eq_true, bne_iff_ne] at hLiteral
    exact hLiteral.1.2

/- Reading up to a suffix leaves the suffix. -/
theorem rest_skipTo
    {scanner : Scanner}
    {before : List UInt8}
    (hRest : scanner.rest = before ++ after) :
    (scanner.skipTo after).rest = after := by
  unfold Scanner.skipTo Scanner.skip
  rw [hRest, List.length_append, Nat.add_sub_cancel]
  exact List.drop_left

/- The bytes of a quoted text. -/
theorem encodeUtf8_quotedWith
    (hMark : IsQuote mark)
    (text : String) :
    Text.encodeUtf8 (Text.quotedWith mark text) =
      Byte.of mark ::
        (bytesOf (text.toList.flatMap (Text.escaped mark)) ++
          [Byte.of mark]) := by
  have hChars :
      (Text.quotedWith mark text).toList =
        mark :: text.toList.flatMap (Text.escaped mark) ++ [mark] :=
    String.toList_ofList
  rw [Number.encodeUtf8_of_toList hChars]
  simp only [bytesOf, List.flatMap_append, List.flatMap_cons,
    List.flatMap_nil, List.cons_append]
  rcases hMark with rfl | rfl <;> rfl

/- A string is read back from its quoted form. -/
theorem stepsOver_string
    (hMark : IsQuote mark)
    {text : String}
    (hRest :
      state.scanner.rest =
        Text.encodeUtf8 (Text.quotedWith mark text) ++ after)
    (hAfter : ∀ b ∈ after.head?, Byte.isBreak b = true) :
    StepsOver file state (.str text) after := by
  have hLast := rest_skipTo hRest
  rw [encodeUtf8_quotedWith hMark, List.cons_append, List.append_assoc,
    List.singleton_append] at hRest
  have hSingle :
      [Byte.of mark, Byte.of mark].isPrefixOf
          (bytesOf (text.toList.flatMap (Text.escaped mark)) ++
            Byte.of mark :: after) = false := by
    cases text.toList with
    | nil =>
        cases after with
        | nil => simp [bytesOf, List.isPrefixOf]
        | cons b rest =>
            have hBreak := hAfter b rfl
            simp only [Byte.isBreak, Bool.and_eq_true, bne_iff_ne] at hBreak
            have hOther : Byte.of mark ≠ b := by
              rcases hMark with rfl | rfl
              · exact hBreak.1.2.symm
              · exact hBreak.2.symm
            simp [bytesOf, List.isPrefixOf, hOther]
    | cons c rest =>
        obtain ⟨b, later, hEscaped, hOther⟩ := exists_escaped hMark c
        rw [List.flatMap_cons, bytesOf, List.flatMap_append, ← bytesOf,
          hEscaped]
        simp [List.isPrefixOf, hOther.symm]
  have hBody :
      StringBody.read (Byte.of mark) false
          (bytesOf (text.toList.flatMap (Text.escaped mark)) ++
            Byte.of mark :: after) =
        ⟨Text.encodeUtf8 text, true, after⟩ := by
    rw [StringBody.read, hSingle, Number.encodeUtf8_of_toList rfl]
    exact readQuoted_content hMark text.toList [] after
  refine stepsOver_emit ?_ hLast
  rw [step_string hMark hRest, readString, hRest, List.drop_succ_cons,
    List.drop_zero, hBody]
  simp only [if_true, Text.ofUtf8_encodeUtf8]

end Quotes

------------------------------------------------------------
-- Numbers
------------------------------------------------------------

/- The text of an integer starts with a digit. -/
theorem encodeUtf8_int
    {value : Int}
    (hSign : 0 ≤ value) :
    ∃ b rest,
      Text.encodeUtf8 (toString value) = b :: rest ∧
        Byte.isDigit b = true := by
  obtain ⟨n, rfl⟩ := Int.eq_ofNat_of_zero_le hSign
  have hText :
      Text.encodeUtf8 (toString (n : Int)) = bytesOf (toString n).toList :=
    Number.encodeUtf8_of_toList rfl
  obtain ⟨b, rest, hBytes⟩ :=
    List.exists_cons_of_ne_nil
      (Number.bytesOf_ne_nil (Number.toString_ne_nil n))
  refine ⟨b, rest, hText.trans hBytes, ?_⟩
  exact
    Number.isDigit_of_mem_bytesOf
      (fun c => Number.isDigit_of_mem_toString)
      (hBytes ▸ List.mem_cons_self)

/- So does that of a float. -/
theorem encodeUtf8_float
    {value : Float}
    (hFinite : Number.Finite value) :
    ∃ b rest,
      Text.encodeUtf8 (Number.valueText value) = b :: rest ∧
        Byte.isDigit b = true := by
  obtain ⟨numeral, hWell, hChars, -⟩ := Number.spells_valueText hFinite
  obtain ⟨first, later, hCons⟩ := List.exists_cons_of_ne_nil hWell.starts
  have hDigit : first.isDigit = true :=
    hWell.whole first (hCons ▸ List.mem_cons_self)
  have hFirst : Number.isNumeralChar first = true := by
    simp [Number.isNumeralChar, hDigit]
  have hText : ∃ more, numeral.chars = first :: more := by
    simp [Number.Numeral.chars, hCons]
  obtain ⟨more, hText⟩ := hText
  refine ⟨UInt8.ofNat first.toNat, bytesOf more, ?_, ?_⟩
  · rw [Number.encodeUtf8_of_toList hChars, hText,
      Number.bytesOf_cons_numeral hFirst]
  · refine Number.isDigit_of_mem_bytesOf
      (List.forall_mem_singleton.mpr hDigit) ?_
    rw [Number.bytesOf_cons_numeral hFirst]
    exact List.mem_cons_self

/- A number without a fault is stepped over. -/
theorem stepsOver_number
    {bytes : List UInt8}
    {kind : TokenKind}
    (hBytes : ∃ b rest, bytes = b :: rest ∧ Byte.isDigit b = true)
    (hRest : state.scanner.rest = bytes ++ after)
    (hRead : NumberLiteral.read (bytes ++ after) = ⟨kind, none, after⟩) :
    StepsOver file state kind after := by
  obtain ⟨b, later, rfl, hDigit⟩ := hBytes
  refine stepsOver_emit ?_ (rest_skipTo hRest)
  rw [step_number hRest hDigit, readNumber, hRest, hRead]

theorem stepsOver_int
    {value : Int}
    (hSign : 0 ≤ value)
    (hWord : Number.inWord value = true)
    (hRest :
      state.scanner.rest = Text.encodeUtf8 (toString value) ++ after)
    (hAfter :
      ∀ b ∈ after.head?, Byte.isBreak b = true ∧ b ≠ Byte.of '.') :
    StepsOver file state (.int value) after := by
  have hBytes := encodeUtf8_int hSign
  obtain ⟨n, rfl⟩ := Int.eq_ofNat_of_zero_le hSign
  exact stepsOver_number hBytes hRest (Number.read_int hWord hAfter)

theorem stepsOver_float
    {value : Float}
    (hFinite : Number.Finite value)
    (hRest :
      state.scanner.rest =
        Text.encodeUtf8 (Number.valueText value) ++ after)
    (hAfter : ∀ b ∈ after.head?, Byte.isBreak b = true) :
    StepsOver file state (.float value) after :=
  stepsOver_number (encodeUtf8_float hFinite) hRest
    (Number.read_float hFinite hAfter)

------------------------------------------------------------
-- Marks
------------------------------------------------------------

/- A longer mark does not start before bytes that a mark fits before. -/
theorem isPrefixOf_append
    {mark : Mark}
    (hFits : ∀ b ∈ after.head?, mark.fits b = true)
    {entry : List UInt8 × Mark}
    (hEntry : entry ∈ longMarks) :
    entry.1.isPrefixOf (mark.bytes ++ after) =
      entry.1.isPrefixOf mark.bytes := by
  rw [Bool.eq_iff_iff, List.isPrefixOf_iff_prefix,
    List.isPrefixOf_iff_prefix]
  refine ⟨fun hPrefix => ?_,
    fun hPrefix => hPrefix.trans (List.prefix_append _ _)⟩
  rcases List.prefix_or_prefix_of_prefix hPrefix
      (List.prefix_append mark.bytes after) with hShort | ⟨more, hMore⟩
  · exact hShort
  · cases more with
    | nil => rw [← hMore, List.append_nil]
    | cons b later =>
        rw [← hMore, List.prefix_append_right_inj] at hPrefix
        obtain ⟨rest, hRest⟩ := hPrefix
        have hByte := hFits b (by rw [← hRest]; rfl)
        simp only [Mark.fits, Bool.and_eq_true, List.all_eq_true] at hByte
        have hLonger : (mark.bytes ++ [b]).isPrefixOf entry.1 = true := by
          rw [List.isPrefixOf_iff_prefix]
          exact ⟨later, by rw [← hMore, List.append_assoc]; rfl⟩
        have hNone := hByte.1 entry hEntry
        rw [hLonger] at hNone
        cases hNone

/- The longest mark is found among bytes that do not make it longer. -/
theorem mark?_bytes
    {mark : Mark}
    (hFits : ∀ b ∈ after.head?, mark.fits b = true) :
    mark? (mark.bytes ++ after) = some (mark, mark.bytes.length) := by
  have hLong :
      (longMarks.find? fun entry =>
          entry.1.isPrefixOf (mark.bytes ++ after)) =
        longMarks.find? fun entry => entry.1.isPrefixOf mark.bytes :=
    List.find?_congr fun entry hEntry => isPrefixOf_append hFits hEntry
  have hAlone : mark? mark.bytes = some (mark, mark.bytes.length) := by
    cases mark <;> decide
  unfold mark? at hAlone ⊢
  rw [hLong]
  obtain ⟨b, rest, hBytes⟩ :=
    List.exists_cons_of_ne_nil (by cases mark <;> decide : mark.bytes ≠ [])
  rw [hBytes] at hAlone ⊢
  exact hAlone

theorem stepsOver_mark
    {mark : Mark}
    (hRest : state.scanner.rest = mark.bytes ++ after)
    (hFits : ∀ b ∈ after.head?, mark.fits b = true) :
    StepsOver file state (.mark mark) after := by
  obtain ⟨b, more, hBytes, hPlain, hOther, hPoint⟩ :
      ∃ b more,
        mark.bytes = b :: more ∧
          Byte.isPlain b = true ∧
            (b != Byte.of '"' && b != Byte.of '\'' && !Byte.isDigit b &&
              !Byte.startsWord b) = true ∧
              (b = Byte.of '.' → mark = .dot ∧ more = []) := by
    cases mark <;> exact ⟨_, _, rfl, by decide, by decide, by decide⟩
  have hStep :
      state.step file = (false, state.readMark file state.scanner b) := by
    have hCons : state.scanner.rest = b :: (more ++ after) := by
      rw [hRest, hBytes, List.cons_append]
    refine step_mark hCons hPlain hOther fun hDot => ?_
    obtain ⟨rfl, rfl⟩ := hPoint hDot
    cases after with
    | nil => rfl
    | cons next rest =>
        have hNext := hFits next rfl
        simp only [Mark.fits, bne_self_eq_false, Bool.false_or,
          Bool.and_eq_true, Bool.not_eq_true'] at hNext
        exact hNext.2
  refine
    ⟨state.scanner.skip mark.bytes.length,
      state.scanner.position.spanTo
        (state.scanner.skip mark.bytes.length).position,
      bracketsAfter state.brackets mark, ?_, ?_⟩
  · rw [hStep, readMark, hRest, mark?_bytes hFits]
    rfl
  · unfold Scanner.skip
    rw [hRest]
    exact List.drop_left

------------------------------------------------------------
-- Tokens
------------------------------------------------------------

theorem isWord_keyword
    (word : Keyword) :
    IsWord word.text ∧
      TokenKind.ofWord? word.text = some (.keyword word) := by
  cases word <;>
    exact ⟨⟨_, _, rfl, rfl, List.all_eq_true.mp rfl⟩, rfl⟩

/- A token is read back from its spelling. -/
theorem stepsOver_spelling
    {kind : TokenKind}
    (hKind : kind.IsSpelled)
    (hRest :
      state.scanner.rest = Text.encodeUtf8 kind.spelling ++ after)
    (hFits : kind.Fits after) :
    StepsOver file state kind after := by
  cases kind with
  | int value => exact stepsOver_int hKind.1 hKind.2 hRest hFits
  | float value => exact stepsOver_float hKind hRest hFits
  | str value => exact stepsOver_string (Or.inl rfl) hRest hFits
  | name id =>
      have hWord : StepsOver file state _ after :=
        stepsOver_word hKind.2 hRest hFits
      rwa [hKind.1] at hWord
  | keyword word =>
      have hWord : StepsOver file state _ after :=
        stepsOver_word (isWord_keyword word).1 hRest hFits
      rwa [(isWord_keyword word).2] at hWord
  | mark symbol =>
      rw [symbol.encodeUtf8_spelling] at hRest
      exact stepsOver_mark hRest hFits
  | _ => cases hKind

/- A token is read back from whatever it is written as. -/
theorem stepsOver_written
    {kind : TokenKind}
    {text : String}
    (hKind : kind.IsSpelled)
    (hWritten : kind.WrittenAs text)
    (hRest : state.scanner.rest = Text.encodeUtf8 text ++ after)
    (hFits : kind.Fits after) :
    StepsOver file state kind after := by
  cases hWritten with
  | spelling => exact stepsOver_spelling hKind hRest hFits
  | quoted hMark text => exact stepsOver_string hMark hRest hFits

end LexState

end SnippetGrader
