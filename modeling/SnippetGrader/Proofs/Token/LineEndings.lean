import SnippetGrader.Proofs.Token.Layout

/-
  Line feeds with carriage returns before them.

  Outside of strings a carriage return before a line feed is
  white space, or part of the comment or of the line that ends
  there. A run over a text with carriage returns therefore goes
  in step with one over the text without them, and finds the
  same tokens, as long as no string goes over a line feed.

  Key definitions include:
    * `withReturns`, `SourceFile.withReturns`
    * `SameRest`, `LexState.Mirrors`
    * `Lexed.Plain`

  Key theorems include:
    * `StringBody.readFrom_withReturns`
    * `NumberLiteral.read_withReturns`
    * `LexState.Mirrors.round`
    * `lex_withReturns`
-/

namespace SnippetGrader

------------------------------------------------------------
-- Carriage Returns
------------------------------------------------------------

/- Bytes with a carriage return before each line feed. -/
def withReturns : List UInt8 → List UInt8
  | [] => []
  | b :: rest =>
      if b == 10 then 13 :: 10 :: withReturns rest
      else b :: withReturns rest

/- A text with a carriage return before each line feed. -/
def Text.withReturns (text : String) : String :=
  String.ofList
    (text.toList.flatMap fun c => if c = '\n' then ['\r', '\n'] else [c])

/- A file with a carriage return before each line feed. -/
def SourceFile.withReturns (file : SourceFile) : SourceFile :=
  ⟨file.name, Text.withReturns file.text⟩

section Bytes

variable {b : UInt8}
variable {bytes rest : List UInt8}

@[simp] theorem withReturns_nil :
    withReturns [] = [] := rfl

@[simp] theorem withReturns_lineFeed
    (rest : List UInt8) :
    withReturns (10 :: rest) = 13 :: 10 :: withReturns rest := rfl

theorem withReturns_cons
    (hByte : b ≠ 10)
    (rest : List UInt8) :
    withReturns (b :: rest) = b :: withReturns rest := by
  rw [withReturns, if_neg (by simpa using hByte)]

theorem withReturns_append
    (hBytes : 10 ∉ bytes)
    (rest : List UInt8) :
    withReturns (bytes ++ rest) = bytes ++ withReturns rest := by
  induction bytes with
  | nil => rfl
  | cons b bytes ih =>
      rw [List.mem_cons, not_or] at hBytes
      rw [List.cons_append, withReturns_cons (Ne.symm hBytes.1),
        ih hBytes.2, List.cons_append]

/- The bytes of a text with carriage returns. -/
theorem encodeUtf8_withReturns
    (text : String) :
    Text.encodeUtf8 (Text.withReturns text) =
      withReturns (Text.encodeUtf8 text) := by
  rw [Text.encodeUtf8_eq, Text.encodeUtf8_eq, Text.withReturns,
    String.toList_ofList]
  induction text.toList with
  | nil => rfl
  | cons c chars ih =>
      have hFeeds := Text.count_utf8EncodeChar c
      rw [List.flatMap_cons, List.flatMap_append, ih, List.flatMap_cons]
      by_cases hFeed : c = '\n'
      · rw [if_pos hFeed, hFeed]
        rfl
      · rw [if_neg hFeed] at hFeeds ⊢
        rw [List.flatMap_singleton,
          withReturns_append (List.count_eq_zero.mp hFeeds)]

------------------------------------------------------------
-- Reading on a Line
------------------------------------------------------------

/- A test that no byte at the end of a line satisfies. -/
structure WithinLine (test : UInt8 → Bool) : Prop where
  feed : test 10 = false
  carriage : test 13 = false

variable {test : UInt8 → Bool}

theorem takeWhile_withReturns
    (hTest : WithinLine test)
    (bytes : List UInt8) :
    (withReturns bytes).takeWhile test = bytes.takeWhile test := by
  induction bytes with
  | nil => rfl
  | cons b rest ih =>
      by_cases hFeed : b = 10
      · subst hFeed
        rw [withReturns_lineFeed, List.takeWhile_cons_of_neg,
          List.takeWhile_cons_of_neg]
        · simp [hTest.feed]
        · simp [hTest.carriage]
      · rw [withReturns_cons hFeed, List.takeWhile_cons,
          List.takeWhile_cons, ih]

theorem dropWhile_withReturns
    (hTest : WithinLine test)
    (bytes : List UInt8) :
    (withReturns bytes).dropWhile test =
      withReturns (bytes.dropWhile test) := by
  induction bytes with
  | nil => rfl
  | cons b rest ih =>
      by_cases hFeed : b = 10
      · subst hFeed
        rw [withReturns_lineFeed, List.dropWhile_cons_of_neg,
          List.dropWhile_cons_of_neg, withReturns_lineFeed]
        · simp [hTest.feed]
        · simp [hTest.carriage]
      · rw [withReturns_cons hFeed, List.dropWhile_cons,
          List.dropWhile_cons, ih]
        split
        · rfl
        · rw [withReturns_cons hFeed]

/- Marks and quotes stand on one line. -/
theorem isPrefixOf_withReturns
    {written : List UInt8}
    (hWritten : 10 ∉ written ∧ 13 ∉ written)
    (bytes : List UInt8) :
    written.isPrefixOf (withReturns bytes) = written.isPrefixOf bytes := by
  induction written generalizing bytes with
  | nil => simp
  | cons w written ih =>
      simp only [List.mem_cons, not_or] at hWritten
      obtain ⟨⟨hFeed, hFeeds⟩, hReturn, hReturns⟩ := hWritten
      cases bytes with
      | nil => rfl
      | cons b rest =>
          by_cases hByte : b = 10
          · subst hByte
            rw [withReturns_lineFeed, List.isPrefixOf_cons_cons,
              List.isPrefixOf_cons_cons, beq_false_of_ne (Ne.symm hReturn),
              beq_false_of_ne (Ne.symm hFeed), Bool.false_and,
              Bool.false_and]
          · rw [withReturns_cons hByte, List.isPrefixOf_cons_cons,
              List.isPrefixOf_cons_cons, ih ⟨hFeeds, hReturns⟩]

end Bytes

------------------------------------------------------------
-- Strings
------------------------------------------------------------

/- What a backslash makes of the letter after it. -/
theorem StringBody.readFrom_escape
    {quote b : UInt8}
    {triple : Bool}
    (hFeed : ¬(b == 10 && !triple) = true)
    (hOther : ¬(b == quote) = true)
    (hSlash : (b == Byte.of '\\') = true)
    (raw : Bool)
    (content : List UInt8)
    (letter : UInt8)
    (rest : List UInt8) :
    readFrom quote triple raw content (b :: letter :: rest) =
      if raw then
        readFrom quote triple raw (letter :: b :: content) rest
      else if letter == 10 then readFrom quote triple raw content rest
      else if letter == Byte.of 'x' then
        match rest with
        | d :: d' :: afterDigits =>
            readFrom quote triple raw
              ((codeEscape [d, d']).reverse ++ content) afterDigits
        | digits =>
            ⟨((codeEscape digits).reverse ++ content).reverse, false, []⟩
      else
        match simpleEscape? letter with
        | some c => readFrom quote triple raw (c :: content) rest
        | none => readFrom quote triple raw (letter :: b :: content) rest := by
  conv_lhs => rw [readFrom.eq_def]
  dsimp only
  rw [if_neg hFeed, if_neg hOther]
  exact if_pos hSlash

/- What is read alike after some bytes is so together with them. -/
theorem readsAlike_append
    {α : Type}
    (first : List UInt8)
    (read : List UInt8 → α)
    {rest left : List UInt8}
    {later expected : α}
    (hLater : ∃ used, rest = used ++ left ∧ (10 ∈ used ∨ later = expected))
    (hFirst : 10 ∉ first → read (first ++ withReturns rest) = later) :
    ∃ used,
      first ++ rest = used ++ left ∧
        (10 ∈ used ∨ read (withReturns (first ++ rest)) = expected) := by
  obtain ⟨used, rfl, hUsed⟩ := hLater
  refine ⟨first ++ used, (List.append_assoc ..).symm, ?_⟩
  by_cases hFeeds : 10 ∈ first
  · exact .inl (List.mem_append_left _ hFeeds)
  · refine hUsed.imp (List.mem_append_right _) fun hAlike => ?_
    rw [withReturns_append hFeeds, hFirst hFeeds, hAlike]

/-
  A string that is closed is read alike with carriage returns,
  unless it goes over a line feed.
-/
theorem StringBody.readFrom_withReturns
    {quote : UInt8}
    (hQuote : quote ≠ 10 ∧ quote ≠ 13)
    (triple raw : Bool)
    (content bytes : List UInt8)
    (hClosed : (readFrom quote triple raw content bytes).closed = true) :
    ∃ used,
      bytes = used ++ (readFrom quote triple raw content bytes).rest ∧
        (10 ∈ used ∨
          readFrom quote triple raw content (withReturns bytes) =
            { readFrom quote triple raw content bytes with
              rest :=
                withReturns
                  (readFrom quote triple raw content bytes).rest }) := by
  fun_induction readFrom quote triple raw content bytes with
  | case1 | case2 | case6 | case10 => cases hClosed
  | case3 content b rest hFeed hSame hSingle =>
      rw [beq_iff_eq.mp hSame] at hFeed ⊢
      refine ⟨[quote], rfl, .inr ?_⟩
      rw [withReturns_cons hQuote.1]
      conv_lhs => rw [readFrom.eq_def]
      dsimp only
      rw [if_neg hFeed, if_pos (beq_self_eq_true _), if_pos hSingle]
  | case4 content b rest hFeed hSame hTriple hQuotes =>
      rw [beq_iff_eq.mp hSame] at hFeed ⊢
      obtain ⟨after, rfl⟩ := List.isPrefixOf_iff_prefix.mp hQuotes
      have hNone : 10 ∉ [quote, quote, quote] := by simp [hQuote.1.symm]
      have hBytes := withReturns_append hNone after
      refine ⟨[quote, quote, quote], rfl, .inr ?_⟩
      rw [show quote :: ([quote, quote] ++ after) =
        [quote, quote, quote] ++ after from rfl, hBytes]
      conv_lhs => rw [readFrom.eq_def]
      dsimp only [List.cons_append]
      rw [if_neg hFeed, if_pos (beq_self_eq_true _), if_neg hTriple, if_pos]
      · rfl
      · simp
  | case5 content b rest hFeed hSame hTriple hQuotes ih =>
      rw [beq_iff_eq.mp hSame] at hFeed ih hClosed ⊢
      have hNone : 10 ∉ [quote, quote] ∧ 13 ∉ [quote, quote] := by
        simp [hQuote.1.symm, hQuote.2.symm]
      refine readsAlike_append [quote] (readFrom quote triple raw content)
        (ih hClosed) fun _ => ?_
      rw [List.singleton_append]
      conv_lhs => rw [readFrom.eq_def]
      dsimp only
      rw [if_neg hFeed, if_pos (beq_self_eq_true _), if_neg hTriple, if_neg]
      rwa [isPrefixOf_withReturns hNone]
  | case7 content b hFeed hOther hSlash letter rest hRaw ih =>
      refine readsAlike_append [b, letter] (readFrom quote triple raw content)
        (ih hClosed) fun _ => ?_
      exact (readFrom_escape hFeed hOther hSlash ..).trans (if_pos hRaw)
  | case8 content b _ _ _ letter rest _ hJoined ih =>
      refine readsAlike_append [b, letter] (readFrom quote triple raw content)
        (ih hClosed) fun hNone => ?_
      simp [beq_iff_eq.mp hJoined] at hNone
  | case9 content b hFeed hOther hSlash letter hRaw hJoined hCode d d' rest ih =>
      refine readsAlike_append [b, letter, d, d']
        (readFrom quote triple raw content) (ih hClosed) fun _ => ?_
      refine (readFrom_escape hFeed hOther hSlash ..).trans ?_
      rw [if_neg hRaw, if_neg hJoined, if_pos hCode]
      rfl
  | case11 content b hFeed hOther hSlash letter rest hRaw hJoined hCode c
      hEscape ih =>
      refine readsAlike_append [b, letter] (readFrom quote triple raw content)
        (ih hClosed) fun _ => ?_
      refine (readFrom_escape hFeed hOther hSlash ..).trans ?_
      rw [if_neg hRaw, if_neg hJoined, if_neg hCode, hEscape]
      rfl
  | case12 content b hFeed hOther hSlash letter rest hRaw hJoined hCode
      hEscape ih =>
      refine readsAlike_append [b, letter] (readFrom quote triple raw content)
        (ih hClosed) fun _ => ?_
      refine (readFrom_escape hFeed hOther hSlash ..).trans ?_
      rw [if_neg hRaw, if_neg hJoined, if_neg hCode, hEscape]
      rfl
  | case13 content b rest hFeed hOther hSlash ih =>
      refine readsAlike_append [b] (readFrom quote triple raw content)
        (ih hClosed) fun _ => ?_
      rw [List.singleton_append]
      conv_lhs => rw [readFrom.eq_def]
      dsimp only
      rw [if_neg hFeed, if_neg hOther, if_neg hSlash]

/- A string after its first quote. -/
theorem StringBody.read_withReturns
    {quote : UInt8}
    (hQuote : quote ≠ 10 ∧ quote ≠ 13)
    (raw : Bool)
    {used : List UInt8}
    (hUsed : 10 ∉ used)
    {bytes : List UInt8}
    (hClosed : (read quote raw bytes).closed = true)
    (hBytes : bytes = used ++ (read quote raw bytes).rest) :
    read quote raw (withReturns bytes) =
      { read quote raw bytes with
        rest := withReturns (read quote raw bytes).rest } := by
  have hQuotes : 10 ∉ [quote, quote] ∧ 13 ∉ [quote, quote] := by
    simp [hQuote.1.symm, hQuote.2.symm]
  unfold read at hClosed hBytes ⊢
  rw [isPrefixOf_withReturns hQuotes]
  split
  · rename_i hTriple
    rw [if_pos hTriple] at hClosed hBytes
    obtain ⟨after, rfl⟩ := List.isPrefixOf_iff_prefix.mp hTriple
    rw [withReturns_append hQuotes.1]
    simp only [List.cons_append, List.nil_append, List.drop_succ_cons,
      List.drop_zero] at hClosed hBytes ⊢
    obtain ⟨used', hUsed', hRead⟩ :=
      readFrom_withReturns hQuote true raw [] after hClosed
    have hSame : used = quote :: quote :: used' :=
      List.append_cancel_right
        (hBytes.symm.trans (congrArg (quote :: quote :: ·) hUsed'))
    simp only [hSame, List.mem_cons, not_or] at hUsed
    exact hRead.resolve_left hUsed.2.2
  · rename_i hSingle
    rw [if_neg hSingle] at hClosed hBytes
    obtain ⟨used', hUsed', hRead⟩ :=
      readFrom_withReturns hQuote false raw [] bytes hClosed
    have hSame := List.append_cancel_right (hBytes.symm.trans hUsed')
    rw [← hSame] at hRead
    exact hRead.resolve_left hUsed

------------------------------------------------------------
-- Numbers
------------------------------------------------------------

theorem withinLine_isDigitOrSeparator :
    WithinLine Byte.isDigitOrSeparator :=
  ⟨rfl, rfl⟩

theorem withinLine_isDigit :
    WithinLine Byte.isDigit :=
  ⟨rfl, rfl⟩

theorem withinLine_isHexDigitOrSeparator :
    WithinLine Byte.isHexDigitOrSeparator :=
  ⟨rfl, rfl⟩

/- The first byte satisfies the same tests with carriage returns. -/
theorem head?_withReturns
    {test : UInt8 → Bool}
    (hTest : WithinLine test)
    (bytes : List UInt8) :
    ((withReturns bytes).head?.map test).getD false =
      (bytes.head?.map test).getD false := by
  cases bytes with
  | nil => rfl
  | cons b rest =>
      by_cases hByte : b = 10
      · subst hByte
        simp [hTest.feed, hTest.carriage]
      · rw [withReturns_cons hByte]
        rfl

theorem Number.pointOf_withReturns
    (bytes : List UInt8) :
    pointOf (withReturns bytes) =
      ((pointOf bytes).1, withReturns (pointOf bytes).2) := by
  cases bytes with
  | nil => rfl
  | cons b rest =>
      by_cases hByte : b = 10
      · subst hByte
        rfl
      · rw [withReturns_cons hByte, pointOf, pointOf]
        split
        · rw [takeWhile_withReturns withinLine_isDigitOrSeparator,
            dropWhile_withReturns withinLine_isDigitOrSeparator]
        · rw [withReturns_cons hByte]

/- A sign is read alike, and so are the bytes after it. -/
theorem Number.sign_withReturns
    (bytes : List UInt8) :
    let isSign := fun b => b == Byte.of '+' || b == Byte.of '-'
    ((withReturns bytes).take 1).filter isSign =
        (bytes.take 1).filter isSign ∧
      (withReturns bytes).drop ((bytes.take 1).filter isSign).length =
        withReturns
          (bytes.drop ((bytes.take 1).filter isSign).length) := by
  intro isSign
  cases bytes with
  | nil => exact ⟨rfl, rfl⟩
  | cons b rest =>
      by_cases hByte : b = 10
      · subst hByte
        exact ⟨rfl, rfl⟩
      · rw [withReturns_cons hByte, List.take_succ_cons,
          List.take_succ_cons, List.take_zero, List.take_zero]
        refine ⟨rfl, ?_⟩
        cases hSign : isSign b with
        | true => simp [hSign]
        | false => simp [hSign, withReturns_cons hByte]

theorem Number.scaleOf_withReturns
    (bytes : List UInt8) :
    scaleOf (withReturns bytes) =
      ((scaleOf bytes).1, withReturns (scaleOf bytes).2) := by
  cases bytes with
  | nil => rfl
  | cons e rest =>
      by_cases hByte : e = 10
      · subst hByte
        rfl
      · have hSign := sign_withReturns rest
        dsimp only at hSign
        rw [withReturns_cons hByte, scaleOf, scaleOf]
        dsimp only
        rw [hSign.1, hSign.2, head?_withReturns ⟨rfl, rfl⟩,
          takeWhile_withReturns withinLine_isDigitOrSeparator,
          dropWhile_withReturns withinLine_isDigitOrSeparator]
        split
        · split
          · rfl
          · rw [withReturns_cons hByte]
        · rw [withReturns_cons hByte]

theorem decimalParts_withReturns
    (bytes : List UInt8) :
    decimalParts (withReturns bytes) =
      ((decimalParts bytes).1, (decimalParts bytes).2.1,
        withReturns (decimalParts bytes).2.2) := by
  rw [Number.decimalParts_eq rfl rfl, Number.decimalParts_eq rfl rfl,
    takeWhile_withReturns withinLine_isDigitOrSeparator,
    dropWhile_withReturns withinLine_isDigitOrSeparator,
    Number.pointOf_withReturns, Number.scaleOf_withReturns]

/- Neither byte of the mark of a base is a line feed. -/
theorem literalBase_of_lineFeed
    (zero : UInt8)
    (rest : List UInt8) :
    literalBase (10 :: rest) = 10 ∧ literalBase (zero :: 10 :: rest) = 10 := by
  refine ⟨by cases rest <;> rfl, ?_⟩
  change (if (zero != Byte.of '0') = true then 10 else 10) = 10
  exact ite_self 10

theorem literalBase_withReturns
    (bytes : List UInt8) :
    literalBase (withReturns bytes) = literalBase bytes := by
  match bytes with
  | [] => rfl
  | [b] =>
      by_cases hByte : b = 10
      · subst hByte
        rfl
      · rw [withReturns_cons hByte, withReturns_nil]
  | b :: letter :: rest =>
      by_cases hByte : b = 10
      · subst hByte
        rfl
      · rw [withReturns_cons hByte]
        by_cases hLetter : letter = 10
        · subst hLetter
          rfl
        · rw [withReturns_cons hLetter]
          rfl

theorem NumberLiteral.readBased_withReturns
    {bytes : List UInt8}
    (hBase : literalBase bytes ≠ 10)
    (base : Nat) :
    readBased base (withReturns bytes) =
      { readBased base bytes with
        rest := withReturns (readBased base bytes).rest } := by
  obtain ⟨zero, letter, rest, rfl, -⟩ := two_of_literalBase hBase
  have hZero : zero ≠ 10 := by
    rintro rfl
    exact hBase (literalBase_of_lineFeed 0 _).1
  have hLetter : letter ≠ 10 := by
    rintro rfl
    exact hBase (literalBase_of_lineFeed zero rest).2
  rw [withReturns_cons hZero, withReturns_cons hLetter]
  simp only [readBased, List.drop_succ_cons, List.drop_zero,
    List.take_succ_cons, List.take_zero,
    takeWhile_withReturns withinLine_isHexDigitOrSeparator,
    dropWhile_withReturns withinLine_isHexDigitOrSeparator]
  split <;> rfl

theorem NumberLiteral.finish_withReturns
    (isFloat : Bool)
    (digits : List Char)
    (text : String)
    (rest : List UInt8) :
    readDecimal.finish isFloat digits text (withReturns rest) =
      { readDecimal.finish isFloat digits text rest with
        rest := withReturns rest } := by
  unfold readDecimal.finish
  split
  · split <;> rfl
  · split <;> rfl

theorem NumberLiteral.readDecimal_withReturns
    (bytes : List UInt8) :
    readDecimal (withReturns bytes) =
      { readDecimal bytes with
        rest := withReturns (readDecimal bytes).rest } := by
  simp only [readDecimal, decimalParts_withReturns]
  cases (decimalParts bytes).2.2 with
  | nil =>
      exact (finish_withReturns ..).trans (by rw [rest_finish])
  | cons b rest =>
      by_cases hByte : b = 10
      · subst hByte
        rw [withReturns_lineFeed]
        dsimp only
        rw [if_neg (by decide), if_neg (by decide), ← withReturns_lineFeed,
          finish_withReturns, rest_finish]
      · rw [withReturns_cons hByte]
        dsimp only
        split
        · rfl
        · rw [← withReturns_cons hByte, finish_withReturns, rest_finish]

/- A number is read alike. -/
theorem NumberLiteral.read_withReturns
    (bytes : List UInt8) :
    read (withReturns bytes) =
      { read bytes with rest := withReturns (read bytes).rest } := by
  unfold read
  rw [literalBase_withReturns]
  split
  · exact readDecimal_withReturns bytes
  · rename_i hBase
    exact readBased_withReturns hBase _

------------------------------------------------------------
-- Marks
------------------------------------------------------------

namespace LexState

theorem onLine_of_longMarks :
    ∀ entry ∈ longMarks, 10 ∉ entry.1 ∧ 13 ∉ entry.1 := by
  simp [longMarks_eq]

/- A mark is read alike. -/
theorem mark?_withReturns
    (bytes : List UInt8) :
    mark? (withReturns bytes) = mark? bytes := by
  have hLong :
      (longMarks.find? fun entry => entry.1.isPrefixOf (withReturns bytes)) =
        longMarks.find? fun entry => entry.1.isPrefixOf bytes :=
    List.find?_congr fun entry hMem =>
      isPrefixOf_withReturns (onLine_of_longMarks entry hMem) bytes
  unfold mark?
  rw [hLong]
  split
  · rfl
  · cases bytes with
    | nil => rfl
    | cons b rest =>
        by_cases hByte : b = 10
        · subst hByte
          rfl
        · rw [withReturns_cons hByte]

/- A mark stands on one line. -/
theorem take_of_mark?
    {bytes : List UInt8}
    {mark : Mark}
    {length : Nat}
    (hMark : mark? bytes = some (mark, length)) :
    ∃ written rest,
      bytes = written ++ rest ∧ written.length = length ∧ 10 ∉ written := by
  unfold mark? at hMark
  split at hMark
  · rename_i written found hFound
    cases hMark
    have hPrefix : written.isPrefixOf bytes = true := by
      simpa using List.find?_some hFound
    obtain ⟨rest, rfl⟩ := List.isPrefixOf_iff_prefix.mp hPrefix
    exact ⟨written, rest, rfl, rfl,
      (onLine_of_longMarks _ (List.mem_of_find?_eq_some hFound)).1⟩
  · split at hMark
    · cases hMark
    · rename_i b rest _
      obtain ⟨found, hLookup, hFound⟩ := Option.map_eq_some_iff.mp hMark
      cases hFound
      refine ⟨[b], rest, rfl, rfl, ?_⟩
      rw [List.mem_singleton]
      rintro rfl
      have hNone : shortMarks.lookup 10 = none := by decide
      rw [hNone] at hLookup
      cases hLookup

end LexState

------------------------------------------------------------
-- Two Texts
------------------------------------------------------------

/-
  What is left of a text and of the one with carriage returns.
  The second one may have passed a carriage return already.
-/
inductive SameRest : List UInt8 → List UInt8 → Prop
  | returned
      (rest : List UInt8) :
      SameRest rest (withReturns rest)
  | feed
      (rest : List UInt8) :
      SameRest (10 :: rest) (10 :: withReturns rest)

namespace SameRest

variable {bytes other : List UInt8}

/- Both texts are at the end, at the end of a line, or at the same byte. -/
theorem starts
    (hRest : SameRest bytes other) :
    bytes = [] ∧ other = [] ∨
      (∃ rest,
        bytes = 10 :: rest ∧
          (other = 13 :: 10 :: withReturns rest ∨
            other = 10 :: withReturns rest)) ∨
      ∃ b rest,
        b ≠ 10 ∧ bytes = b :: rest ∧ other = b :: withReturns rest := by
  cases hRest with
  | feed rest => exact .inr (.inl ⟨rest, rfl, .inr rfl⟩)
  | returned =>
      cases bytes with
      | nil => exact .inl ⟨rfl, rfl⟩
      | cons b rest =>
          by_cases hByte : b = 10
          · subst hByte
            exact .inr (.inl ⟨rest, rfl, .inl rfl⟩)
          · exact .inr (.inr ⟨b, rest, hByte, rfl, withReturns_cons hByte rest⟩)

/- After spaces both texts are at the same byte. -/
theorem afterSpaces
    (hRest : SameRest bytes other) :
    bytes.dropWhile Byte.isLineSpace = [] ∧
        other.dropWhile Byte.isLineSpace = [] ∨
      ∃ b rest,
        bytes.dropWhile Byte.isLineSpace = b :: rest ∧
          other.dropWhile Byte.isLineSpace = b :: withReturns rest := by
  cases hRest with
  | feed rest => exact .inr ⟨10, rest, rfl, rfl⟩
  | returned =>
      induction bytes with
      | nil => exact .inl ⟨rfl, rfl⟩
      | cons b rest ih =>
          by_cases hByte : b = 10
          · subst hByte
            exact .inr ⟨10, rest, rfl, rfl⟩
          · rw [withReturns_cons hByte, List.dropWhile_cons,
              List.dropWhile_cons]
            split
            · exact ih
            · exact .inr ⟨b, rest, rfl, rfl⟩

/- At the end of a line both texts are at the line feed. -/
theorem dropLine_withReturns
    (bytes : List UInt8) :
    bytes.dropWhile (· != 10) = [] ∧
        (withReturns bytes).dropWhile (· != 10) = [] ∨
      ∃ rest,
        bytes.dropWhile (· != 10) = 10 :: rest ∧
          (withReturns bytes).dropWhile (· != 10) =
            10 :: withReturns rest := by
  induction bytes with
  | nil => exact .inl ⟨rfl, rfl⟩
  | cons b rest ih =>
      by_cases hByte : b = 10
      · subst hByte
        exact .inr ⟨rest, rfl, rfl⟩
      · rwa [withReturns_cons hByte, List.dropWhile_cons_of_pos,
          List.dropWhile_cons_of_pos]
        · simpa using hByte
        · simpa using hByte

theorem dropLine
    (hRest : SameRest bytes other) :
    SameRest (bytes.dropWhile (· != 10)) (other.dropWhile (· != 10)) ∧
      SameRest ((bytes.dropWhile (· != 10)).drop 1)
        ((other.dropWhile (· != 10)).drop 1) := by
  cases hRest with
  | feed rest => exact ⟨.feed rest, .returned rest⟩
  | returned =>
      rcases dropLine_withReturns bytes with ⟨hEnd, hEnd'⟩ |
        ⟨rest, hFeed, hFeed'⟩
      · rw [hEnd, hEnd']
        exact ⟨.returned [], .returned []⟩
      · rw [hFeed, hFeed']
        exact ⟨.feed rest, .returned rest⟩

/- Indentation is the same in both texts. -/
theorem afterIndentation
    (hRest : SameRest bytes other) :
    SameRest (bytes.dropWhile LexState.isIndentation)
      (other.dropWhile LexState.isIndentation) := by
  cases hRest with
  | feed rest => exact .feed rest
  | returned =>
      rw [dropWhile_withReturns ⟨rfl, rfl⟩]
      exact .returned _

theorem indentWidth_eq
    (hRest : SameRest bytes other)
    (width : Nat) :
    LexState.indentWidth width other = LexState.indentWidth width bytes := by
  cases hRest with
  | feed rest => rfl
  | returned =>
      induction bytes generalizing width with
      | nil => rfl
      | cons b rest ih =>
          by_cases hByte : b = 10
          · subst hByte
            rfl
          · rw [withReturns_cons hByte, LexState.indentWidth,
              LexState.indentWidth, ih, ih, ih]

end SameRest

namespace Scanner

variable {scanner : Scanner}
variable {b : UInt8}
variable {rest : List UInt8}

theorem rest_skip
    (hRest : scanner.rest = b :: rest) :
    (scanner.skip 1).rest = rest := by
  rw [skip, hRest]
  rfl

theorem eat?_eq_some
    (hRest : scanner.rest = b :: rest) :
    scanner.eat? b = some (scanner.skip 1) := by
  rw [eat?, peek?, hRest]
  simp

end Scanner

/-
  Tokens that are found without a fault, with every string on a
  single line.
-/
structure Lexed.Plain (lexed : Lexed) : Prop where
  errors : lexed.errors.hasErrors = false
  strings :
    ∀ token ∈ lexed.tokens, ∀ value,
      token.kind = .str value → token.span.startLine = token.span.endLine

namespace LexState

/- A state whose tokens so far are found without a fault. -/
abbrev Plain (state : LexState) : Prop :=
  Lexed.Plain ⟨state.tokens, state.errors⟩

/- States of runs over a text and over the one with carriage returns. -/
structure Mirrors (state other : LexState) : Prop where
  rest : SameRest state.scanner.rest other.scanner.rest
  kinds : other.kinds = state.kinds
  errors : other.errors = state.errors
  brackets : other.brackets = state.brackets
  indents : other.indents = state.indents
  lineStart : other.lineStart = state.lineStart

section Steps

variable {file file' : SourceFile}
variable {state other next : LexState}
variable {first first' last last' : Scanner}
variable {b : UInt8}
variable {rest : List UInt8}

theorem not_hasErrors_report
    {code : ErrorCode}
    {message : String}
    {span : Span} :
    ¬(state.report file code message span).errors.hasErrors = false := by
  simp [report, Diagnostics.hasErrors, Diagnostics.push]

theorem Mirrors.moveTo
    (hMirrors : state.Mirrors other)
    (hRest : SameRest last.rest last'.rest) :
    (state.moveTo last).Mirrors (other.moveTo last') :=
  ⟨hRest, hMirrors.kinds, hMirrors.errors, hMirrors.brackets,
    hMirrors.indents, hMirrors.lineStart⟩

theorem Mirrors.push
    (hMirrors : state.Mirrors other)
    (kind : TokenKind)
    (span span' : Span) :
    (state.push kind span).Mirrors (other.push kind span') := by
  refine ⟨hMirrors.rest, ?_, hMirrors.errors, hMirrors.brackets,
    hMirrors.indents, hMirrors.lineStart⟩
  rw [kinds_push, kinds_push, hMirrors.kinds]

theorem Mirrors.emit
    (hMirrors : state.Mirrors other)
    (first first' : Scanner)
    (hRest : SameRest last.rest last'.rest)
    (kind : TokenKind) :
    (state.emit first last kind).Mirrors (other.emit first' last' kind) :=
  (hMirrors.moveTo hRest).push kind _ _

theorem Mirrors.closeBlocks
    (hMirrors : state.Mirrors other)
    (closed : List Nat)
    (span span' : Span) :
    (state.closeBlocks closed span).Mirrors
      (other.closeBlocks closed span') := by
  induction closed generalizing state other with
  | nil => exact hMirrors
  | cons width closed ih => exact ih (hMirrors.push .dedent _ _)

theorem Mirrors.withIndents
    (hMirrors : state.Mirrors other)
    (indents : List Nat) :
    Mirrors { state with indents := indents }
      { other with indents := indents } :=
  ⟨hMirrors.rest, hMirrors.kinds, hMirrors.errors, hMirrors.brackets, rfl,
    hMirrors.lineStart⟩

/- The start of a line. -/
theorem Mirrors.enterLine
    (hMirrors : state.Mirrors other)
    (hErrors : (state.enterLine file).errors.hasErrors = false) :
    (state.enterLine file).Mirrors (other.enterLine file') := by
  have hRest := hMirrors.rest.afterIndentation
  have hWidth := hMirrors.rest.indentWidth_eq 0
  have hMoved
      (lineStart : Bool)
      {last last' : Scanner}
      (hLast : SameRest last.rest last'.rest) :
      Mirrors { state with scanner := last, lineStart := lineStart }
        { other with
          scanner := last'
          indents := state.indents
          lineStart := lineStart } :=
    ⟨hLast, hMirrors.kinds, hMirrors.errors, hMirrors.brackets, rfl, rfl⟩
  simp only [LexState.enterLine, Scanner.peek?] at hErrors ⊢
  rw [hMirrors.indents, hWidth]
  change SameRest (state.scanner.skipWhile isIndentation).rest
    (other.scanner.skipWhile isIndentation).rest at hRest
  generalize state.scanner.skipWhile isIndentation = scanner at *
  generalize other.scanner.skipWhile isIndentation = scanner' at *
  have hEntered := hMoved false hRest
  have hPassed :
      Mirrors
        { state with
          scanner := (scanner.skipWhile (· != 10)).skip 1
          lineStart := true }
        { other with
          scanner := (scanner'.skipWhile (· != 10)).skip 1
          indents := state.indents
          lineStart := true } :=
    hMoved true hRest.dropLine.2
  rcases hRest.starts with ⟨hEnd, hEnd'⟩ | ⟨rest, hFeed, hFeed'⟩ |
    ⟨b, rest, hByte, hHere, hHere'⟩
  · simp only [hEnd, hEnd', List.head?_nil]
    exact hEntered
  · rw [hFeed, List.head?_cons]
    rcases hFeed' with hFeed' | hFeed'
    · rw [hFeed', List.head?_cons]
      simpa [blanksLine] using hPassed
    · rw [hFeed', List.head?_cons]
      simpa [blanksLine] using hPassed
  · rw [hHere, List.head?_cons] at hErrors ⊢
    rw [hHere', List.head?_cons]
    dsimp only at hErrors ⊢
    split
    · exact hPassed
    rename_i hSolid
    rw [if_neg hSolid] at hErrors
    split
    · exact (hEntered.push .indent _ _).withIndents _
    rename_i hNarrow
    rw [if_neg hNarrow] at hErrors
    split
    · exact hEntered
    rename_i hClosed
    rw [if_neg hClosed] at hErrors
    split
    · exact (hEntered.closeBlocks _ _ _).withIndents _
    · rename_i hAstray
      rw [if_neg hAstray] at hErrors
      change (LexState.closeBlocks _ _ _).errors.hasErrors = false at hErrors
      rw [closeBlocks_eq] at hErrors
      exact absurd hErrors not_hasErrors_report

theorem Mirrors.readNewline
    (hMirrors : state.Mirrors other)
    (hFirst : first.rest = 10 :: rest)
    (hFirst' : first'.rest = 10 :: withReturns rest) :
    (state.readNewline first).Mirrors (other.readNewline first') := by
  have hSkip : SameRest (first.skip 1).rest (first'.skip 1).rest := by
    rw [Scanner.rest_skip hFirst, Scanner.rest_skip hFirst']
    exact .returned rest
  have hMoved := hMirrors.moveTo hSkip
  have hStarted :
      Mirrors { state.moveTo (first.skip 1) with lineStart := true }
        { other.moveTo (first'.skip 1) with lineStart := true } :=
    ⟨hSkip, hMoved.kinds, hMoved.errors, hMoved.brackets, hMoved.indents,
      rfl⟩
  simp only [LexState.readNewline, lastKind?_eq, hMirrors.brackets,
    hMirrors.kinds]
  split
  · exact hMoved
  split
  · exact hStarted
  · exact hStarted
  · exact hStarted.push .newline _ _

/- A line is joined with the next one behind a carriage return as well. -/
theorem Mirrors.readContinuation
    (hMirrors : state.Mirrors other)
    (hReturns : 13 ∉ first.rest)
    (hFirst : first.rest = b :: rest)
    (hFirst' : first'.rest = b :: withReturns rest)
    (hErrors : (state.readContinuation file first).errors.hasErrors = false) :
    (state.readContinuation file first).Mirrors
      (other.readContinuation file' first') := by
  have hAfter := Scanner.rest_skip hFirst
  have hAfter' := Scanner.rest_skip hFirst'
  have hNone : (first.skip 1).eat? 13 = none := by
    refine if_neg fun hHead => hReturns ?_
    rw [Scanner.peek?, hAfter, beq_iff_eq] at hHead
    rw [hFirst]
    exact List.mem_cons_of_mem _ (List.mem_of_head? hHead)
  simp only [LexState.readContinuation, hNone, Option.getD_none] at hErrors ⊢
  cases hFeed : (first.skip 1).eat? 10 with
  | none =>
      rw [hFeed] at hErrors
      exact absurd hErrors not_hasErrors_report
  | some last =>
      have hLast := (Scanner.reaches_eat? hFeed).rest
      rw [hAfter] at hLast
      rw [hLast, List.singleton_append, withReturns_lineFeed] at hAfter'
      have hNext := Scanner.rest_skip hAfter'
      rw [Scanner.eat?_eq_some hAfter', Option.getD_some,
        Scanner.eat?_eq_some hNext]
      refine hMirrors.moveTo ?_
      rw [Scanner.rest_skip hNext]
      exact .returned last.rest

/- A string that stands on one line. -/
theorem Mirrors.readString
    (hMirrors : state.Mirrors other)
    {opening opening' : Scanner}
    {quote : UInt8}
    (hQuote : quote ≠ 10 ∧ quote ≠ 13)
    {letters : List UInt8}
    (hLetters : first.Reaches opening letters)
    (hOpening : opening.rest = quote :: rest)
    (hOpening' : opening'.rest = quote :: withReturns rest)
    {raw : Bool}
    (hPlain : (state.readString file first opening quote raw).Plain) :
    (state.readString file first opening quote raw).Mirrors
      (other.readString file' first' opening' quote raw) := by
  have hDrop : opening.rest.drop 1 = rest := Scanner.rest_skip hOpening
  have hDrop' : opening'.rest.drop 1 = withReturns rest :=
    Scanner.rest_skip hOpening'
  simp only [LexState.readString, hDrop, hDrop'] at hPlain ⊢
  obtain ⟨used, hUsed⟩ := StringBody.suffix_read quote raw rest
  have hBytes :
      opening.rest =
        (quote :: used) ++ (StringBody.read quote raw rest).rest := by
    rw [hOpening, List.cons_append, hUsed]
  obtain ⟨hReaches, hLeft⟩ := Scanner.reaches_skipTo hBytes
  cases hClosed : (StringBody.read quote raw rest).closed with
  | false =>
      rw [hClosed] at hPlain
      exact absurd hPlain.errors not_hasErrors_report
  | true =>
      rw [hClosed, if_pos rfl] at hPlain
      rw [if_pos rfl]
      have hLine :
          first.position.line =
            (opening.skipTo
              (StringBody.read quote raw rest).rest).position.line :=
        hPlain.strings _ Array.mem_push_self _ rfl
      have hNone : 10 ∉ letters ++ (quote :: used) := by
        rw [(hLetters.trans hReaches).position, Position.line_afterAll]
          at hLine
        exact List.count_eq_zero.mp (by omega)
      have hUsedNone : 10 ∉ quote :: used :=
        fun hMem => hNone (List.mem_append_right _ hMem)
      have hRead :=
        StringBody.read_withReturns hQuote raw
          (fun hMem => hUsedNone (List.mem_cons_of_mem _ hMem)) hClosed
          hUsed.symm
      have hBytes' :
          opening'.rest =
            (quote :: used) ++
              withReturns (StringBody.read quote raw rest).rest := by
        rw [← withReturns_append hUsedNone, ← hBytes, hOpening,
          withReturns_cons hQuote.1, hOpening']
      rw [hRead]
      dsimp only
      rw [if_pos hClosed]
      refine hMirrors.emit first first' ?_ _
      rw [hLeft, (Scanner.reaches_skipTo hBytes').2]
      exact .returned _

theorem Mirrors.readWord
    (hMirrors : state.Mirrors other)
    (hByte : b ≠ 10)
    (hFirst : first.rest = b :: rest)
    (hFirst' : first'.rest = b :: withReturns rest)
    (hPlain : (state.readWord file first).Plain) :
    (state.readWord file first).Mirrors (other.readWord file' first') := by
  rw [← withReturns_cons hByte, ← hFirst] at hFirst'
  have hReaches := first.reaches_skipWhile Byte.continuesWord
  have hRead' :
      first'.read (first'.skipWhile Byte.continuesWord) =
        first.read (first.skipWhile Byte.continuesWord) := by
    rw [read_skipWhile, read_skipWhile, hFirst',
      takeWhile_withReturns ⟨rfl, rfl⟩]
  have hLast' :
      (first'.skipWhile Byte.continuesWord).rest =
        withReturns (first.skipWhile Byte.continuesWord).rest := by
    simp only [Scanner.skipWhile]
    rw [hFirst', dropWhile_withReturns ⟨rfl, rfl⟩]
  simp only [LexState.readWord, hRead'] at hPlain ⊢
  generalize first.skipWhile Byte.continuesWord = last at *
  generalize first'.skipWhile Byte.continuesWord = last' at *
  generalize Text.ofUtf8 (first.read last) = word at *
  have hRest : SameRest last.rest last'.rest := by
    rw [hLast']
    exact .returned last.rest
  have hEmitted :=
    hMirrors.emit first first' hRest
      ((TokenKind.ofWord? word).getD (.name word))
  simp only [Scanner.peek?] at hPlain ⊢
  rcases hRest.starts with ⟨hEnd, hEnd'⟩ | ⟨rest, hFeed, hFeed'⟩ |
    ⟨quote, rest, hQuote, hHere, hHere'⟩
  · rw [hEnd, hEnd']
    exact hEmitted
  · rw [hFeed]
    rcases hFeed' with hFeed' | hFeed'
    · rw [hFeed']
      exact hEmitted
    · rw [hFeed']
      exact hEmitted
  · rw [hHere, List.head?_cons] at hPlain ⊢
    rw [hHere', List.head?_cons]
    dsimp only at hPlain ⊢
    split
    · rename_i hOpens
      rw [if_pos hOpens] at hPlain
      refine hMirrors.readString ⟨hQuote, ?_⟩ hReaches hHere hHere' hPlain
      rintro rfl
      simp only [Bool.and_eq_true] at hOpens
      exact absurd hOpens.1 (by decide)
    · exact hEmitted

theorem Mirrors.readNumber
    (hMirrors : state.Mirrors other)
    (hByte : b ≠ 10)
    (hStarts : Byte.isDigit b = true ∨ b = Byte.of '.')
    (hFirst : first.rest = b :: rest)
    (hFirst' : first'.rest = b :: withReturns rest)
    (hErrors : (state.readNumber file first).errors.hasErrors = false) :
    (state.readNumber file first).Mirrors
      (other.readNumber file' first') := by
  obtain ⟨read, -, hBytes, -⟩ := NumberLiteral.readsAscii_read hStarts rest
  obtain ⟨read', -, hBytes', -⟩ :=
    NumberLiteral.readsAscii_read hStarts (withReturns rest)
  have hAlike := NumberLiteral.read_withReturns first.rest
  rw [hFirst, withReturns_cons hByte, ← hFirst, ← hFirst'] at hAlike
  rw [← hFirst] at hBytes
  rw [← hFirst', hAlike] at hBytes'
  simp only [LexState.readNumber] at hErrors ⊢
  rw [hAlike]
  cases hFault : (NumberLiteral.read first.rest).fault with
  | some fault =>
      rw [hFault] at hErrors
      exact absurd hErrors not_hasErrors_report
  | none =>
      refine hMirrors.emit first first' ?_ _
      rw [(Scanner.reaches_skipTo hBytes).2,
        (Scanner.reaches_skipTo hBytes').2]
      exact .returned _

theorem Mirrors.readMark
    (hMirrors : state.Mirrors other)
    (hByte : b ≠ 10)
    (hFirst : first.rest = b :: rest)
    (hFirst' : first'.rest = b :: withReturns rest)
    (hErrors : (state.readMark file first b).errors.hasErrors = false) :
    (state.readMark file first b).Mirrors (other.readMark file' first' b) := by
  rw [← withReturns_cons hByte, ← hFirst] at hFirst'
  simp only [LexState.readMark] at hErrors ⊢
  rw [hFirst', mark?_withReturns]
  cases hMark : mark? first.rest with
  | none =>
      rw [hMark] at hErrors
      exact absurd hErrors not_hasErrors_report
  | some found =>
      obtain ⟨mark, length⟩ := found
      obtain ⟨written, after, hBytes, hLength, hNone⟩ := take_of_mark? hMark
      have hRest :
          SameRest (first.skip length).rest (first'.skip length).rest := by
        simp only [Scanner.skip]
        rw [hFirst', hBytes, withReturns_append hNone, ← hLength,
          List.drop_left, List.drop_left]
        exact .returned after
      have hEmitted := hMirrors.emit first first' hRest (.mark mark)
      refine ⟨hRest, hEmitted.kinds, hEmitted.errors, ?_, hEmitted.indents,
        hEmitted.lineStart⟩
      dsimp only
      rw [hMirrors.brackets]

/- A step that finds nothing wrong finds the same in both texts. -/
theorem Mirrors.step
    (hMirrors : state.Mirrors other)
    (hReturns : 13 ∉ state.scanner.rest)
    {ended : Bool}
    (hStep : state.step file = (ended, next))
    (hPlain : next.Plain) :
    ∃ next', other.step file' = (ended, next') ∧ next.Mirrors next' := by
  have hSpaces := hMirrors.rest.afterSpaces
  have hReturns' :
      13 ∉ (state.scanner.skipWhile Byte.isLineSpace).rest :=
    fun hMem => hReturns ((List.dropWhile_suffix _).subset hMem)
  simp only [LexState.step] at hStep ⊢
  change (state.scanner.skipWhile Byte.isLineSpace).rest = [] ∧
      (other.scanner.skipWhile Byte.isLineSpace).rest = [] ∨
    ∃ b rest,
      (state.scanner.skipWhile Byte.isLineSpace).rest = b :: rest ∧
        (other.scanner.skipWhile Byte.isLineSpace).rest =
          b :: withReturns rest at hSpaces
  generalize state.scanner.skipWhile Byte.isLineSpace = first at *
  generalize other.scanner.skipWhile Byte.isLineSpace = first' at *
  rcases hSpaces with ⟨hEnd, hEnd'⟩ | ⟨b, rest, hFirst, hFirst'⟩
  · rw [hEnd] at hStep
    obtain ⟨rfl, rfl⟩ := Prod.mk.inj hStep
    rw [hEnd']
    refine ⟨_, rfl, hMirrors.moveTo ?_⟩
    rw [hEnd, hEnd']
    exact .returned []
  · rw [hFirst] at hStep
    obtain ⟨rfl, hNext⟩ := Prod.mk.inj hStep
    rw [hFirst']
    refine ⟨_, rfl, ?_⟩
    rw [head?_withReturns withinLine_isDigit]
    subst hNext
    split
    · rename_i hFeed
      rw [beq_iff_eq.mp hFeed] at hFirst hFirst'
      exact hMirrors.readNewline hFirst hFirst'
    rename_i hFeed
    have hByte : b ≠ 10 := fun hSame => hFeed (beq_iff_eq.mpr hSame)
    have hBytes : first'.rest = withReturns first.rest := by
      rw [hFirst, withReturns_cons hByte, hFirst']
    rw [if_neg hFeed] at hPlain
    split
    · refine hMirrors.moveTo ?_
      simp only [Scanner.skipWhile]
      rw [hBytes]
      exact (SameRest.returned first.rest).dropLine.1
    rename_i hHash
    rw [if_neg hHash] at hPlain
    split
    · rename_i hSlash
      rw [if_pos hSlash] at hPlain
      exact hMirrors.readContinuation hReturns' hFirst hFirst' hPlain.errors
    rename_i hSlash
    rw [if_neg hSlash] at hPlain
    split
    · rename_i hQuote
      rw [if_pos hQuote] at hPlain
      refine hMirrors.readString ⟨hByte, ?_⟩ (first.reaches_skip 0) hFirst
        hFirst' hPlain
      rintro rfl
      exact absurd hQuote (by decide)
    rename_i hQuote
    rw [if_neg hQuote] at hPlain
    split
    · rename_i hNumber
      rw [if_pos hNumber] at hPlain
      simp only [Bool.or_eq_true, Bool.and_eq_true, beq_iff_eq] at hNumber
      exact hMirrors.readNumber hByte (hNumber.imp id And.left) hFirst
        hFirst' hPlain.errors
    rename_i hNumber
    rw [if_neg hNumber] at hPlain
    split
    · rename_i hWord
      rw [if_pos hWord] at hPlain
      exact hMirrors.readWord hByte hFirst hFirst' hPlain
    · rename_i hWord
      rw [if_neg hWord] at hPlain
      exact hMirrors.readMark hByte hFirst hFirst' hPlain.errors

theorem Mirrors.round
    (hMirrors : state.Mirrors other)
    (hReturns : 13 ∉ state.scanner.rest)
    {ended : Bool}
    (hRound : state.round file = (ended, next))
    (hPlain : next.Plain) :
    ∃ next', other.round file' = (ended, next') ∧ next.Mirrors next' := by
  have hStart : other.entersNext = state.entersNext := by
    rw [entersNext, entersNext, hMirrors.lineStart, hMirrors.brackets]
  unfold LexState.round at hRound ⊢
  rw [hStart]
  split
  · rename_i hEnters
    rw [if_pos hEnters] at hRound
    obtain ⟨rfl, rfl⟩ := Prod.mk.inj hRound
    exact ⟨_, rfl, hMirrors.enterLine hPlain.errors⟩
  · rename_i hInside
    rw [if_neg hInside] at hRound
    exact hMirrors.step hReturns hRound hPlain

theorem Plain.of_extends
    (hNext : next.Plain)
    (hExtends : state.Extends next) :
    state.Plain := by
  refine ⟨?_, fun token hMem => hNext.strings token ?_⟩
  · have hTotal := hExtends.total
    have hErrors := hNext.errors
    simp only [Diagnostics.hasErrors, decide_eq_false_iff_not] at hErrors ⊢
    omega
  · rw [← Array.mem_toList_iff] at hMem ⊢
    exact hExtends.tokens.subset hMem

theorem Plain.not_isFull
    (hState : state.Plain) :
    state.errors.isFull = false := by
  have hErrors := hState.errors
  simp only [Diagnostics.hasErrors, Diagnostics.isFull, maxErrors,
    ge_iff_le, gt_iff_lt, decide_eq_false_iff_not] at hErrors ⊢
  omega

/- A run that finds nothing wrong finds the same in both texts. -/
theorem Mirrors.runsTo
    {ended : LexState}
    (hRun : RunsTo file state ended)
    (hMirrors : state.Mirrors other)
    (hReturns : 13 ∉ state.scanner.rest)
    (hPlain : ended.Plain) :
    ∃ ended', RunsTo file' other ended' ∧ ended.Mirrors ended' := by
  have hOpen {state other : LexState}
      (hMirrors : state.Mirrors other)
      (hState : state.Plain) :
      other.errors.isFull = false := by
    rw [hMirrors.errors]
    exact hState.not_isFull
  induction hRun generalizing other with
  | full hFull => simp [hPlain.not_isFull] at hFull
  | ended _ hRound =>
      obtain ⟨ended', hRound', hEnd⟩ :=
        hMirrors.round hReturns hRound hPlain
      have hState := hPlain.of_extends (extends_round hRound)
      exact ⟨ended', .ended (hOpen hMirrors hState) hRound', hEnd⟩
  | again _ hRound hRest ih =>
      have hNext := hPlain.of_extends hRest.extends
      obtain ⟨next', hRound', hMirrors'⟩ :=
        hMirrors.round hReturns hRound hNext
      obtain ⟨ended', hRun', hEnd⟩ :=
        ih hMirrors'
          (fun hMem => hReturns ((rest_suffix_round hRound).subset hMem))
          hPlain
      have hState := hNext.of_extends (extends_round hRound)
      exact ⟨ended', .again (hOpen hMirrors hState) hRound' hRun', hEnd⟩

end Steps

end LexState

/- Carriage returns before line feeds do not matter to the tokens of a text. -/
theorem lex_withReturns
    (file : SourceFile)
    (hReturns : '\r' ∉ file.text.toList)
    (hPlain : (lex file).Plain) :
    (lex file.withReturns).errors.hasErrors = false ∧
      (lex file.withReturns).tokens.toList.map (·.kind) =
        (lex file).tokens.toList.map (·.kind) := by
  obtain ⟨last, hRun, hLex⟩ := runsTo_lex file
  obtain ⟨other, hRun', hLex'⟩ := runsTo_lex file.withReturns
  rw [hLex] at hPlain ⊢
  have hLast : last.Plain := by
    refine ⟨hPlain.errors, fun token hMem => hPlain.strings token ?_⟩
    rw [← Array.mem_toList_iff] at hMem ⊢
    exact last.tokens_finish.subset hMem
  have hStart :
      LexState.Mirrors { scanner := ⟨Text.encodeUtf8 file.text, {}⟩ }
        { scanner := ⟨Text.encodeUtf8 file.withReturns.text, {}⟩ } := by
    refine ⟨?_, rfl, rfl, rfl, rfl, rfl⟩
    rw [SourceFile.withReturns, encodeUtf8_withReturns]
    exact .returned _
  have hNone : 13 ∉ Text.encodeUtf8 file.text := by
    rw [Text.encodeUtf8_eq, List.mem_flatMap]
    rintro ⟨c, hChar, hMem⟩
    rcases Text.mem_utf8EncodeChar hMem with ⟨-, hByte⟩ | ⟨-, hBeyond⟩
    · have hSame : c = '\r' := Char.toNat_inj.mp hByte.symm
      exact hReturns (hSame ▸ hChar)
    · exact absurd hBeyond (by decide)
  obtain ⟨ended', hEnd, hMirrors⟩ := hStart.runsTo hRun hNone hLast
  obtain rfl := hEnd.unique hRun'
  rw [hLex', LexState.kinds_finish, LexState.kinds_finish, hMirrors.kinds,
    hMirrors.indents]
  refine ⟨?_, rfl⟩
  change ended'.errors.hasErrors = false
  rw [hMirrors.errors]
  exact hLast.errors

end SnippetGrader
