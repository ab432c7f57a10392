import SnippetGrader.Proofs.Token.LineEndings

/-
  Bytes that are the same up to a line feed.

  A number, a word or a mark stands on one line, so that nothing
  after its line matters to how it is read. A string may go on
  after a line feed, but of what follows it no more than one
  line matters.

  Key definitions include:
    * `SameLine`

  Key theorems include:
    * `StringBody.read_sameLine`
    * `NumberLiteral.read_sameLine`
    * `SameLine.mark?_eq`
-/

namespace SnippetGrader

------------------------------------------------------------
-- Lines
------------------------------------------------------------

/- Bytes that are the same up to a line feed, or to their end. -/
inductive SameLine : List UInt8 → List UInt8 → Prop
  | same
      (bytes : List UInt8) :
      SameLine bytes bytes
  | feed
      (line rest rest' : List UInt8) :
      SameLine (line ++ 10 :: rest) (line ++ 10 :: rest')

section Tests

variable {p : UInt8 → Bool}

/- A test that a line feed does not satisfy stops there. -/
theorem takeWhile_line
    (hFeed : p 10 = false)
    (line rest : List UInt8) :
    (line ++ 10 :: rest).takeWhile p = line.takeWhile p := by
  induction line with
  | nil => simp [hFeed]
  | cons b line ih =>
      rw [List.cons_append, List.takeWhile_cons, List.takeWhile_cons, ih]

theorem dropWhile_line
    (hFeed : p 10 = false)
    (line rest : List UInt8) :
    (line ++ 10 :: rest).dropWhile p =
      line.dropWhile p ++ 10 :: rest := by
  induction line with
  | nil => simp [hFeed]
  | cons b line ih =>
      rw [List.cons_append, List.dropWhile_cons, List.dropWhile_cons, ih]
      split <;> rfl

theorem head?_line
    (hFeed : p 10 = false)
    (line rest : List UInt8) :
    ((line ++ 10 :: rest).head?.map p).getD false =
      (line.head?.map p).getD false := by
  cases line with
  | nil => simpa using hFeed
  | cons b line => rfl

end Tests

/- What is written without line feeds starts a line as a whole. -/
theorem isPrefixOf_line
    {written : List UInt8}
    (hWritten : 10 ∉ written)
    (line rest : List UInt8) :
    written.isPrefixOf (line ++ 10 :: rest) = written.isPrefixOf line := by
  induction written generalizing line with
  | nil => simp
  | cons w written ih =>
      rw [List.mem_cons, not_or] at hWritten
      cases line with
      | nil =>
          rw [List.nil_append, List.isPrefixOf_cons_cons,
            beq_false_of_ne (Ne.symm hWritten.1), Bool.false_and]
          rfl
      | cons b line =>
          rw [List.cons_append, List.isPrefixOf_cons_cons,
            List.isPrefixOf_cons_cons, ih hWritten.2]

namespace SameLine

variable {bytes other read rest : List UInt8}
variable {b : UInt8}
variable {p : UInt8 → Bool}

theorem append
    (hSame : SameLine bytes other)
    (read : List UInt8) :
    SameLine (read ++ bytes) (read ++ other) := by
  cases hSame with
  | same => exact .same _
  | feed line rest rest' =>
      rw [← List.append_assoc, ← List.append_assoc]
      exact .feed _ _ _

theorem eq_nil
    (hSame : SameLine [] other) :
    other = [] := by
  generalize hBytes : ([] : List UInt8) = bytes at hSame ⊢
  cases hSame with
  | same => rfl
  | feed line => simp at hBytes

/- The first bytes are the same, and so is the line after one. -/
theorem of_cons
    (hSame : SameLine (b :: rest) other) :
    ∃ rest',
      other = b :: rest' ∧ (b ≠ 10 → SameLine rest rest') := by
  generalize hBytes : b :: rest = bytes at hSame
  cases hSame with
  | same => exact ⟨rest, hBytes.symm, fun _ => .same rest⟩
  | feed line after after' =>
      cases line with
      | nil =>
          obtain ⟨rfl, -⟩ := List.cons.inj hBytes
          exact ⟨after', rfl, fun hByte => absurd rfl hByte⟩
      | cons c line =>
          obtain ⟨rfl, rfl⟩ := List.cons.inj hBytes
          exact ⟨line ++ 10 :: after', rfl, fun _ => .feed line after after'⟩

theorem head?_eq
    (hSame : SameLine bytes other) :
    bytes.head? = other.head? := by
  cases bytes with
  | nil => rw [hSame.eq_nil]
  | cons b rest =>
      obtain ⟨rest', rfl, -⟩ := hSame.of_cons
      rfl

/- What is written on the line is the same. -/
theorem after
    (hSame : SameLine (read ++ rest) other)
    (hRead : 10 ∉ read) :
    ∃ rest', other = read ++ rest' ∧ SameLine rest rest' := by
  induction read generalizing other with
  | nil => exact ⟨other, rfl, hSame⟩
  | cons b read ih =>
      rw [List.mem_cons, not_or] at hRead
      obtain ⟨later, rfl, hLater⟩ := hSame.of_cons
      obtain ⟨rest', rfl, hRest⟩ := ih (hLater (Ne.symm hRead.1)) hRead.2
      exact ⟨rest', rfl, hRest⟩

theorem takeWhile_eq
    (hSame : SameLine bytes other)
    (hFeed : p 10 = false) :
    other.takeWhile p = bytes.takeWhile p := by
  cases hSame with
  | same => rfl
  | feed line rest rest' =>
      rw [takeWhile_line hFeed, takeWhile_line hFeed]

theorem dropWhile
    (hSame : SameLine bytes other)
    (hFeed : p 10 = false) :
    SameLine (bytes.dropWhile p) (other.dropWhile p) := by
  cases hSame with
  | same => exact .same _
  | feed line rest rest' =>
      rw [dropWhile_line hFeed, dropWhile_line hFeed]
      exact .feed _ _ _

theorem isPrefixOf_eq
    {written : List UInt8}
    (hSame : SameLine bytes other)
    (hWritten : 10 ∉ written) :
    written.isPrefixOf other = written.isPrefixOf bytes := by
  cases hSame with
  | same => rfl
  | feed line rest rest' =>
      rw [isPrefixOf_line hWritten, isPrefixOf_line hWritten]

/- The indentation of a line is that of its first bytes. -/
theorem indentWidth_eq
    (hSame : SameLine bytes other)
    (width : Nat) :
    LexState.indentWidth width other = LexState.indentWidth width bytes := by
  have hLine (line rest : List UInt8) (width : Nat) :
      LexState.indentWidth width (line ++ 10 :: rest) =
        LexState.indentWidth width line := by
    induction line generalizing width with
    | nil => rfl
    | cons b line ih =>
        rw [List.cons_append, LexState.indentWidth, LexState.indentWidth,
          ih, ih, ih]
  cases hSame with
  | same => rfl
  | feed line rest rest' => rw [hLine, hLine]

end SameLine

------------------------------------------------------------
-- Strings
------------------------------------------------------------

section Readings

variable {b letter : UInt8}
variable {rest used last : List UInt8}

/- What was read starts with the first byte, and goes on with later ones. -/
theorem exists_of_suffix_cons
    (hLast : last <:+ rest)
    (hBytes : b :: rest = used ++ last) :
    ∃ later, used = b :: later ∧ rest = later ++ last := by
  obtain ⟨later, rfl⟩ := hLast
  rw [← List.cons_append] at hBytes
  exact ⟨later, (List.append_cancel_right hBytes).symm, rfl⟩

theorem exists_of_suffix_cons_cons
    (hLast : last <:+ rest)
    (hBytes : b :: letter :: rest = used ++ last) :
    ∃ later, used = b :: letter :: later ∧ rest = later ++ last := by
  obtain ⟨more, rfl, hMore⟩ :=
    exists_of_suffix_cons (hLast.trans (List.suffix_cons letter rest)) hBytes
  obtain ⟨later, rfl, hLater⟩ := exists_of_suffix_cons hLast hMore
  exact ⟨later, rfl, hLater⟩

end Readings

/-
  A string is read alike if the line on which the text goes on
  after it is the same.
-/
theorem StringBody.readFrom_sameLine
    {quote : UInt8}
    (hQuote : quote ≠ 10)
    (triple raw : Bool)
    (content bytes : List UInt8)
    {used left : List UInt8}
    (hUsed :
      bytes = used ++ (readFrom quote triple raw content bytes).rest)
    (hLeft :
      SameLine (readFrom quote triple raw content bytes).rest left) :
    readFrom quote triple raw content (used ++ left) =
      { readFrom quote triple raw content bytes with rest := left } := by
  fun_induction readFrom quote triple raw content bytes generalizing used with
  | case1 content =>
      obtain ⟨rfl, -⟩ := List.append_eq_nil_iff.mp hUsed.symm
      rw [hLeft.eq_nil]
      rfl
  | case2 content b rest hFeed =>
      obtain rfl : used = [] := List.append_left_eq_self.mp hUsed.symm
      obtain ⟨rest', rfl, -⟩ := hLeft.of_cons
      rw [List.nil_append, readFrom.eq_def]
      dsimp only
      rw [if_pos hFeed]
  | case3 content b rest hFeed hSame hSingle =>
      obtain ⟨later, rfl, hLater⟩ := exists_of_suffix_cons List.suffix_rfl hUsed
      obtain rfl : later = [] := List.append_left_eq_self.mp hLater.symm
      rw [List.singleton_append, readFrom.eq_def]
      dsimp only
      rw [if_neg hFeed, if_pos hSame, if_pos hSingle]
  | case4 content b rest hFeed hSame hTriple hQuotes =>
      obtain ⟨after, rfl⟩ := List.isPrefixOf_iff_prefix.mp hQuotes
      obtain rfl : used = [b, quote, quote] :=
        List.append_cancel_right
          (show used ++ after = [b, quote, quote] ++ after from hUsed.symm)
      rw [List.cons_append, readFrom.eq_def]
      dsimp only
      rw [if_neg hFeed, if_pos hSame, if_neg hTriple, if_pos (by simp)]
      rfl
  | case5 content b rest hFeed hSame hTriple hQuotes ih =>
      obtain ⟨later, rfl, hLater⟩ :=
        exists_of_suffix_cons (suffix_readFrom ..) hUsed
      have hLine := hLeft.append later
      rw [← hLater] at hLine
      rw [List.cons_append, readFrom.eq_def]
      dsimp only
      rw [if_neg hFeed, if_pos hSame, if_neg hTriple, if_neg, ih hLater hLeft]
      rwa [hLine.isPrefixOf_eq (by simp [hQuote.symm])]
  | case6 content b hFeed hOther hSlash =>
      rw [List.append_nil] at hUsed
      rw [hLeft.eq_nil, List.append_nil, ← hUsed, readFrom.eq_def]
      dsimp only
      rw [if_neg hFeed, if_neg hOther, if_pos hSlash]
  | case7 content b hFeed hOther hSlash letter rest hRaw ih =>
      obtain ⟨later, rfl, hLater⟩ :=
        exists_of_suffix_cons_cons (suffix_readFrom ..) hUsed
      refine (readFrom_escape hFeed hOther hSlash ..).trans ?_
      rw [if_pos hRaw]
      exact ih hLater hLeft
  | case8 content b hFeed hOther hSlash letter rest hRaw hJoined ih =>
      obtain ⟨later, rfl, hLater⟩ :=
        exists_of_suffix_cons_cons (suffix_readFrom ..) hUsed
      refine (readFrom_escape hFeed hOther hSlash ..).trans ?_
      rw [if_neg hRaw, if_pos hJoined]
      exact ih hLater hLeft
  | case9 content b hFeed hOther hSlash letter hRaw hJoined hCode d d' rest ih =>
      obtain ⟨digits, rfl, hDigits⟩ :=
        exists_of_suffix_cons_cons
          ((suffix_readFrom ..).trans (List.suffix_append [d, d'] rest))
          hUsed
      obtain ⟨later, rfl, hLater⟩ :=
        exists_of_suffix_cons_cons (suffix_readFrom ..) hDigits
      refine (readFrom_escape hFeed hOther hSlash ..).trans ?_
      rw [if_neg hRaw, if_neg hJoined, if_pos hCode]
      exact ih hLater hLeft
  | case10 content b hFeed hOther hSlash letter hRaw hJoined hCode digits
      hDigits =>
      rw [List.append_nil] at hUsed
      rw [hLeft.eq_nil, List.append_nil, ← hUsed]
      refine (readFrom_escape hFeed hOther hSlash ..).trans ?_
      rw [if_neg hRaw, if_neg hJoined, if_pos hCode]
      split
      · exact absurd rfl (hDigits _ _ _)
      · rfl
  | case11 content b hFeed hOther hSlash letter rest hRaw hJoined hCode c
      hEscape ih =>
      obtain ⟨later, rfl, hLater⟩ :=
        exists_of_suffix_cons_cons (suffix_readFrom ..) hUsed
      refine (readFrom_escape hFeed hOther hSlash ..).trans ?_
      rw [if_neg hRaw, if_neg hJoined, if_neg hCode, hEscape]
      exact ih hLater hLeft
  | case12 content b hFeed hOther hSlash letter rest hRaw hJoined hCode
      hEscape ih =>
      obtain ⟨later, rfl, hLater⟩ :=
        exists_of_suffix_cons_cons (suffix_readFrom ..) hUsed
      refine (readFrom_escape hFeed hOther hSlash ..).trans ?_
      rw [if_neg hRaw, if_neg hJoined, if_neg hCode, hEscape]
      exact ih hLater hLeft
  | case13 content b rest hFeed hOther hSlash ih =>
      obtain ⟨later, rfl, hLater⟩ :=
        exists_of_suffix_cons (suffix_readFrom ..) hUsed
      rw [List.cons_append, readFrom.eq_def]
      dsimp only
      rw [if_neg hFeed, if_neg hOther, if_neg hSlash]
      exact ih hLater hLeft

/- A string after its first quote. -/
theorem StringBody.read_sameLine
    {quote : UInt8}
    (hQuote : quote ≠ 10)
    (raw : Bool)
    {bytes used left : List UInt8}
    (hUsed : bytes = used ++ (read quote raw bytes).rest)
    (hLeft : SameLine (read quote raw bytes).rest left) :
    read quote raw (used ++ left) =
      { read quote raw bytes with rest := left } := by
  have hLine := hLeft.append used
  rw [← hUsed] at hLine
  have hQuotes : 10 ∉ [quote, quote] := by simp [hQuote.symm]
  unfold read at hUsed hLeft ⊢
  rw [hLine.isPrefixOf_eq hQuotes]
  split
  · rename_i hTriple
    rw [if_pos hTriple] at hUsed hLeft
    obtain ⟨after, rfl⟩ := List.isPrefixOf_iff_prefix.mp hTriple
    obtain ⟨more, hMore⟩ := suffix_readFrom quote true raw [] after
    obtain rfl : quote :: quote :: more = used :=
      List.append_cancel_right
        ((congrArg (quote :: quote :: ·) hMore).trans hUsed)
    exact readFrom_sameLine hQuote true raw [] after hMore.symm hLeft
  · rename_i hSingle
    rw [if_neg hSingle] at hUsed hLeft
    exact readFrom_sameLine hQuote false raw [] bytes hUsed hLeft

------------------------------------------------------------
-- Numbers
------------------------------------------------------------

theorem Number.pointOf_line
    (line rest : List UInt8) :
    pointOf (line ++ 10 :: rest) =
      ((pointOf line).1, (pointOf line).2 ++ 10 :: rest) := by
  cases line with
  | nil => rfl
  | cons b line =>
      rw [List.cons_append, pointOf, pointOf]
      split
      · rw [takeWhile_line rfl, dropWhile_line rfl]
      · rfl

theorem Number.sign_line
    (line rest : List UInt8) :
    let isSign := fun b => b == Byte.of '+' || b == Byte.of '-'
    ((line ++ 10 :: rest).take 1).filter isSign =
        (line.take 1).filter isSign ∧
      (line ++ 10 :: rest).drop ((line.take 1).filter isSign).length =
        line.drop ((line.take 1).filter isSign).length ++ 10 :: rest := by
  intro isSign
  cases line with
  | nil => exact ⟨rfl, rfl⟩
  | cons b line =>
      refine ⟨rfl, ?_⟩
      rw [List.take_succ_cons, List.take_zero]
      cases hSign : isSign b with
      | true => simp [hSign]
      | false => simp [hSign]

theorem Number.scaleOf_line
    (line rest : List UInt8) :
    scaleOf (line ++ 10 :: rest) =
      ((scaleOf line).1, (scaleOf line).2 ++ 10 :: rest) := by
  cases line with
  | nil => rfl
  | cons e line =>
      have hSign := sign_line line rest
      dsimp only at hSign
      rw [List.cons_append, scaleOf, scaleOf]
      dsimp only
      rw [hSign.1, hSign.2, head?_line rfl, takeWhile_line rfl,
        dropWhile_line rfl]
      split
      · split <;> rfl
      · rfl

theorem decimalParts_line
    (line rest : List UInt8) :
    decimalParts (line ++ 10 :: rest) =
      ((decimalParts line).1, (decimalParts line).2.1,
        (decimalParts line).2.2 ++ 10 :: rest) := by
  rw [Number.decimalParts_eq rfl rfl, Number.decimalParts_eq rfl rfl,
    takeWhile_line rfl, dropWhile_line rfl, Number.pointOf_line,
    Number.scaleOf_line]

theorem literalBase_line
    (line rest : List UInt8) :
    literalBase (line ++ 10 :: rest) = literalBase line := by
  match line with
  | [] => exact (literalBase_of_lineFeed 0 rest).1
  | [b] => exact (literalBase_of_lineFeed b rest).2
  | b :: letter :: line => rfl

theorem NumberLiteral.readBased_line
    {line : List UInt8}
    (hBase : literalBase line ≠ 10)
    (base : Nat)
    (rest : List UInt8) :
    readBased base (line ++ 10 :: rest) =
      { readBased base line with
        rest := (readBased base line).rest ++ 10 :: rest } := by
  obtain ⟨zero, letter, line, rfl, -⟩ := two_of_literalBase hBase
  simp only [readBased, List.cons_append, List.drop_succ_cons,
    List.drop_zero, List.take_succ_cons, List.take_zero,
    takeWhile_line (p := Byte.isHexDigitOrSeparator) rfl,
    dropWhile_line (p := Byte.isHexDigitOrSeparator) rfl]
  split <;> rfl

theorem NumberLiteral.finish_line
    (isFloat : Bool)
    (digits : List Char)
    (text : String)
    (left rest : List UInt8) :
    readDecimal.finish isFloat digits text (left ++ 10 :: rest) =
      { readDecimal.finish isFloat digits text left with
        rest := left ++ 10 :: rest } := by
  unfold readDecimal.finish
  split
  · split <;> rfl
  · split <;> rfl

theorem NumberLiteral.readDecimal_line
    (line rest : List UInt8) :
    readDecimal (line ++ 10 :: rest) =
      { readDecimal line with
        rest := (readDecimal line).rest ++ 10 :: rest } := by
  simp only [readDecimal, decimalParts_line]
  cases (decimalParts line).2.2 with
  | nil =>
      rw [rest_finish]
      exact finish_line _ _ _ [] rest
  | cons b left =>
      dsimp only [List.cons_append]
      split
      · rfl
      · rw [rest_finish]
        exact finish_line _ _ _ (b :: left) rest

/- A number stands on one line. -/
theorem NumberLiteral.read_line
    (line rest : List UInt8) :
    read (line ++ 10 :: rest) =
      { read line with rest := (read line).rest ++ 10 :: rest } := by
  unfold read
  rw [literalBase_line]
  split
  · exact readDecimal_line line rest
  · rename_i hBase
    exact readBased_line hBase _ rest

/- Of numbers on the same line the same bytes are read. -/
theorem NumberLiteral.read_sameLine
    {bytes other read : List UInt8}
    (hSame : SameLine bytes other)
    (hRead : bytes = read ++ (NumberLiteral.read bytes).rest) :
    ∃ left,
      other = read ++ left ∧
        NumberLiteral.read other =
          { NumberLiteral.read bytes with rest := left } := by
  cases hSame with
  | same => exact ⟨_, hRead, rfl⟩
  | feed line rest rest' =>
      rw [read_line] at hRead ⊢
      rw [read_line]
      refine ⟨(NumberLiteral.read line).rest ++ 10 :: rest', ?_, rfl⟩
      rw [← List.append_assoc] at hRead ⊢
      exact congrArg (· ++ 10 :: rest') (List.append_cancel_right hRead)

------------------------------------------------------------
-- Marks
------------------------------------------------------------

/- A mark stands on one line. -/
theorem SameLine.mark?_eq
    {bytes other : List UInt8}
    (hSame : SameLine bytes other) :
    LexState.mark? other = LexState.mark? bytes := by
  have hLong :
      (LexState.longMarks.find? fun entry => entry.1.isPrefixOf other) =
        LexState.longMarks.find? fun entry => entry.1.isPrefixOf bytes :=
    List.find?_congr fun entry hMem =>
      hSame.isPrefixOf_eq (LexState.onLine_of_longMarks entry hMem).1
  unfold LexState.mark?
  rw [hLong]
  split
  · rfl
  · cases bytes with
    | nil => rw [hSame.eq_nil]
    | cons b rest =>
        obtain ⟨rest', rfl, -⟩ := hSame.of_cons
        rfl

end SnippetGrader
