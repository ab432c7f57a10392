import SnippetGrader.Proofs.Token.Lexing
import SnippetGrader.Proofs.Token.Numerals

/-
  Where characters start among the bytes of a text.

  Numbers and marks are of ASCII, whose bytes are characters of
  their own. A string may split a character by an escape, but it
  ends with a quote, before a line feed or with the text. So
  what follows any of them starts with a character.

  Key definitions include:
    * `Byte.continuesChar`
    * `Aligned`, `Leaves`, `ReadsAscii`

  Key theorems include:
    * `aligned_encodeUtf8`
    * `StringBody.leaves_read`
    * `NumberLiteral.readsAscii_read`, `LexState.readsAscii_mark`
    * `length_splitLines`
-/

namespace SnippetGrader

------------------------------------------------------------
-- Aligned Bytes
------------------------------------------------------------

/- Whether a byte continues a character. -/
def Byte.continuesChar (b : UInt8) : Bool :=
  b &&& 0xC0 == 0x80

/- No byte continues a character after one of ASCII. -/
def KeepsChars (b next : UInt8) : Prop :=
  b < 0x80 → Byte.continuesChar next = false

/- Bytes that start with a character, and of which each of ASCII is one. -/
def Aligned (bytes : List UInt8) : Prop :=
  (0 :: bytes).IsChain KeepsChars

theorem Aligned.head
    {b : UInt8}
    {rest : List UInt8}
    (hAligned : Aligned (b :: rest)) :
    Byte.continuesChar b = false :=
  (List.isChain_cons_cons.mp hAligned).1 (by decide)

theorem Byte.continuesChar_iff :
    ∀ b : UInt8, continuesChar b = true ↔ 0x80 ≤ b ∧ b < 0xC0 := by
  apply forall_of_codes
  decide +kernel

/- A byte of ASCII starts a character. -/
theorem Byte.continuesChar_of_ascii
    (b : UInt8)
    (hAscii : b < 0x80) :
    continuesChar b = false :=
  Bool.eq_false_iff.mpr fun hContinues =>
    UInt8.not_le.mpr hAscii ((continuesChar_iff b).mp hContinues).1

theorem aligned_of_chain
    {bytes : List UInt8}
    (hChain : bytes.IsChain KeepsChars)
    (hHead : ∀ b ∈ bytes.head?, b < 0x80) :
    Aligned bytes := by
  cases bytes with
  | nil => exact .singleton _
  | cons b rest =>
      refine List.isChain_cons_cons.mpr ⟨fun _ => ?_, hChain⟩
      exact Byte.continuesChar_of_ascii b (hHead b rfl)

/- After a byte of ASCII a character starts. -/
theorem aligned_of_ascii
    {b : UInt8}
    {rest : List UInt8}
    (hChain : (b :: rest).IsChain KeepsChars)
    (hAscii : b < 0x80) :
    Aligned rest := by
  cases rest with
  | nil => exact .singleton _
  | cons next rest =>
      rw [List.isChain_cons_cons] at hChain
      exact List.isChain_cons_cons.mpr ⟨fun _ => hChain.1 hAscii, hChain.2⟩

theorem Aligned.chain
    {bytes : List UInt8}
    (hAligned : Aligned bytes) :
    bytes.IsChain KeepsChars :=
  hAligned.suffix (List.suffix_cons _ _)

/- After bytes of ASCII a character starts. -/
theorem Aligned.after_ascii
    {read rest : List UInt8}
    (hAligned : Aligned (read ++ rest))
    (hAscii : ∀ b ∈ read, b < 0x80) :
    Aligned rest := by
  induction read with
  | nil => exact hAligned
  | cons b read ih =>
      rw [List.forall_mem_cons] at hAscii
      exact ih (aligned_of_ascii hAligned.chain hAscii.1) hAscii.2

/- Before a byte of ASCII a character ends. -/
theorem Aligned.before_ascii
    {read rest : List UInt8}
    (hAligned : Aligned (read ++ rest))
    (hAscii : ∀ b ∈ rest.head?, b < 0x80) :
    Aligned rest :=
  aligned_of_chain (hAligned.chain.suffix (List.suffix_append _ _)) hAscii

/- A byte that opens a longer character starts it. -/
theorem Byte.continuesChar_of_lead
    (b : UInt8)
    (hLead : 0xC0 ≤ b) :
    continuesChar b = false :=
  Bool.eq_false_iff.mpr fun hContinues =>
    UInt8.not_le.mpr ((continuesChar_iff b).mp hContinues).2 hLead

/- A character beyond ASCII starts with a byte that continues none. -/
theorem utf8EncodeChar_of_large
    {c : Char}
    (hLarge : 0x80 ≤ c.toNat) :
    ∃ lead later,
      String.utf8EncodeChar c = lead :: later ∧ 0xC0 ≤ lead := by
  have hLead {n : Nat} (hRange : 0xC0 ≤ n ∧ n < 256) :
      (0xC0 : UInt8) ≤ UInt8.ofNat n := by
    rw [UInt8.le_iff_toNat_le, Text.toNat_ofNat hRange.2]
    exact hRange.1
  have hOne : ¬ c.val.toNat ≤ 127 := by
    change 0x80 ≤ c.val.toNat at hLarge
    omega
  unfold String.utf8EncodeChar
  dsimp only
  rw [if_neg hOne]
  split
  · exact ⟨_, _, rfl, hLead (by omega)⟩
  · split
    · exact ⟨_, _, rfl, hLead (by omega)⟩
    · exact ⟨_, _, rfl, hLead (by omega)⟩

/- Bytes beyond ASCII may stand before a character. -/
theorem chain_of_beyond
    {bytes rest : List UInt8}
    (hBeyond : ∀ b ∈ bytes, 0x80 ≤ b)
    (hRest : Aligned rest) :
    (bytes ++ rest).IsChain KeepsChars := by
  induction bytes with
  | nil => exact hRest.suffix (List.suffix_cons _ _)
  | cons b bytes ih =>
      rw [List.forall_mem_cons] at hBeyond
      have hChain := ih hBeyond.2
      rw [List.cons_append]
      rcases hTail : bytes ++ rest with _ | ⟨next, tail⟩
      · exact .singleton _
      · rw [hTail] at hChain
        exact List.isChain_cons_cons.mpr
          ⟨fun hAscii => absurd hBeyond.1 (by simpa using hAscii), hChain⟩

/- The bytes of a character, and those of a text that they start. -/
theorem aligned_utf8EncodeChar
    (c : Char)
    {rest : List UInt8}
    (hRest : Aligned rest) :
    Aligned (String.utf8EncodeChar c ++ rest) := by
  by_cases hSmall : c.toNat < 0x80
  · have hAscii : (UInt8.ofNat c.toNat) < 0x80 := by
      rw [UInt8.lt_iff_toNat_lt, Text.toNat_ofNat (by omega)]
      exact hSmall
    rw [Text.utf8EncodeChar_of_small hSmall, List.singleton_append]
    refine List.isChain_cons_cons.mpr
      ⟨fun _ => Byte.continuesChar_of_ascii _ hAscii, ?_⟩
    cases rest with
    | nil => exact .singleton _
    | cons next rest =>
        have hNext := List.isChain_cons_cons.mp hRest
        exact List.isChain_cons_cons.mpr
          ⟨fun _ => hNext.1 (by decide), hNext.2⟩
  · obtain ⟨lead, later, hBytes, hLead⟩ :=
      utf8EncodeChar_of_large (not_lt.mp hSmall)
    have hChain : (lead :: later ++ rest).IsChain KeepsChars := by
      refine chain_of_beyond ?_ hRest
      rw [← hBytes]
      intro b hMem
      rcases Text.mem_utf8EncodeChar hMem with ⟨hAscii, _⟩ | ⟨_, hBeyond⟩
      · exact absurd hAscii hSmall
      · exact UInt8.le_iff_toNat_le.mpr hBeyond
    rw [hBytes]
    exact List.isChain_cons_cons.mpr
      ⟨fun _ => Byte.continuesChar_of_lead lead hLead, hChain⟩
/- The bytes of a text are aligned. -/
theorem aligned_encodeUtf8
    (text : String) :
    Aligned (Text.encodeUtf8 text) := by
  rw [Text.encodeUtf8_eq]
  induction text.toList with
  | nil => exact .singleton _
  | cons c chars ih => exact aligned_utf8EncodeChar c ih

------------------------------------------------------------
-- Lines
------------------------------------------------------------

/- Only a line feed has the byte of one. -/
theorem Text.count_utf8EncodeChar
    (c : Char) :
    (String.utf8EncodeChar c).count 10 = if c = '\n' then 1 else 0 := by
  by_cases hSmall : c.toNat < 0x80
  · rw [utf8EncodeChar_of_small hSmall, List.count_singleton]
    refine if_congr ?_ rfl rfl
    rw [beq_iff_eq, ← UInt8.toNat_inj, toNat_ofNat (by omega),
      ← Char.toNat_inj]
    rfl
  · rw [List.count_eq_zero_of_not_mem, if_neg]
    · rintro rfl
      exact hSmall (by decide)
    · intro hMem
      rcases mem_utf8EncodeChar hMem with ⟨hAscii, _⟩ | ⟨_, hBeyond⟩
      · exact hSmall hAscii
      · exact absurd hBeyond (by decide)

/- A text has one line more than its bytes have line feeds. -/
theorem length_splitLines
    (chars : List Char) :
    (splitLines chars).length =
      (chars.flatMap String.utf8EncodeChar).count 10 + 1 := by
  induction chars with
  | nil => rfl
  | cons c chars ih =>
      rw [List.flatMap_cons, List.count_append,
        Text.count_utf8EncodeChar, splitLines]
      split
      · rw [List.length_cons, ih]
        omega
      · split
        · rename_i hLines
          rw [hLines] at ih
          simp at ih
        · rename_i line lines hLines
          rw [hLines] at ih
          rw [List.length_cons] at ih ⊢
          omega

------------------------------------------------------------
-- Strings
------------------------------------------------------------

/-
  The bytes that are left after some have been read start with a
  character, even if the others do not.
-/
def Leaves (bytes rest : List UInt8) : Prop :=
  bytes.IsChain KeepsChars → rest <:+ bytes ∧ Aligned rest

theorem leaves_nil
    (bytes : List UInt8) :
    Leaves bytes [] :=
  fun _ => ⟨List.nil_suffix, .singleton _⟩

theorem leaves_after_ascii
    {b : UInt8}
    (hAscii : b < 0x80)
    (rest : List UInt8) :
    Leaves (b :: rest) rest :=
  fun hChain => ⟨List.suffix_cons _ _, aligned_of_ascii hChain hAscii⟩

theorem Leaves.later
    {bytes rest : List UInt8}
    (hLeaves : Leaves bytes rest)
    (read : List UInt8) :
    Leaves (read ++ bytes) rest := by
  intro hChain
  have hRest := hLeaves (hChain.suffix (List.suffix_append _ _))
  exact ⟨hRest.1.trans (List.suffix_append _ _), hRest.2⟩

/- Three quotes end where a character starts. -/
theorem leaves_quotes
    {quote : UInt8}
    (hQuote : quote < 0x80)
    {bytes : List UInt8}
    (hQuotes : [quote, quote].isPrefixOf bytes = true) :
    ∃ rest,
      bytes = [quote, quote] ++ rest ∧
        bytes.drop 2 = rest ∧ Leaves bytes rest := by
  obtain ⟨rest, rfl⟩ := List.isPrefixOf_iff_prefix.mp hQuotes
  exact ⟨rest, rfl, rfl, (leaves_after_ascii hQuote rest).later [quote]⟩

/- A string ends with a quote, before a line feed or with the text. -/
theorem StringBody.leaves_readFrom
    {quote : UInt8}
    (hQuote : quote < 0x80)
    (triple raw : Bool)
    (content bytes : List UInt8) :
    Leaves bytes (readFrom quote triple raw content bytes).rest := by
  fun_induction readFrom quote triple raw content bytes with
  | case1 | case6 | case10 => exact leaves_nil _
  | case2 content b rest hFeed =>
      intro hChain
      refine ⟨List.suffix_rfl, aligned_of_chain hChain ?_⟩
      rintro _ ⟨⟩
      rw [Bool.and_eq_true, beq_iff_eq] at hFeed
      rw [hFeed.1]
      decide
  | case3 content b rest _ hEnd =>
      rw [beq_iff_eq.mp hEnd]
      exact leaves_after_ascii hQuote rest
  | case4 content b rest _ _ _ hQuotes =>
      obtain ⟨after, -, hDrop, hAfter⟩ := leaves_quotes hQuote hQuotes
      rw [hDrop]
      exact hAfter.later [b]
  | case5 content b rest _ _ _ _ ih => exact ih.later [b]
  | case7 content b _ _ _ letter rest _ ih => exact ih.later [b, letter]
  | case8 content b _ _ _ letter rest _ _ ih => exact ih.later [b, letter]
  | case9 content b _ _ _ letter _ _ _ d d' rest ih =>
      exact ih.later [b, letter, d, d']
  | case11 content b _ _ _ letter rest _ _ _ _ _ ih =>
      exact ih.later [b, letter]
  | case12 content b _ _ _ letter rest _ _ _ _ ih =>
      exact ih.later [b, letter]
  | case13 content b rest _ _ _ ih => exact ih.later [b]

theorem StringBody.leaves_read
    {quote : UInt8}
    (hQuote : quote < 0x80)
    (raw : Bool)
    (bytes : List UInt8) :
    Leaves bytes (read quote raw bytes).rest := by
  unfold read
  split
  · rename_i hQuotes
    obtain ⟨rest, hBytes, hDrop, -⟩ := leaves_quotes hQuote hQuotes
    rw [hDrop, hBytes]
    exact (leaves_readFrom hQuote true raw [] rest).later _
  · exact leaves_readFrom hQuote false raw [] bytes

------------------------------------------------------------
-- Bytes of ASCII
------------------------------------------------------------

/- Bytes of ASCII that others start with. -/
def ReadsAscii (bytes read rest : List UInt8) : Prop :=
  bytes = read ++ rest ∧ ∀ b ∈ read, b < 0x80

theorem ReadsAscii.trans
    {bytes read middle more rest : List UInt8}
    (hFirst : ReadsAscii bytes read middle)
    (hLast : ReadsAscii middle more rest) :
    ReadsAscii bytes (read ++ more) rest := by
  refine ⟨?_, ?_⟩
  · rw [hFirst.1, hLast.1, List.append_assoc]
  · intro b hMem
    exact (List.mem_append.mp hMem).elim (hFirst.2 b) (hLast.2 b)

theorem readsAscii_takeWhile
    {test : UInt8 → Bool}
    (hTest : ∀ b, test b = true → b < 0x80)
    (bytes : List UInt8) :
    ReadsAscii bytes (bytes.takeWhile test) (bytes.dropWhile test) :=
  ⟨List.takeWhile_append_dropWhile.symm,
    fun b hMem => hTest b (List.all_eq_true.mp List.all_takeWhile b hMem)⟩

theorem ReadsAscii.cons
    {b : UInt8}
    {bytes read rest : List UInt8}
    (hAscii : b < 0x80)
    (hRest : ReadsAscii bytes read rest) :
    ReadsAscii (b :: bytes) (b :: read) rest :=
  ⟨by rw [hRest.1, List.cons_append],
    List.forall_mem_cons.mpr ⟨hAscii, hRest.2⟩⟩

theorem readsAscii_nil
    (bytes : List UInt8) :
    ReadsAscii bytes [] bytes :=
  ⟨rfl, by simp⟩

theorem Byte.ascii_of_isHexDigitOrSeparator :
    ∀ b, isHexDigitOrSeparator b = true → b < 0x80 := by
  intro b hByte
  simp only [isHexDigitOrSeparator, isHexDigit, isDigit, Bool.or_eq_true,
    Bool.and_eq_true, decide_eq_true_eq, beq_iff_eq] at hByte
  rcases hByte with ((hRange | hRange) | hRange) | rfl
  · exact UInt8.lt_of_le_of_lt hRange.2 (by decide)
  · exact UInt8.lt_of_le_of_lt hRange.2 (by decide)
  · exact UInt8.lt_of_le_of_lt hRange.2 (by decide)
  · decide

theorem Byte.isHexDigitOrSeparator_of_digit :
    ∀ b, isDigitOrSeparator b = true → isHexDigitOrSeparator b = true := by
  intro b hByte
  simp only [isDigitOrSeparator, Bool.or_eq_true] at hByte
  simp only [isHexDigitOrSeparator, isHexDigit, Bool.or_eq_true]
  exact hByte.imp_left fun hDigit => .inl (.inl hDigit)

theorem Byte.ascii_of_isDigitOrSeparator
    (b : UInt8)
    (hPart : isDigitOrSeparator b = true) :
    b < 0x80 :=
  ascii_of_isHexDigitOrSeparator b (isHexDigitOrSeparator_of_digit b hPart)

------------------------------------------------------------
-- Numbers
------------------------------------------------------------

theorem Number.readsAscii_pointOf
    (bytes : List UInt8) :
    ReadsAscii bytes (pointOf bytes).1 (pointOf bytes).2 := by
  cases bytes with
  | nil => exact readsAscii_nil []
  | cons b tail =>
      rw [pointOf]
      split
      · rename_i hPoint
        refine .cons ?_
          (readsAscii_takeWhile Byte.ascii_of_isDigitOrSeparator tail)
        rw [beq_iff_eq.mp hPoint]
        decide
      · exact readsAscii_nil _

theorem Number.readsAscii_sign
    (bytes : List UInt8) :
    let sign :=
      (bytes.take 1).filter fun b => b == Byte.of '+' || b == Byte.of '-'
    ReadsAscii bytes sign (bytes.drop sign.length) := by
  cases bytes with
  | nil => exact readsAscii_nil []
  | cons b tail =>
      cases hSign : b == Byte.of '+' || b == Byte.of '-' with
      | false => simpa [hSign] using readsAscii_nil _
      | true =>
          have hAscii : b < 0x80 := by
            simp only [Bool.or_eq_true, beq_iff_eq] at hSign
            rcases hSign with rfl | rfl <;> decide
          simpa [hSign] using (readsAscii_nil tail).cons hAscii

theorem Number.readsAscii_scaleOf
    (bytes : List UInt8) :
    ReadsAscii bytes (scaleOf bytes).1 (scaleOf bytes).2 := by
  cases bytes with
  | nil => exact readsAscii_nil []
  | cons e tail =>
      rw [scaleOf]
      dsimp only
      split
      · rename_i hLetter
        have hAscii : e < 0x80 := by
          simp only [Bool.or_eq_true, beq_iff_eq] at hLetter
          rcases hLetter with rfl | rfl <;> decide
        split
        · exact ((readsAscii_sign tail).trans
            (readsAscii_takeWhile Byte.ascii_of_isDigitOrSeparator
              _)).cons hAscii
        · exact readsAscii_nil _
      · exact readsAscii_nil _

theorem readsAscii_decimalParts
    (bytes : List UInt8) :
    ReadsAscii bytes (decimalParts bytes).2.1 (decimalParts bytes).2.2 := by
  rw [Number.decimalParts_eq rfl rfl]
  exact ((readsAscii_takeWhile Byte.ascii_of_isDigitOrSeparator bytes).trans
    (Number.readsAscii_pointOf _)).trans (Number.readsAscii_scaleOf _)

/- A number in another base than ten starts with two bytes of ASCII. -/
theorem two_of_literalBase
    {bytes : List UInt8}
    (hBase : literalBase bytes ≠ 10) :
    ∃ zero letter rest,
      bytes = zero :: letter :: rest ∧ zero < 0x80 ∧ letter < 0x80 := by
  unfold literalBase at hBase
  split at hBase
  · rename_i zero letter rest
    refine ⟨zero, letter, rest, rfl, ?_⟩
    split at hBase
    · exact absurd rfl hBase
    · rename_i hZero
      rw [bne_iff_ne, not_not] at hZero
      refine ⟨by rw [hZero]; decide, ?_⟩
      by_contra hBeyond
      have hOther (c : Char) (hAscii : Byte.of c < 0x80) :
          (letter == Byte.of c) = false := by
        rw [beq_eq_false_iff_ne]
        rintro rfl
        exact hBeyond hAscii
      rw [hOther 'x' (by decide), hOther 'X' (by decide),
        hOther 'o' (by decide), hOther 'O' (by decide),
        hOther 'b' (by decide), hOther 'B' (by decide)] at hBase
      exact hBase rfl
  · exact absurd rfl hBase

theorem NumberLiteral.rest_readBased
    (base : Nat)
    (bytes : List UInt8) :
    (readBased base bytes).rest =
      (bytes.drop 2).dropWhile Byte.isHexDigitOrSeparator := by
  unfold readBased
  dsimp only
  split <;> rfl

theorem NumberLiteral.rest_finish
    (isFloat : Bool)
    (digits : List Char)
    (text : String)
    (rest : List UInt8) :
    (readDecimal.finish isFloat digits text rest).rest = rest := by
  unfold readDecimal.finish
  split
  · split <;> rfl
  · split <;> rfl

/- A number that starts at a byte is of ASCII. -/
theorem NumberLiteral.readsAscii_read
    {b : UInt8}
    (hFirst : Byte.isDigit b = true ∨ b = Byte.of '.')
    (tail : List UInt8) :
    ∃ written,
      written ≠ [] ∧
        ReadsAscii (b :: tail) written (read (b :: tail)).rest := by
  unfold NumberLiteral.read
  split
  · obtain ⟨written, hWritten⟩ := decimalParts_cons hFirst tail
    have hParts := readsAscii_decimalParts (b :: tail)
    rw [hWritten] at hParts
    unfold readDecimal
    dsimp only
    split
    · rename_i suffix rest hRest
      rw [hRest] at hParts
      split
      · rename_i hLetter
        have hAscii : suffix < 0x80 := by
          simp only [Bool.or_eq_true, beq_iff_eq] at hLetter
          rcases hLetter with rfl | rfl <;> decide
        exact ⟨_, List.cons_ne_nil _ _,
          hParts.trans ((readsAscii_nil rest).cons hAscii)⟩
      · rw [rest_finish, hRest]
        exact ⟨_, List.cons_ne_nil _ _, hParts⟩
    · rename_i hRest
      rw [rest_finish, hRest]
      rw [hRest] at hParts
      exact ⟨_, List.cons_ne_nil _ _, hParts⟩
  · rename_i hBase
    obtain ⟨zero, letter, rest, hBytes, hZero, hLetter⟩ :=
      two_of_literalBase hBase
    rw [rest_readBased, hBytes]
    exact ⟨_, List.cons_ne_nil _ _,
      ((readsAscii_takeWhile Byte.ascii_of_isHexDigitOrSeparator rest).cons hLetter).cons
        hZero⟩

------------------------------------------------------------
-- Marks
------------------------------------------------------------

theorem LexState.ascii_of_longMarks :
    ∀ entry ∈ longMarks, entry.1 ≠ [] ∧ ∀ b ∈ entry.1, b < 0x80 := by
  simp [longMarks_eq]

theorem LexState.ascii_of_shortMarks :
    ∀ entry ∈ shortMarks, entry.1 < 0x80 := by
  decide

/- A mark is of ASCII. -/
theorem LexState.readsAscii_mark
    {bytes : List UInt8}
    {mark : Mark}
    {length : Nat}
    (hMark : mark? bytes = some (mark, length)) :
    bytes.take length ≠ [] ∧
      ReadsAscii bytes (bytes.take length) (bytes.drop length) := by
  unfold mark? at hMark
  split at hMark
  · rename_i written found hFound
    cases hMark
    have hPrefix : written.isPrefixOf bytes = true := by
      simpa using List.find?_some hFound
    obtain ⟨rest, rfl⟩ := List.isPrefixOf_iff_prefix.mp hPrefix
    have hWritten := ascii_of_longMarks _ (List.mem_of_find?_eq_some hFound)
    dsimp only at hWritten ⊢
    rw [List.take_left, List.drop_left]
    exact ⟨hWritten.1, rfl, hWritten.2⟩
  · split at hMark
    · cases hMark
    · rename_i b rest _
      obtain ⟨found, hLookup, hFound⟩ := Option.map_eq_some_iff.mp hMark
      cases hFound
      obtain ⟨before, after, hMarks, -⟩ :=
        List.lookup_eq_some_iff.mp hLookup
      have hAscii : b < 0x80 :=
        ascii_of_shortMarks (b, mark) (by rw [hMarks]; simp)
      exact ⟨List.cons_ne_nil _ _, (readsAscii_nil rest).cons hAscii⟩

end SnippetGrader
