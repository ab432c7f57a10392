import SnippetGrader.Proofs.Number.Unsigned
import SnippetGrader.Proofs.Text.Decoding
import SnippetGrader.Proofs.Tree.Grammar
import SnippetGrader.Token.Literal

/-
  What literals and words denote.

  No literal denotes a negative number or NaN: a sign is a mark
  of its own. A word that is not reserved is a name.

  Key definitions include:
    * `TokenKind.ReadsBack`

  Key theorems include:
    * `NumberLiteral.readsBack_read`
    * `readsBack_word`
-/

namespace SnippetGrader

/- A token that could have been read from a text. -/
def TokenKind.ReadsBack : TokenKind → Prop
  | .int value => 0 ≤ value
  | .float value =>
      value.isNaN = false ∧ Number.isNegative value = false
  | .name id => IsName id
  | _ => True

------------------------------------------------------------
-- Classes of Bytes
------------------------------------------------------------

namespace Byte

theorem isDigit_iff
    (b : UInt8) :
    isDigit b = true ↔ 48 ≤ b.toNat ∧ b.toNat ≤ 57 := by
  simp only [isDigit, Bool.and_eq_true, decide_eq_true_eq,
    UInt8.le_iff_toNat_le]
  exact Iff.rfl

theorem startsWord_iff
    (b : UInt8) :
    startsWord b = true ↔
      97 ≤ b.toNat ∧ b.toNat ≤ 122 ∨
        65 ≤ b.toNat ∧ b.toNat ≤ 90 ∨
          b.toNat = 95 ∨ 0x80 ≤ b.toNat := by
  simp only [startsWord, isLetter, Bool.or_eq_true,
    Bool.and_eq_true, decide_eq_true_eq, ge_iff_le,
    UInt8.le_iff_toNat_le, beq_iff_eq, ← UInt8.toNat_inj]
  change
    ((97 ≤ b.toNat ∧ b.toNat ≤ 122 ∨
      65 ≤ b.toNat ∧ b.toNat ≤ 90) ∨
        b.toNat = 95) ∨ 128 ≤ b.toNat ↔ _
  omega

theorem startsWord_ofNat
    {b : UInt8}
    (hByte : b.toNat < 0x80)
    (hStarts : startsWord b = true) :
    Text.startsWord (Char.ofNat b.toNat) = true := by
  have hAll :
      ∀ n < 0x80,
        97 ≤ n ∧ n ≤ 122 ∨ 65 ≤ n ∧ n ≤ 90 ∨ n = 95 ∨ 0x80 ≤ n →
          Text.startsWord (Char.ofNat n) = true := by
    decide
  exact hAll _ hByte ((startsWord_iff b).mp hStarts)

theorem continuesWord_ofNat
    {b : UInt8}
    (hByte : b.toNat < 0x80)
    (hContinues : continuesWord b = true) :
    Text.continuesWord (Char.ofNat b.toNat) = true := by
  rw [Text.continuesWord, Bool.or_eq_true]
  rw [continuesWord, Bool.or_eq_true] at hContinues
  rcases hContinues with hStarts | hDigit
  · exact Or.inl (startsWord_ofNat hByte hStarts)
  · have hAll :
        ∀ n < 0x80, 48 ≤ n ∧ n ≤ 57 →
          (Char.ofNat n).isDigit = true := by
      decide
    exact Or.inr (hAll _ hByte ((isDigit_iff b).mp hDigit))

end Byte

------------------------------------------------------------
-- Words
------------------------------------------------------------

theorem Text.startsWord_of_beyond
    {c : Char}
    (hBeyond : 0x80 ≤ c.toNat) :
    Text.startsWord c = true := by
  simp [Text.startsWord, hBeyond]

/- A run of bytes of a word is decoded to the characters of one. -/
theorem decodeUtf8_word
    {b : UInt8}
    {rest : List UInt8}
    (hFirst : Byte.startsWord b = true)
    (hRest : ∀ b' ∈ rest, Byte.continuesWord b' = true) :
    ∃ c chars,
      Text.decodeUtf8 (b :: rest) = c :: chars ∧
        Text.startsWord c = true ∧
          ∀ c' ∈ chars, Text.continuesWord c' = true := by
  have hAll :
      ∀ c' ∈ Text.decodeUtf8 (b :: rest),
        Text.continuesWord c' = true := by
    intro c' hMem
    rcases Text.mem_decodeUtf8 hMem with hBeyond | hByte
    · rw [Text.continuesWord, Text.startsWord_of_beyond hBeyond,
        Bool.true_or]
    · obtain ⟨b', hMem', hSmall, rfl⟩ := hByte
      refine Byte.continuesWord_ofNat hSmall ?_
      rcases List.mem_cons.mp hMem' with rfl | hLater
      · rw [Byte.continuesWord, hFirst, Bool.true_or]
      · exact hRest b' hLater
  have hHead :
      ∃ c chars,
        Text.decodeUtf8 (b :: rest) = c :: chars ∧
          Text.startsWord c = true := by
    by_cases hSmall : b.toNat < 0x80
    · exact ⟨_, _, Text.decodeUtf8_cons hSmall rest,
        Byte.startsWord_ofNat hSmall hFirst⟩
    · obtain ⟨c, chars, hEq, hBeyond⟩ :=
        Text.decodeUtf8_cons_beyond (Nat.le_of_not_lt hSmall) rest
      exact ⟨c, chars, hEq, Text.startsWord_of_beyond hBeyond⟩
  obtain ⟨c, chars, hEq, hStarts⟩ := hHead
  rw [hEq] at hAll
  exact ⟨c, chars, hEq, hStarts,
    fun c' hMem => hAll c' (List.mem_cons_of_mem _ hMem)⟩

/- A word is a reserved one or a name. -/
theorem readsBack_word
    {b : UInt8}
    {rest : List UInt8}
    (hFirst : Byte.startsWord b = true)
    (hRest : ∀ b' ∈ rest, Byte.continuesWord b' = true) :
    TokenKind.ReadsBack
      ((TokenKind.ofWord? (Text.ofUtf8 (b :: rest))).getD
        (.name (Text.ofUtf8 (b :: rest)))) := by
  cases hWord : TokenKind.ofWord? (Text.ofUtf8 (b :: rest)) with
  | none =>
      obtain ⟨c, chars, hEq, hStarts, hLater⟩ :=
        decodeUtf8_word hFirst hRest
      refine ⟨hWord, c, chars, ?_, hStarts, hLater⟩
      rw [Text.ofUtf8, hEq, String.toList_ofList]
  | some kind =>
      unfold TokenKind.ofWord? at hWord
      split at hWord
      · cases hWord
        trivial
      · split at hWord
        · cases hWord
          trivial
        · cases hWord

------------------------------------------------------------
-- Numbers
------------------------------------------------------------

namespace Number

theorem takeSign_eq
    {c : Char}
    (hMinus : c ≠ '-')
    (hPlus : c ≠ '+')
    (chars : List Char) :
    takeSign (c :: chars) = (false, c :: chars) := by
  unfold takeSign
  split
  · rename_i hEq
    exact absurd (List.cons.inj hEq).1 hMinus
  · rename_i hEq
    exact absurd (List.cons.inj hEq).1 hPlus
  · rfl

theorem nonneg_of_readWord?
    {base : Nat}
    {chars : List Char}
    (hSign : (takeSign chars).1 = false)
    {value : Int}
    (hRead : readWord? base chars = some value) :
    0 ≤ value := by
  unfold readWord? at hRead
  cases hTaken : takeSign chars with
  | mk negative digits =>
      rw [hTaken] at hRead hSign
      simp only at hSign
      subst hSign
      dsimp only at hRead
      split at hRead
      · have hFit := (fitWord?_eq_some_iff _ _).mp hRead
        rw [← hFit.2]
        exact Int.natCast_nonneg _
      · cases hRead

/- A magnitude that starts with a digit or a point has no name. -/
theorem readFloat?_cons
    {c : Char}
    (hFirst : isDigit c = true ∨ c = '.')
    (chars : List Char) :
    readFloat? (c :: chars) = readMagnitude? (c :: chars) := by
  have hMinus : c ≠ '-' := by
    rintro rfl
    revert hFirst
    decide
  have hPlus : c ≠ '+' := by
    rintro rfl
    revert hFirst
    decide
  have hFold : foldAscii c ≠ 'i' ∧ foldAscii c ≠ 'n' := by
    have hSame : foldAscii c = c := by
      unfold foldAscii
      rw [if_neg]
      rcases hFirst with hDigit | rfl
      · unfold isDigit at hDigit
        simp only [Bool.and_eq_true, decide_eq_true_eq,
          Char.le_def, UInt32.le_iff_toNat_le] at hDigit ⊢
        have hNine : ('9' : Char).val.toNat = 57 := rfl
        have hA : ('A' : Char).val.toNat = 65 := rfl
        omega
      · decide
    rw [hSame]
    constructor <;>
      · rintro rfl
        revert hFirst
        decide
  have hNamed : namedFloat? (c :: chars) = none := by
    unfold namedFloat?
    split
    all_goals first
      | rfl
      | (rename_i hEq
         have hList := congrArg String.toList hEq
         rw [String.toList_ofList, List.map_cons] at hList
         first
          | exact absurd (List.cons.inj hList).1 hFold.1
          | exact absurd (List.cons.inj hList).1 hFold.2)
  unfold readFloat?
  rw [takeSign_eq hMinus hPlus]
  simp only [hNamed, Option.none_or, Bool.false_eq_true, if_false,
    Option.map_id']

theorem unsigned_of_readFloat?
    {c : Char}
    (hFirst : isDigit c = true ∨ c = '.')
    {chars : List Char}
    {x : Float}
    (hRead : readFloat? (c :: chars) = some x) :
    Unsigned x := by
  rw [readFloat?_cons hFirst] at hRead
  exact unsigned_of_readMagnitude? hRead

end Number

/- A run of bytes that starts with a digit is decoded to one. -/
theorem digitsOf_cons
    {b : UInt8}
    (hFirst : Byte.isDigit b = true ∨ b = Byte.of '.')
    (rest : List UInt8) :
    digitsOf (b :: rest) = Char.ofNat b.toNat :: digitsOf rest ∧
      (Number.isDigit (Char.ofNat b.toNat) = true ∨
        Char.ofNat b.toNat = '.') := by
  rcases hFirst with hDigit | rfl
  · have hRange := (Byte.isDigit_iff b).mp hDigit
    have hAll :
        ∀ n < 0x80, 48 ≤ n ∧ n ≤ 57 →
          Number.isDigit (Char.ofNat n) = true ∧
            (Char.ofNat n != '_') = true := by
      decide
    have hChar := hAll b.toNat (by omega) hRange
    refine ⟨?_, Or.inl hChar.1⟩
    rw [digitsOf, Text.decodeUtf8_cons (by omega),
      List.filter_cons, if_pos hChar.2]
    rfl
  · exact ⟨rfl, Or.inr rfl⟩

/- The bytes of a decimal start with the first byte. -/
theorem decimalParts_cons
    {b : UInt8}
    (hFirst : Byte.isDigit b = true ∨ b = Byte.of '.')
    (rest : List UInt8) :
    ∃ written, (decimalParts (b :: rest)).2.1 = b :: written := by
  unfold decimalParts
  rcases hFirst with hDigit | rfl
  · have hPart : Byte.isDigitOrSeparator b = true := by
      rw [Byte.isDigitOrSeparator, hDigit, Bool.true_or]
    rw [List.takeWhile_cons_of_pos hPart]
    exact ⟨_, rfl⟩
  · exact ⟨_, rfl⟩

/- What is read of a decimal, given its characters. -/
theorem readsBack_finish
    {c : Char}
    (hFirst : Number.isDigit c = true ∨ c = '.')
    (isFloat : Bool)
    (chars : List Char)
    (text : String)
    (rest : List UInt8) :
    (NumberLiteral.readDecimal.finish isFloat (c :: chars) text
      rest).kind.ReadsBack := by
  have hSign : Number.takeSign (c :: chars) = (false, c :: chars) := by
    refine Number.takeSign_eq ?_ ?_ chars <;>
      · rintro rfl
        revert hFirst
        decide
  unfold NumberLiteral.readDecimal.finish
  split
  · split
    · rename_i hRead
      exact Number.unsigned_of_readFloat? hFirst hRead
    · exact Number.unsigned_ofScientific 0 true 1
  · split
    · rename_i hRead
      exact Number.nonneg_of_readWord? (by rw [hSign]) hRead
    · exact Int.le_refl 0

theorem readsBack_readBased
    (base : Nat)
    (bytes : List UInt8) :
    (NumberLiteral.readBased base bytes).kind.ReadsBack := by
  unfold NumberLiteral.readBased
  dsimp only
  split
  · rename_i hRead
    refine Number.nonneg_of_readWord? ?_ hRead
    -- No byte of the digits is that of a sign.
    unfold Number.takeSign
    split
    · rename_i hEq
      exfalso
      have hMem :
          '-' ∈ digitsOf
            ((bytes.drop 2).takeWhile Byte.isHexDigitOrSeparator) := by
        rw [hEq]
        exact List.mem_cons_self
      rcases Text.mem_decodeUtf8 (List.mem_filter.mp hMem).1 with
        hBeyond | ⟨b, hMem', hSmall, hEq'⟩
      · exact absurd hBeyond (by decide)
      · have hHex := List.all_eq_true.mp List.all_takeWhile b hMem'
        have hAll :
            ∀ n < 0x80, '-' = Char.ofNat n → n = 45 := by
          decide
        have hMinus : b = 45 :=
          UInt8.toNat_inj.mp (hAll b.toNat hSmall hEq')
        rw [hMinus] at hHex
        exact absurd hHex (by decide)
    · rfl
    · rfl
  · exact Int.le_refl 0

/- A number that starts with a digit or a point has no sign. -/
theorem NumberLiteral.readsBack_read
    {b : UInt8}
    (hFirst : Byte.isDigit b = true ∨ b = Byte.of '.')
    (rest : List UInt8) :
    (NumberLiteral.read (b :: rest)).kind.ReadsBack := by
  unfold NumberLiteral.read
  split
  · obtain ⟨written, hWritten⟩ := decimalParts_cons hFirst rest
    obtain ⟨hDigits, hChar⟩ := digitsOf_cons hFirst written
    unfold readDecimal
    rw [← hWritten] at hDigits
    dsimp only
    rw [hDigits]
    split
    · split
      · exact Int.le_refl 0
      · exact readsBack_finish hChar _ _ _ _
    · exact readsBack_finish hChar _ _ _ _
  · exact readsBack_readBased _ _

end SnippetGrader
