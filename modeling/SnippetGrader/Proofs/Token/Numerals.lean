import SnippetGrader.Proofs.Number.Reading
import SnippetGrader.Proofs.Text.Encoding
import SnippetGrader.Proofs.Token.Literals

/-
  Numbers are read back from their digits.

  A numeral is read part by part, up to a byte that goes on with
  none of them. So the digits of an integer are read as it, and
  the text of a float is.

  Key definitions include:
    * `Byte.isBreak`
    * `Number.bytesOf`, `Number.EndsNumeral`

  Key theorems include:
    * `Number.decimalParts_numeral`
    * `Number.read_int`, `Number.read_float`
-/

namespace SnippetGrader

------------------------------------------------------------
-- Bytes after a Token
------------------------------------------------------------

/- What holds of the bytes of all codes holds of all bytes. -/
theorem Byte.forall_of_codes
    {holds : UInt8 → Prop}
    (hCodes : ∀ n < 256, holds (UInt8.ofNat n)) :
    ∀ b, holds b := by
  intro b
  have hByte := hCodes b.toNat b.toNat_lt
  rwa [UInt8.ofNat_toNat] at hByte

/- What holds of the ten digits holds of every digit. -/
theorem Byte.forall_of_digits
    {holds : UInt8 → Prop}
    (hDigits : ∀ n < 10, holds (UInt8.ofNat (48 + n))) :
    ∀ b, isDigit b = true → holds b := by
  intro b hDigit
  obtain ⟨hLow, hHigh⟩ := Bool.and_eq_true_iff.mp hDigit
  have hLeast : 48 ≤ b.toNat :=
    UInt8.le_iff_toNat_le.mp (of_decide_eq_true hLow)
  have hMost : b.toNat ≤ 57 :=
    UInt8.le_iff_toNat_le.mp (of_decide_eq_true hHigh)
  have hByte := hDigits (b.toNat - 48) (by omega)
  rwa [Nat.add_sub_cancel' hLeast, UInt8.ofNat_toNat] at hByte

/- A byte of a class is none of the bytes outside of it. -/
theorem Byte.beq_eq_false
    {among : UInt8 → Bool}
    {b : UInt8}
    (hByte : among b = true)
    (other : UInt8)
    (hOther : among other = false) :
    (b == other) = false := by
  refine beq_eq_false_iff_ne.mpr fun hSame => ?_
  rw [hSame, hOther] at hByte
  cases hByte

/- A class that no digit is of has no digits. -/
theorem Byte.isDigit_eq_false
    {among : UInt8 → Bool}
    {b : UInt8}
    (hByte : among b = true)
    (hDigits : ∀ n < 10, among (UInt8.ofNat (48 + n)) = false) :
    isDigit b = false := by
  have hOthers : ∀ b, isDigit b = true → among b = false :=
    forall_of_digits hDigits
  refine Bool.eq_false_iff.mpr fun hDigit => ?_
  rw [hOthers b hDigit] at hByte
  cases hByte

/- Whether a byte continues no word and opens no string. -/
def Byte.isBreak (b : UInt8) : Bool :=
  !continuesWord b && b != of '"' && b != of '\''

/- A byte after a number goes on with none of its parts. -/
theorem Byte.of_isBreak :
    ∀ b,
      isBreak b = true →
        (!isDigitOrSeparator b && b != of 'e' && b != of 'E' &&
          b != of 'j' && b != of 'J' && b != of 'x' && b != of 'X' &&
            b != of 'o' && b != of 'O' && b != of 'b' && b != of 'B') =
          true := by
  intro b hBreak
  have hDigit : isDigit b = false :=
    isDigit_eq_false hBreak (by decide)
  have hOthers := beq_eq_false hBreak
  simp (disch := decide) only [isDigitOrSeparator, bne, hDigit, hOthers,
    Bool.or_self, Bool.not_false, Bool.and_self]

------------------------------------------------------------
-- Bytes of Numerals
------------------------------------------------------------

namespace Number

open SnippetGrader.Number.Numeral

/- The bytes of characters. -/
def bytesOf (chars : List Char) : List UInt8 :=
  chars.flatMap String.utf8EncodeChar

theorem bytesOf_ne_nil
    {chars : List Char}
    (hChars : chars ≠ []) :
    bytesOf chars ≠ [] := by
  intro hBytes
  have hDecode := Text.decodeFrom_encode chars []
  rw [← bytesOf, hBytes] at hDecode
  simp only [List.append_nil, Text.decodeFrom] at hDecode
  exact hChars hDecode.symm

theorem isDigit_of_mem_bytesOf
    {chars : List Char}
    (hDigits : ∀ c ∈ chars, c.isDigit = true)
    {b : UInt8}
    (hMem : b ∈ bytesOf chars) :
    Byte.isDigit b = true := by
  obtain ⟨c, hChar, hByte⟩ := List.mem_flatMap.mp hMem
  have hDigit := hDigits c hChar
  simp only [Char.isDigit, Bool.and_eq_true, decide_eq_true_eq,
    ge_iff_le, UInt32.le_iff_toNat_le] at hDigit
  change 48 ≤ c.toNat ∧ c.toNat ≤ 57 at hDigit
  rw [Byte.isDigit_iff]
  rcases Text.mem_utf8EncodeChar hByte with ⟨_, hSame⟩ | ⟨hBeyond, _⟩
  · omega
  · omega

/- Digits are read up to a byte that is neither one nor a separator. -/
theorem split_digits
    {chars : List Char}
    (hDigits : ∀ c ∈ chars, c.isDigit = true)
    {after : List UInt8}
    (hAfter : ∀ b ∈ after.head?, Byte.isDigitOrSeparator b = false) :
    (bytesOf chars ++ after).takeWhile Byte.isDigitOrSeparator =
        bytesOf chars ∧
      (bytesOf chars ++ after).dropWhile Byte.isDigitOrSeparator =
        after := by
  refine split_append _ after ?_ ?_
  · intro b hMem
    rw [Byte.isDigitOrSeparator, isDigit_of_mem_bytesOf hDigits hMem,
      Bool.true_or]
  · intro b rest hCons
    exact hAfter b (by rw [hCons]; rfl)

/- An exponent is written as a letter, a sign and digits. -/
theorem exponentChars_some
    (exponent : Int) :
    ∃ sign n,
      (sign = '+' ∨ sign = '-') ∧
        exponentChars (some exponent) =
          'e' :: sign :: (toString (n : Nat)).toList := by
  unfold exponentChars
  by_cases hNegative : exponent < 0
  · obtain ⟨n, rfl⟩ := Int.eq_negSucc_of_lt_zero hNegative
    refine ⟨'-', n + 1, Or.inr rfl, ?_⟩
    dsimp only
    rw [if_pos hNegative, String.empty_append]
    simp [Int.toString_eq_repr, Int.repr]
  · obtain ⟨n, rfl⟩ := Int.eq_ofNat_of_zero_le (not_lt.mp hNegative)
    refine ⟨'+', n, Or.inl rfl, ?_⟩
    dsimp only
    rw [if_neg hNegative, String.toList_append]
    rfl

/- Bytes that end a number. A point does if the number already has one. -/
structure EndsNumeral (numeral : Numeral) (after : List UInt8) : Prop where
  breaks : ∀ b ∈ after.head?, Byte.isBreak b = true
  pointless :
    numeral.fraction = [] → numeral.exponent = none →
      ∀ b ∈ after.head?, b ≠ Byte.of '.'

/- The bytes of a point and the digits after it, and those after them. -/
def pointOf : List UInt8 → List UInt8 × List UInt8
  | [] => ([], [])
  | b :: tail =>
      if b == Byte.of '.' then
        (b :: tail.takeWhile Byte.isDigitOrSeparator,
          tail.dropWhile Byte.isDigitOrSeparator)
      else ([], b :: tail)

/- The bytes of an exponent, and those after them. -/
def scaleOf : List UInt8 → List UInt8 × List UInt8
  | [] => ([], [])
  | e :: tail =>
      if e == Byte.of 'e' || e == Byte.of 'E' then
        let sign :=
          (tail.take 1).filter fun b => b == Byte.of '+' || b == Byte.of '-'
        let digits := tail.drop sign.length
        if (digits.head?.map Byte.isDigit).getD false then
          (e :: sign ++ digits.takeWhile Byte.isDigitOrSeparator,
            digits.dropWhile Byte.isDigitOrSeparator)
        else ([], e :: tail)
      else ([], e :: tail)

/- A decimal is read part by part. -/
theorem decimalParts_eq
    {bytes whole afterWhole : List UInt8}
    (hWhole : bytes.takeWhile Byte.isDigitOrSeparator = whole)
    (hAfter : bytes.dropWhile Byte.isDigitOrSeparator = afterWhole) :
    decimalParts bytes =
      (!(pointOf afterWhole).1.isEmpty ||
          !(scaleOf (pointOf afterWhole).2).1.isEmpty,
        whole ++ (pointOf afterWhole).1 ++
          (scaleOf (pointOf afterWhole).2).1,
        (scaleOf (pointOf afterWhole).2).2) := by
  unfold decimalParts
  rw [hWhole, hAfter]
  cases afterWhole with
  | nil => rfl
  | cons b tail =>
      dsimp only [pointOf]
      by_cases hPoint : (b == Byte.of '.') = true
      · simp only [hPoint, if_true]
        cases tail.dropWhile Byte.isDigitOrSeparator <;> rfl
      · simp only [hPoint]
        rfl

/- Bytes that go on with no part of a number. -/
def EndsScale (after : List UInt8) : Prop :=
  ∀ b ∈ after.head?,
    Byte.isDigitOrSeparator b = false ∧ b ≠ Byte.of 'e' ∧ b ≠ Byte.of 'E'

theorem EndsNumeral.endsScale
    {numeral : Numeral}
    {after : List UInt8}
    (hEnds : EndsNumeral numeral after) :
    EndsScale after := by
  intro b hHead
  have hByte := Byte.of_isBreak b (hEnds.breaks b hHead)
  simp only [Bool.and_eq_true, Bool.not_eq_true', bne_iff_ne] at hByte
  exact ⟨hByte.1.1.1.1.1.1.1.1.1.1, hByte.1.1.1.1.1.1.1.1.1.2,
    hByte.1.1.1.1.1.1.1.1.2⟩

/- An exponent is read whole. -/
theorem scaleOf_exponentChars
    (exponent : Option Int)
    {after : List UInt8}
    (hEnds : EndsScale after) :
    scaleOf (bytesOf (exponentChars exponent) ++ after) =
      (bytesOf (exponentChars exponent), after) := by
  cases exponent with
  | none =>
      cases after with
      | nil => rfl
      | cons b rest =>
          have hByte := hEnds b rfl
          simp [exponentChars, bytesOf, scaleOf, hByte]
  | some exponent =>
      obtain ⟨sign, n, hSign, hExponent⟩ := exponentChars_some exponent
      have hDigits : ∀ c ∈ (toString n).toList, c.isDigit = true :=
        fun c => isDigit_of_mem_toString
      have hLast := split_digits hDigits fun b hHead => (hEnds b hHead).1
      have hFirst :
          (((bytesOf (toString n).toList ++ after).head?.map
            Byte.isDigit).getD false) = true := by
        cases hChars : bytesOf (toString n).toList with
        | nil => exact absurd hChars (bytesOf_ne_nil (toString_ne_nil n))
        | cons b rest =>
            exact isDigit_of_mem_bytesOf hDigits
              (hChars ▸ List.mem_cons_self)
      have hBytes :
          bytesOf ('e' :: sign :: (toString n).toList) =
            Byte.of 'e' :: Byte.of sign :: bytesOf (toString n).toList := by
        rcases hSign with rfl | rfl <;> rfl
      have hSigned :
          ([Byte.of sign].filter fun b =>
            b == Byte.of '+' || b == Byte.of '-') = [Byte.of sign] := by
        rcases hSign with rfl | rfl <;> rfl
      rw [hExponent, hBytes]
      simp only [List.cons_append, scaleOf]
      rw [List.take_succ_cons, List.take_zero, hSigned]
      simp only [List.length_singleton, List.drop_succ_cons,
        List.drop_zero, hFirst, hLast.1, hLast.2]
      rfl

/- A fraction is read whole. -/
theorem pointOf_fractionChars
    {fraction : List Char}
    (hFraction : ∀ c ∈ fraction, c.isDigit = true)
    {after : List UInt8}
    (hAfter : ∀ b ∈ after.head?, Byte.isDigitOrSeparator b = false)
    (hPoint : fraction = [] → ∀ b ∈ after.head?, b ≠ Byte.of '.') :
    pointOf (bytesOf (fractionChars fraction) ++ after) =
      (bytesOf (fractionChars fraction), after) := by
  rcases fraction with _ | ⟨first, later⟩
  · cases after with
    | nil => rfl
    | cons b rest =>
        have hByte := hPoint rfl b rfl
        simp [fractionChars, bytesOf, pointOf, hByte]
  · have hSplit := split_digits hFraction hAfter
    have hBytes :
        bytesOf (fractionChars (first :: later)) =
          Byte.of '.' :: bytesOf (first :: later) := rfl
    rw [hBytes, List.cons_append, pointOf, if_pos (beq_self_eq_true _),
      hSplit.1, hSplit.2]

/- A numeral is read whole, up to a byte that ends it. -/
theorem decimalParts_numeral
    {numeral : Numeral}
    (hWhole : ∀ c ∈ numeral.whole, c.isDigit = true)
    (hFraction : ∀ c ∈ numeral.fraction, c.isDigit = true)
    {after : List UInt8}
    (hEnds : EndsNumeral numeral after) :
    decimalParts (bytesOf numeral.chars ++ after) =
      (!numeral.fraction.isEmpty || numeral.exponent.isSome,
        bytesOf numeral.chars, after) := by
  obtain ⟨whole, fraction, exponent⟩ := numeral
  dsimp only at hWhole hFraction ⊢
  have hExponent (b : UInt8)
      (hHead : b ∈ (bytesOf (exponentChars exponent) ++ after).head?) :
      Byte.isDigitOrSeparator b = false ∧
        (fraction = [] → b ≠ Byte.of '.') := by
    cases exponent with
    | none =>
        exact ⟨(hEnds.endsScale b hHead).1,
          fun hEmpty => hEnds.pointless hEmpty rfl b hHead⟩
    | some exponent =>
        obtain ⟨sign, n, _, hChars⟩ := exponentChars_some exponent
        rw [hChars] at hHead
        cases hHead
        exact ⟨by decide, fun _ => by decide⟩
  have hFractionHead :
      ∀ b ∈
        (bytesOf (fractionChars fraction) ++
          (bytesOf (exponentChars exponent) ++ after)).head?,
        Byte.isDigitOrSeparator b = false := by
    intro b hHead
    rcases fraction with _ | ⟨first, later⟩
    · exact (hExponent b hHead).1
    · cases hHead
      decide
  have hBytes :
      bytesOf (chars ⟨whole, fraction, exponent⟩) =
        bytesOf whole ++ bytesOf (fractionChars fraction) ++
          bytesOf (exponentChars exponent) := by
    simp only [chars, bytesOf, List.flatMap_append]
  have hSplit := split_digits hWhole hFractionHead
  have hParts :=
    decimalParts_eq hSplit.1 hSplit.2
  rw [pointOf_fractionChars hFraction (fun b hHead => (hExponent b hHead).1)
      fun hEmpty b hHead => (hExponent b hHead).2 hEmpty] at hParts
  dsimp only at hParts
  rw [scaleOf_exponentChars exponent hEnds.endsScale] at hParts
  rw [hBytes]
  simp only [List.append_assoc] at hParts ⊢
  rw [hParts]
  cases fraction <;> cases exponent <;> rfl

/- The characters that numerals are made of. -/
def isNumeralChar (c : Char) : Bool :=
  c.isDigit || c == '.' || c == 'e' || c == '+' || c == '-'

theorem isNumeralChar_of_mem_chars
    {numeral : Numeral}
    (hWhole : ∀ c ∈ numeral.whole, c.isDigit = true)
    (hFraction : ∀ c ∈ numeral.fraction, c.isDigit = true) :
    ∀ c ∈ numeral.chars, isNumeralChar c = true := by
  have hDigit {c : Char} (hDigit : c.isDigit = true) :
      isNumeralChar c = true := by
    simp [isNumeralChar, hDigit]
  intro c hMem
  rcases List.mem_append.mp hMem with hMantissa | hExponent
  · rcases List.mem_append.mp hMantissa with hChar | hChar
    · exact hDigit (hWhole c hChar)
    · unfold fractionChars at hChar
      split at hChar
      · cases hChar
      · rcases List.mem_cons.mp hChar with rfl | hLater
        · rfl
        · exact hDigit (hFraction c hLater)
  · cases hScale : numeral.exponent with
    | none =>
        rw [hScale] at hExponent
        cases hExponent
    | some exponent =>
        obtain ⟨sign, n, hSign, hChars⟩ := exponentChars_some exponent
        rw [hScale, hChars] at hExponent
        rcases List.mem_cons.mp hExponent with rfl | hLater
        · rfl
        · rcases List.mem_cons.mp hLater with rfl | hChar
          · rcases hSign with rfl | rfl <;> rfl
          · exact hDigit (isDigit_of_mem_toString hChar)

theorem digitsOf_numeral
    {chars : List Char}
    (hChars : ∀ c ∈ chars, isNumeralChar c = true) :
    digitsOf (bytesOf chars) = chars := by
  have hDecode : Text.decodeUtf8 (bytesOf chars) = chars := by
    have hAll := Text.decodeFrom_encode chars []
    rwa [List.append_nil, Text.decodeFrom, List.append_nil] at hAll
  rw [digitsOf, hDecode, List.filter_eq_self]
  intro c hMem
  rw [bne_iff_ne]
  rintro rfl
  exact absurd (hChars _ hMem) (by decide)

/- Bytes that the letter of a base is not among. -/
theorem literalBase_eq_ten
    {b : UInt8}
    {rest : List UInt8}
    (hSecond :
      ∀ letter ∈ rest.head?,
        (letter != Byte.of 'x' && letter != Byte.of 'X' &&
          letter != Byte.of 'o' && letter != Byte.of 'O' &&
            letter != Byte.of 'b' && letter != Byte.of 'B') = true) :
    literalBase (b :: rest) = 10 := by
  cases rest with
  | nil => rfl
  | cons letter later =>
      have hLetter := hSecond letter rfl
      simp only [Bool.and_eq_true, bne_iff_ne] at hLetter
      obtain ⟨⟨⟨⟨⟨hx, hX⟩, ho⟩, hO⟩, hb⟩, hB⟩ := hLetter
      simp [literalBase, hx, hX, ho, hO, hb, hB]

theorem toNat_of_isNumeralChar
    {c : Char}
    (hChar : isNumeralChar c = true) :
    c.toNat < 0x80 := by
  simp only [isNumeralChar, Bool.or_eq_true, beq_iff_eq] at hChar
  rcases hChar with (((hDigit | rfl) | rfl) | rfl) | rfl
  · simp only [Char.isDigit, Bool.and_eq_true, decide_eq_true_eq,
      ge_iff_le, UInt32.le_iff_toNat_le] at hDigit
    change 48 ≤ c.toNat ∧ c.toNat ≤ 57 at hDigit
    omega
  all_goals decide

theorem bytesOf_cons_numeral
    {c : Char}
    (hChar : isNumeralChar c = true)
    (rest : List Char) :
    bytesOf (c :: rest) = UInt8.ofNat c.toNat :: bytesOf rest := by
  rw [bytesOf, List.flatMap_cons,
    Text.utf8EncodeChar_of_small (toNat_of_isNumeralChar hChar)]
  rfl

theorem marksNoBase_of_isNumeralChar
    {c : Char}
    (hChar : isNumeralChar c = true) :
    (UInt8.ofNat c.toNat != Byte.of 'x' &&
      UInt8.ofNat c.toNat != Byte.of 'X' &&
        UInt8.ofNat c.toNat != Byte.of 'o' &&
          UInt8.ofNat c.toNat != Byte.of 'O' &&
            UInt8.ofNat c.toNat != Byte.of 'b' &&
              UInt8.ofNat c.toNat != Byte.of 'B') = true := by
  have hAll :
      ∀ n < 0x80,
        isNumeralChar (Char.ofNat n) = true →
          (UInt8.ofNat n != Byte.of 'x' && UInt8.ofNat n != Byte.of 'X' &&
            UInt8.ofNat n != Byte.of 'o' && UInt8.ofNat n != Byte.of 'O' &&
              UInt8.ofNat n != Byte.of 'b' &&
                UInt8.ofNat n != Byte.of 'B') = true := by
    decide
  refine hAll c.toNat (toNat_of_isNumeralChar hChar) ?_
  rwa [Char.ofNat_toNat]

/- The number that a numeral is read as. -/
theorem read_numeral
    {numeral : Numeral}
    (hWhole : ∀ c ∈ numeral.whole, c.isDigit = true)
    (hFraction : ∀ c ∈ numeral.fraction, c.isDigit = true)
    (hStarts : numeral.whole ≠ [])
    {after : List UInt8}
    (hEnds : EndsNumeral numeral after) :
    NumberLiteral.read (bytesOf numeral.chars ++ after) =
      NumberLiteral.readDecimal.finish
        (!numeral.fraction.isEmpty || numeral.exponent.isSome)
        numeral.chars (String.ofList numeral.chars) after := by
  have hChars := isNumeralChar_of_mem_chars hWhole hFraction
  have hParts := decimalParts_numeral hWhole hFraction hEnds
  have hBase : literalBase (bytesOf numeral.chars ++ after) = 10 := by
    have hNonempty : numeral.chars ≠ [] :=
      List.append_ne_nil_of_left_ne_nil
        (List.append_ne_nil_of_left_ne_nil hStarts _) _
    obtain ⟨first, later, hCons⟩ := List.exists_cons_of_ne_nil hNonempty
    rw [hCons, List.forall_mem_cons] at hChars
    rw [hCons, bytesOf_cons_numeral hChars.1, List.cons_append]
    apply literalBase_eq_ten
    intro letter hHead
    rcases later with _ | ⟨second, more⟩
    · have hByte := Byte.of_isBreak letter (hEnds.breaks letter hHead)
      simp only [Bool.and_eq_true, Bool.not_eq_true', bne_iff_ne]
        at hByte ⊢
      simp [hByte]
    · have hSecond := hChars.2 second List.mem_cons_self
      rw [bytesOf_cons_numeral hSecond, List.cons_append] at hHead
      cases hHead
      exact marksNoBase_of_isNumeralChar hSecond
  unfold NumberLiteral.read
  simp only [hBase]
  unfold NumberLiteral.readDecimal
  simp only [hParts, digitsOf_numeral hChars]
  cases after with
  | nil => rfl
  | cons b rest =>
      have hByte := Byte.of_isBreak b (hEnds.breaks b rfl)
      simp only [Bool.and_eq_true, Bool.not_eq_true', bne_iff_ne] at hByte
      have hImaginary :
          (b == Byte.of 'j' || b == Byte.of 'J') = false := by
        simp [hByte]
      simp only [hImaginary]
      rfl

theorem encodeUtf8_of_toList
    {text : String}
    {chars : List Char}
    (hText : text.toList = chars) :
    Text.encodeUtf8 text = bytesOf chars := by
  rw [Text.encodeUtf8_eq, hText]
  rfl

/- An integer is read back from its digits. -/
theorem read_int
    {n : Nat}
    (hWord : inWord (n : Int) = true)
    {after : List UInt8}
    (hAfter :
      ∀ b ∈ after.head?, Byte.isBreak b = true ∧ b ≠ Byte.of '.') :
    NumberLiteral.read (Text.encodeUtf8 (toString (n : Int)) ++ after) =
      ⟨.int n, none, after⟩ := by
  have hChars :
      chars ⟨(toString n).toList, [], none⟩ = (toString n).toList := by
    simp [chars, fractionChars, exponentChars]
  have hRead :=
    @read_numeral ⟨(toString n).toList, [], none⟩
      (fun c => isDigit_of_mem_toString) (by simp) (toString_ne_nil n)
      after
      ⟨fun b hHead => (hAfter b hHead).1,
        fun _ _ b hHead => (hAfter b hHead).2⟩
  have hValue : readWord? 10 (toString n).toList = some (n : Int) := by
    obtain ⟨first, later, hCons⟩ :=
      List.exists_cons_of_ne_nil (toString_ne_nil n)
    have hDigit : first.isDigit = true :=
      isDigit_of_mem_toString (hCons ▸ List.mem_cons_self)
    have hSign : takeSign (first :: later) = (false, first :: later) := by
      refine takeSign_eq ?_ ?_ later <;>
        · rintro rfl
          revert hDigit
          decide
    rw [readWord?, hCons, hSign, ← hCons]
    dsimp only
    rw [readNat?_toString]
    exact (fitWord?_eq_some_iff _ _).mpr ⟨hWord, rfl⟩
  rw [hChars] at hRead
  have hText : (toString (n : Int)).toList = (toString n).toList := rfl
  rw [encodeUtf8_of_toList hText, hRead]
  unfold NumberLiteral.readDecimal.finish
  rw [if_neg (by simp), hValue]

/- A float is read back from its text. -/
theorem read_float
    {x : Float}
    (hFinite : Finite x)
    {after : List UInt8}
    (hAfter : ∀ b ∈ after.head?, Byte.isBreak b = true) :
    NumberLiteral.read (Text.encodeUtf8 (valueText x) ++ after) =
      ⟨.float x, none, after⟩ := by
  obtain ⟨numeral, hWell, hChars, -⟩ := spells_valueText hFinite
  have hRead :=
    read_numeral hWell.whole hWell.fraction hWell.starts
      (⟨hAfter, by
        intro hFraction hExponent
        have hMarked := hWell.marked hFraction
        rw [hExponent] at hMarked
        cases hMarked⟩ : EndsNumeral numeral after)
  have hFloat :
      (!numeral.fraction.isEmpty || numeral.exponent.isSome) = true := by
    cases hFraction : numeral.fraction with
    | nil => simpa using hWell.marked hFraction
    | cons first later => rfl
  have hValue : readFloat? numeral.chars = some x := by
    obtain ⟨first, later, hCons⟩ := List.exists_cons_of_ne_nil hWell.starts
    have hDigit : isDigit first = true := by
      rw [isDigit_eq]
      exact hWell.whole first (hCons ▸ List.mem_cons_self)
    have hMagnitude := readMagnitude?_valueText hFinite
    rw [hChars] at hMagnitude
    unfold chars at hMagnitude ⊢
    rw [hCons, List.cons_append, List.cons_append] at hMagnitude ⊢
    rw [readFloat?_cons (Or.inl hDigit), hMagnitude]
  rw [encodeUtf8_of_toList hChars, hRead, hFloat]
  unfold NumberLiteral.readDecimal.finish
  rw [if_pos rfl, hValue]

end Number

end SnippetGrader
