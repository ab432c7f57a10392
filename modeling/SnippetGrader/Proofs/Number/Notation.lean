import SnippetGrader.Number.Notation
import SnippetGrader.Proofs.Number.Shortest
import SnippetGrader.Proofs.Number.Unsigned

/-
  The written form of a float.

  A float without a sign is written as digits, a fraction and an
  exponent, of which the last two may be absent. What is written
  stands for the shortest decimal that is the float.

  Key definitions include:
    * `Number.Numeral`

  Key theorems include:
    * `Number.spells_valueText`
-/

namespace SnippetGrader.Number

------------------------------------------------------------
-- Numerals
------------------------------------------------------------

/- The parts of a number that is written with digits. -/
structure Numeral where
  whole : List Char
  fraction : List Char
  exponent : Option Int

namespace Numeral

/- The characters of an exponent. Its sign is always written. -/
def exponentChars : Option Int → List Char
  | none => []
  | some exponent =>
      'e' :: ((if exponent < 0 then "" else "+") ++
        toString exponent).toList

/- The characters of a fraction, after the point. -/
def fractionChars (fraction : List Char) : List Char :=
  if fraction.isEmpty then [] else '.' :: fraction

/- A number as it is written. -/
def chars (numeral : Numeral) : List Char :=
  numeral.whole ++ fractionChars numeral.fraction ++
    exponentChars numeral.exponent

/- The number that is written. -/
def value (numeral : Numeral) : ℚ :=
  Nat.ofDigitChars 10 (numeral.whole ++ numeral.fraction) 0 /
      10 ^ numeral.fraction.length *
    (10 : ℚ) ^ numeral.exponent.getD 0

/- Parts that are read back from what is written. -/
structure WellFormed (numeral : Numeral) : Prop where
  whole : ∀ c ∈ numeral.whole, c.isDigit = true
  fraction : ∀ c ∈ numeral.fraction, c.isDigit = true
  starts : numeral.whole ≠ []
  marked : numeral.fraction = [] → numeral.exponent.isSome = true

------------------------------------------------------------
-- Splitting Lists
------------------------------------------------------------

/- A list is split at the first item of a kind. -/
theorem split_append
    {α : Type}
    (p : α → Bool)
    {before : List α}
    (after : List α)
    (hBefore : ∀ c ∈ before, p c = true)
    (hAfter : ∀ c rest, after = c :: rest → p c = false) :
    (before ++ after).takeWhile p = before ∧
      (before ++ after).dropWhile p = after := by
  have hTake : after.takeWhile p = [] := by
    cases after with
    | nil => rfl
    | cons c rest => simp [hAfter c rest rfl]
  have hDrop : after.dropWhile p = after := by
    cases after with
    | nil => rfl
    | cons c rest => simp [hAfter c rest rfl]
  rw [List.takeWhile_append_of_pos hBefore,
    List.dropWhile_append_of_pos hBefore, hTake, hDrop]
  exact ⟨List.append_nil before, rfl⟩

end Numeral

------------------------------------------------------------
-- Written Decimals
------------------------------------------------------------

/- A text that is a numeral and stands for a number. -/
def Spells (text : String) (number : ℚ) : Prop :=
  ∃ numeral : Numeral,
    numeral.WellFormed ∧
      text.toList = numeral.chars ∧
        numeral.value = number

theorem isDigit_of_mem_toString
    {n : Nat}
    {c : Char}
    (hMem : c ∈ (toString n).toList) :
    c.isDigit = true := by
  rw [Nat.toString_eq_repr, Nat.toList_repr] at hMem
  exact Nat.isDigit_of_mem_toDigits (by norm_num) (by norm_num) hMem

theorem ofDigitChars_toString
    (n : Nat) :
    Nat.ofDigitChars 10 (toString n).toList 0 = n := by
  rw [Nat.toString_eq_repr, Nat.toList_repr]
  exact Nat.ofDigitChars_ten_toDigits

theorem isDigit_of_mem_replicate
    {count : Nat}
    {c : Char}
    (hMem : c ∈ List.replicate count '0') :
    c.isDigit = true := by
  rw [(List.mem_replicate.mp hMem).2]
  rfl

theorem toString_ne_nil
    (n : Nat) :
    (toString n).toList ≠ [] := by
  rw [Nat.toString_eq_repr, Nat.toList_repr]
  exact Nat.toDigits_ne_nil

namespace Decimal

/- An integral decimal is written with a zero after the point. -/
theorem spells_integral
    {decimal : Decimal}
    (hExponent : 0 ≤ decimal.exponent) :
    Spells (decimal.positional ++ ".0") decimal.value := by
  have hNat :
      (decimal.exponent.toNat : Int) = decimal.exponent :=
    Int.toNat_of_nonneg hExponent
  have hText :
      decimal.positional.toList =
        (toString decimal.digits).toList ++
          List.replicate decimal.exponent.toNat '0' := by
    unfold positional
    simp only [ge_iff_le, hExponent, if_true, zeros,
      String.toList_append, String.toList_ofList]
  refine ⟨⟨(toString decimal.digits).toList ++
    List.replicate decimal.exponent.toNat '0', ['0'], none⟩,
    ⟨?_, ?_, ?_, ?_⟩, ?_, ?_⟩
  · intro c hMem
    rcases List.mem_append.mp hMem with hDigit | hZero
    · exact isDigit_of_mem_toString hDigit
    · exact isDigit_of_mem_replicate hZero
  · intro c hMem
    rw [List.mem_singleton.mp hMem]
    rfl
  · intro hNil
    exact toString_ne_nil _ (List.append_eq_nil_iff.mp hNil).1
  · intro hNil
    cases hNil
  · rw [String.toList_append, hText]
    simp [Numeral.chars, Numeral.fractionChars,
      Numeral.exponentChars]
  · have hDigits :
        Nat.ofDigitChars 10
            ((toString decimal.digits).toList ++
              List.replicate decimal.exponent.toNat '0' ++ ['0']) 0 =
          10 * (10 ^ decimal.exponent.toNat * decimal.digits) := by
      rw [Nat.ofDigitChars_append, Nat.ofDigitChars_append,
        ofDigitChars_toString, Nat.ofDigitChars_replicate_zero]
      rfl
    have hPower :
        (10 : ℚ) ^ decimal.exponent =
          10 ^ decimal.exponent.toNat := by
      rw [← zpow_natCast, hNat]
    unfold Numeral.value value
    dsimp only
    rw [hDigits, hPower, List.length_singleton, Option.getD_none,
      zpow_zero]
    push_cast
    ring

/- Any other decimal has as many places as its exponent says. -/
theorem spells_fraction
    {decimal : Decimal}
    (hExponent : decimal.exponent < 0) :
    Spells decimal.positional decimal.value := by
  have hNat :
      decimal.exponent = -((-decimal.exponent).toNat : Int) := by
    omega
  -- What remains is to say which digits stand before the point.
  suffices hSplit :
      ∃ whole fraction,
        decimal.positional.toList = whole ++ '.' :: fraction ∧
          (∀ c ∈ whole, c.isDigit = true) ∧
          (∀ c ∈ fraction, c.isDigit = true) ∧
          whole ≠ [] ∧
          fraction.length = (-decimal.exponent).toNat ∧
          Nat.ofDigitChars 10 (whole ++ fraction) 0 =
            decimal.digits by
    rcases hSplit with
      ⟨whole, fraction, hText, hWhole, hFraction, hStarts, hLength,
        hDigits⟩
    have hSome : fraction ≠ [] := by
      intro hNil
      rw [hNil, List.length_nil] at hLength
      omega
    refine ⟨⟨whole, fraction, none⟩,
      ⟨hWhole, hFraction, hStarts, fun hNil => absurd hNil hSome⟩,
      ?_, ?_⟩
    · rw [hText]
      simp [Numeral.chars, Numeral.fractionChars,
        Numeral.exponentChars, hSome]
    · unfold Numeral.value value
      dsimp only
      rw [hDigits, hLength, Option.getD_none, zpow_zero, mul_one,
        div_eq_mul_inv, ← zpow_natCast, ← zpow_neg, ← hNat]
  unfold positional
  simp only [ge_iff_le, not_le.mpr hExponent, if_false]
  generalize hPlaces : (-decimal.exponent).toNat = places
  have hDigit := @isDigit_of_mem_toString decimal.digits
  have hValue := ofDigitChars_toString decimal.digits
  generalize (toString decimal.digits).toList = digits at hDigit hValue ⊢
  split
  · rename_i hLong
    refine ⟨digits.take (digits.length - places),
      digits.drop (digits.length - places), ?_, ?_, ?_, ?_, ?_, ?_⟩
    · simp
    · intro c hMem
      exact hDigit (List.mem_of_mem_take hMem)
    · intro c hMem
      exact hDigit (List.mem_of_mem_drop hMem)
    · intro hNil
      have hLength := congrArg List.length hNil
      simp only [List.length_take, List.length_nil] at hLength
      omega
    · rw [List.length_drop]
      omega
    · rw [List.take_append_drop]
      exact hValue
  · rename_i hShort
    refine ⟨['0'],
      List.replicate (places - digits.length) '0' ++ digits,
      ?_, ?_, ?_, ?_, ?_, ?_⟩
    · simp [zeros]
    · intro c hMem
      rw [List.mem_singleton.mp hMem]
      rfl
    · intro c hMem
      rcases List.mem_append.mp hMem with hZero | hDigits
      · exact isDigit_of_mem_replicate hZero
      · exact hDigit hDigits
    · exact List.cons_ne_nil _ _
    · rw [List.length_append, List.length_replicate]
      omega
    · rw [Nat.ofDigitChars_append, Nat.ofDigitChars_append,
        Nat.ofDigitChars_replicate_zero]
      exact hValue

/- A decimal with an exponent has one digit before the point. -/
theorem spells_scientific
    (decimal : Decimal) :
    Spells decimal.scientific decimal.value := by
  have hDigit := @isDigit_of_mem_toString decimal.digits
  have hValue := ofDigitChars_toString decimal.digits
  have hSome := toString_ne_nil decimal.digits
  unfold scientific
  dsimp only
  generalize (toString decimal.digits).toList = digits
    at hDigit hValue hSome ⊢
  cases digits with
  | nil => exact absurd rfl hSome
  | cons first rest =>
      refine ⟨⟨[first], rest,
        some (decimal.exponent + ((first :: rest).length : Int) - 1)⟩,
        ⟨?_, ?_, List.cons_ne_nil _ _, fun _ => rfl⟩, ?_, ?_⟩
      · intro c hMem
        rw [List.mem_singleton.mp hMem]
        exact hDigit List.mem_cons_self
      · intro c hMem
        exact hDigit (List.mem_cons_of_mem _ hMem)
      · cases rest <;>
          simp [Numeral.chars, Numeral.fractionChars,
            Numeral.exponentChars]
      · unfold Numeral.value value
        dsimp only
        rw [List.singleton_append, hValue, List.length_cons]
        have hExponent :
            decimal.exponent + ((rest.length + 1 : Nat) : Int) - 1 =
              decimal.exponent + (rest.length : Int) := by
          push_cast
          ring
        rw [Option.getD_some, hExponent,
          zpow_add₀ (by norm_num : (10 : ℚ) ≠ 0), zpow_natCast]
        have hPower : (10 : ℚ) ^ rest.length ≠ 0 := by positivity
        field_simp

end Decimal

------------------------------------------------------------
-- Written Floats
------------------------------------------------------------

/- The number that a float without a sign is written for. -/
def magnitude (x : Float) : ℚ :=
  if x == 0.0 then 0 else (shortest x).value

/- A float without a sign that is not infinite. -/
structure Finite (x : Float) : Prop where
  unsigned : Unsigned x
  bounded : x.isInf = false

theorem spells_valueText
    {x : Float}
    (hFinite : Finite x) :
    Spells (valueText x) (magnitude x) := by
  have hSigned (text : String) : signed x text = text := by
    unfold signed
    rw [hFinite.unsigned.2]
    rfl
  unfold valueText magnitude
  simp only [hFinite.unsigned.1, hFinite.bounded, hSigned,
    Bool.false_eq_true, if_false]
  by_cases hZero : (x == 0.0) = true
  · simp only [hZero, if_true]
    refine ⟨⟨['0'], ['0'], none⟩, ⟨?_, ?_, ?_, ?_⟩, rfl, ?_⟩
    · intro c hMem
      rw [List.mem_singleton.mp hMem]
      rfl
    · intro c hMem
      rw [List.mem_singleton.mp hMem]
      rfl
    · exact List.cons_ne_nil _ _
    · intro hNil
      cases hNil
    · simp [Numeral.value, Nat.ofDigitChars]
  · simp only [hZero, Bool.false_eq_true, if_false]
    split
    · exact (shortest x).spells_scientific
    · split
      · rename_i hIntegral
        exact Decimal.spells_integral hIntegral
      · rename_i hFraction
        exact Decimal.spells_fraction (not_le.mp hFraction)

------------------------------------------------------------
-- Bits
------------------------------------------------------------

theorem canonical_ofFloat
    (x : Float) :
    (Binary64.ofFloat x).Canonical := by
  unfold Binary64.ofFloat
  simp only [Nat.pow_eq, beq_iff_eq]
  refine ⟨?_, ?_, ?_⟩ <;> dsimp only <;> split <;> omega

/- The parts of a float without a sign determine its bits. -/
theorem eq_of_parts
    {x y : Float}
    (hX : isNegative x = false)
    (hY : isNegative y = false)
    (hMantissa :
      (Binary64.ofFloat x).mantissa = (Binary64.ofFloat y).mantissa)
    (hExponent :
      (Binary64.ofFloat x).exponent = (Binary64.ofFloat y).exponent) :
    x = y := by
  have hXRange := x.toBits.toNat_lt
  have hYRange := y.toBits.toNat_lt
  simp only [isNegative, Binary64.ofFloat, Nat.pow_eq, beq_iff_eq,
    beq_eq_false_iff_ne] at hX hY hMantissa hExponent
  have hBits : x.toBits.toNat = y.toBits.toNat := by
    generalize x.toBits.toNat = m at *
    generalize y.toBits.toNat = n at *
    split_ifs at hMantissa hExponent <;> omega
  have hModel : x.toModel.toBits = y.toModel.toBits :=
    UInt64.toNat_inj.mp hBits
  rcases x with ⟨⟨_, _⟩⟩
  rcases y with ⟨⟨_, _⟩⟩
  cases hModel
  rfl

/- Only zero has no mantissa. -/
theorem mantissa_pos
    {x : Float}
    (hSign : isNegative x = false)
    (hZero : (x == 0.0) = false) :
    0 < (Binary64.ofFloat x).mantissa := by
  rw [Nat.pos_iff_ne_zero]
  intro hNone
  have hCanonical := canonical_ofFloat x
  have hExponent : (Binary64.ofFloat x).exponent = -1074 := by
    rcases hCanonical.normal with hNormal | hLeast
    · omega
    · exact hLeast
  have hParts :
      (Binary64.ofFloat 0.0).mantissa = 0 ∧
        (Binary64.ofFloat 0.0).exponent = -1074 := by
    decide
  have hSame : x = 0.0 :=
    eq_of_parts hSign unsigned_zero.2 (hNone.trans hParts.1.symm)
      (hExponent.trans hParts.2.symm)
  rw [hSame, beq_self unsigned_zero.1] at hZero
  cases hZero

end SnippetGrader.Number
