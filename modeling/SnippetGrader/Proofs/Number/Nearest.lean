import SnippetGrader.Number.Word
import SnippetGrader.Proofs.Number.Negation

/-
  The nearest floats of integers.

  An integer of a word is rounded to a float. Rounding keeps the
  order: an integer between two others that have the same float
  has that float too. An integer of at most 53 bits is a float
  itself, and beyond that several integers share one.

  Key definitions include:
    * `Number.rounded`

  Key theorems include:
    * `Number.rounded_mono`
    * `Number.beq_wordToFloat_iff`
    * `Number.rounded_of_small`
-/

namespace SnippetGrader.Number

open Float.Model
open Float.Model.UnpackedFloat

------------------------------------------------------------
-- The Nearest Mantissa
------------------------------------------------------------

/- Every number has a nearest mantissa. -/
theorem exists_nearest
    {number : ℚ}
    (hNonneg : 0 ≤ number) :
    ∃ mantissa, Nearest mantissa number := by
  obtain ⟨floor, part, hPart, hLess, rfl⟩ :
      ∃ (floor : Nat) (part : ℚ),
        0 ≤ part ∧ part < 1 ∧ number = floor + part :=
    ⟨⌊number⌋₊, number - ⌊number⌋₊,
      sub_nonneg.mpr (Nat.floor_le hNonneg),
      sub_left_lt_of_lt_add (Nat.lt_floor_add_one number),
      (add_sub_cancel _ _).symm⟩
  rcases lt_trichotomy part (1 / 2) with hLower | rfl | hUpper
  · exact ⟨floor, nearest_of_lt_half floor hPart hLower⟩
  · exact ⟨_, nearest_of_half floor⟩
  · exact ⟨_, nearest_of_half_lt floor hUpper hLess⟩

/- Every natural number of a word lies in the interval of some float. -/
theorem exists_within
    {n : Nat}
    (hPos : 0 < n)
    (hRange : n < 2 ^ 64) :
    ∃ parts : Binary64,
      parts.Canonical ∧ 0 < parts.mantissa ∧ parts.exponent ≤ 971 ∧
        (Rounding.ofParts parts).Within n := by
  set exponent : Int := (n.log2 : Int) - 52 with hExponent
  set scaled : ℚ := n / 2 ^ exponent with hScaled
  have hLog : n.log2 < 64 := (Nat.log2_lt (by omega)).mpr hRange
  have hUnit : (0 : ℚ) < 2 ^ exponent := by positivity
  have hPower : (2 : ℚ) ^ n.log2 = 2 ^ 52 * 2 ^ exponent := by
    rw [← zpow_natCast, ← zpow_natCast, ← zpow_add₀ (by norm_num), hExponent]
    congr 1
    push_cast
    omega
  have hLower : (2 : ℚ) ^ 52 ≤ scaled := by
    rw [hScaled, le_div_iff₀ hUnit, ← hPower]
    exact_mod_cast Nat.log2_self_le (by omega)
  have hUpper : scaled < 2 ^ 53 := by
    have hLess : (n : ℚ) < 2 ^ (n.log2 + 1) := by
      exact_mod_cast Nat.lt_log2_self
    rw [pow_succ, hPower] at hLess
    rw [hScaled, div_lt_iff₀ hUnit]
    linarith
  obtain ⟨mantissa, hNearest⟩ : ∃ mantissa, Nearest mantissa scaled :=
    exists_nearest (by linarith)
  have hAbove := hNearest.above
  have hBelow := hNearest.below
  have hMantissaLower : 2 ^ 52 ≤ mantissa := by
    have hLess : ((2 ^ 52 : Nat) : ℚ) < mantissa + 1 := by
      push_cast
      linarith
    exact Nat.lt_succ_iff.mp (by exact_mod_cast hLess)
  have hMantissaUpper : mantissa ≤ 2 ^ 53 := by
    have hLess : (mantissa : ℚ) < ((2 ^ 53 + 1 : Nat) : ℚ) := by
      push_cast
      linarith
    exact Nat.lt_succ_iff.mp (by exact_mod_cast hLess)
  have hLeast : -1074 ≤ exponent := by omega
  obtain ⟨hCanonical, hMantissa, hWithin⟩ :=
    within_carried (by omega) hMantissaUpper hLeast hNearest
      (Or.inl hLower) (Or.inl hMantissaLower)
  rw [hScaled, div_mul_cancel₀ _ hUnit.ne'] at hWithin
  refine ⟨carried mantissa exponent, hCanonical, hMantissa, ?_, hWithin⟩
  unfold carried
  split <;> dsimp only <;> omega

------------------------------------------------------------
-- Rounded Integers
------------------------------------------------------------

/- A natural number is converted to the float in whose interval it lies. -/
theorem unpack_toFloat_of_within
    {n : Nat}
    (hPos : 0 < n)
    (hRange : n < 2 ^ 64)
    {parts : Binary64}
    (hCanonical : parts.Canonical)
    (hMantissa : 0 < parts.mantissa)
    (hBounded : parts.exponent ≤ 971)
    (hWithin : (Rounding.ofParts parts).Within n) :
    n.toUInt64.toFloat.toModel.unpack =
      .finite .positive parts.mantissa parts.exponent hMantissa := by
  have hNat : n.toUInt64.toNat = n := by
    rw [Nat.toUInt64_eq, UInt64.toNat_ofNat']
    exact Nat.mod_eq_of_lt hRange
  have hGreater : compare (n : Int) 0 = .gt := by
    rw [Int.compare_eq_gt]
    omega
  have hOfNat :
      UnpackedFloat.ofNat Format.binary64 n =
        .finite .positive parts.mantissa parts.exponent hMantissa := by
    unfold UnpackedFloat.ofNat UnpackedFloat.ofInt UnpackedFloat.normalize
    simp only [hGreater]
    unfold UnpackedFloat.round decreaseExponent
    rw [Int.toNat_natCast, targetExponent_eq]
    dsimp only
    by_cases hSmall : n < 2 ^ 53
    · -- A number of few bits is moved up to the first of 53 bits.
      have hLog := (Nat.log2_lt (by omega)).mpr hSmall
      have hCount :
          (0 - max ((n.log2 : Int) + 0 - 52) (-1074)).toNat =
            52 - n.log2 := by
        omega
      rw [hCount]
      rw [zero_sub]
      refine roundWithAccuracy_of_within hCanonical hMantissa hWithin ?_
        (Or.inl (log2_exactParts hPos hSmall).ge)
      have hShows :=
        shows_exact (exactParts n).mantissa (exactParts n).exponent
      rw [value_exactParts] at hShows
      exact hShows
    · have hLog : 53 ≤ n.log2 := (Nat.le_log2 (by omega)).mpr (by omega)
      have hNone :
          (0 - max ((n.log2 : Int) + 0 - 52) (-1074)).toNat = 0 := by
        omega
      rw [hNone]
      rw [Nat.shiftLeft_zero, Nat.cast_zero, sub_zero]
      refine roundWithAccuracy_of_within hCanonical hMantissa hWithin ?_
        (Or.inl (by omega))
      have hShows := shows_exact n 0
      rw [zpow_zero, mul_one] at hShows
      exact hShows
  have hModel :
      n.toUInt64.toFloat.toModel =
        .pack (UnpackedFloat.ofNat Format.binary64 n.toUInt64.toNat) := rfl
  rw [hModel, hNat, hOfNat]
  exact unpack_pack hCanonical hMantissa hBounded

/- The number that the parts of a float stand for, unless it is infinite. -/
def exactValue : UnpackedFloat → ℚ
  | .finite .positive mantissa exponent _ => mantissa * 2 ^ exponent
  | .finite .negative mantissa exponent _ => -(mantissa * 2 ^ exponent)
  | _ => 0

/- The number that the nearest float of an integer stands for. -/
def rounded (n : Int) : ℚ :=
  exactValue (wordToFloat n).toModel.unpack

/- A float in whose interval the magnitude of an integer lies. -/
structure IsNearest (n : Int) (parts : Binary64) : Prop where
  canonical : parts.Canonical
  positive : 0 < parts.mantissa
  bounded : parts.exponent ≤ 971
  within : (Rounding.ofParts parts).Within n.natAbs

section Integers

variable {n : Int}

/- An integer that is not zero has the float in whose interval it lies. -/
theorem IsNearest.unpack_wordToFloat
    {parts : Binary64}
    (hNearest : IsNearest n parts)
    (hRange : n.natAbs < 2 ^ 64) :
    (wordToFloat n).toModel.unpack =
      .finite (if n < 0 then .negative else .positive) parts.mantissa
        parts.exponent hNearest.positive := by
  obtain ⟨hCanonical, hPositive, hBounded, hWithin⟩ := hNearest
  have hPos : 0 < n.natAbs := by
    exact_mod_cast Binary64.pos_of_within hPositive hWithin
  have hUnpacked :=
    unpack_toFloat_of_within hPos hRange hCanonical hPositive hBounded
      hWithin
  unfold wordToFloat
  split
  · rw [unpack_neg (unsigned_toFloat _).1, hUnpacked]
    rfl
  · exact hUnpacked

theorem exists_isNearest
    (hNonzero : n ≠ 0)
    (hRange : n.natAbs < 2 ^ 64) :
    ∃ parts, IsNearest n parts := by
  obtain ⟨parts, hCanonical, hPositive, hBounded, hWithin⟩ :=
    exists_within (Int.natAbs_pos.mpr hNonzero) hRange
  exact ⟨parts, hCanonical, hPositive, hBounded, hWithin⟩

theorem unpack_wordToFloat_zero :
    (wordToFloat 0).toModel.unpack = .zero .positive := by
  have hZero : (wordToFloat 0).toBits = 0 := by decide
  have hBits : (wordToFloat 0).toModel.toBits.toBitVec = 0 :=
    congrArg UInt64.toBitVec hZero
  unfold Float.Model.unpack
  rw [hBits]
  rfl

/- The float of a positive integer stands for a positive number. -/
theorem IsNearest.rounded_eq
    {parts : Binary64}
    (hNearest : IsNearest n parts)
    (hRange : n.natAbs < 2 ^ 64)
    (hPos : 0 < n) :
    rounded n = parts.mantissa * 2 ^ parts.exponent := by
  unfold rounded
  rw [hNearest.unpack_wordToFloat hRange, if_neg hPos.not_gt]
  rfl

theorem rounded_zero :
    rounded 0 = 0 := by
  unfold rounded
  rw [unpack_wordToFloat_zero]
  rfl

theorem rounded_neg
    (n : Int) :
    rounded (-n) = -rounded n := by
  have hPositive (m : Int) (hPos : 0 < m) : rounded (-m) = -rounded m := by
    unfold rounded wordToFloat
    rw [if_pos (by omega), if_neg (by omega), Int.natAbs_neg,
      unpack_neg (unsigned_toFloat _).1]
    cases (m.natAbs.toUInt64.toFloat).toModel.unpack with
    | finite sign mantissa exponent hMantissa =>
        cases sign
        · exact (InvolutiveNeg.neg_neg _).symm
        · rfl
    | _ => exact neg_zero.symm
  rcases lt_trichotomy n 0 with hNegative | rfl | hPos
  · have hOther := hPositive (-n) (by omega)
    rw [Int.neg_neg] at hOther
    rw [hOther, InvolutiveNeg.neg_neg]
  · rw [Int.neg_zero, rounded_zero, neg_zero]
  · exact hPositive n hPos

theorem rounded_pos
    (hPos : 0 < n)
    (hRange : n.natAbs < 2 ^ 64) :
    0 < rounded n := by
  obtain ⟨parts, hNearest⟩ := exists_isNearest hPos.ne' hRange
  have hMantissa : (0 : ℚ) < parts.mantissa := by
    exact_mod_cast hNearest.positive
  rw [hNearest.rounded_eq hRange hPos]
  positivity

end Integers

------------------------------------------------------------
-- Order
------------------------------------------------------------

/- A number between two of an interval lies in it too. -/
theorem Rounding.Within.between
    {interval : Rounding}
    {first number second : ℚ}
    (hFirst : interval.Within first)
    (hSecond : interval.Within second)
    (hAbove : first ≤ number)
    (hBelow : number ≤ second) :
    interval.Within number := by
  refine ⟨hFirst.above.trans hAbove, hBelow.trans hSecond.below,
    fun hOpen => ?_⟩
  exact ⟨(hFirst.inside hOpen).1.trans_le hAbove,
    hBelow.trans_lt (hSecond.inside hOpen).2⟩

/- The greater of two integers does not have the smaller float. -/
theorem rounded_le_of_pos
    {a b : Int}
    (hPos : 0 < a)
    (hLe : a ≤ b)
    (hRange : b.natAbs < 2 ^ 64) :
    rounded a ≤ rounded b := by
  have hRange' : a.natAbs < 2 ^ 64 := by omega
  obtain ⟨first, hFirst⟩ := exists_isNearest hPos.ne' hRange'
  obtain ⟨second, hSecond⟩ := exists_isNearest (by omega : b ≠ 0) hRange
  rw [hFirst.rounded_eq hRange' hPos, hSecond.rounded_eq hRange (by omega)]
  have hMagnitude : (a.natAbs : ℚ) ≤ b.natAbs := by
    exact_mod_cast (by omega : a.natAbs ≤ b.natAbs)
  by_contra hGreater
  rw [not_le] at hGreater
  have hFirstSelf := within_self hFirst.positive
  have hSecondSelf := within_self hSecond.positive
  -- Otherwise the two intervals would have a number in common.
  have hCommon :
      ∃ number,
        (Rounding.ofParts first).Within number ∧
          (Rounding.ofParts second).Within number := by
    rcases le_total (a.natAbs : ℚ) (second.mantissa * 2 ^ second.exponent)
      with hBelow | hAbove
    · exact ⟨_, hFirst.within.between hFirstSelf hBelow hGreater.le,
        hSecondSelf⟩
    · exact ⟨_, hFirst.within,
        hSecondSelf.between hSecond.within hAbove hMagnitude⟩
  obtain ⟨number, hInFirst, hInSecond⟩ := hCommon
  obtain ⟨hMantissa, hExponent⟩ :=
    Binary64.eq_of_within hFirst.canonical hSecond.canonical
      hFirst.positive hSecond.positive hInFirst hInSecond
  rw [hMantissa, hExponent] at hGreater
  exact lt_irrefl _ hGreater

/- Rounding keeps integers in their order. -/
theorem rounded_mono
    {a b : Int}
    (hLe : a ≤ b)
    (hFirst : a.natAbs < 2 ^ 64)
    (hSecond : b.natAbs < 2 ^ 64) :
    rounded a ≤ rounded b := by
  have hNonneg {n : Int} (hRange : n.natAbs < 2 ^ 64) (hSign : 0 ≤ n) :
      0 ≤ rounded n := by
    rcases hSign.eq_or_lt with rfl | hPos
    · exact rounded_zero.ge
    · exact (rounded_pos hPos hRange).le
  rcases lt_or_ge 0 a with hPos | hFirstSign
  · exact rounded_le_of_pos hPos hLe hSecond
  · have hBelow := hNonneg (n := -a) (by omega) (by omega)
    rw [rounded_neg] at hBelow
    rcases lt_or_ge b 0 with hNegative | hSecondSign
    · have hOpposite :=
        rounded_le_of_pos (a := -b) (b := -a) (by omega) (by omega)
          (by omega)
      rw [rounded_neg, rounded_neg] at hOpposite
      linarith
    · have hAbove := hNonneg hSecond hSecondSign
      linarith

/-
  Integers that have the same float are ordered alike with any
  that has another one.
-/
theorem compare_eq_of_rounded_eq
    {a b c : Int}
    (hFirst : a.natAbs < 2 ^ 64)
    (hSecond : b.natAbs < 2 ^ 64)
    (hThird : c.natAbs < 2 ^ 64)
    (hSame : rounded a = rounded b)
    (hOther : rounded a ≠ rounded c) :
    compare a c = compare b c := by
  rcases lt_trichotomy a c with hLess | rfl | hGreater
  · have hLess' : b < c := by
      by_contra hLe
      have hAbove := rounded_mono (not_lt.mp hLe) hThird hSecond
      exact hOther ((rounded_mono hLess.le hFirst hThird).antisymm
        (hAbove.trans hSame.ge))
    rw [Int.compare_eq_lt.mpr hLess, Int.compare_eq_lt.mpr hLess']
  · exact (hOther rfl).elim
  · have hGreater' : c < b := by
      by_contra hLe
      have hBelow := rounded_mono (not_lt.mp hLe) hSecond hThird
      exact hOther ((hSame.le.trans hBelow).antisymm
        (rounded_mono hGreater.le hThird hFirst))
    rw [Int.compare_eq_gt.mpr hGreater, Int.compare_eq_gt.mpr hGreater']

/- The parts of a float that is zero or finite. -/
def IsCanonical : UnpackedFloat → Prop
  | .zero _ => True
  | .finite _ mantissa exponent _ =>
      (⟨false, mantissa, exponent⟩ : Binary64).Canonical
  | _ => False

theorem isCanonical_wordToFloat
    {n : Int}
    (hRange : n.natAbs < 2 ^ 64) :
    IsCanonical (wordToFloat n).toModel.unpack := by
  by_cases hZero : n = 0
  · rw [hZero, unpack_wordToFloat_zero]
    trivial
  · obtain ⟨parts, hNearest⟩ := exists_isNearest hZero hRange
    rw [hNearest.unpack_wordToFloat hRange]
    obtain ⟨hSmall, hLeast, hNormal⟩ := hNearest.canonical
    exact ⟨hSmall, hLeast, hNormal⟩

theorem compare_finite_iff
    {m n : Nat}
    {e f : Int}
    (hMantissa : 0 < m)
    (hMantissa' : 0 < n)
    (hFirst : (⟨false, m, e⟩ : Binary64).Canonical)
    (hSecond : (⟨false, n, f⟩ : Binary64).Canonical) :
    (compare e f).then (compare m n) = .eq ↔
      (m : ℚ) * 2 ^ e = n * 2 ^ f := by
  rw [Ordering.then_eq_eq, compare_eq_iff_eq, compare_eq_iff_eq]
  constructor
  · rintro ⟨rfl, rfl⟩
    rfl
  · intro hSame
    have hInFirst :
        (Rounding.ofParts ⟨false, m, e⟩).Within (m * 2 ^ e) :=
      within_self hMantissa
    have hInSecond :
        (Rounding.ofParts ⟨false, n, f⟩).Within (n * 2 ^ f) :=
      within_self hMantissa'
    rw [hSame] at hInFirst
    exact (Binary64.eq_of_within hFirst hSecond hMantissa hMantissa'
      hInFirst hInSecond).symm

/- Finite floats are equal if and only if they stand for the same number. -/
theorem unpacked_beq_iff
    {first second : UnpackedFloat}
    (hFirst : IsCanonical first)
    (hSecond : IsCanonical second) :
    first.beq second = true ↔ exactValue first = exactValue second := by
  have hPositive {m : Nat} (e : Int) (hMantissa : 0 < m) :
      (0 : ℚ) < m * 2 ^ e := by
    have hCast : (0 : ℚ) < m := by exact_mod_cast hMantissa
    positivity
  -- Floats of other signs are unequal, and so are their numbers.
  have hOther
      {parts other : UnpackedFloat}
      (hUnequal : parts.beq other = false)
      (hValues : exactValue parts ≠ exactValue other) :
      parts.beq other = true ↔ exactValue parts = exactValue other := by
    rw [hUnequal]
    exact ⟨fun hTrue => (Bool.false_ne_true hTrue).elim,
      fun hSame => (hValues hSame).elim⟩
  have hSomeEq (order : Ordering) :
      (some order == some .eq) = true ↔ order = .eq := by
    rw [beq_iff_eq, Option.some.injEq]
  cases first with
  | infinity sign | notANumber => exact hFirst.elim
  | zero sign =>
      cases second with
      | infinity sign | notANumber => exact hSecond.elim
      | zero sign => exact ⟨fun _ => rfl, fun _ => rfl⟩
      | finite sign n f hMantissa' =>
          have hSecondPos := hPositive f hMantissa'
          cases sign
          · exact hOther rfl (neg_neg_of_pos hSecondPos).ne'
          · exact hOther rfl hSecondPos.ne
  | finite sign m e hMantissa =>
      have hFirstPos := hPositive e hMantissa
      cases second with
      | infinity sign | notANumber => exact hSecond.elim
      | zero sign' =>
          cases sign
          · exact hOther rfl (neg_neg_of_pos hFirstPos).ne
          · exact hOther rfl hFirstPos.ne'
      | finite sign' n f hMantissa' =>
          have hSecondPos := hPositive f hMantissa'
          have hCompare :=
            compare_finite_iff hMantissa hMantissa' hFirst hSecond
          cases sign <;> cases sign'
          · refine (hSomeEq _).trans ?_
            rw [Ordering.swap_eq_eq, hCompare]
            exact neg_inj.symm
          · exact hOther rfl
              ((neg_neg_of_pos hFirstPos).trans hSecondPos).ne
          · exact hOther rfl
              ((neg_neg_of_pos hSecondPos).trans hFirstPos).ne'
          · exact (hSomeEq _).trans hCompare

/- The floats of two integers are equal if they stand for one number. -/
theorem beq_wordToFloat_iff
    {a b : Int}
    (hFirst : a.natAbs < 2 ^ 64)
    (hSecond : b.natAbs < 2 ^ 64) :
    (wordToFloat a == wordToFloat b) = true ↔ rounded a = rounded b :=
  unpacked_beq_iff (isCanonical_wordToFloat hFirst)
    (isCanonical_wordToFloat hSecond)

------------------------------------------------------------
-- Exact Integers
------------------------------------------------------------

/- A natural number that is a float is rounded to itself. -/
theorem rounded_of_parts
    {n : Nat}
    (hRange : n < 2 ^ 64)
    {parts : Binary64}
    (hCanonical : parts.Canonical)
    (hMantissa : 0 < parts.mantissa)
    (hBounded : parts.exponent ≤ 971)
    (hValue : (parts.mantissa : ℚ) * 2 ^ parts.exponent = n) :
    rounded n = n := by
  have hWithin := within_self hMantissa
  rw [hValue] at hWithin
  have hNearest : IsNearest n parts :=
    ⟨hCanonical, hMantissa, hBounded, hWithin⟩
  have hPos : 0 < n := by
    exact_mod_cast Binary64.pos_of_within hMantissa hWithin
  rw [hNearest.rounded_eq hRange (by omega), hValue]

theorem rounded_natCast
    {n : Nat}
    (hSmall : n ≤ 2 ^ 53) :
    rounded n = n := by
  rcases Nat.eq_zero_or_pos n with rfl | hPos
  · rw [Nat.cast_zero, rounded_zero, Nat.cast_zero]
  · rcases hSmall.lt_or_eq with hLess | hEqual
    · obtain ⟨hCanonical, hMantissa⟩ := canonical_exactParts hPos hLess
      refine rounded_of_parts (by omega) hCanonical hMantissa ?_
        (value_exactParts n)
      simp only [exactParts]
      omega
    · have hCanonical : (⟨false, 2 ^ 52, 1⟩ : Binary64).Canonical :=
        ⟨by norm_num, by norm_num, Or.inl le_rfl⟩
      refine rounded_of_parts (by omega) hCanonical (by norm_num)
        (by norm_num) ?_
      rw [hEqual]
      norm_num

/- An integer of at most 53 bits is a float itself. -/
theorem rounded_of_small
    {n : Int}
    (hSmall : n.natAbs ≤ 2 ^ 53) :
    rounded n = n := by
  obtain ⟨m, rfl | rfl⟩ := n.eq_nat_or_neg
  · exact rounded_natCast hSmall
  · rw [Int.natAbs_neg, Int.natAbs_natCast] at hSmall
    rw [rounded_neg, Int.cast_neg, rounded_natCast hSmall, Int.cast_natCast]

end SnippetGrader.Number
