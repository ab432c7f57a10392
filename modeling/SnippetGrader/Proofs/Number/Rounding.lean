import SnippetGrader.Proofs.Number.Parts

/-
  Rounding finds the nearest float.

  Rounding drops bits from a mantissa one after the other, and
  two bits keep account of what was dropped. What is left is the
  float in whose interval the number lies.

  Key definitions include:
    * `Number.Shows`, `Number.Nearest`

  Key theorems include:
    * `Number.within_carried`
    * `Number.roundWithAccuracy_of_within`
-/

namespace SnippetGrader.Number

open Float.Model
open Float.Model.UnpackedFloat

------------------------------------------------------------
-- Dropped Bits
------------------------------------------------------------

/- Where a number lies between two mantissas, as two bits tell. -/
def Lies : (roundBit stickyBit : Bool) → ℚ → Prop
  | false, false, part => part = 0
  | false, true, part => 0 < part ∧ part < 1 / 2
  | true, false, part => part = 1 / 2
  | true, true, part => 1 / 2 < part ∧ part < 1

theorem Lies.bounds
    {roundBit stickyBit : Bool}
    {part : ℚ}
    (hLies : Lies roundBit stickyBit part) :
    0 ≤ part ∧ part < 1 := by
  match roundBit, stickyBit, hLies with
  | false, false, hLies => exact ⟨hLies.ge, hLies.trans_lt one_pos⟩
  | false, true, ⟨hPos, hLess⟩ =>
      exact ⟨hPos.le, hLess.trans one_half_lt_one⟩
  | true, false, hLies =>
      exact ⟨one_half_pos.le.trans hLies.ge,
        hLies.trans_lt one_half_lt_one⟩
  | true, true, ⟨hMore, hLess⟩ =>
      exact ⟨(one_half_pos.trans hMore).le, hLess⟩

/- Nothing lies above a mantissa only if both bits are unset. -/
theorem Lies.eq_zero_or_pos
    {roundBit stickyBit : Bool}
    {part : ℚ}
    (hLies : Lies roundBit stickyBit part) :
    (roundBit || stickyBit) = false ∧ part = 0 ∨
      (roundBit || stickyBit) = true ∧ 0 < part := by
  match roundBit, stickyBit, hLies with
  | false, false, hLies => exact Or.inl ⟨rfl, hLies⟩
  | false, true, ⟨hPos, _⟩ => exact Or.inr ⟨rfl, hPos⟩
  | true, false, hLies => exact Or.inr ⟨rfl, one_half_pos.trans_eq hLies.symm⟩
  | true, true, ⟨hMore, _⟩ => exact Or.inr ⟨rfl, one_half_pos.trans hMore⟩

/- The last bit of a mantissa becomes the first one below it. -/
theorem Lies.halved
    {roundBit stickyBit : Bool}
    {part : ℚ}
    (hLies : Lies roundBit stickyBit part)
    (mantissa : Nat) :
    Lies (mantissa % 2 != 0) (roundBit || stickyBit)
      (((mantissa % 2 : Nat) + part) / 2) := by
  have hLess := hLies.bounds.2
  rcases Nat.mod_two_eq_zero_or_one mantissa with hBit | hBit <;>
    rw [hBit] <;>
    rcases hLies.eq_zero_or_pos with ⟨hBits, hZero⟩ | ⟨hBits, hPos⟩ <;>
    rw [hBits]
  · change ((0 : Nat) + part) / 2 = 0
    rw [hZero, Nat.cast_zero, add_zero, zero_div]
  · change 0 < ((0 : Nat) + part) / 2 ∧ ((0 : Nat) + part) / 2 < 1 / 2
    rw [Nat.cast_zero, zero_add]
    exact ⟨half_pos hPos, div_lt_div_of_pos_right hLess two_pos⟩
  · change ((1 : Nat) + part) / 2 = 1 / 2
    rw [hZero, Nat.cast_one, add_zero]
  · change 1 / 2 < ((1 : Nat) + part) / 2 ∧ ((1 : Nat) + part) / 2 < 1
    rw [Nat.cast_one]
    constructor
    · linarith only [hPos]
    · linarith only [hLess]

/- A number that a mantissa with two more bits stands for. -/
def Shows
    (extended : ExtendedMantissa)
    (exponent : Int)
    (number : ℚ) :
    Prop :=
  ∃ part,
    Lies extended.roundBit extended.stickyBit part ∧
      number = (extended.mantissa + part) * (2 : ℚ) ^ exponent

theorem Shows.shiftRightOne
    {extended : ExtendedMantissa}
    {exponent : Int}
    {number : ℚ}
    (hShows : Shows extended exponent number) :
    Shows extended.shiftRightOne (exponent + 1) number := by
  obtain ⟨mantissa, roundBit, stickyBit⟩ := extended
  obtain ⟨part, hLies, rfl⟩ := hShows
  have hSplit :
      (mantissa : ℚ) =
        2 * (mantissa / 2 : Nat) + (mantissa % 2 : Nat) := by
    exact_mod_cast (Nat.div_add_mod mantissa 2).symm
  refine ⟨((mantissa % 2 : Nat) + part) / 2, ?_, ?_⟩
  · exact hLies.halved mantissa
  · rw [zpow_add_one₀ (by norm_num)]
    simp only [ExtendedMantissa.shiftRightOne]
    rw [hSplit]
    ring

theorem Shows.shiftRight
    {extended : ExtendedMantissa}
    {exponent : Int}
    {number : ℚ}
    (hShows : Shows extended exponent number)
    (count : Nat) :
    Shows (extended >>> count) (exponent + count) number := by
  induction count with
  | zero => simpa [HShiftRight.hShiftRight, Nat.repeat] using hShows
  | succ count ih =>
      have hNext := ih.shiftRightOne
      rw [add_assoc] at hNext
      exact_mod_cast hNext

/- A mantissa that is nearest to a number, a tie going to an even one. -/
structure Nearest (mantissa : Nat) (number : ℚ) : Prop where
  above : (mantissa : ℚ) - 1 / 2 ≤ number
  below : number ≤ mantissa + 1 / 2
  inside :
    mantissa % 2 = 1 →
      (mantissa : ℚ) - 1 / 2 < number ∧ number < mantissa + 1 / 2

theorem nearest_of_lt_half
    (mantissa : Nat)
    {part : ℚ}
    (hPart : 0 ≤ part)
    (hLess : part < 1 / 2) :
    Nearest mantissa (mantissa + part) where
  above := by linarith only [hPart]
  below := by linarith only [hLess]
  inside _ := ⟨by linarith only [hPart], by linarith only [hLess]⟩

theorem nearest_of_half
    (mantissa : Nat) :
    Nearest (mantissa + mantissa % 2) (mantissa + 1 / 2) := by
  rcases Nat.mod_two_eq_zero_or_one mantissa with hBit | hBit <;>
    rw [hBit]
  · exact ⟨by push_cast; linarith only, by push_cast; linarith only,
      fun hOdd => by omega⟩
  · exact ⟨by push_cast; linarith only, by push_cast; linarith only,
      fun hOdd => by omega⟩

theorem nearest_of_half_lt
    (mantissa : Nat)
    {part : ℚ}
    (hMore : 1 / 2 < part)
    (hLess : part < 1) :
    Nearest (mantissa + 1) (mantissa + part) where
  above := by
    push_cast
    linarith only [hMore]
  below := by
    push_cast
    linarith only [hLess]
  inside _ := by
    push_cast
    exact ⟨by linarith only [hMore], by linarith only [hLess]⟩

/- The rounded mantissa is the nearest one. -/
theorem Shows.nearest
    {extended : ExtendedMantissa}
    {exponent : Int}
    {number : ℚ}
    (hShows : Shows extended exponent number) :
    Nearest extended.roundedMantissa (number / 2 ^ exponent) := by
  obtain ⟨mantissa, roundBit, stickyBit⟩ := extended
  obtain ⟨part, hLies, rfl⟩ := hShows
  rw [mul_div_cancel_right₀ _ (by positivity)]
  match roundBit, stickyBit, hLies with
  | false, false, hLies =>
      exact nearest_of_lt_half mantissa hLies.ge
        (hLies.trans_lt one_half_pos)
  | false, true, ⟨hPos, hLess⟩ =>
      exact nearest_of_lt_half mantissa hPos.le hLess
  | true, false, hLies =>
      rw [show part = 1 / 2 from hLies]
      exact nearest_of_half mantissa
  | true, true, ⟨hMore, hLess⟩ =>
      exact nearest_of_half_lt mantissa hMore hLess

theorem Shows.mantissa_le
    {extended : ExtendedMantissa}
    {exponent : Int}
    {number : ℚ}
    (hShows : Shows extended exponent number) :
    (extended.mantissa : ℚ) ≤ number / 2 ^ exponent ∧
      number / 2 ^ exponent < extended.mantissa + 1 := by
  obtain ⟨part, hLies, rfl⟩ := hShows
  have hBounds := hLies.bounds
  rw [mul_div_cancel_right₀ _ (by positivity)]
  constructor <;> linarith

theorem le_roundedMantissa
    (extended : ExtendedMantissa) :
    extended.mantissa ≤ extended.roundedMantissa ∧
      extended.roundedMantissa ≤ extended.mantissa + 1 := by
  obtain ⟨mantissa, roundBit, stickyBit⟩ := extended
  cases roundBit <;> cases stickyBit <;>
    simp [ExtendedMantissa.roundedMantissa, ExtendedMantissa.accuracy,
      Accuracy.roundToNearestEven]
  omega

------------------------------------------------------------
-- Accuracies
------------------------------------------------------------

theorem shows_exact
    (mantissa : Nat)
    (exponent : Int) :
    Shows (.ofMantissaAndAccuracy mantissa .exact) exponent
      (mantissa * 2 ^ exponent) :=
  ⟨0, rfl, by simp [ExtendedMantissa.ofMantissaAndAccuracy]⟩

theorem shows_fraction
    (mantissa : Nat)
    {num den : Nat}
    (hProper : num < den)
    (exponent : Int) :
    Shows
      (.ofMantissaAndAccuracy mantissa (accuracyOfFraction num den))
      exponent ((mantissa + num / den) * 2 ^ exponent) := by
  have hDen : (0 : ℚ) < den := by
    exact_mod_cast (by omega : 0 < den)
  have hLess : (num : ℚ) < den := by exact_mod_cast hProper
  unfold accuracyOfFraction
  by_cases hZero : num = 0
  · rw [if_pos hZero, hZero]
    simpa using shows_exact mantissa exponent
  · rw [if_neg hZero]
    have hPos : (0 : ℚ) < num := by
      exact_mod_cast Nat.pos_of_ne_zero hZero
    rcases lt_trichotomy (2 * num) den with hLower | hMiddle | hUpper
    · rw [Nat.compare_eq_lt.mpr hLower]
      refine ⟨num / den, ⟨by positivity, ?_⟩, rfl⟩
      rw [div_lt_div_iff₀ hDen (by norm_num)]
      exact_mod_cast (by omega : num * 2 < 1 * den)
    · rw [Nat.compare_eq_eq.mpr hMiddle]
      refine ⟨num / den, ?_, rfl⟩
      change (num : ℚ) / den = 1 / 2
      rw [div_eq_div_iff hDen.ne' (by norm_num)]
      exact_mod_cast (by omega : num * 2 = 1 * den)
    · rw [Nat.compare_eq_gt.mpr hUpper]
      refine ⟨num / den, ⟨?_, (div_lt_one hDen).mpr hLess⟩, rfl⟩
      rw [div_lt_div_iff₀ (by norm_num) hDen]
      exact_mod_cast (by omega : 1 * den < num * 2)

------------------------------------------------------------
-- Rounding
------------------------------------------------------------

theorem targetExponent_eq
    (mantissa : Nat)
    (exponent : Int) :
    Format.binary64.targetExponent (totalExponent mantissa exponent) =
      max (mantissa.log2 + exponent - 52) (-1074) := by
  simp only [Format.targetExponent, totalExponent,
    Format.mantissaBits, Format.minExponent]
  norm_num
  omega

/- An exponent so small that no bit is missing where it matters. -/
def IsFine (mantissa : Nat) (exponent : Int) : Prop :=
  52 ≤ mantissa.log2 ∨ exponent ≤ -1074

/- A mantissa that rounding made too great by one bit is halved. -/
def carried (mantissa : Nat) (exponent : Int) : Binary64 :=
  if mantissa < 2 ^ 53 then ⟨false, mantissa, exponent⟩
  else ⟨false, 2 ^ 52, exponent + 1⟩

theorem shift_carried
    {mantissa : Nat}
    (hMantissa : mantissa ≤ 2 ^ 53)
    {exponent : Int}
    (hExponent : -1074 ≤ exponent) :
    shiftToTargetExponent Format.binary64 mantissa exponent .exact =
      (⟨(carried mantissa exponent).mantissa, false, false⟩,
        (carried mantissa exponent).exponent) := by
  unfold carried shiftToTargetExponent
  rw [targetExponent_eq]
  split
  · rename_i hSmall
    have hLog : mantissa.log2 ≤ 52 := by
      by_cases hZero : mantissa = 0
      · simp [hZero]
      · have := (Nat.log2_lt hZero).mpr hSmall
        omega
    have hNone :
        (max ((mantissa.log2 : Int) + exponent - 52) (-1074) -
          exponent).toNat = 0 := by
      omega
    simp [shiftToExponent, hNone, HShiftRight.hShiftRight, Nat.repeat,
      ExtendedMantissa.ofMantissaAndAccuracy]
  · have hTop : mantissa = 2 ^ 53 := by omega
    have hOne :
        (max (((2 ^ 53 : Nat).log2 : Int) + exponent - 52) (-1074) -
          exponent).toNat = 1 := by
      rw [Nat.log2_two_pow]
      omega
    rw [hTop]
    unfold shiftToExponent
    dsimp only
    rw [hOne]
    rfl

/- The interval of a float, in units of its last place. -/
theorem within_of_scaled
    {parts : Binary64}
    (hPos : 0 < parts.mantissa)
    {scaled : ℚ}
    (hAbove : (parts.mantissa : ℚ) - parts.lowerReach / 4 ≤ scaled)
    (hBelow : scaled ≤ parts.mantissa + 1 / 2)
    (hInside :
      parts.mantissa % 2 = 1 →
        (parts.mantissa : ℚ) - parts.lowerReach / 4 < scaled ∧
          scaled < parts.mantissa + 1 / 2) :
    (Rounding.ofParts parts).Within (scaled * 2 ^ parts.exponent) := by
  have hQuarter := parts.quarter_pos
  have hUnit : (2 : ℚ) ^ parts.exponent = 4 * parts.quarter := by
    unfold Binary64.quarter
    rw [zpow_sub₀ (by norm_num)]
    norm_num
    ring
  have hUnitPos : 0 < 4 * parts.quarter := mul_pos four_pos hQuarter
  have hLowest :
      (Rounding.ofParts parts).lowest =
        (parts.mantissa - parts.lowerReach / 4) *
          (4 * parts.quarter) := by
    rw [parts.lowest_ofParts hPos]
    ring
  have hHighest :
      (Rounding.ofParts parts).highest =
        (parts.mantissa + 1 / 2) * (4 * parts.quarter) := by
    rw [parts.highest_ofParts]
    ring
  rw [hUnit]
  refine ⟨?_, ?_, ?_⟩
  · rw [hLowest]
    exact mul_le_mul_of_nonneg_right hAbove hUnitPos.le
  · rw [hHighest]
    exact mul_le_mul_of_nonneg_right hBelow hUnitPos.le
  · intro hOpen
    have hOdd : parts.mantissa % 2 = 1 := by
      simp only [Rounding.ofParts, beq_eq_false_iff_ne] at hOpen
      omega
    rw [hLowest, hHighest]
    obtain ⟨hLess, hGreater⟩ := hInside hOdd
    exact ⟨mul_lt_mul_of_pos_right hLess hUnitPos,
      mul_lt_mul_of_pos_right hGreater hUnitPos⟩

/- A number lies in the interval of the float that it is rounded to. -/
theorem within_carried
    {mantissa : Nat}
    (hPos : 0 < mantissa)
    (hMantissa : mantissa ≤ 2 ^ 53)
    {exponent : Int}
    (hExponent : -1074 ≤ exponent)
    {scaled : ℚ}
    (hNearest : Nearest mantissa scaled)
    (hLower : (2 : ℚ) ^ 52 ≤ scaled ∨ exponent = -1074)
    (hNormal : 2 ^ 52 ≤ mantissa ∨ exponent = -1074) :
    (carried mantissa exponent).Canonical ∧
      0 < (carried mantissa exponent).mantissa ∧
        (Rounding.ofParts (carried mantissa exponent)).Within
          (scaled * 2 ^ exponent) := by
  obtain ⟨hAbove, hBelow, hInside⟩ := hNearest
  unfold carried
  split
  · rename_i hSmall
    refine ⟨⟨hSmall, hExponent, hNormal⟩, hPos, ?_⟩
    by_cases hEdge : mantissa = 2 ^ 52 ∧ -1074 < exponent
    · -- Only numbers above the mantissa are rounded to a lower edge.
      have hScaled : (mantissa : ℚ) ≤ scaled := by
        rcases hLower with hLower | hLeast
        · rw [hEdge.1]
          exact_mod_cast hLower
        · omega
      have hReach :
          (⟨false, mantissa, exponent⟩ : Binary64).lowerReach = 1 := by
        simp [Binary64.lowerReach, Binary64.isLowerEdge, hEdge]
      refine within_of_scaled hPos ?_ hBelow fun hOdd => ?_
      · rw [hReach]
        push_cast
        linarith
      · rw [hEdge.1] at hOdd
        norm_num at hOdd
    · have hReach :
          (⟨false, mantissa, exponent⟩ : Binary64).lowerReach = 2 := by
        simp only [Binary64.lowerReach, Binary64.isLowerEdge, Nat.pow_eq,
          Bool.and_eq_true, beq_iff_eq, decide_eq_true_eq, gt_iff_lt]
        rw [if_neg hEdge]
      refine within_of_scaled hPos ?_ hBelow fun hOdd => ?_
      · rw [hReach]
        push_cast
        linarith
      · rw [hReach]
        push_cast
        obtain ⟨hLess, hGreater⟩ := hInside hOdd
        exact ⟨by linarith, hGreater⟩
  · rename_i hGreat
    have hTop : (mantissa : ℚ) = 2 ^ 53 := by
      exact_mod_cast (by omega : mantissa = 2 ^ 53)
    have hReach :
        (⟨false, 2 ^ 52, exponent + 1⟩ : Binary64).lowerReach = 1 := by
      simp only [Binary64.lowerReach, Binary64.isLowerEdge, Nat.pow_eq,
        Bool.and_eq_true, beq_iff_eq, decide_eq_true_eq, gt_iff_lt]
      rw [if_pos ⟨trivial, by omega⟩]
    have hHalf :
        scaled * 2 ^ exponent = scaled / 2 * (2 : ℚ) ^ (exponent + 1) := by
      rw [zpow_add_one₀ (by norm_num)]
      ring
    rw [hTop] at hAbove hBelow
    rw [hHalf]
    refine ⟨⟨by norm_num, by dsimp only; omega, Or.inl (by norm_num)⟩,
      by norm_num, within_of_scaled (by norm_num) ?_ ?_ ?_⟩
    · rw [hReach]
      push_cast
      linarith
    · push_cast
      linarith
    · intro hOdd
      norm_num at hOdd

/- A number above half of the least float is not rounded to zero. -/
theorem half_lt_of_within
    {parts : Binary64}
    (hCanonical : parts.Canonical)
    (hPos : 0 < parts.mantissa)
    {number : ℚ}
    (hWithin : (Rounding.ofParts parts).Within number) :
    1 / 2 * (2 : ℚ) ^ (-1074 : Int) < number := by
  have hLeast := hCanonical.least
  have hQuarter : (2 : ℚ) ^ (-1076 : Int) ≤ parts.quarter := by
    unfold Binary64.quarter
    exact zpow_le_zpow_right₀ (by norm_num) (by omega)
  have hUnit : 1 / 2 * (2 : ℚ) ^ (-1074 : Int) = 2 * 2 ^ (-1076 : Int) := by
    have hSplit : (2 : ℚ) ^ (-1074 : Int) = 2 ^ (-1076 : Int) * 2 ^ (2 : Int) :=
      zpow_add₀ (by norm_num) (-1076) 2
    rw [hSplit, show (2 : ℚ) ^ (2 : Int) = 4 by norm_num]
    ring
  have hReach : (parts.lowerReach : ℚ) ≤ 2 := by
    exact_mod_cast parts.lowerReach_le.2
  have hLowest := parts.lowest_ofParts hPos
  have hQuarterPos := parts.quarter_pos
  have hTwice : 2 * (2 : ℚ) ^ (-1076 : Int) ≤ 2 * parts.quarter :=
    mul_le_mul_of_nonneg_left hQuarter two_pos.le
  rw [hUnit]
  refine hTwice.trans_lt ?_
  by_cases hOne : parts.mantissa = 1
  · have hOpen := (hWithin.inside
      (Binary64.closed_ofParts_of_odd (by omega))).1
    rw [hLowest, hOne] at hOpen
    refine lt_of_le_of_lt ?_ hOpen
    refine mul_le_mul_of_nonneg_right ?_ hQuarterPos.le
    push_cast
    linarith only [hReach]
  · have hTwo : (2 : ℚ) ≤ parts.mantissa := by
      exact_mod_cast (by omega : 2 ≤ parts.mantissa)
    have hAbove := hWithin.above
    rw [hLowest] at hAbove
    refine lt_of_lt_of_le ?_ hAbove
    refine mul_lt_mul_of_pos_right ?_ hQuarterPos
    linarith only [hReach, hTwo]

theorem mantissa_ofMantissaAndAccuracy
    (mantissa : Nat)
    (accuracy : Accuracy) :
    (ExtendedMantissa.ofMantissaAndAccuracy mantissa accuracy).mantissa =
      mantissa := by
  cases accuracy with
  | exact => rfl
  | inexact order => cases order <;> rfl

/- Above its last place a number has at most as many bits as a float. -/
theorem div_lt_of_target
    {number : ℚ}
    {mantissa : Nat}
    {exponent target : Int}
    (hBelow : number / 2 ^ exponent < mantissa + 1)
    (hTarget : mantissa.log2 + exponent - 52 ≤ target) :
    number / 2 ^ target < 2 ^ 53 := by
  have hLog : (mantissa + 1 : ℚ) ≤ 2 ^ (mantissa.log2 + 1) := by
    exact_mod_cast Nat.lt_log2_self
  rw [div_lt_iff₀ (by positivity)] at hBelow ⊢
  calc
    number < (mantissa + 1) * 2 ^ exponent := hBelow
    _ ≤ 2 ^ (mantissa.log2 + 1) * 2 ^ exponent := by gcongr
    _ = (2 : ℚ) ^ ((mantissa.log2 + 1 : Nat) + exponent) := by
      rw [zpow_add₀ (by norm_num), zpow_natCast]
    _ ≤ (2 : ℚ) ^ ((53 : Nat) + target) :=
      zpow_le_zpow_right₀ (by norm_num) (by push_cast; omega)
    _ = 2 ^ 53 * 2 ^ target := by
      rw [zpow_add₀ (by norm_num), zpow_natCast]

/- A number that is not too small has as many bits as a float. -/
theorem le_div_of_target
    {number : ℚ}
    {mantissa : Nat}
    {exponent target : Int}
    (hAbove : mantissa ≤ number / 2 ^ exponent)
    (hMantissa : mantissa ≠ 0)
    (hTarget : target = mantissa.log2 + exponent - 52) :
    2 ^ 52 ≤ number / 2 ^ target := by
  have hLog : ((2 : ℚ) ^ mantissa.log2) ≤ mantissa := by
    exact_mod_cast Nat.log2_self_le hMantissa
  rw [le_div_iff₀ (by positivity)] at hAbove ⊢
  calc
    2 ^ 52 * 2 ^ target = (2 : ℚ) ^ ((52 : Nat) + target) := by
      rw [zpow_add₀ (by norm_num), zpow_natCast]
    _ = (2 : ℚ) ^ ((mantissa.log2 : Int) + exponent) := by
      congr 1
      push_cast
      omega
    _ = 2 ^ mantissa.log2 * 2 ^ exponent := by
      rw [zpow_add₀ (by norm_num), zpow_natCast]
    _ ≤ mantissa * 2 ^ exponent := by gcongr
    _ ≤ number := hAbove

/-
  Rounding finds the float in whose interval a number lies. The
  bits beyond the last place of that float are dropped first,
  and a carry into a further bit is undone.
-/
theorem roundWithAccuracy_of_within
    {parts : Binary64}
    (hCanonical : parts.Canonical)
    (hPos : 0 < parts.mantissa)
    {number : ℚ}
    (hWithin : (Rounding.ofParts parts).Within number)
    {mantissa : Nat}
    {exponent : Int}
    {accuracy : Accuracy}
    (hShows :
      Shows (.ofMantissaAndAccuracy mantissa accuracy) exponent number)
    (hFine : IsFine mantissa exponent) :
    roundWithAccuracy Format.binary64 .positive mantissa exponent
        accuracy =
      .finite .positive parts.mantissa parts.exponent hPos := by
  set target : Int := max (mantissa.log2 + exponent - 52) (-1074)
    with hTarget
  have hLeast : -1074 ≤ target := le_max_right _ _
  unfold IsFine at hFine
  have hCount : exponent + ((target - exponent).toNat : Int) = target := by
    omega
  set extended :=
    ExtendedMantissa.ofMantissaAndAccuracy mantissa accuracy >>>
      (target - exponent).toNat with hExtended
  have hShown := hShows.shiftRight (target - exponent).toNat
  rw [← hExtended, hCount] at hShown
  obtain ⟨hFloor, hCeil⟩ := hShown.mantissa_le
  have hNearest := hShown.nearest
  -- The number lies between the powers of two around it.
  obtain ⟨hLow, hHigh⟩ := hShows.mantissa_le
  rw [mantissa_ofMantissaAndAccuracy] at hLow hHigh
  have hUpper : number / 2 ^ target < 2 ^ 53 :=
    div_lt_of_target hHigh (le_max_left _ _)
  have hLower :
      (2 : ℚ) ^ 52 ≤ number / 2 ^ target ∨ target = -1074 := by
    by_cases hTiny : target = -1074
    · exact Or.inr hTiny
    · refine Or.inl (le_div_of_target hLow ?_ (by omega))
      rintro rfl
      simp only [Nat.log2_zero] at hFine hTarget
      omega
  have hBound : extended.roundedMantissa ≤ 2 ^ 53 := by
    have hSmall : extended.mantissa < 2 ^ 53 := by
      exact_mod_cast lt_of_le_of_lt hFloor hUpper
    have := (le_roundedMantissa extended).2
    omega
  have hNormal : 2 ^ 52 ≤ extended.roundedMantissa ∨ target = -1074 := by
    refine hLower.imp_left fun hLower => ?_
    have hGreat : 2 ^ 52 < extended.mantissa + 1 := by
      exact_mod_cast lt_of_le_of_lt hLower hCeil
    have := (le_roundedMantissa extended).1
    omega
  have hNonzero : 0 < extended.roundedMantissa := by
    rw [Nat.pos_iff_ne_zero]
    intro hZero
    have hTiny : target = -1074 := by
      rcases hNormal with hNormal | hTiny
      · omega
      · exact hTiny
    have hHalf := half_lt_of_within hCanonical hPos hWithin
    have hBelow := hNearest.below
    rw [hZero, hTiny, Nat.cast_zero, zero_add,
      div_le_iff₀ (by positivity)] at hBelow
    linarith
  obtain ⟨hCarried, hCarriedPos, hInside⟩ :=
    within_carried hNonzero hBound hLeast hNearest hLower hNormal
  rw [div_mul_cancel₀ _ (by positivity)] at hInside
  obtain ⟨hMantissa, hExponent⟩ :=
    Binary64.eq_of_within hCarried hCanonical hCarriedPos hPos hInside
      hWithin
  have hShift :
      shiftToTargetExponent Format.binary64 mantissa exponent accuracy =
        (extended, target) := by
    unfold shiftToTargetExponent shiftToExponent
    rw [targetExponent_eq, ← hTarget]
    simp only [hCount, hExtended]
  unfold roundWithAccuracy
  simp only [hShift, shift_carried hBound hLeast, hMantissa, hExponent]
  rw [dif_neg (by omega)]

end SnippetGrader.Number
