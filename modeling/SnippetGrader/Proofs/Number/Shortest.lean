import Mathlib
import SnippetGrader.Number.Shortest

/-
  The shortest decimal of a float lies in its interval.

  The search for a decimal stops at one that lies in the rounding
  interval of the float, or else at one with so many digits that
  it lies in there, too. As the intervals of different floats
  have no number in common, the decimal determines the float.

  Key definitions include:
    * `Number.Decimal.value`
    * `Number.Binary64.Canonical`
    * `Number.Rounding.Within`

  Key theorems include:
    * `Number.within_shortest`
    * `Number.Binary64.eq_of_within`
-/

namespace SnippetGrader.Number

------------------------------------------------------------
-- Values
------------------------------------------------------------

/- The number that a decimal stands for. -/
def Decimal.value (decimal : Decimal) : ℚ :=
  decimal.digits * (10 : ℚ) ^ decimal.exponent

/- A power with an integer exponent, as it is computed. -/
theorem zpow_eq_div
    {base : ℚ}
    (hBase : base ≠ 0)
    (exponent : Int) :
    base ^ exponent =
      base ^ exponent.toNat / base ^ (-exponent).toNat := by
  have hExponent :
      exponent = (exponent.toNat : Int) - ((-exponent).toNat : Int) := by
    omega
  calc
    base ^ exponent =
        base ^ ((exponent.toNat : Int) - ((-exponent).toNat : Int)) := by
      rw [← hExponent]
    _ = base ^ exponent.toNat / base ^ (-exponent).toNat := by
      rw [zpow_sub₀ hBase, zpow_natCast, zpow_natCast]

theorem Decimal.value_trimmed
    (fuel : Nat)
    (decimal : Decimal) :
    (decimal.trimmed fuel).value = decimal.value := by
  induction fuel generalizing decimal with
  | zero => rfl
  | succ fuel ih =>
      unfold trimmed
      split
      · rename_i hZero
        rw [Bool.and_eq_true, beq_iff_eq] at hZero
        rw [ih]
        have hDigits :
            (decimal.digits : ℚ) = (decimal.digits / 10 : Nat) * 10 := by
          exact_mod_cast
            (Nat.div_mul_cancel (Nat.dvd_of_mod_eq_zero hZero.1)).symm
        unfold value
        dsimp only
        rw [hDigits, zpow_add₀ (by norm_num : (10 : ℚ) ≠ 0), zpow_one]
        ring
      · rfl

------------------------------------------------------------
-- Intervals
------------------------------------------------------------

namespace Rounding

/- The number that an interval is around. -/
def middle (interval : Rounding) : ℚ :=
  interval.value / interval.unit

/- The lower end of an interval. -/
def lowest (interval : Rounding) : ℚ :=
  interval.low / interval.unit

/- The upper end of an interval. -/
def highest (interval : Rounding) : ℚ :=
  interval.high / interval.unit

/- A number in an interval. -/
structure Within (interval : Rounding) (number : ℚ) : Prop where
  above : interval.lowest ≤ number
  below : number ≤ interval.highest
  inside :
    interval.closed = false →
      interval.lowest < number ∧ number < interval.highest

theorem within_of_holds
    {interval : Rounding}
    (hUnit : 0 < interval.unit)
    {digits : Nat}
    {exponent : Int}
    (hHolds : interval.holds digits exponent = true) :
    interval.Within (Decimal.value ⟨digits, exponent⟩) := by
  have hUnit' : (0 : ℚ) < interval.unit := by exact_mod_cast hUnit
  have hScale : (0 : ℚ) < 10 ^ (-exponent).toNat := by positivity
  have hValue :
      Decimal.value ⟨digits, exponent⟩ =
        (digits * 10 ^ exponent.toNat : ℚ) / 10 ^ (-exponent).toNat := by
    unfold Decimal.value
    rw [zpow_eq_div (by norm_num : (10 : ℚ) ≠ 0), mul_div_assoc]
  unfold holds at hHolds
  simp only [Nat.pow_eq] at hHolds
  rw [hValue]
  split at hHolds
  · rename_i hClosed
    rw [Bool.and_eq_true, decide_eq_true_eq, decide_eq_true_eq]
      at hHolds
    refine ⟨?_, ?_, ?_⟩
    · unfold lowest
      rw [div_le_div_iff₀ hUnit' hScale, mul_right_comm]
      exact_mod_cast hHolds.1
    · unfold highest
      rw [div_le_div_iff₀ hScale hUnit', mul_right_comm]
      exact_mod_cast hHolds.2
    · intro hOpen
      rw [hClosed] at hOpen
      cases hOpen
  · rw [Bool.and_eq_true, decide_eq_true_eq, decide_eq_true_eq]
      at hHolds
    have hLow :
        interval.lowest <
          (digits * 10 ^ exponent.toNat : ℚ) /
            10 ^ (-exponent).toNat := by
      unfold lowest
      rw [div_lt_div_iff₀ hUnit' hScale, mul_right_comm]
      exact_mod_cast hHolds.1
    have hHigh :
        (digits * 10 ^ exponent.toNat : ℚ) / 10 ^ (-exponent).toNat <
          interval.highest := by
      unfold highest
      rw [div_lt_div_iff₀ hScale hUnit', mul_right_comm]
      exact_mod_cast hHolds.2
    exact ⟨hLow.le, hHigh.le, fun _ => ⟨hLow, hHigh⟩⟩

/- The quotient is the integer part of a division. -/
theorem quotient_spec
    {interval : Rounding}
    (hUnit : 0 < interval.unit)
    (exponent : Int) :
    interval.quotient exponent * (10 : ℚ) ^ exponent ≤
        interval.middle ∧
      interval.middle <
        (interval.quotient exponent + 1) * (10 : ℚ) ^ exponent := by
  have hUnit' : (0 : ℚ) < interval.unit := by exact_mod_cast hUnit
  have hScale : (0 : ℚ) < 10 ^ (-exponent).toNat := by positivity
  have hDivisor : 0 < interval.unit * 10 ^ exponent.toNat := by
    positivity
  have hLower :=
    Nat.div_mul_le_self
      (interval.value * 10 ^ (-exponent).toNat)
      (interval.unit * 10 ^ exponent.toNat)
  have hUpper :=
    Nat.lt_mul_of_div_lt
      (Nat.lt_succ_self
        (interval.value * 10 ^ (-exponent).toNat /
          (interval.unit * 10 ^ exponent.toNat)))
      hDivisor
  unfold middle quotient
  simp only [Nat.pow_eq]
  rw [zpow_eq_div (by norm_num : (10 : ℚ) ≠ 0), ← mul_div_assoc,
    ← mul_div_assoc]
  constructor
  · rw [div_le_div_iff₀ hScale hUnit']
    calc
      _ = ((interval.value * 10 ^ (-exponent).toNat /
              (interval.unit * 10 ^ exponent.toNat) *
            (interval.unit * 10 ^ exponent.toNat) : Nat) : ℚ) := by
        push_cast
        ring
      _ ≤ ((interval.value * 10 ^ (-exponent).toNat : Nat) : ℚ) := by
        exact_mod_cast hLower
      _ = _ := by push_cast; rfl
  · rw [div_lt_div_iff₀ hUnit' hScale]
    calc
      _ = ((interval.value * 10 ^ (-exponent).toNat : Nat) : ℚ) := by
        push_cast
        rfl
      _ < ((Nat.succ (interval.value * 10 ^ (-exponent).toNat /
              (interval.unit * 10 ^ exponent.toNat)) *
            (interval.unit * 10 ^ exponent.toNat) : Nat) : ℚ) := by
        exact_mod_cast hUpper
      _ = _ := by
        push_cast
        ring

/- The value is not below the power of ten that is found for it. -/
theorem pow_magnitude_le
    {interval : Rounding}
    (hUnit : 0 < interval.unit)
    (hLeast : (10 : ℚ) ^ (-324 : Int) ≤ interval.middle)
    {fuel : Nat}
    {exponent : Int}
    (hExponent : -324 < exponent)
    (hFuel : exponent + 323 < fuel) :
    (10 : ℚ) ^ (interval.magnitude fuel exponent - 1) ≤
      interval.middle := by
  induction fuel generalizing exponent with
  | zero => omega
  | succ fuel ih =>
      have hSpec := quotient_spec hUnit (exponent - 1)
      unfold magnitude
      by_cases hZero : interval.quotient (exponent - 1) = 0
      · rw [hZero, Nat.cast_zero, zero_add, one_mul] at hSpec
        have hNotLeast : exponent - 1 ≠ -324 := by
          intro hEq
          rw [hEq] at hSpec
          exact absurd hSpec.2 (not_lt.mpr hLeast)
        simp only [hZero, beq_self_eq_true, if_true]
        apply ih
        · omega
        · push_cast at hFuel
          omega
      · rw [if_neg (by simpa using hZero)]
        have hOne : (1 : ℚ) ≤ interval.quotient (exponent - 1) := by
          exact_mod_cast Nat.one_le_iff_ne_zero.mpr hZero
        have hPower : (0 : ℚ) < 10 ^ (exponent - 1) := by positivity
        calc
          (10 : ℚ) ^ (exponent - 1) = 1 * 10 ^ (exponent - 1) := by
            rw [one_mul]
          _ ≤ interval.quotient (exponent - 1) *
                10 ^ (exponent - 1) := by
            gcongr
          _ ≤ interval.middle := hSpec.1

theorem within_of_nearest?
    {interval : Rounding}
    (hUnit : 0 < interval.unit)
    {exponent : Int}
    {decimal : Decimal}
    (hNearest : interval.nearest? exponent = some decimal) :
    interval.Within decimal.value := by
  unfold nearest? at hNearest
  dsimp only at hNearest
  split at hNearest
  · rename_i hBoth
    rw [Bool.and_eq_true] at hBoth
    cases hNearest
    split
    · exact within_of_holds hUnit hBoth.2
    · exact within_of_holds hUnit hBoth.1
  · split at hNearest
    · rename_i hLower
      cases hNearest
      exact within_of_holds hUnit hLower
    · split at hNearest
      · rename_i hUpper
        cases hNearest
        exact within_of_holds hUnit hUpper
      · cases hNearest

/-
  A grid that is fine enough for the width of the interval has a
  decimal in it just below the value.
-/
theorem within_search
    {interval : Rounding}
    (hUnit : 0 < interval.unit)
    {width : ℚ}
    (hLow : interval.lowest ≤ interval.middle - width)
    (hHigh : interval.middle < interval.highest)
    {count : Nat}
    {exponent : Int}
    (hFine : (10 : ℚ) ^ (exponent - count) < width) :
    interval.Within (interval.search count exponent).value := by
  induction count generalizing exponent with
  | zero =>
      have hSpec := quotient_spec hUnit exponent
      rw [Nat.cast_zero, sub_zero] at hFine
      have hAbove :
          interval.lowest <
            interval.quotient exponent * (10 : ℚ) ^ exponent := by
        linarith
      have hBelow :
          interval.quotient exponent * (10 : ℚ) ^ exponent <
            interval.highest := by
        linarith
      exact ⟨hAbove.le, hBelow.le, fun _ => ⟨hAbove, hBelow⟩⟩
  | succ count ih =>
      unfold search
      cases hNearest : interval.nearest? exponent with
      | some decimal => exact within_of_nearest? hUnit hNearest
      | none =>
          apply ih
          have hSame :
              exponent - 1 - (count : Int) =
                exponent - ((count + 1 : Nat) : Int) := by
            push_cast
            ring
          rw [hSame]
          exact hFine

end Rounding

------------------------------------------------------------
-- Floats
------------------------------------------------------------

namespace Binary64

/- Parts as those of finite floats are. -/
structure Canonical (parts : Binary64) : Prop where
  small : parts.mantissa < 2 ^ 53
  least : -1074 ≤ parts.exponent
  normal : 2 ^ 52 ≤ parts.mantissa ∨ parts.exponent = -1074

/- A quarter of the distance to the next greater float. -/
def quarter (parts : Binary64) : ℚ :=
  (2 : ℚ) ^ (parts.exponent - 2)

theorem quarter_pos
    (parts : Binary64) :
    0 < parts.quarter := by
  unfold quarter
  positivity

/- The part of the mantissa below a float that its interval reaches. -/
def lowerReach (parts : Binary64) : Nat :=
  if parts.isLowerEdge then 1 else 2

theorem lowerReach_le
    (parts : Binary64) :
    1 ≤ parts.lowerReach ∧ parts.lowerReach ≤ 2 := by
  unfold lowerReach
  split <;> omega

section Ends

variable (parts : Binary64)

theorem unit_pos :
    0 < (Rounding.ofParts parts).unit := by
  unfold Rounding.ofParts
  simp only [Nat.pow_eq]
  positivity

/- What is measured in quarters. -/
theorem quarters
    (count : Nat) :
    ((count * 2 ^ (parts.exponent - 2).toNat : Nat) : ℚ) /
        (2 ^ (-(parts.exponent - 2)).toNat : Nat) =
      count * parts.quarter := by
  unfold quarter
  rw [zpow_eq_div (by norm_num : (2 : ℚ) ≠ 0)]
  push_cast
  ring

theorem middle_ofParts :
    (Rounding.ofParts parts).middle =
      4 * parts.mantissa * parts.quarter := by
  have hQuarters := parts.quarters (4 * parts.mantissa)
  push_cast at hQuarters
  unfold Rounding.middle Rounding.ofParts
  simp only [Nat.pow_eq]
  push_cast
  exact hQuarters

theorem highest_ofParts :
    (Rounding.ofParts parts).highest =
      (4 * parts.mantissa + 2) * parts.quarter := by
  have hQuarters := parts.quarters (4 * parts.mantissa + 2)
  push_cast at hQuarters
  unfold Rounding.highest Rounding.ofParts
  simp only [Nat.pow_eq]
  push_cast
  exact hQuarters

theorem lowest_ofParts
    (hPos : 0 < parts.mantissa) :
    (Rounding.ofParts parts).lowest =
      (4 * parts.mantissa - parts.lowerReach) * parts.quarter := by
  have hReach := parts.lowerReach_le
  have hQuarters :=
    parts.quarters (4 * parts.mantissa - parts.lowerReach)
  rw [Nat.cast_sub (by omega)] at hQuarters
  push_cast at hQuarters
  rw [← hQuarters]
  unfold Rounding.lowest Rounding.ofParts lowerReach
  simp only [Nat.pow_eq]
  rw [Nat.cast_mul, Nat.cast_sub (by split <;> omega)]
  push_cast
  rfl

end Ends

/- Only a mantissa that is even leaves the ends to its float. -/
theorem closed_ofParts_of_odd
    {parts : Binary64}
    (hOdd : parts.mantissa % 2 = 1) :
    (Rounding.ofParts parts).closed = false := by
  unfold Rounding.ofParts
  simp [hOdd]

/- The intervals of neighbours have at most an end in common. -/
theorem not_within_both_of_mantissa_lt
    {first second : Binary64}
    (hFirst : 0 < first.mantissa)
    (hExponent : first.exponent = second.exponent)
    (hMantissa : first.mantissa < second.mantissa)
    {number : ℚ}
    (hBelow : (Rounding.ofParts first).Within number)
    (hAbove : (Rounding.ofParts second).Within number) :
    False := by
  have hQuarter : second.quarter = first.quarter := by
    unfold quarter
    rw [hExponent]
  have hPos := first.quarter_pos
  have hHighest := first.highest_ofParts
  have hLowest := second.lowest_ofParts (by omega)
  have hReach : (second.lowerReach : ℚ) ≤ 2 := by
    exact_mod_cast second.lowerReach_le.2
  rw [hQuarter] at hLowest
  have hEnds :
      (4 * second.mantissa - 2) * first.quarter ≤
        (Rounding.ofParts second).lowest := by
    rw [hLowest]
    gcongr
  by_cases hNext : second.mantissa = first.mantissa + 1
  · -- Of two neighbours, one has an odd mantissa.
    have hMeet :
        (Rounding.ofParts first).highest ≤
          (Rounding.ofParts second).lowest := by
      rw [hHighest]
      refine le_trans (le_of_eq ?_) hEnds
      rw [hNext]
      push_cast
      ring
    by_cases hOdd : first.mantissa % 2 = 1
    · have hOpen := (hBelow.inside (closed_ofParts_of_odd hOdd)).2
      exact absurd (hMeet.trans hAbove.above) (not_le.mpr hOpen)
    · have hOpen :=
        (hAbove.inside (closed_ofParts_of_odd (by omega))).1
      exact absurd (hBelow.below.trans hMeet) (not_le.mpr hOpen)
  · have hFar : (first.mantissa : ℚ) + 2 ≤ second.mantissa := by
      exact_mod_cast (by omega : first.mantissa + 2 ≤ second.mantissa)
    have hApart :
        (Rounding.ofParts first).highest <
          (Rounding.ofParts second).lowest := by
      rw [hHighest]
      refine lt_of_lt_of_le (mul_lt_mul_of_pos_right ?_ hPos) hEnds
      linarith only [hFar]
    exact absurd (hAbove.above.trans hBelow.below) (not_le.mpr hApart)

/- A float with a greater exponent lies above all with a smaller one. -/
theorem not_within_both_of_exponent_lt
    {first second : Binary64}
    (hFirst : first.Canonical)
    (hSecond : second.Canonical)
    (hExponent : first.exponent < second.exponent)
    {number : ℚ}
    (hBelow : (Rounding.ofParts first).Within number)
    (hAbove : (Rounding.ofParts second).Within number) :
    False := by
  have hLeast := hFirst.least
  have hNormal : 2 ^ 52 ≤ second.mantissa := by
    rcases hSecond.normal with hNormal | hSubnormal
    · exact hNormal
    · omega
  have hPos := first.quarter_pos
  have hQuarter : 2 * first.quarter ≤ second.quarter := by
    calc
      2 * first.quarter = (2 : ℚ) ^ (first.exponent - 2 + 1) := by
        unfold quarter
        rw [zpow_add_one₀ (by norm_num : (2 : ℚ) ≠ 0), mul_comm]
      _ ≤ second.quarter := by
        unfold quarter
        exact zpow_le_zpow_right₀ (by norm_num) (by omega)
  have hHighest := first.highest_ofParts
  have hLowest := second.lowest_ofParts (by omega)
  have hEnds :
      (2 ^ 54 - 1) * (2 * first.quarter) ≤
        (Rounding.ofParts second).lowest := by
    have hReach :
        (2 : ℚ) ^ 54 - 1 ≤ 4 * second.mantissa - second.lowerReach := by
      have hNat :
          2 ^ 54 - 1 + second.lowerReach ≤ 4 * second.mantissa := by
        unfold lowerReach isLowerEdge
        by_cases hEdge : second.mantissa = 2 ^ 52
        · rw [if_pos]
          · omega
          · simp only [hEdge, Nat.pow_eq, beq_self_eq_true,
              Bool.true_and, decide_eq_true_eq]
            omega
        · split <;> omega
      have hCast :
          ((2 ^ 54 - 1 + second.lowerReach : Nat) : ℚ) ≤
            ((4 * second.mantissa : Nat) : ℚ) := by
        exact_mod_cast hNat
      push_cast at hCast
      linarith
    rw [hLowest]
    gcongr
  have hSmall := hFirst.small
  by_cases hLast : first.mantissa = 2 ^ 53 - 1
  · -- The last float before a power of two is odd.
    have hOpen :=
      (hBelow.inside (closed_ofParts_of_odd (by omega))).2
    have hAbove := hAbove.above
    rw [hHighest, hLast] at hOpen
    push_cast at hOpen
    linarith
  · have hLess : (first.mantissa : ℚ) ≤ 2 ^ 53 - 2 := by
      have hCast :
          ((first.mantissa + 2 : Nat) : ℚ) ≤ ((2 ^ 53 : Nat) : ℚ) := by
        exact_mod_cast (by omega : first.mantissa + 2 ≤ 2 ^ 53)
      push_cast at hCast
      linarith
    have hApart :
        (Rounding.ofParts first).highest <
          (Rounding.ofParts second).lowest := by
      rw [hHighest]
      refine lt_of_lt_of_le ?_ hEnds
      rw [← mul_assoc]
      refine mul_lt_mul_of_pos_right ?_ hPos
      linarith only [hLess]
    exact absurd (hAbove.above.trans hBelow.below) (not_le.mpr hApart)

/- A number lies in the interval of one float only. -/
theorem eq_of_within
    {first second : Binary64}
    (hFirst : first.Canonical)
    (hSecond : second.Canonical)
    (hFirstPos : 0 < first.mantissa)
    (hSecondPos : 0 < second.mantissa)
    {number : ℚ}
    (hInFirst : (Rounding.ofParts first).Within number)
    (hInSecond : (Rounding.ofParts second).Within number) :
    first.mantissa = second.mantissa ∧
      first.exponent = second.exponent := by
  rcases lt_trichotomy first.exponent second.exponent with
    hLess | hSame | hGreater
  · exact (not_within_both_of_exponent_lt hFirst hSecond hLess
      hInFirst hInSecond).elim
  · rcases lt_trichotomy first.mantissa second.mantissa with
      hLess | hEqual | hGreater
    · exact (not_within_both_of_mantissa_lt hFirstPos hSame hLess
        hInFirst hInSecond).elim
    · exact ⟨hEqual, hSame⟩
    · exact (not_within_both_of_mantissa_lt hSecondPos hSame.symm
        hGreater hInSecond hInFirst).elim
  · exact (not_within_both_of_exponent_lt hSecond hFirst hGreater
      hInSecond hInFirst).elim

/- Every number in the interval of a float is positive. -/
theorem pos_of_within
    {parts : Binary64}
    (hPos : 0 < parts.mantissa)
    {number : ℚ}
    (hWithin : (Rounding.ofParts parts).Within number) :
    0 < number := by
  have hLowest := parts.lowest_ofParts hPos
  have hReach : (parts.lowerReach : ℚ) ≤ 2 := by
    exact_mod_cast parts.lowerReach_le.2
  have hOne : (1 : ℚ) ≤ parts.mantissa := by exact_mod_cast hPos
  have hFactor : (0 : ℚ) < 4 * parts.mantissa - parts.lowerReach := by
    linarith
  calc
    0 < (4 * parts.mantissa - parts.lowerReach : ℚ) * parts.quarter :=
      mul_pos hFactor parts.quarter_pos
    _ = (Rounding.ofParts parts).lowest := hLowest.symm
    _ ≤ number := hWithin.above

/- No positive float is below the least one. -/
theorem least_le_middle
    {parts : Binary64}
    (hCanonical : parts.Canonical)
    (hPos : 0 < parts.mantissa) :
    (10 : ℚ) ^ (-324 : Int) ≤ (Rounding.ofParts parts).middle := by
  have hOne : (1 : ℚ) ≤ parts.mantissa := by exact_mod_cast hPos
  have hLeast := hCanonical.least
  have hQuarter : (2 : ℚ) ^ (-1076 : Int) ≤ parts.quarter := by
    unfold quarter
    exact zpow_le_zpow_right₀ (by norm_num) (by omega)
  have hPowers : (10 : ℚ) ^ (-324 : Int) ≤ 4 * 2 ^ (-1076 : Int) := by
    have hNat : 2 ^ 1076 ≤ 4 * 10 ^ 324 := by
      rw [show 1076 = 200 * 5 + 76 by rfl, show 324 = 200 + 124 by rfl,
        pow_add, pow_mul, pow_add]
      norm_num
    rw [zpow_neg, zpow_neg, ← div_eq_mul_inv, inv_eq_one_div,
      div_le_div_iff₀ (by positivity) (by positivity), one_mul]
    exact_mod_cast hNat
  rw [middle_ofParts]
  calc
    (10 : ℚ) ^ (-324 : Int) ≤ 4 * 2 ^ (-1076 : Int) := hPowers
    _ ≤ 4 * parts.quarter := by linarith
    _ ≤ 4 * parts.mantissa * parts.quarter := by
      have hPos := parts.quarter_pos
      nlinarith

end Binary64

/- The shortest decimal of a float lies in its interval. -/
theorem within_shortest
    {x : Float}
    (hCanonical : (Binary64.ofFloat x).Canonical)
    (hPos : 0 < (Binary64.ofFloat x).mantissa) :
    (Rounding.ofParts (Binary64.ofFloat x)).Within
      (shortest x).value := by
  unfold shortest
  dsimp only
  generalize Binary64.ofFloat x = parts at hCanonical hPos ⊢
  rw [Decimal.value_trimmed]
  have hUnit := parts.unit_pos
  have hQuarter := parts.quarter_pos
  have hMiddle := parts.middle_ofParts
  have hReach : (1 : ℚ) ≤ parts.lowerReach := by
    exact_mod_cast parts.lowerReach_le.1
  have hSmall : (parts.mantissa : ℚ) < 2 ^ 53 := by
    exact_mod_cast hCanonical.small
  have hPower :=
    Rounding.pow_magnitude_le hUnit
      (Binary64.least_le_middle hCanonical hPos)
      (by norm_num : (-324 : Int) < 310)
      (by norm_num : (310 : Int) + 323 < (700 : Nat))
  apply Rounding.within_search hUnit
  · rw [parts.lowest_ofParts hPos, hMiddle]
    show _ ≤ 4 * parts.mantissa * parts.quarter - parts.quarter
    rw [sub_mul]
    exact sub_le_sub_left (le_mul_of_one_le_left hQuarter.le hReach) _
  · rw [hMiddle, parts.highest_ofParts]
    exact mul_lt_mul_of_pos_right (lt_add_of_pos_right _ two_pos) hQuarter
  · rw [hMiddle] at hPower
    rw [zpow_sub₀ (by norm_num : (10 : ℚ) ≠ 0), zpow_natCast,
      div_lt_iff₀ (by norm_num), mul_comm parts.quarter]
    refine hPower.trans_lt (mul_lt_mul_of_pos_right ?_ hQuarter)
    -- All mantissas have fewer than seventeen digits.
    calc
      (4 * parts.mantissa : ℚ) < 4 * 2 ^ 53 := by gcongr
      _ < 10 ^ 17 := by norm_num

end SnippetGrader.Number
