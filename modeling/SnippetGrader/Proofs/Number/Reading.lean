import SnippetGrader.Proofs.Number.Rounding

/-
  Reading back what is written for a float.

  Decimals are read by one operation on exact operands, which
  rounds once. A decimal in the interval of a float is therefore
  read as that float, and the text of a float holds such a
  decimal.

  Key theorems include:
    * `Number.parts_pack`
    * `Number.mul_of_within`, `Number.div_of_within`
    * `Number.nearestFloat_of_within`
    * `Number.readMagnitude?_valueText`
-/

namespace SnippetGrader.Number

open Float.Model
open Float.Model.UnpackedFloat

------------------------------------------------------------
-- Packing
------------------------------------------------------------

/- The greatest exponent is kept for the infinities. -/
theorem exponent_le_of_finite
    {x : Float}
    (hFinite : Finite x) :
    (Binary64.ofFloat x).exponent ≤ 971 := by
  have hTop :
      @unpackExponent Format.binary64 x.toModel.toBits.toBitVec ≠
        -1#11 := by
    intro hTop
    have hNumber : x.toModel.unpack.isNaN = false := hFinite.unsigned.1
    have hBounded : x.toModel.unpack.isInf = false := hFinite.bounded
    unfold Float.Model.unpack UnpackedFloat.unpack at hNumber hBounded
    simp only [if_pos hTop] at hNumber hBounded
    split at hBounded
    · cases hBounded
    · rename_i hPayload
      rw [if_neg hPayload] at hNumber
      cases hNumber
  have hBiased : x.toBits.toNat / 2 ^ 52 % 2 ^ 11 ≠ 2047 := by
    rw [← toNat_unpackExponent]
    exact fun hSame => hTop (BitVec.eq_of_toNat_eq hSame)
  have hRange : x.toBits.toNat / 2 ^ 52 % 2 ^ 11 < 2 ^ 11 :=
    Nat.mod_lt _ (by norm_num)
  simp only [Binary64.ofFloat, Nat.pow_eq, beq_iff_eq]
  split <;> omega

theorem parts_of_bits
    {x : Float}
    {exponent : BitVec 11}
    {mantissa : BitVec 52}
    (hBits :
      x.toModel.toBits.toBitVec =
        packComponents Format.binary64 .positive exponent mantissa) :
    x.toBits.toNat % 2 ^ 52 = mantissa.toNat ∧
      x.toBits.toNat / 2 ^ 52 % 2 ^ 11 = exponent.toNat := by
  rw [← toNat_unpackMantissa, ← toNat_unpackExponent, hBits,
    unpackMantissa_packComponents, unpackExponent_packComponents]
  exact ⟨rfl, rfl⟩

/- A float is packed to the parts that it has. -/
theorem parts_pack
    {parts : Binary64}
    (hCanonical : parts.Canonical)
    (hPos : 0 < parts.mantissa)
    (hBounded : parts.exponent ≤ 971) :
    (Binary64.ofFloat
          (.ofModel
            (.pack (.finite .positive parts.mantissa parts.exponent
              hPos)))).mantissa = parts.mantissa ∧
      (Binary64.ofFloat
          (.ofModel
            (.pack (.finite .positive parts.mantissa parts.exponent
              hPos)))).exponent = parts.exponent := by
  set x : Float :=
    .ofModel
      (.pack (.finite .positive parts.mantissa parts.exponent hPos))
    with hX
  have hSmall := hCanonical.small
  have hLeast := hCanonical.least
  have hFits :
      ¬ 2 ^ 11 ≤ (parts.exponent + 1023 + 52).toNat + 1 := by
    omega
  by_cases hNormal : 2 ^ 52 ≤ parts.mantissa
  · have hLog : parts.mantissa.log2 + 1 = 53 := by
      have := (Nat.le_log2 (by omega)).mpr hNormal
      have := (Nat.log2_lt (by omega)).mpr hSmall
      omega
    have hBits :
        x.toModel.toBits.toBitVec =
          packComponents Format.binary64 .positive
            (.ofNat 11 (parts.exponent + 1023 + 52).toNat)
            (.ofNat 52 parts.mantissa) := by
      change
        UnpackedFloat.pack Format.binary64
          (.finite .positive parts.mantissa parts.exponent hPos) = _
      unfold UnpackedFloat.pack
      exact (if_neg hFits).trans (if_pos hLog)
    obtain ⟨hMantissa, hExponent⟩ := parts_of_bits hBits
    rw [BitVec.toNat_ofNat] at hMantissa hExponent
    simp only [Binary64.ofFloat, Nat.pow_eq, beq_iff_eq]
    rw [hMantissa, hExponent]
    constructor <;> split <;> omega
  · have hLog : ¬ parts.mantissa.log2 + 1 = 53 := by
      have := (Nat.log2_lt (by omega)).mpr (not_le.mp hNormal)
      omega
    have hTiny : parts.exponent = -1074 := by
      rcases hCanonical.normal with hNormal' | hTiny
      · omega
      · exact hTiny
    have hBits :
        x.toModel.toBits.toBitVec =
          packComponents Format.binary64 .positive 0#11
            (.ofNat 52 parts.mantissa) := by
      change
        UnpackedFloat.pack Format.binary64
          (.finite .positive parts.mantissa parts.exponent hPos) = _
      unfold UnpackedFloat.pack
      exact (if_neg hFits).trans (if_neg hLog)
    obtain ⟨hMantissa, hExponent⟩ := parts_of_bits hBits
    rw [BitVec.toNat_ofNat] at hMantissa hExponent
    simp only [Binary64.ofFloat, Nat.pow_eq, beq_iff_eq]
    rw [hMantissa, hExponent]
    constructor <;> split <;> omega

theorem pack_of_finite
    {x : Float}
    (hFinite : Finite x)
    (hPos : 0 < (Binary64.ofFloat x).mantissa) :
    Float.ofModel
        (.pack
          (.finite .positive (Binary64.ofFloat x).mantissa
            (Binary64.ofFloat x).exponent hPos)) = x := by
  obtain ⟨hMantissa, hExponent⟩ :=
    parts_pack (canonical_ofFloat x) hPos (exponent_le_of_finite hFinite)
  exact
    eq_of_parts (unsigned_pack rfl).2 hFinite.unsigned.2 hMantissa
      hExponent

theorem unpack_pack
    {parts : Binary64}
    (hCanonical : parts.Canonical)
    (hPos : 0 < parts.mantissa)
    (hBounded : parts.exponent ≤ 971) :
    (Float.Model.pack
        (.finite .positive parts.mantissa parts.exponent hPos)).unpack =
      .finite .positive parts.mantissa parts.exponent hPos := by
  set x : Float :=
    .ofModel
      (.pack (.finite .positive parts.mantissa parts.exponent hPos))
    with hX
  have hUnsigned : Unsigned x := unsigned_pack rfl
  obtain ⟨hMantissa, hExponent⟩ :=
    parts_pack hCanonical hPos hBounded
  have hParts := parts_eq_unpacked hUnsigned.1
  rw [← hX] at hMantissa hExponent
  rw [hMantissa, hExponent] at hParts
  have hPlain := isPlain_unpack hUnsigned
  change x.toModel.unpack = _
  generalize x.toModel.unpack = unpacked at hParts hPlain
  obtain rfl | rfl | ⟨_, _, _, rfl⟩ := isPlain_cases hPlain <;>
    simp only [unpackedParts, Prod.mk.injEq] at hParts
  · omega
  · omega
  · simp only [hParts]

------------------------------------------------------------
-- Exact Operands
------------------------------------------------------------

theorem within_self
    {parts : Binary64}
    (hPos : 0 < parts.mantissa) :
    (Rounding.ofParts parts).Within
      (parts.mantissa * 2 ^ parts.exponent) := by
  have hReach : (1 : ℚ) ≤ parts.lowerReach := by
    exact_mod_cast parts.lowerReach_le.1
  refine within_of_scaled hPos ?_ ?_ fun _ => ⟨?_, ?_⟩ <;> linarith

/- A natural number of at most 53 bits, as a float has it. -/
def exactParts (n : Nat) : Binary64 :=
  ⟨false, n <<< (52 - n.log2), -((52 - n.log2 : Nat) : Int)⟩

theorem log2_exactParts
    {n : Nat}
    (hPos : 0 < n)
    (hSmall : n < 2 ^ 53) :
    (exactParts n).mantissa.log2 = 52 := by
  have hLog := (Nat.log2_lt (by omega)).mpr hSmall
  have hLow := Nat.log2_self_le (by omega : n ≠ 0)
  have hHigh : n < 2 ^ (n.log2 + 1) := Nat.lt_log2_self
  rw [exactParts, Nat.shiftLeft_eq,
    Nat.log2_eq_iff (by positivity)]
  constructor
  · calc
      2 ^ 52 = 2 ^ n.log2 * 2 ^ (52 - n.log2) := by
        rw [← Nat.pow_add]
        congr 1
        omega
      _ ≤ n * 2 ^ (52 - n.log2) := Nat.mul_le_mul_right _ hLow
  · calc
      n * 2 ^ (52 - n.log2) < 2 ^ (n.log2 + 1) * 2 ^ (52 - n.log2) :=
        Nat.mul_lt_mul_of_pos_right hHigh (by positivity)
      _ = 2 ^ (52 + 1) := by
        rw [← Nat.pow_add]
        congr 1
        omega

theorem canonical_exactParts
    {n : Nat}
    (hPos : 0 < n)
    (hSmall : n < 2 ^ 53) :
    (exactParts n).Canonical ∧ 0 < (exactParts n).mantissa := by
  have hLog := log2_exactParts hPos hSmall
  have hNonzero : (exactParts n).mantissa ≠ 0 := by
    intro hZero
    rw [hZero, Nat.log2_zero] at hLog
    omega
  have hBounds := (Nat.log2_eq_iff hNonzero).mp hLog
  refine ⟨⟨hBounds.2, ?_, Or.inl hBounds.1⟩, by omega⟩
  simp only [exactParts]
  omega

theorem value_exactParts
    (n : Nat) :
    ((exactParts n).mantissa : ℚ) * 2 ^ (exactParts n).exponent = n := by
  simp only [exactParts, Nat.shiftLeft_eq]
  rw [zpow_neg, zpow_natCast]
  push_cast
  rw [mul_assoc, mul_inv_cancel₀ (by positivity), mul_one]

/- Natural numbers of at most 53 bits are converted exactly. -/
theorem unpack_toFloat
    {n : Nat}
    (hPos : 0 < n)
    (hSmall : n < 2 ^ 53) :
    n.toUInt64.toFloat.toModel.unpack =
      .finite .positive (exactParts n).mantissa (exactParts n).exponent
        (canonical_exactParts hPos hSmall).2 := by
  obtain ⟨hCanonical, hMantissa⟩ := canonical_exactParts hPos hSmall
  have hNat : n.toUInt64.toNat = n := by
    rw [Nat.toUInt64_eq, UInt64.toNat_ofNat']
    exact Nat.mod_eq_of_lt (by omega)
  have hLog := (Nat.log2_lt (by omega)).mpr hSmall
  have hOfNat :
      UnpackedFloat.ofNat Format.binary64 n =
        .finite .positive (exactParts n).mantissa
          (exactParts n).exponent hMantissa := by
    have hGreater : compare (n : Int) 0 = .gt := by
      rw [Int.compare_eq_gt]
      omega
    have hTarget :
        Format.binary64.targetExponent (totalExponent n 0) =
          -((52 - n.log2 : Nat) : Int) := by
      rw [targetExponent_eq]
      omega
    unfold UnpackedFloat.ofNat UnpackedFloat.ofInt UnpackedFloat.normalize
    simp only [hGreater]
    unfold UnpackedFloat.round decreaseExponent
    simp only [Int.toNat_natCast, hTarget, zero_sub, neg_neg]
    refine
      roundWithAccuracy_of_within hCanonical hMantissa
        (within_self hMantissa) (shows_exact _ _) (Or.inl ?_)
    exact (log2_exactParts hPos hSmall).ge
  have hModel :
      n.toUInt64.toFloat.toModel =
        .pack (UnpackedFloat.ofNat Format.binary64 n.toUInt64.toNat) := rfl
  rw [hModel, hNat, hOfNat]
  refine unpack_pack hCanonical hMantissa ?_
  simp only [exactParts]
  omega

/- The powers of ten of the table are exact. -/
theorem powerOfTen_parts :
    ∀ k (hIndex : k < Float.exactlyRepresentablePowersOfTen.size),
      let unpacked :=
        Float.exactlyRepresentablePowersOfTen[k].toModel.unpack
      let parts := unpackedParts unpacked
      isPositive unpacked = true ∧ 2 ^ 52 ≤ parts.1 ∧
        parts.1 * 2 ^ parts.2.toNat = 10 ^ k * 2 ^ (-parts.2).toNat := by
  decide

theorem unpack_powerOfTen
    {k : Nat}
    (hIndex : k < Float.exactlyRepresentablePowersOfTen.size) :
    ∃ mantissa exponent, ∃ hPos : 0 < mantissa,
      Float.exactlyRepresentablePowersOfTen[k].toModel.unpack =
          .finite .positive mantissa exponent hPos ∧
        2 ^ 52 ≤ mantissa ∧
          (mantissa : ℚ) * 2 ^ exponent = 10 ^ k := by
  obtain ⟨hPositive, hGreat, hValue⟩ := powerOfTen_parts k hIndex
  generalize
    Float.exactlyRepresentablePowersOfTen[k].toModel.unpack = unpacked
    at hPositive hGreat hValue ⊢
  unfold isPositive at hPositive
  split at hPositive
  · rename_i mantissa exponent hPos
    refine ⟨mantissa, exponent, hPos, rfl, hGreat, ?_⟩
    simp only [unpackedParts] at hValue
    have hCast :
        (mantissa : ℚ) * 2 ^ exponent.toNat =
          10 ^ k * 2 ^ (-exponent).toNat := by
      exact_mod_cast hValue
    rw [zpow_eq_div (by norm_num), mul_div_assoc', hCast,
      mul_div_cancel_right₀ _ (by positivity)]
  · cases hPositive

------------------------------------------------------------
-- Products and Quotients
------------------------------------------------------------

section Operations

variable {parts : Binary64}
variable {m₁ m₂ : Nat}
variable {e₁ e₂ : Int}

theorem mul_of_within
    (hCanonical : parts.Canonical)
    (hPos : 0 < parts.mantissa)
    (hFirst : 0 < m₁)
    (hSecond : 0 < m₂)
    (hFine : 52 ≤ (m₁ * m₂).log2)
    (hWithin :
      (Rounding.ofParts parts).Within
        (m₁ * 2 ^ e₁ * (m₂ * 2 ^ e₂))) :
    mul Format.binary64 (.finite .positive m₁ e₁ hFirst)
        (.finite .positive m₂ e₂ hSecond) =
      .finite .positive parts.mantissa parts.exponent hPos := by
  have hShows := shows_exact (m₁ * m₂) (e₁ + e₂)
  have hValue :
      ((m₁ * m₂ : Nat) : ℚ) * 2 ^ (e₁ + e₂) =
        m₁ * 2 ^ e₁ * (m₂ * 2 ^ e₂) := by
    rw [zpow_add₀ (by norm_num)]
    push_cast
    ring
  rw [hValue] at hShows
  exact
    roundWithAccuracy_of_within hCanonical hPos hWithin hShows
      (Or.inl hFine)

theorem div_of_within
    (hCanonical : parts.Canonical)
    (hPos : 0 < parts.mantissa)
    (hFirst : 0 < m₁)
    (hSecond : 0 < m₂)
    (hWithin :
      (Rounding.ofParts parts).Within
        (m₁ * 2 ^ e₁ / (m₂ * 2 ^ e₂))) :
    div Format.binary64 (.finite .positive m₁ e₁ hFirst)
        (.finite .positive m₂ e₂ hSecond) =
      .finite .positive parts.mantissa parts.exponent hPos := by
  set target : Int :=
    min (e₁ - e₂)
      (Format.binary64.targetExponent
        (totalExponent m₁ e₁ - totalExponent m₂ e₂)) with hTarget
  set shift : Nat := (e₁ - e₂ - target).toNat with hShift
  have hLe : target ≤ e₁ - e₂ := min_le_left _ _
  have hAmount : target + (shift : Int) = e₁ - e₂ := by omega
  have hSplit :
      ((m₁ * 2 ^ shift : Nat) : ℚ) =
        m₂ * (m₁ * 2 ^ shift / m₂ : Nat) + (m₁ * 2 ^ shift % m₂ : Nat) := by
    exact_mod_cast (Nat.div_add_mod _ _).symm
  have hM₂ : (m₂ : ℚ) ≠ 0 := by exact_mod_cast hSecond.ne'
  have hShows :=
    shows_fraction (m₁ * 2 ^ shift / m₂)
      (Nat.mod_lt (m₁ * 2 ^ shift) hSecond) target
  have hValue :
      ((m₁ * 2 ^ shift / m₂ : Nat) +
          (m₁ * 2 ^ shift % m₂ : Nat) / m₂ : ℚ) * 2 ^ target =
        m₁ * 2 ^ e₁ / (m₂ * 2 ^ e₂) := by
    have hQuotient :
        ((m₁ * 2 ^ shift / m₂ : Nat) +
            (m₁ * 2 ^ shift % m₂ : Nat) / m₂ : ℚ) =
          (m₁ * 2 ^ shift : Nat) / m₂ := by
      rw [hSplit]
      field_simp
    have hPower :
        (2 : ℚ) ^ shift * 2 ^ target = 2 ^ e₁ / 2 ^ e₂ := by
      rw [← zpow_sub₀ (by norm_num), ← hAmount, zpow_add₀ (by norm_num),
        zpow_natCast, mul_comm]
    rw [hQuotient]
    push_cast
    rw [div_mul_eq_mul_div, mul_assoc, hPower]
    field_simp
  rw [hValue] at hShows
  have hFine : IsFine (m₁ * 2 ^ shift / m₂) target := by
    by_cases hTiny : target ≤ -1074
    · exact Or.inr hTiny
    · refine Or.inl ?_
      -- The shift leaves the quotient at least 53 bits.
      have hBits : 52 + (m₂.log2 + 1) ≤ m₁.log2 + shift := by
        simp only [Format.targetExponent, totalExponent,
          Format.mantissaBits, Format.minExponent] at hTarget
        norm_num at hTarget
        omega
      have hQuotient : 2 ^ 52 ≤ m₁ * 2 ^ shift / m₂ := by
        rw [Nat.le_div_iff_mul_le hSecond]
        calc
          2 ^ 52 * m₂ ≤ 2 ^ 52 * 2 ^ (m₂.log2 + 1) :=
            Nat.mul_le_mul_left _ Nat.lt_log2_self.le
          _ = 2 ^ (52 + (m₂.log2 + 1)) := (Nat.pow_add _ _ _).symm
          _ ≤ 2 ^ (m₁.log2 + shift) :=
            Nat.pow_le_pow_right (by norm_num) hBits
          _ = 2 ^ m₁.log2 * 2 ^ shift := Nat.pow_add _ _ _
          _ ≤ m₁ * 2 ^ shift :=
            Nat.mul_le_mul_right _ (Nat.log2_self_le hFirst.ne')
      exact (Nat.le_log2 (by omega)).mpr hQuotient
  have hRounded :=
    roundWithAccuracy_of_within hCanonical hPos hWithin hShows hFine
  rw [← hRounded, ← Nat.shiftLeft_eq]
  rfl

end Operations

------------------------------------------------------------
-- Reading
------------------------------------------------------------

/- Short decimals are read by one operation on exact operands. -/
theorem ofScientific_of_within_of_short
    {x : Float}
    (hFinite : Finite x)
    (hPos : 0 < (Binary64.ofFloat x).mantissa)
    {digits : Nat}
    {exponent : Int}
    (hWithin :
      (Rounding.ofParts (Binary64.ofFloat x)).Within
        (Decimal.value ⟨digits, exponent⟩))
    (hDigits : 0 < digits)
    (hShort : digits < 2 ^ 53 ∧ exponent.natAbs ≤ 22) :
    Float.ofScientific digits (exponent < 0) exponent.natAbs = x := by
  have hIndex :
      exponent.natAbs < Float.exactlyRepresentablePowersOfTen.size := by
    simp only [Float.exactlyRepresentablePowersOfTen, List.size_toArray,
      List.length_cons, List.length_nil]
    omega
  obtain ⟨mantissa, scale, hScale, hUnpacked, hGreat, hPower⟩ :=
    unpack_powerOfTen hIndex
  have hExact := value_exactParts digits
  have hMantissa := (canonical_exactParts hDigits hShort.1).2
  unfold Decimal.value at hWithin
  unfold Float.ofScientific
  rw [dif_pos hShort]
  by_cases hNegative : exponent < 0
  · simp only [hNegative, decide_true, if_true]
    have hQuotient :
        (digits : ℚ) * 10 ^ exponent =
          (exactParts digits).mantissa * 2 ^ (exactParts digits).exponent /
            (mantissa * 2 ^ scale) := by
      rw [hExact, hPower, div_eq_mul_inv, ← zpow_natCast, ← zpow_neg]
      congr 2
      omega
    rw [hQuotient] at hWithin
    rw [← pack_of_finite hFinite hPos,
      ← div_of_within (canonical_ofFloat x) hPos hMantissa hScale hWithin,
      ← unpack_toFloat hDigits hShort.1, ← hUnpacked]
    rfl
  · simp only [hNegative, decide_false, Bool.false_eq_true, if_false]
    have hProduct :
        (digits : ℚ) * 10 ^ exponent =
          (exactParts digits).mantissa * 2 ^ (exactParts digits).exponent *
            (mantissa * 2 ^ scale) := by
      rw [hExact, hPower, ← zpow_natCast]
      congr 2
      omega
    have hFine : 52 ≤ ((exactParts digits).mantissa * mantissa).log2 := by
      rw [Nat.le_log2 (by positivity)]
      calc
        2 ^ 52 ≤ mantissa := hGreat
        _ ≤ (exactParts digits).mantissa * mantissa :=
          Nat.le_mul_of_pos_left _ hMantissa
    rw [hProduct] at hWithin
    rw [← pack_of_finite hFinite hPos,
      ← mul_of_within (canonical_ofFloat x) hPos hMantissa hScale hFine
        hWithin,
      ← unpack_toFloat hDigits hShort.1, ← hUnpacked]
    rfl

/- All other decimals are read by one operation on integers. -/
theorem ofScientific_of_within_of_long
    {x : Float}
    (hFinite : Finite x)
    (hPos : 0 < (Binary64.ofFloat x).mantissa)
    {digits : Nat}
    {exponent : Int}
    (hWithin :
      (Rounding.ofParts (Binary64.ofFloat x)).Within
        (Decimal.value ⟨digits, exponent⟩))
    (hDigits : 0 < digits)
    (hLong : ¬ (digits < 2 ^ 53 ∧ exponent.natAbs ≤ 22))
    (hHigh : exponent ≤ 2048)
    (hLow : -(2048 + (digits.log2 : Int)) ≤ exponent) :
    Float.ofScientific digits (exponent < 0) exponent.natAbs = x := by
  have hSigned :
      (if decide (exponent < 0) = true then Int.negOfNat exponent.natAbs
        else Int.ofNat exponent.natAbs) = exponent := by
    by_cases hNegative : exponent < 0
    · simp only [hNegative, decide_true, if_true, Int.negOfNat_eq]
      simp only [Int.ofNat_eq_natCast]
      omega
    · simp only [hNegative, decide_false, Bool.false_eq_true, if_false,
        Int.ofNat_eq_natCast]
      omega
  unfold Decimal.value at hWithin
  unfold Float.ofScientific
  rw [dif_neg hLong]
  dsimp only
  rw [hSigned, ← pack_of_finite hFinite hPos]
  unfold Float.Model.ofScientific UnpackedFloat.ofScientific
  rw [dif_neg hDigits.ne', if_neg (by norm_num; omega),
    if_neg (by norm_num; omega)]
  congr 2
  by_cases hSign : 0 ≤ exponent
  · rw [if_pos hSign]
    have hProduct :
        (digits : ℚ) * 10 ^ exponent =
          (digits <<< Format.binary64.mantissaBits : Nat) *
              2 ^ (-(Format.binary64.mantissaBits : Int)) *
            ((10 ^ exponent.toNat : Nat) * 2 ^ (0 : Int)) := by
      have hNat : (exponent.toNat : Int) = exponent :=
        Int.toNat_of_nonneg hSign
      rw [Nat.shiftLeft_eq, zpow_neg, zpow_natCast, zpow_zero, mul_one]
      push_cast
      rw [mul_inv_cancel_right₀ (by positivity), ← zpow_natCast, hNat]
    rw [hProduct] at hWithin
    have hGreat :
        2 ^ 52 ≤ digits * 2 ^ Format.binary64.mantissaBits *
          10 ^ exponent.toNat :=
      calc
        2 ^ 52 ≤ 2 ^ Format.binary64.mantissaBits :=
          Nat.pow_le_pow_right (by norm_num) (by decide)
        _ ≤ digits * 2 ^ Format.binary64.mantissaBits :=
          Nat.le_mul_of_pos_left _ hDigits
        _ ≤ digits * 2 ^ Format.binary64.mantissaBits *
            10 ^ exponent.toNat :=
          Nat.le_mul_of_pos_right _ (Nat.pow_pos (by norm_num))
    have hFine :
        52 ≤ (digits <<< Format.binary64.mantissaBits *
          10 ^ exponent.toNat).log2 := by
      rw [Nat.shiftLeft_eq]
      exact (Nat.le_log2 (by omega)).mpr hGreat
    exact mul_of_within (canonical_ofFloat x) hPos _ _ hFine hWithin
  · rw [if_neg hSign]
    have hQuotient :
        (digits : ℚ) * 10 ^ exponent =
          digits * 2 ^ (0 : Int) /
            ((10 ^ (-exponent).toNat : Nat) * 2 ^ (0 : Int)) := by
      have hNat : ((-exponent).toNat : Int) = -exponent := by omega
      rw [zpow_zero, mul_one, mul_one]
      push_cast
      rw [← zpow_natCast, hNat, zpow_neg, div_inv_eq_mul]
    rw [hQuotient] at hWithin
    exact div_of_within (canonical_ofFloat x) hPos _ _ hWithin

/- The number of digits of a positive number tells its magnitude. -/
theorem length_toString_bounds
    {n : Nat}
    (hPos : 0 < n) :
    10 ^ ((toString n).length - 1) ≤ n ∧ n < 10 ^ (toString n).length := by
  rw [Nat.toString_eq_repr]
  have hLength : 0 < n.repr.length := Nat.length_repr_pos
  refine ⟨?_, (Nat.length_repr_le_iff hLength).mp le_rfl⟩
  by_cases hOne : n.repr.length = 1
  · rw [hOne]
    omega
  · rw [← not_lt, ← Nat.length_repr_le_iff (by omega)]
    omega

/- All numbers in the interval of a float are below the infinite ones. -/
theorem lt_of_within
    {parts : Binary64}
    (hCanonical : parts.Canonical)
    (hBounded : parts.exponent ≤ 971)
    {number : ℚ}
    (hWithin : (Rounding.ofParts parts).Within number) :
    number < 10 ^ (309 : Int) := by
  have hQuarter : parts.quarter ≤ (2 : ℚ) ^ (969 : Int) := by
    unfold Binary64.quarter
    exact zpow_le_zpow_right₀ (by norm_num) (by omega)
  have hSmall : (parts.mantissa : ℚ) ≤ 2 ^ 53 := by
    exact_mod_cast hCanonical.small.le
  have hPower : ((2 : ℚ) ^ 55 + 2) * 2 ^ (969 : Int) < 10 ^ (309 : Int) := by
    have hNat : (2 ^ 55 + 2) * 2 ^ 969 < 10 ^ 309 := by
      rw [show 969 = 200 * 4 + 169 by rfl, show 309 = 200 + 109 by rfl,
        pow_add, pow_mul, pow_add]
      norm_num
    rw [show (969 : Int) = ((969 : Nat) : Int) by rfl,
      show (309 : Int) = ((309 : Nat) : Int) by rfl, zpow_natCast,
      zpow_natCast]
    exact_mod_cast hNat
  calc
    number ≤ (4 * parts.mantissa + 2) * parts.quarter := by
      rw [← parts.highest_ofParts]
      exact hWithin.below
    _ ≤ (4 * 2 ^ 53 + 2) * 2 ^ (969 : Int) := by
      have := parts.quarter_pos
      gcongr
    _ = (2 ^ 55 + 2) * 2 ^ (969 : Int) := by norm_num
    _ < 10 ^ (309 : Int) := hPower

/- A decimal in the interval of a float is read as that float. -/
theorem nearestFloat_of_within
    {x : Float}
    (hFinite : Finite x)
    (hPos : 0 < (Binary64.ofFloat x).mantissa)
    {digits : Nat}
    {exponent : Int}
    (hWithin :
      (Rounding.ofParts (Binary64.ofFloat x)).Within
        (Decimal.value ⟨digits, exponent⟩)) :
    nearestFloat digits exponent = x := by
  have hCanonical := canonical_ofFloat x
  have hNonzero : 0 < digits := by
    rw [Nat.pos_iff_ne_zero]
    rintro rfl
    have hValue := Binary64.pos_of_within hPos hWithin
    simp [Decimal.value] at hValue
  obtain ⟨hLow, hHigh⟩ := length_toString_bounds hNonzero
  have hLength : 0 < (toString digits).length := by
    rw [Nat.toString_eq_repr]
    exact Nat.length_repr_pos
  set length := (toString digits).length with hSize
  have hUpper : (length : Int) + exponent ≤ 309 := by
    have hBelow :=
      lt_of_within hCanonical (exponent_le_of_finite hFinite) hWithin
    have hPower :
        (10 : ℚ) ^ ((length : Int) - 1 + exponent) < 10 ^ (309 : Int) :=
      calc
        (10 : ℚ) ^ ((length : Int) - 1 + exponent) =
            10 ^ (length - 1) * 10 ^ exponent := by
          rw [zpow_add₀ (by norm_num), ← zpow_natCast,
            Nat.cast_pred hLength]
        _ ≤ digits * 10 ^ exponent := by
          gcongr
          exact_mod_cast hLow
        _ < 10 ^ (309 : Int) := hBelow
    have := (zpow_lt_zpow_iff_right₀ (by norm_num)).mp hPower
    omega
  have hLower : -324 < (length : Int) + exponent := by
    have hAbove := half_lt_of_within hCanonical hPos hWithin
    have hPower :
        (10 : ℚ) ^ (-324 : Int) < 10 ^ ((length : Int) + exponent) :=
      calc
        (10 : ℚ) ^ (-324 : Int) ≤ 1 / 2 * 2 ^ (-1074 : Int) := by
          have hNat : 2 * 2 ^ 1074 ≤ 10 ^ 324 := by
            rw [show 1074 = 200 * 5 + 74 by rfl,
              show 324 = 200 + 124 by rfl, pow_add, pow_mul, pow_add]
            norm_num
          rw [zpow_neg, zpow_neg, ← div_eq_mul_inv, inv_eq_one_div,
            div_div, div_le_div_iff₀ (by positivity) (by positivity),
            one_mul, one_mul]
          exact_mod_cast hNat
        _ < digits * 10 ^ exponent := hAbove
        _ ≤ 10 ^ length * 10 ^ exponent := by
          gcongr
          exact_mod_cast hHigh.le
        _ = 10 ^ ((length : Int) + exponent) := by
          rw [zpow_add₀ (by norm_num), zpow_natCast]
    exact (zpow_lt_zpow_iff_right₀ (by norm_num)).mp hPower
  -- A number has no fewer binary digits than decimal ones.
  have hLog : length ≤ digits.log2 + 1 := by
    have hPower : 2 ^ (length - 1) < 2 ^ (digits.log2 + 1) :=
      calc
        2 ^ (length - 1) ≤ 10 ^ (length - 1) :=
          Nat.pow_le_pow_left (by norm_num) _
        _ ≤ digits := hLow
        _ < 2 ^ (digits.log2 + 1) := Nat.lt_log2_self
    have := (Nat.pow_lt_pow_iff_right (by norm_num)).mp hPower
    omega
  unfold nearestFloat
  simp only [beq_iff_eq, hNonzero.ne', if_false, ← hSize]
  rw [if_neg (by omega), if_neg (by omega)]
  by_cases hShort : digits < 2 ^ 53 ∧ exponent.natAbs ≤ 22
  · exact
      ofScientific_of_within_of_short hFinite hPos hWithin hNonzero
        hShort
  · exact
      ofScientific_of_within_of_long hFinite hPos hWithin hNonzero
        hShort (by omega) (by omega)

------------------------------------------------------------
-- Texts
------------------------------------------------------------

theorem isDigit_eq
    (c : Char) :
    isDigit c = c.isDigit := by
  unfold isDigit Char.isDigit
  simp only [Char.le_def, ge_iff_le]

theorem digitValue?_of_isDigit
    {c : Char}
    (hDigit : c.isDigit = true) :
    digitValue? c = some (c.toNat - '0'.toNat) ∧
      c.toNat - '0'.toNat < 10 := by
  rw [← isDigit_eq] at hDigit
  unfold isDigit at hDigit
  refine ⟨?_, ?_⟩
  · unfold digitValue?
    rw [if_pos hDigit]
  · simp only [Bool.and_eq_true, decide_eq_true_eq, Char.le_def,
      UInt32.le_iff_toNat_le] at hDigit
    change c.val.toNat - 48 < 10
    have hNine : ('9' : Char).val.toNat = 57 := rfl
    omega

/- Digits are read as the number that they stand for. -/
theorem readDigits?_of_isDigit
    {chars : List Char}
    (hDigits : ∀ c ∈ chars, c.isDigit = true)
    (value : Nat) :
    readDigits? 10 value chars =
      some (Nat.ofDigitChars 10 chars value) := by
  induction chars generalizing value with
  | nil => rfl
  | cons c rest ih =>
      rw [List.forall_mem_cons] at hDigits
      obtain ⟨hValue, hLess⟩ := digitValue?_of_isDigit hDigits.1
      simp only [readDigits?, hValue, hLess, if_true]
      rw [ih hDigits.2, Nat.ofDigitChars_cons, Nat.mul_comm]

theorem readNat?_of_isDigit
    {chars : List Char}
    (hNonempty : chars ≠ [])
    (hDigits : ∀ c ∈ chars, c.isDigit = true) :
    readNat? 10 chars = some (Nat.ofDigitChars 10 chars 0) := by
  unfold readNat?
  rw [if_neg (by simpa using hNonempty)]
  exact readDigits?_of_isDigit hDigits 0

theorem readNat?_toString
    (n : Nat) :
    readNat? 10 (toString n).toList = some n := by
  rw [readNat?_of_isDigit (toString_ne_nil n)
    fun _ => isDigit_of_mem_toString, ofDigitChars_toString]

theorem readExponent?_chars
    (exponent : Option Int) :
    readExponent? (Numeral.exponentChars exponent) =
      some (exponent.getD 0) := by
  cases exponent with
  | none => rfl
  | some exponent =>
      unfold Numeral.exponentChars
      dsimp only
      by_cases hNegative : exponent < 0
      · obtain ⟨n, rfl⟩ := Int.eq_negSucc_of_lt_zero hNegative
        have hText :
            (toString (Int.negSucc n)).toList =
              '-' :: (toString (n + 1)).toList := by
          simp [Int.toString_eq_repr, Int.repr]
        rw [if_pos hNegative, String.empty_append, hText]
        simp only [readExponent?, decide_true, Bool.true_or,
          if_true, takeSign, readNat?_toString]
        rfl
      · obtain ⟨n, rfl⟩ := Int.eq_ofNat_of_zero_le (not_lt.mp hNegative)
        have hText :
            (("+" : String) ++ toString (n : Int)).toList =
              '+' :: (toString n).toList := by
          rw [String.toList_append]
          rfl
        rw [if_neg hNegative, hText]
        simp only [readExponent?, decide_true, Bool.true_or,
          if_true, takeSign, readNat?_toString]
        rfl

/- What stands after the digits of a numeral does not start with one. -/
theorem isDigit_exponentChars
    {exponent : Option Int}
    {c : Char}
    {rest : List Char}
    (hCons : Numeral.exponentChars exponent = c :: rest) :
    c = 'e' := by
  cases exponent with
  | none => cases hCons
  | some exponent =>
      cases hCons
      rfl

/- The digits of a numeral are read together, and scaled. -/
theorem readMagnitude?_chars
    {numeral : Numeral}
    (hWell : numeral.WellFormed) :
    readMagnitude? numeral.chars =
      some
        (nearestFloat
          (Nat.ofDigitChars 10 (numeral.whole ++ numeral.fraction) 0)
          (numeral.exponent.getD 0 - numeral.fraction.length)) := by
  have hDigits :
      ∀ c ∈ numeral.whole ++ numeral.fraction, c.isDigit = true := by
    intro c hMem
    rcases List.mem_append.mp hMem with hWhole | hFraction
    · exact hWell.whole c hWhole
    · exact hWell.fraction c hFraction
  have hNat :=
    readNat?_of_isDigit
      (List.append_ne_nil_of_left_ne_nil hWell.starts numeral.fraction)
      hDigits
  have hNoDigit (rest : List Char) (c : Char)
      (hCons : Numeral.exponentChars numeral.exponent = c :: rest) :
      isDigit c = false := by
    rw [isDigit_exponentChars hCons]
    rfl
  have hWhole :=
    Numeral.split_append isDigit
      (Numeral.fractionChars numeral.fraction ++
        Numeral.exponentChars numeral.exponent)
      (fun c hMem => (isDigit_eq c).trans (hWell.whole c hMem))
      (by
        intro c rest hCons
        unfold Numeral.fractionChars at hCons
        split at hCons
        · exact hNoDigit rest c hCons
        · cases hCons
          rfl)
  have hFraction :=
    Numeral.split_append isDigit
      (Numeral.exponentChars numeral.exponent)
      (fun c hMem => (isDigit_eq c).trans (hWell.fraction c hMem))
      (fun c rest => hNoDigit rest c)
  unfold readMagnitude? Numeral.chars
  rw [List.append_assoc, hWhole.1, hWhole.2]
  unfold Numeral.fractionChars
  by_cases hEmpty : numeral.fraction = []
  · rw [hEmpty] at hNat ⊢
    rw [List.append_nil] at hNat
    simp only [List.isEmpty_nil, if_true, List.nil_append]
    cases hExponent : Numeral.exponentChars numeral.exponent with
    | nil =>
        have hRead := readExponent?_chars numeral.exponent
        rw [hExponent] at hRead
        simp [hNat, hRead]
    | cons c rest =>
        have hRead := readExponent?_chars numeral.exponent
        obtain rfl := isDigit_exponentChars hExponent
        rw [hExponent] at hRead
        simp [hNat, hRead]
  · have hMarked : numeral.fraction.isEmpty = false := by
      simpa using hEmpty
    simp only [hMarked, Bool.false_eq_true, if_false, List.cons_append,
      hFraction.1, hFraction.2, hNat, readExponent?_chars]

theorem Numeral.value_eq
    (numeral : Numeral) :
    numeral.value =
      Decimal.value
        ⟨Nat.ofDigitChars 10 (numeral.whole ++ numeral.fraction) 0,
          numeral.exponent.getD 0 - numeral.fraction.length⟩ := by
  unfold Numeral.value Decimal.value
  rw [zpow_sub₀ (by norm_num), zpow_natCast]
  ring

/- A float without a sign is read back from what is written for it. -/
theorem readMagnitude?_valueText
    {x : Float}
    (hFinite : Finite x) :
    readMagnitude? (valueText x).toList = some x := by
  obtain ⟨numeral, hWell, hChars, hValue⟩ := spells_valueText hFinite
  rw [hChars, readMagnitude?_chars hWell, Option.some_inj]
  rw [Numeral.value_eq] at hValue
  unfold magnitude at hValue
  cases hZero : x == 0.0 with
  | false =>
      rw [hZero, if_neg Bool.false_ne_true] at hValue
      have hPos := mantissa_pos hFinite.unsigned.2 hZero
      apply nearestFloat_of_within hFinite hPos
      rw [hValue]
      exact within_shortest (canonical_ofFloat x) hPos
  | true =>
      rw [hZero, if_pos rfl] at hValue
      have hNone :
          Nat.ofDigitChars 10 (numeral.whole ++ numeral.fraction) 0 =
            0 := by
        unfold Decimal.value at hValue
        rcases mul_eq_zero.mp hValue with hDigits | hPower
        · exact_mod_cast hDigits
        · exact absurd hPower (by positivity)
      rw [hNone]
      exact (eq_of_beq hFinite.unsigned unsigned_zero hZero).symm

end SnippetGrader.Number
