import SnippetGrader.Proofs.Number.Reading

/-
  Floats with a sign.

  The negative of a float has the other sign bit and the same
  bits otherwise. So a float with a sign is written as a minus
  and its negative, and the negative of that is the float again.

  Key definitions include:
    * `Number.IsFinite`

  Key theorems include:
    * `Number.unpack_neg`
    * `Number.neg_neg`
    * `Number.finite_neg`
    * `Number.valueText_of_negative`
-/

namespace SnippetGrader.Number

open Float.Model
open Float.Model.UnpackedFloat

/- A float that is a number and not infinite. -/
structure IsFinite (x : Float) : Prop where
  number : x.isNaN = false
  bounded : x.isInf = false

theorem sign_neg_neg
    (sign : Sign) :
    - -sign = sign := by
  cases sign <;> rfl

theorem unpacked_neg_neg
    (parts : UnpackedFloat) :
    parts.neg.neg = parts := by
  cases parts <;> simp [UnpackedFloat.neg, sign_neg_neg]

------------------------------------------------------------
-- Bits
------------------------------------------------------------

/- A number and its negative are packed into bits that differ in the sign. -/
theorem exists_packComponents
    {parts : UnpackedFloat}
    (hNumber : parts.isNaN = false) :
    ∃ sign exponent mantissa,
      UnpackedFloat.pack Format.binary64 parts =
          packComponents Format.binary64 sign exponent mantissa ∧
        UnpackedFloat.pack Format.binary64 parts.neg =
          packComponents Format.binary64 (-sign) exponent mantissa := by
  cases parts with
  | notANumber => cases hNumber
  | infinity sign => exact ⟨sign, _, _, rfl, rfl⟩
  | zero sign => exact ⟨sign, _, _, rfl, rfl⟩
  | finite sign mantissa exponent hPos =>
      simp only [UnpackedFloat.neg, UnpackedFloat.pack]
      split
      · exact ⟨sign, _, _, rfl, rfl⟩
      · split
        · exact ⟨sign, _, _, rfl, rfl⟩
        · exact ⟨sign, _, _, rfl, rfl⟩

/- The sign bit decides the sign of what is unpacked, and nothing else. -/
theorem unpack_packComponents_neg
    (sign : Sign)
    (exponent : BitVec 11)
    (mantissa : BitVec 52) :
    UnpackedFloat.unpack Format.binary64
        (packComponents Format.binary64 (-sign) exponent mantissa) =
      (UnpackedFloat.unpack Format.binary64
        (packComponents Format.binary64 sign exponent mantissa)).neg := by
  unfold UnpackedFloat.unpack
  simp only [unpackExponent_packComponents, unpackMantissa_packComponents,
    unpackSign_packComponents, Sign.ofBitVec_toBitVec]
  split
  · split <;> rfl
  · split
    · split <;> rfl
    · rfl

/- The bits of a number and of its negative differ in the sign. -/
theorem exists_bits_neg
    {x : Float}
    (hNumber : x.isNaN = false) :
    ∃ sign exponent mantissa,
      x.toModel.toBits.toBitVec =
          packComponents Format.binary64 sign exponent mantissa ∧
        (-x).toModel.toBits.toBitVec =
          packComponents Format.binary64 (-sign) exponent mantissa := by
  obtain ⟨sign, exponent, mantissa, hBits, hNegated⟩ :=
    @exists_packComponents x.toModel.unpack hNumber
  refine ⟨sign, exponent, mantissa, ?_, hNegated⟩
  rw [← hBits]
  exact (pack_unpack_of_valid x.toModel.valid).symm

/- The negative of a number has the negated parts. -/
theorem unpack_neg
    {x : Float}
    (hNumber : x.isNaN = false) :
    (-x).toModel.unpack = x.toModel.unpack.neg := by
  obtain ⟨sign, exponent, mantissa, hBits, hNegated⟩ :=
    exists_bits_neg hNumber
  unfold Float.Model.unpack
  rw [hBits, hNegated, unpack_packComponents_neg]

/- Negating a number twice gives it back, to the bit. -/
theorem neg_neg
    {x : Float}
    (hNumber : x.isNaN = false) :
    - -x = x := by
  have hModel : (- -x).toModel = .pack (-x).toModel.unpack.neg := rfl
  have hBits :
      (- -x).toModel.toBits.toBitVec = x.toModel.toBits.toBitVec := by
    rw [hModel, unpack_neg hNumber, unpacked_neg_neg]
    exact pack_unpack_of_valid x.toModel.valid
  exact Float.toBits_inj.mp (UInt64.toBitVec_inj.mp hBits)

/- The bits of a float as a number, from the parts they are cut into. -/
theorem toNat_packComponents
    (sign : Sign)
    (exponent : BitVec 11)
    (mantissa : BitVec 52) :
    (packComponents Format.binary64 sign exponent mantissa).toNat =
      sign.toBitVec.toNat * 2 ^ 63 + exponent.toNat * 2 ^ 52 +
        mantissa.toNat := by
  have hMantissa := mantissa.isLt
  have hExponent := exponent.isLt
  simp only [packComponents, BitVec.toNat_append]
  rw [← Nat.shiftLeft_add_eq_or_of_lt mantissa.isLt,
    ← Nat.shiftLeft_add_eq_or_of_lt exponent.isLt, Nat.shiftLeft_eq,
    Nat.shiftLeft_eq, Nat.add_mul, Nat.mul_assoc]
  rfl

/- A number and its negative have the same magnitude and other signs. -/
theorem ofFloat_neg
    {x : Float}
    (hNumber : x.isNaN = false) :
    Binary64.ofFloat (-x) =
      { Binary64.ofFloat x with negative := !isNegative x } := by
  obtain ⟨sign, exponent, mantissa, hBits, hNegated⟩ :=
    exists_bits_neg hNumber
  have hNat := toNat_packComponents sign exponent mantissa
  have hNegatedNat := toNat_packComponents (-sign) exponent mantissa
  rw [← hBits] at hNat
  rw [← hNegated] at hNegatedNat
  change x.toBits.toNat = _ at hNat
  change (-x).toBits.toNat = _ at hNegatedNat
  have hMantissa := mantissa.isLt
  have hExponent := exponent.isLt
  have hParts :
      (-x).toBits.toNat % 2 ^ 52 = x.toBits.toNat % 2 ^ 52 ∧
        (-x).toBits.toNat / 2 ^ 52 % 2 ^ 11 =
          x.toBits.toNat / 2 ^ 52 % 2 ^ 11 ∧
        ((-x).toBits.toNat / 2 ^ 63 == 1) =
          !(x.toBits.toNat / 2 ^ 63 == 1) := by
    have hSigns :
        sign.toBitVec.toNat + (-sign).toBitVec.toNat = 1 := by
      cases sign <;> rfl
    rw [hNat, hNegatedNat]
    refine ⟨by omega, by omega, ?_⟩
    rw [Bool.eq_iff_iff, Bool.not_eq_true', beq_iff_eq,
      beq_eq_false_iff_ne]
    omega
  simp only [Nat.pow_eq, isNegative, Binary64.ofFloat, hParts]

/- What depends on the magnitude alone is the same for the negative. -/
theorem shortest_neg
    {x : Float}
    (hNumber : x.isNaN = false) :
    shortest (-x) = shortest x := by
  have hRounding :
      Rounding.ofParts (Binary64.ofFloat (-x)) =
        Rounding.ofParts (Binary64.ofFloat x) := by
    rw [ofFloat_neg hNumber]
    rfl
  unfold shortest
  rw [hRounding]

theorem isNegative_neg
    {x : Float}
    (hNumber : x.isNaN = false) :
    isNegative (-x) = !isNegative x := by
  unfold isNegative
  rw [ofFloat_neg hNumber]
  rfl

theorem isNaN_neg
    {x : Float}
    (hNumber : x.isNaN = false) :
    (-x).isNaN = false := by
  have hParts : x.toModel.unpack.isNaN = false := hNumber
  change (-x).toModel.unpack.isNaN = false
  rw [unpack_neg hNumber]
  cases hUnpacked : x.toModel.unpack <;> rw [hUnpacked] at hParts
  all_goals first | rfl | exact hParts

theorem isInf_neg
    {x : Float}
    (hNumber : x.isNaN = false) :
    (-x).isInf = x.isInf := by
  change (-x).toModel.unpack.isInf = x.toModel.unpack.isInf
  rw [unpack_neg hNumber]
  cases x.toModel.unpack <;> rfl

theorem abs_neg
    {x : Float}
    (hNumber : x.isNaN = false) :
    (-x).abs = x.abs := by
  have hModel (y : Float) : y.abs = .ofModel (.pack y.toModel.unpack.abs) :=
    rfl
  rw [hModel, hModel, unpack_neg hNumber]
  cases x.toModel.unpack <;> rfl

theorem neg_beq_zero
    {x : Float}
    (hNumber : x.isNaN = false) :
    (-x == 0.0) = (x == 0.0) := by
  have hZero (y : Float) :
      (y == 0.0) = y.toModel.unpack.beq (.zero .positive) := rfl
  rw [hZero, hZero, unpack_neg hNumber]
  cases x.toModel.unpack with
  | notANumber => rfl
  | infinity sign => cases sign <;> rfl
  | zero sign => rfl
  | finite sign mantissa exponent hPos => cases sign <;> rfl

------------------------------------------------------------
-- Written Forms
------------------------------------------------------------

/- The negative of a finite float with a sign has none. -/
theorem finite_neg
    {x : Float}
    (hFinite : IsFinite x)
    (hNegative : isNegative x = true) :
    Finite (-x) where
  unsigned := by
    refine ⟨isNaN_neg hFinite.number, ?_⟩
    rw [isNegative_neg hFinite.number, hNegative]
    rfl
  bounded := (isInf_neg hFinite.number).trans hFinite.bounded

/- A float with a sign is written as a minus and its negative. -/
theorem valueText_of_negative
    {x : Float}
    (hFinite : IsFinite x)
    (hNegative : isNegative x = true) :
    valueText x = "-" ++ valueText (-x) := by
  have hSigned (text : String) : signed x text = "-" ++ text := by
    unfold signed
    rw [hNegative]
    rfl
  have hUnsigned (text : String) : signed (-x) text = text := by
    unfold signed
    rw [isNegative_neg hFinite.number, hNegative]
    rfl
  unfold valueText
  rw [isNaN_neg hFinite.number, isInf_neg hFinite.number,
    neg_beq_zero hFinite.number, abs_neg hFinite.number,
    shortest_neg hFinite.number, hFinite.number, hFinite.bounded]
  simp only [hSigned, hUnsigned, Bool.false_eq_true, if_false]
  split
  · rfl
  · split <;> rfl

end SnippetGrader.Number
