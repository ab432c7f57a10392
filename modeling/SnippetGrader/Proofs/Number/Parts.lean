import SnippetGrader.Proofs.Number.Notation

/-
  The parts of a float as they are unpacked.

  A float is unpacked to a sign, a mantissa and an exponent, and
  the mantissa and exponent are those that its bits are cut
  into. Numbers without a sign are therefore equal only if they
  are the same.

  Key definitions include:
    * `Number.unpackedParts`

  Key theorems include:
    * `Number.parts_eq_unpacked`
    * `Number.eq_of_beq`
-/

namespace SnippetGrader.Number

open Float.Model
open Float.Model.UnpackedFloat

theorem toNat_unpackMantissa
    (x : Float) :
    (@unpackMantissa Format.binary64 x.toModel.toBits.toBitVec).toNat =
      x.toBits.toNat % 2 ^ 52 := by
  simp [unpackMantissa, Float.toBits, BitVec.extractLsb_toNat]

theorem toNat_unpackExponent
    (x : Float) :
    (@unpackExponent Format.binary64 x.toModel.toBits.toBitVec).toNat =
      x.toBits.toNat / 2 ^ 52 % 2 ^ 11 := by
  simp [unpackExponent, Float.toBits, BitVec.extractLsb_toNat,
    Nat.shiftRight_eq_div_pow]

/- The magnitude of an unpacked float, infinity having the next greater one. -/
def unpackedParts : UnpackedFloat → Nat × Int
  | .infinity _ => (2 ^ 52, 972)
  | .zero _ => (0, -1074)
  | .finite _ mantissa exponent _ => (mantissa, exponent)
  | .notANumber => (0, 0)

theorem parts_eq_unpacked
    {x : Float}
    (hNumber : x.isNaN = false) :
    ((Binary64.ofFloat x).mantissa, (Binary64.ofFloat x).exponent) =
      unpackedParts x.toModel.unpack := by
  have hMantissa := toNat_unpackMantissa x
  have hExponent := toNat_unpackExponent x
  have hParts : x.toModel.unpack.isNaN = false := hNumber
  unfold Float.Model.unpack UnpackedFloat.unpack at hParts ⊢
  simp only [Binary64.ofFloat, Nat.pow_eq, beq_iff_eq] at hParts ⊢
  rw [← hMantissa, ← hExponent]
  by_cases hTop :
      @unpackExponent Format.binary64 x.toModel.toBits.toBitVec = -1#11
  · rw [if_pos hTop] at hParts ⊢
    by_cases hZero :
        @unpackMantissa Format.binary64 x.toModel.toBits.toBitVec = 0#52
    · rw [if_pos hZero, hTop, hZero]
      rfl
    · rw [if_neg hZero] at hParts
      cases hParts
  · rw [if_neg hTop]
    by_cases hLeast :
        @unpackExponent Format.binary64 x.toModel.toBits.toBitVec = 0#11
    · rw [if_pos hLeast]
      by_cases hZero :
          @unpackMantissa Format.binary64
            x.toModel.toBits.toBitVec = 0#52
      · rw [dif_pos hZero, hLeast, hZero]
        rfl
      · rw [dif_neg hZero, hLeast]
        rfl
    · have hNormal :
          (@unpackExponent Format.binary64
            x.toModel.toBits.toBitVec).toNat ≠ 0 :=
        fun hZero => hLeast (BitVec.eq_of_toNat_eq hZero)
      have hRange :=
        (@unpackMantissa Format.binary64
          x.toModel.toBits.toBitVec).isLt
      rw [if_neg hLeast, if_neg hNormal, if_neg hNormal]
      simp only [unpackedParts, Prod.mk.injEq]
      refine ⟨?_, rfl⟩
      rw [BitVec.toNat_append, Nat.shiftLeft_eq, Nat.mul_comm,
        ← Nat.two_pow_add_eq_or_of_lt hRange]
      exact Nat.add_comm _ _

theorem withoutZeroSign_of_isPlain
    {parts : UnpackedFloat}
    (hPlain : isPlain parts = true) :
    withoutZeroSign parts = parts := by
  obtain rfl | rfl | ⟨_, _, _, rfl⟩ := isPlain_cases hPlain
  · rfl
  · rfl
  · rfl

/- Numbers without a sign are the same if they are equal. -/
theorem eq_of_beq
    {x y : Float}
    (hX : Unsigned x)
    (hY : Unsigned y)
    (hEqual : (x == y) = true) :
    x = y := by
  have hXParts := parts_eq_unpacked hX.1
  have hYParts := parts_eq_unpacked hY.1
  have hSame :
      unpackedParts x.toModel.unpack = unpackedParts y.toModel.unpack := by
    obtain ⟨-, hUnpacked⟩ := (unpacked_beq_iff_same _ _).mp hEqual
    rw [withoutZeroSign_of_isPlain (isPlain_unpack hX),
      withoutZeroSign_of_isPlain (isPlain_unpack hY)] at hUnpacked
    rw [hUnpacked]
  rw [← hXParts, ← hYParts, Prod.mk.injEq] at hSame
  exact eq_of_parts hX.2 hY.2 hSame.1 hSame.2

end SnippetGrader.Number
