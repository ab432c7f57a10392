import Mathlib
import SnippetGrader.Number.Binary64
import SnippetGrader.Number.Reader

/-
  Floats that are read from digits.

  A run of digits without a sign is read as a float without a
  sign. It may be infinite, but it is always a number. Numbers
  are equal if they have the same parts.

  Key definitions include:
    * `Number.Unsigned`

  Key theorems include:
    * `Number.beq_comm`, `Number.beq_trans`
    * `Number.unsigned_ofScientific`
    * `Number.unsigned_of_readMagnitude?`
-/

namespace SnippetGrader.Number

open Float.Model
open Float.Model.UnpackedFloat

/- A float that is a number and whose sign bit is not set. -/
def Unsigned (x : Float) : Prop :=
  x.isNaN = false ∧ isNegative x = false

/- A number without a sign, in parts. -/
def isPlain : UnpackedFloat → Bool
  | .infinity .positive => true
  | .zero .positive => true
  | .finite .positive _ _ _ => true
  | _ => false

theorem isPlain_cases
    {parts : UnpackedFloat}
    (hPlain : isPlain parts = true) :
    parts = .infinity .positive ∨
      parts = .zero .positive ∨
        ∃ mantissa exponent hPos,
          parts = .finite .positive mantissa exponent hPos :=
  match parts, hPlain with
  | .infinity .positive, _ => Or.inl rfl
  | .zero .positive, _ => Or.inr (Or.inl rfl)
  | .finite .positive _ _ _, _ => Or.inr (Or.inr ⟨_, _, _, rfl⟩)

------------------------------------------------------------
-- Equality
------------------------------------------------------------

/- The parts of a float, without the sign of a zero. -/
def withoutZeroSign : UnpackedFloat → UnpackedFloat
  | .zero _ => .zero .positive
  | parts => parts

theorem isNaN_withoutZeroSign
    (parts : UnpackedFloat) :
    (withoutZeroSign parts).isNaN = parts.isNaN := by
  cases parts <;> rfl

/- Equal numbers have the same parts, and zeros may have other signs. -/
theorem unpacked_beq_iff_same
    (first second : UnpackedFloat) :
    first.beq second = true ↔
      first.isNaN = false ∧
        withoutZeroSign first = withoutZeroSign second := by
  rcases first with (_ | _) | _ | _ | ⟨_ | _, m, e, _⟩ <;>
    rcases second with (_ | _) | _ | _ | ⟨_ | _, n, f, _⟩ <;>
      simp [UnpackedFloat.beq, UnpackedFloat.compare, UnpackedFloat.isNaN,
        withoutZeroSign, and_comm]
  all_goals rfl

/- A float that is a number equals itself. -/
theorem beq_self
    {x : Float}
    (hNumber : x.isNaN = false) :
    (x == x) = true :=
  (unpacked_beq_iff_same _ _).mpr ⟨hNumber, rfl⟩

/- Floats are compared alike in either order. -/
theorem beq_comm
    (x y : Float) :
    (x == y) = (y == x) := by
  rw [Bool.eq_iff_iff]
  refine Iff.trans (unpacked_beq_iff_same _ _)
    (Iff.trans ?_ (unpacked_beq_iff_same _ _).symm)
  -- Parts that are the same belong both to numbers or both not.
  rw [← isNaN_withoutZeroSign x.toModel.unpack,
    ← isNaN_withoutZeroSign y.toModel.unpack,
    @eq_comm _ (withoutZeroSign y.toModel.unpack)]
  exact and_congr_left fun hSame => by rw [hSame]

/- Floats that are equal to the same one are equal. -/
theorem beq_trans
    {x y z : Float}
    (hFirst : (x == y) = true)
    (hSecond : (y == z) = true) :
    (x == z) = true := by
  obtain ⟨hNumber, hLeft⟩ := (unpacked_beq_iff_same _ _).mp hFirst
  obtain ⟨-, hRight⟩ := (unpacked_beq_iff_same _ _).mp hSecond
  exact (unpacked_beq_iff_same _ _).mpr ⟨hNumber, hLeft.trans hRight⟩

------------------------------------------------------------
-- Bits
------------------------------------------------------------

theorem ofBitVec_unpackSign
    {x : Float}
    (hSign : isNegative x = false) :
    Sign.ofBitVec
        (@unpackSign Format.binary64 x.toModel.toBits.toBitVec) =
      .positive := by
  have hBit :
      (@unpackSign Format.binary64
          x.toModel.toBits.toBitVec).toNat =
        x.toBits.toNat / 2 ^ 63 % 2 := by
    simp [unpackSign, Float.toBits, BitVec.extractLsb_toNat,
      Nat.shiftRight_eq_div_pow]
  have hRange := x.toBits.toNat_lt
  simp only [isNegative, Binary64.ofFloat, Nat.pow_eq,
    beq_eq_false_iff_ne] at hSign
  unfold Sign.ofBitVec
  rw [if_pos]
  apply BitVec.eq_of_toNat_eq
  rw [hBit, BitVec.toNat_ofNat]
  omega

theorem isPlain_unpack
    {x : Float}
    (hUnsigned : Unsigned x) :
    isPlain x.toModel.unpack = true := by
  have hSign := ofBitVec_unpackSign hUnsigned.2
  have hNumber : x.toModel.unpack.isNaN = false := hUnsigned.1
  unfold Float.Model.unpack UnpackedFloat.unpack at hNumber ⊢
  simp only [hSign] at hNumber ⊢
  split
  · rename_i hTop
    rw [if_pos hTop] at hNumber
    split
    · rfl
    · rename_i hPayload
      rw [if_neg hPayload] at hNumber
      cases hNumber
  · split
    · split <;> rfl
    · rfl

/- Bits without a sign are those of a number, unless they are of NaN. -/
theorem unsigned_of_bits
    {x : Float}
    {exponent : BitVec 11}
    {mantissa : BitVec 52}
    (hBits :
      x.toModel.toBits.toBitVec =
        packComponents Format.binary64 .positive exponent mantissa)
    (hNumber : exponent = -1#11 → mantissa = 0#52) :
    Unsigned x := by
  constructor
  · change x.toModel.unpack.isNaN = false
    unfold Float.Model.unpack UnpackedFloat.unpack
    simp only [hBits, unpackExponent_packComponents,
      unpackMantissa_packComponents]
    split
    · rename_i hTop
      rw [if_pos (hNumber hTop)]
      rfl
    · split
      · split <;> rfl
      · rfl
  · have hRange :
        (packComponents Format.binary64 .positive exponent
          mantissa).toNat < 2 ^ 63 := by
      have hExponent := exponent.isLt
      have hMantissa := mantissa.isLt
      simp only [packComponents, Sign.toBitVec,
        BitVec.toNat_append, BitVec.toNat_ofNat]
      refine Nat.or_lt_two_pow ?_ (by omega)
      rw [Nat.zero_mod, Nat.zero_shiftLeft, Nat.zero_or,
        Nat.shiftLeft_eq]
      omega
    have hNat : x.toBits.toNat < 2 ^ 63 := by
      rw [← hBits] at hRange
      exact hRange
    simp only [isNegative, Binary64.ofFloat, Nat.pow_eq,
      beq_eq_false_iff_ne]
    omega

theorem unsigned_pack
    {parts : UnpackedFloat}
    (hPlain : isPlain parts = true) :
    Unsigned (.ofModel (.pack parts)) := by
  obtain rfl | rfl | ⟨mantissa, exponent, hPos, rfl⟩ := isPlain_cases hPlain
  · exact unsigned_of_bits rfl fun _ => rfl
  · exact unsigned_of_bits rfl fun _ => rfl
  · have hBits :
        (Float.ofModel
            (.pack (.finite .positive mantissa exponent
              hPos))).toModel.toBits.toBitVec =
          UnpackedFloat.pack Format.binary64
            (.finite .positive mantissa exponent hPos) := rfl
    unfold UnpackedFloat.pack at hBits
    dsimp only at hBits
    split at hBits
    · exact unsigned_of_bits hBits fun _ => rfl
    · split at hBits
      · -- The exponent is below that of the infinities.
        refine unsigned_of_bits hBits fun hTop => ?_
        have hNat := congrArg BitVec.toNat hTop
        simp only [BitVec.toNat_ofNat, BitVec.toNat_neg] at hNat
        omega
      · refine unsigned_of_bits hBits fun hTop => ?_
        cases hTop

------------------------------------------------------------
-- Operations
------------------------------------------------------------

theorem isPlain_roundWithAccuracy
    (mantissa : Nat)
    (exponent : Int)
    (accuracy : Accuracy) :
    isPlain
        (roundWithAccuracy Format.binary64 .positive mantissa
          exponent accuracy) = true := by
  unfold roundWithAccuracy
  dsimp only
  split <;> rfl

/- A power of ten is finite and not zero. -/
def isPositive : UnpackedFloat → Bool
  | .finite .positive _ _ _ => true
  | _ => false

theorem exists_of_isPositive
    {parts : UnpackedFloat}
    (hPositive : isPositive parts = true) :
    ∃ mantissa exponent hPos,
      parts = .finite .positive mantissa exponent hPos :=
  match parts, hPositive with
  | .finite .positive _ _ _, _ => ⟨_, _, _, rfl⟩

theorem isPlain_mul
    {left right : UnpackedFloat}
    (hLeft : isPlain left = true)
    (hRight : isPositive right = true) :
    isPlain (mul Format.binary64 left right) = true := by
  obtain ⟨_, _, _, rfl⟩ := exists_of_isPositive hRight
  obtain rfl | rfl | ⟨_, _, _, rfl⟩ := isPlain_cases hLeft
  · rfl
  · rfl
  · exact isPlain_roundWithAccuracy _ _ _

theorem isPlain_div
    {left right : UnpackedFloat}
    (hLeft : isPlain left = true)
    (hRight : isPositive right = true) :
    isPlain (div Format.binary64 left right) = true := by
  obtain ⟨_, _, _, rfl⟩ := exists_of_isPositive hRight
  obtain rfl | rfl | ⟨_, _, _, rfl⟩ := isPlain_cases hLeft
  · rfl
  · rfl
  · exact isPlain_roundWithAccuracy _ _ _

theorem unsigned_toFloat
    (n : UInt64) :
    Unsigned n.toFloat := by
  have hPlain :
      isPlain (UnpackedFloat.ofNat Format.binary64 n.toNat) =
        true := by
    unfold UnpackedFloat.ofNat UnpackedFloat.ofInt
      UnpackedFloat.normalize
    split
    · rename_i hLess
      rw [Int.compare_eq_lt] at hLess
      omega
    · rfl
    · exact isPlain_roundWithAccuracy _ _ _
  exact unsigned_pack hPlain

theorem isPositive_powerOfTen :
    ∀ power ∈ Float.exactlyRepresentablePowersOfTen,
      isPositive power.toModel.unpack = true := by
  decide

theorem isPlain_ofScientific
    (digits : Nat)
    (exponent : Int) :
    isPlain
        (UnpackedFloat.ofScientific Format.binary64 digits
          exponent) = true := by
  unfold UnpackedFloat.ofScientific
  split
  · rfl
  · split
    · rfl
    · split
      · rfl
      · split
        · exact isPlain_roundWithAccuracy _ _ _
        · exact isPlain_roundWithAccuracy _ _ _

/- What is read from digits has no sign. -/
theorem unsigned_ofScientific
    (digits : Nat)
    (below : Bool)
    (places : Nat) :
    Unsigned (Float.ofScientific digits below places) := by
  unfold Float.ofScientific
  split
  · have hPlain := isPlain_unpack (unsigned_toFloat digits.toUInt64)
    split
    · refine unsigned_pack (isPlain_div hPlain ?_)
      exact isPositive_powerOfTen _ (Array.getElem_mem _)
    · refine unsigned_pack (isPlain_mul hPlain ?_)
      exact isPositive_powerOfTen _ (Array.getElem_mem _)
  · exact unsigned_pack (isPlain_ofScientific _ _)

theorem unsigned_zero :
    Unsigned 0.0 :=
  unsigned_ofScientific 0 true 1

theorem unsigned_nearestFloat
    (digits : Nat)
    (exponent : Int) :
    Unsigned (nearestFloat digits exponent) := by
  have hInfinite : Unsigned (1.0 / 0.0) := by
    unfold Unsigned
    decide
  unfold nearestFloat
  dsimp only
  split
  · exact unsigned_zero
  · split
    · exact hInfinite
    · split
      · exact unsigned_zero
      · exact unsigned_ofScientific _ _ _

theorem unsigned_of_readMagnitude?
    {chars : List Char}
    {x : Float}
    (hRead : readMagnitude? chars = some x) :
    Unsigned x := by
  unfold readMagnitude? at hRead
  dsimp only at hRead
  split at hRead
  · simp only [Option.some.injEq] at hRead
    rw [← hRead]
    exact unsigned_nearestFloat _ _
  · cases hRead

end SnippetGrader.Number
