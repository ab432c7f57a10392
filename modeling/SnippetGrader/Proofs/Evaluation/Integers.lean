import Mathlib
import SnippetGrader.Evaluation.Arithmetic

/-
  Operators on integers are exact, or report an overflow.

  A result is exact if it has the property that defines its
  operator: a quotient goes to the floor and leaves a remainder
  on the side of the divisor, and bits are those of rows that
  go on without end. There is an overflow exactly where no word
  holds the exact result, except for powers: an exponent beyond
  32 bits is refused even if the base is -1, 0 or 1.

  Key definitions include:
    * `Arithmetic.Division`
    * `Arithmetic.IsExact`
    * `Arithmetic.StepsFit`

  Key theorems include:
    * `Arithmetic.floorQuotient_eq`, `Arithmetic.signedRemainder_eq`
    * `Arithmetic.power_eq`
    * `Arithmetic.shiftLeft_eq`, `Arithmetic.shiftRight_eq`
    * `Arithmetic.exact_or_overflow`
-/

namespace SnippetGrader.Arithmetic

theorem fit_eq
    (n : Int) :
    fit n =
      if Number.inWord n = true then .ok (.int n)
      else .error (.overflow .integer) := by
  unfold fit Number.fitWord?
  split_ifs <;> rfl

------------------------------------------------------------
-- Division
------------------------------------------------------------

/- A quotient to the floor, and a remainder on the side of the divisor. -/
structure Division (a b q r : Int) : Prop where
  law : q * b + r = a
  remainder : (0 ≤ r ∧ r < b) ∨ (b < r ∧ r ≤ 0)

section Divisions

variable {a b q r : Int}

theorem Division.ne_zero
    (hDivision : Division a b q r) :
    b ≠ 0 := by
  have hSide := hDivision.remainder
  omega

/- There is one division of an integer by another. -/
theorem Division.eq_floor
    (hDivision : Division a b q r) :
    a.fdiv b = q ∧ a.fmod b = r := by
  have hLaw : r + b * q = a := by
    rw [add_comm, mul_comm, hDivision.law]
  rcases hDivision.remainder with hSide | hSide
  · exact (Int.fdiv_fmod_unique (by omega)).mpr ⟨hLaw, hSide⟩
  · exact (Int.fdiv_fmod_unique' (by omega)).mpr ⟨hLaw, hSide⟩

theorem division_floor
    (a : Int)
    (hDivisor : b ≠ 0) :
    Division a b (a.fdiv b) (a.fmod b) := by
  have hLaw : a.fdiv b * b + a.fmod b = a := by
    rw [mul_comm, Int.mul_fdiv_add_fmod]
  refine ⟨hLaw, ?_⟩
  rcases lt_or_gt_of_ne hDivisor with hNegative | hPositive
  · exact .inr ((Int.fdiv_fmod_unique' hNegative).mp ⟨rfl, rfl⟩).2
  · exact .inl ((Int.fdiv_fmod_unique hPositive).mp ⟨rfl, rfl⟩).2

theorem isAstray_iff :
    isAstray r b = true ↔ r ≠ 0 ∧ ¬(r < 0 ↔ b < 0) := by
  simp [isAstray]

/- A division toward zero, moved to the floor where it went the other way. -/
theorem division_corrected
    (a : Int)
    (hDivisor : b ≠ 0) :
    Division a b
      (if isAstray (a.tmod b) b = true then a.tdiv b - 1 else a.tdiv b)
      (if isAstray (a.tmod b) b = true then a.tmod b + b else a.tmod b) := by
  have hLaw : b * a.tdiv b + a.tmod b = a := Int.mul_tdiv_add_tmod a b
  have hSmall : (a.tmod b).natAbs < b.natAbs := by
    rw [Int.natAbs_tmod]
    exact Nat.mod_lt _ (Int.natAbs_pos.mpr hDivisor)
  simp only [isAstray_iff]
  split_ifs with hAstray
  · exact ⟨by linarith, by omega⟩
  · exact ⟨by linarith, by omega⟩

/- The only quotient of words that is none is that of the least one by -1. -/
theorem inWord_tdiv
    (hLeft : Number.inWord a = true)
    (hDivisor : b ≠ 0) :
    Number.inWord (a.tdiv b) = true ∨ (a = Number.wordMin ∧ b = -1) := by
  rw [Number.inWord_iff] at hLeft ⊢
  unfold Number.wordMin
  have hSize : (a.tdiv b).natAbs = a.natAbs / b.natAbs := Int.natAbs_tdiv a b
  by_cases hUnit : b = 1 ∨ b = -1
  · rcases hUnit with rfl | rfl
    · rw [Int.tdiv_one]
      exact .inl hLeft
    · rw [Int.tdiv_neg, Int.tdiv_one]
      omega
  · have hHalf : a.natAbs / b.natAbs ≤ a.natAbs / 2 :=
      Nat.div_le_div_left (by omega) (by decide)
    omega

/- A quotient that is moved to the floor is far from the ends of a word. -/
theorem inWord_quotient_pred
    (hLeft : Number.inWord a = true)
    (hAstray : isAstray (a.tmod b) b = true) :
    Number.inWord (a.tdiv b - 1) = true := by
  rw [Number.inWord_iff] at hLeft ⊢
  have hRemainder := (isAstray_iff.mp hAstray).1
  have hLarge : 2 ≤ b.natAbs ∨ b = 0 := by
    by_contra hSmall
    have hUnit : b = 1 ∨ b = -1 := by omega
    rcases hUnit with rfl | rfl
    · exact hRemainder (Int.tmod_one a)
    · exact hRemainder (by rw [Int.tmod_neg, Int.tmod_one])
  have hSize : (a.tdiv b).natAbs = a.natAbs / b.natAbs := Int.natAbs_tdiv a b
  have hHalf : a.natAbs / b.natAbs ≤ a.natAbs / 2 := by
    rcases hLarge with hLarge | rfl
    · exact Nat.div_le_div_left hLarge (by decide)
    · simp
  omega

/- A remainder that is moved to the side of the divisor comes closer to zero. -/
theorem inWord_remainder_add
    (hRight : Number.inWord b = true)
    (hAstray : isAstray (a.tmod b) b = true)
    (hDivisor : b ≠ 0) :
    Number.inWord (a.tmod b + b) = true := by
  rw [Number.inWord_iff] at hRight ⊢
  have hSide := (isAstray_iff.mp hAstray).2
  have hSmall : (a.tmod b).natAbs < b.natAbs := by
    rw [Int.natAbs_tmod]
    exact Nat.mod_lt _ (Int.natAbs_pos.mpr hDivisor)
  omega

/-
  What a division does that is not checked stays in a word: one
  less than a quotient, and a remainder added to its divisor.
-/
structure StepsFit (a b : Int) : Prop where
  quotient :
    ∀ q r,
      quotient? a b = some q →
        remainder? a b = some r →
          isAstray r b = true → Number.inWord (q - 1) = true
  remainder :
    ∀ r,
      (remainder? a b).getD 0 = r →
        isAstray r b = true → Number.inWord (r + b) = true

theorem quotient?_of_inWord
    (hQuotient : Number.inWord (a.tdiv b) = true) :
    quotient? a b = some (a.tdiv b) :=
  (Number.fitWord?_eq_some_iff _ _).mpr ⟨hQuotient, rfl⟩

theorem remainder?_of_inWord
    (hQuotient : Number.inWord (a.tdiv b) = true) :
    remainder? a b = some (a.tmod b) := by
  rw [remainder?, quotient?_of_inWord hQuotient, Option.map_some]

theorem stepsFit
    (hLeft : Number.inWord a = true)
    (hRight : Number.inWord b = true)
    (hDivisor : b ≠ 0) :
    StepsFit a b := by
  rcases inWord_tdiv hLeft hDivisor with hQuotient | ⟨rfl, rfl⟩
  · have hFirst := quotient?_of_inWord hQuotient
    have hSecond := remainder?_of_inWord hQuotient
    constructor
    · intro q r hQ hR hAstray
      cases hFirst.symm.trans hQ
      cases hSecond.symm.trans hR
      exact inWord_quotient_pred hLeft hAstray
    · intro r hR hAstray
      rw [hSecond, Option.getD_some] at hR
      subst hR
      exact inWord_remainder_add hRight hAstray hDivisor
  · constructor
    · intro q r hQ
      cases hQ
    · rintro _ rfl hAstray
      cases hAstray

theorem floorQuotient_eq
    (hLeft : Number.inWord a = true)
    (hDivision : Division a b q r) :
    floorQuotient a b = fit q := by
  have hFloor := hDivision.eq_floor.1
  rcases inWord_tdiv hLeft hDivision.ne_zero with hQuotient | ⟨rfl, rfl⟩
  · rw [← hFloor, (division_corrected a hDivision.ne_zero).eq_floor.1,
      floorQuotient, quotient?_of_inWord hQuotient,
      remainder?_of_inWord hQuotient, fit_eq]
    dsimp only
    split_ifs with hAstray hWord
    · rw [Number.wrapWord_of_inWord hWord]
    · exact absurd (inWord_quotient_pred hLeft hAstray) hWord
    · rfl
  · rw [← hFloor]
    rfl

theorem signedRemainder_eq
    (hLeft : Number.inWord a = true)
    (hRight : Number.inWord b = true)
    (hDivision : Division a b q r) :
    signedRemainder a b = r := by
  have hFloor := hDivision.eq_floor.2
  rcases inWord_tdiv hLeft hDivision.ne_zero with hQuotient | ⟨rfl, rfl⟩
  · rw [← hFloor, (division_corrected a hDivision.ne_zero).eq_floor.2,
      signedRemainder, remainder?_of_inWord hQuotient]
    dsimp only [Option.getD_some]
    split_ifs with hAstray
    · exact Number.wrapWord_of_inWord
        (inWord_remainder_add hRight hAstray hDivision.ne_zero)
    · rfl
  · rw [← hFloor]
    rfl

theorem inWord_remainder
    (hRight : Number.inWord b = true)
    (hDivision : Division a b q r) :
    Number.inWord r = true := by
  have hSide := hDivision.remainder
  rw [Number.inWord_iff] at hRight ⊢
  omega

end Divisions

------------------------------------------------------------
-- Powers
------------------------------------------------------------

/- High powers are words only of -1, 0 and 1. -/
theorem natAbs_le_one_of_inWord_pow
    {base : Int}
    {exponent : Nat}
    (hExponent : 64 ≤ exponent)
    (hWord : Number.inWord (base ^ exponent) = true) :
    base.natAbs ≤ 1 := by
  by_contra hLarge
  have hPower : 2 ^ 64 ≤ (base ^ exponent).natAbs := by
    rw [Int.natAbs_pow]
    calc
      2 ^ 64 ≤ 2 ^ exponent := Nat.pow_le_pow_right (by decide) hExponent
      _ ≤ base.natAbs ^ exponent := Nat.pow_le_pow_left (by omega) exponent
  rw [Number.inWord_iff] at hWord
  omega

/- Beyond the greatest exponent, the powers of these are all that are words. -/
theorem inWord_high_pow_iff
    {base : Int}
    {exponent : Nat}
    (hLarge : maxExponent < exponent) :
    Number.inWord (base ^ exponent) = true ↔
      base = -1 ∨ base = 0 ∨ base = 1 := by
  unfold maxExponent at hLarge
  constructor
  · intro hWord
    have hUnit := natAbs_le_one_of_inWord_pow (by omega) hWord
    omega
  · rintro (rfl | rfl | rfl)
    · rcases neg_one_pow_eq_or Int exponent with hPower | hPower <;>
        rw [hPower] <;> rfl
    · rw [zero_pow (by omega)]
      rfl
    · rw [one_pow]
      rfl

theorem power_eq
    (base : Int)
    (exponent : Nat) :
    power base exponent = fit (base ^ exponent) := by
  unfold power
  split_ifs with hSmall hUnit hMinus hEven
  · rfl
  · rcases (by simpa using hUnit : base = 0 ∨ base = 1) with rfl | rfl
    · rw [zero_pow (by omega)]
      rfl
    · rw [one_pow]
      rfl
  · cases eq_of_beq hMinus
    rw [(Nat.even_iff.mpr hEven).neg_one_pow]
    rfl
  · cases eq_of_beq hMinus
    rw [(Nat.odd_iff.mpr (by omega)).neg_one_pow]
    rfl
  · have hWord : ¬Number.inWord (base ^ exponent) = true := by
      intro hWord
      have hUnits := natAbs_le_one_of_inWord_pow (by omega) hWord
      simp only [Bool.or_eq_true, beq_iff_eq] at hUnit hMinus
      omega
    rw [fit_eq, if_neg hWord]

theorem intPower_eq
    (base : Int)
    (exponent : Nat) :
    intPower base exponent =
      if maxExponent < exponent then .error (.overflow .integer)
      else fit (base ^ exponent) := by
  rw [intPower, if_neg (by omega), Int.toNat_natCast, power_eq]

------------------------------------------------------------
-- Rows of Bits
------------------------------------------------------------

theorem toInt_bits
    {a : Int}
    (hWord : Number.inWord a = true) :
    (bits a).toInt = a := by
  rw [bits, BitVec.toInt_ofInt]
  exact Number.wrapWord_of_inWord hWord

theorem inWord_toInt
    (row : BitVec 64) :
    Number.inWord row.toInt = true := by
  have hLeast := row.le_toInt
  have hMost := row.toInt_lt
  rw [Number.inWord_iff]
  omega

/- The sign of a word is repeated without end. -/
theorem testBit_toInt
    (row : BitVec 64)
    (i : Nat) :
    row.toInt.testBit i = row.getLsbD (min i 63) := by
  have hLast : row.msb = row.getLsbD 63 := row.msb_eq_getLsbD_last
  rw [BitVec.toInt_eq_msb_cond]
  by_cases hSign : row.msb = true
  · rw [if_pos hSign]
    have hNot : (row.toNat : Int) - (2 ^ 64 : Nat) = Int.negSucc (~~~row).toNat := by
      have hBelow := row.isLt
      rw [BitVec.toNat_not, Int.negSucc_eq]
      omega
    rw [hNot, Int.testBit, BitVec.testBit_toNat, BitVec.getLsbD_not]
    rcases Nat.lt_or_ge i 64 with hInside | hBeyond
    · rw [Nat.min_eq_left (by omega)]
      simp [hInside]
    · rw [Nat.min_eq_right (by omega), ← hLast, hSign]
      simp [Nat.not_lt.mpr hBeyond]
  · rw [if_neg hSign]
    change row.toNat.testBit i = _
    rw [BitVec.testBit_toNat]
    rcases Nat.lt_or_ge i 64 with hInside | hBeyond
    · rw [Nat.min_eq_left (by omega)]
    · rw [Nat.min_eq_right (by omega), ← hLast, BitVec.getLsbD_of_ge _ _ hBeyond]
      simpa using hSign

theorem eq_of_testBit_eq
    {a b : Int}
    (hBits : ∀ i, a.testBit i = b.testBit i) :
    a = b := by
  -- Far enough, the bits of an integer are its sign.
  have hFar (m n : Nat) :
      (Int.ofNat m).testBit (m + n) ≠ (Int.negSucc n).testBit (m + n) := by
    have hFirst : m.testBit (m + n) = false :=
      Nat.testBit_lt_two_pow
        (Nat.lt_of_lt_of_le Nat.lt_two_pow_self
          (Nat.pow_le_pow_right (by decide) (Nat.le_add_right m n)))
    have hSecond : n.testBit (m + n) = false :=
      Nat.testBit_lt_two_pow
        (Nat.lt_of_lt_of_le Nat.lt_two_pow_self
          (Nat.pow_le_pow_right (by decide) (Nat.le_add_left n m)))
    simp [Int.testBit, hFirst, hSecond]
  cases a with
  | ofNat m =>
      cases b with
      | ofNat n => exact congrArg Int.ofNat (Nat.eq_of_testBit_eq hBits)
      | negSucc n => exact absurd (hBits _) (hFar m n)
  | negSucc m =>
      cases b with
      | ofNat n => exact absurd (hBits _).symm (hFar n m)
      | negSucc n =>
          refine congrArg Int.negSucc (Nat.eq_of_testBit_eq fun i => ?_)
          exact Bool.not_inj (hBits i)

/- Rows of words are combined like those that go on without end. -/
theorem toInt_combined
    {combine : Bool → Bool → Bool}
    {a b c : Int}
    {row : BitVec 64}
    (hLeft : Number.inWord a = true)
    (hRight : Number.inWord b = true)
    (hRow :
      ∀ i, row.getLsbD i = combine ((bits a).getLsbD i) ((bits b).getLsbD i))
    (hBits : ∀ i, c.testBit i = combine (a.testBit i) (b.testBit i)) :
    row.toInt = c := by
  refine eq_of_testBit_eq fun i => ?_
  rw [testBit_toInt, hRow, ← testBit_toInt, ← testBit_toInt, toInt_bits hLeft,
    toInt_bits hRight, hBits]

------------------------------------------------------------
-- Shifts
------------------------------------------------------------

section Shifts

variable {a q r : Int}
variable {count : Nat}

theorem toInt_bits_shiftLeft
    (hWord : Number.inWord a = true) :
    (bits a <<< count).toInt = Number.wrapWord (a * 2 ^ count) := by
  conv_rhs => rw [← toInt_bits hWord]
  rw [BitVec.toInt_shiftLeft, Nat.shiftLeft_eq, BitVec.toInt_eq_toNat_bmod,
    Number.wrapWord]
  push_cast
  exact Int.bmod_mul_bmod.symm

/- What a shift to the left drops is a multiple of what it multiplies by. -/
theorem dvd_wrapWord
    (a : Int)
    (hCount : count ≤ 64) :
    (2 ^ count : Int) ∣ Number.wrapWord (a * 2 ^ count) := by
  have hWhole : (2 ^ count : Int) ∣ (18446744073709551616 : Nat) :=
    pow_dvd_pow (2 : Int) hCount
  rw [Number.wrapWord, Int.bmod_eq_self_sub_mul_bdiv]
  exact dvd_sub (dvd_mul_left _ _) (hWhole.mul_right _)

/- A row that is moved back gives the integer again exactly if nothing was dropped. -/
theorem shiftLeft_returns_iff
    (hWord : Number.inWord a = true)
    (hCount : count ≤ 64) :
    (bits a <<< count).sshiftRight count = bits a ↔
      Number.inWord (a * 2 ^ count) = true := by
  have hPositive : (0 : Int) < 2 ^ count := by positivity
  have hReturned :
      ((bits a <<< count).sshiftRight count).toInt =
        Number.wrapWord (a * 2 ^ count) / 2 ^ count := by
    rw [BitVec.toInt_sshiftRight, toInt_bits_shiftLeft hWord,
      Int.shiftRight_eq_div_pow]
    push_cast
    rfl
  constructor
  · intro hSame
    rw [hSame, toInt_bits hWord] at hReturned
    have hProduct :=
      Int.ediv_mul_cancel (dvd_wrapWord a hCount)
    rw [← hReturned] at hProduct
    rw [hProduct, ← toInt_bits_shiftLeft hWord]
    exact inWord_toInt _
  · intro hFits
    apply BitVec.eq_of_toInt_eq
    rw [hReturned, Number.wrapWord_of_inWord hFits, toInt_bits hWord]
    exact Int.mul_ediv_cancel a hPositive.ne'

theorem shiftLeft_eq
    (hWord : Number.inWord a = true) :
    shiftLeft a count = fit (a * 2 ^ count) := by
  simp only [shiftLeft]
  split_ifs with hNegative hZero hMany hDropped
  · omega
  · cases eq_of_beq hZero
    rw [zero_mul]
    rfl
  · have hLarge : ¬Number.inWord (a * 2 ^ count) = true := by
      intro hFits
      have hPower : 2 ^ 64 ≤ 2 ^ count :=
        Nat.pow_le_pow_right (by decide) (by omega)
      have hSize : 2 ^ count ≤ (a * 2 ^ count).natAbs := by
        rw [Int.natAbs_mul, Int.natAbs_pow]
        have hNonzero : a ≠ 0 := fun h => hZero (by simp [h])
        exact Nat.le_mul_of_pos_left _ (Int.natAbs_pos.mpr hNonzero)
      rw [Number.inWord_iff] at hFits
      omega
    rw [fit_eq, if_neg hLarge]
  · rw [Int.toNat_natCast, bne_iff_ne, ne_eq,
      shiftLeft_returns_iff hWord (by omega)] at hDropped
    rw [fit_eq, if_neg hDropped]
  · rw [Int.toNat_natCast, bne_iff_ne, ne_eq, not_not,
      shiftLeft_returns_iff hWord (by omega)] at hDropped
    rw [Int.toNat_natCast, toInt_bits_shiftLeft hWord,
      Number.wrapWord_of_inWord hDropped, fit_eq, if_pos hDropped]

theorem shiftRight_eq
    (hWord : Number.inWord a = true)
    (hDivision : Division a (2 ^ count) q r) :
    shiftRight a count = fit q := by
  have hPositive : (0 : Int) < 2 ^ count := by positivity
  have hQuotient : a / 2 ^ count = q := by
    rw [← Int.fdiv_eq_ediv_of_nonneg a hPositive.le]
    exact hDivision.eq_floor.1
  have hBelow (hMany : 64 ≤ count) : -a ≤ 2 ^ count ∧ a < 2 ^ count := by
    have hPower : (2 : Int) ^ 64 ≤ 2 ^ count :=
      pow_le_pow_right₀ (by decide) hMany
    rw [Number.inWord_iff] at hWord
    omega
  rw [shiftRight, if_neg (by omega)]
  split_ifs with hMany hNegative
  · rw [← hQuotient,
      Int.ediv_eq_neg_one_of_neg_of_le hNegative (hBelow (by omega)).1]
    rfl
  · rw [← hQuotient,
      Int.ediv_eq_zero_of_lt (by omega) (hBelow (by omega)).2]
    rfl
  · have hRow : ((bits a).sshiftRight count).toInt = q := by
      rw [BitVec.toInt_sshiftRight, toInt_bits hWord,
        Int.shiftRight_eq_div_pow]
      exact_mod_cast hQuotient
    rw [Int.toNat_natCast, hRow, fit_eq, if_pos (hRow ▸ inWord_toInt _)]

end Shifts

------------------------------------------------------------
-- Operators
------------------------------------------------------------

/- What makes an integer the result of an operator on two others. -/
inductive IsExact (a b : Int) : BinaryOp → Int → Prop
  | add : IsExact a b .add (a + b)
  | sub : IsExact a b .sub (a - b)
  | mul : IsExact a b .mul (a * b)
  | floorDiv
      {q r : Int}
      (hDivision : Division a b q r) :
      IsExact a b .floorDiv q
  | mod
      {q r : Int}
      (hDivision : Division a b q r) :
      IsExact a b .mod r
  | pow
      {exponent : Nat}
      (hCount : b = exponent) :
      IsExact a b .pow (a ^ exponent)
  | shiftLeft
      {count : Nat}
      (hCount : b = count) :
      IsExact a b .shiftLeft (a * 2 ^ count)
  | shiftRight
      {count : Nat}
      {q r : Int}
      (hCount : b = count)
      (hDivision : Division a (2 ^ count) q r) :
      IsExact a b .shiftRight q
  | bitOr
      {row : Int}
      (hBits : ∀ i, row.testBit i = (a.testBit i || b.testBit i)) :
      IsExact a b .bitOr row
  | bitXor
      {row : Int}
      (hBits : ∀ i, row.testBit i = (a.testBit i ^^ b.testBit i)) :
      IsExact a b .bitXor row
  | bitAnd
      {row : Int}
      (hBits : ∀ i, row.testBit i = (a.testBit i && b.testBit i)) :
      IsExact a b .bitAnd row

section Operators

variable {op : BinaryOp}
variable {a b r : Int}

theorem exists_isExact
    (hOp : op ∉ [.div, .matMul])
    (hCount : op ∈ [.pow, .shiftLeft, .shiftRight] → 0 ≤ b)
    (hDivisor : op ∈ [.floorDiv, .mod] → b ≠ 0) :
    ∃ r, IsExact a b op r := by
  have hNatural (h : 0 ≤ b) : b = (b.toNat : Int) :=
    (Int.toNat_of_nonneg h).symm
  cases op with
  | add => exact ⟨_, .add⟩
  | sub => exact ⟨_, .sub⟩
  | mul => exact ⟨_, .mul⟩
  | div | matMul => exact absurd (by decide) hOp
  | floorDiv => exact ⟨_, .floorDiv (division_floor a (hDivisor (by decide)))⟩
  | mod => exact ⟨_, .mod (division_floor a (hDivisor (by decide)))⟩
  | pow => exact ⟨_, .pow (hNatural (hCount (by decide)))⟩
  | shiftLeft => exact ⟨_, .shiftLeft (hNatural (hCount (by decide)))⟩
  | shiftRight =>
      exact ⟨_, .shiftRight (hNatural (hCount (by decide)))
        (division_floor a (by positivity))⟩
  | bitOr => exact ⟨_, .bitOr fun i => Int.testBit_lor a b i⟩
  | bitXor => exact ⟨_, .bitXor fun i => Int.testBit_lxor a b i⟩
  | bitAnd => exact ⟨_, .bitAnd fun i => Int.testBit_land a b i⟩

/- A row of bits that is combined from two words is a word. -/
theorem combined_eq_fit
    {combine : Bool → Bool → Bool}
    {row : BitVec 64}
    (hLeft : Number.inWord a = true)
    (hRight : Number.inWord b = true)
    (hRow :
      ∀ i, row.getLsbD i = combine ((bits a).getLsbD i) ((bits b).getLsbD i))
    (hBits : ∀ i, r.testBit i = combine (a.testBit i) (b.testBit i)) :
    Except.ok (.int row.toInt) = fit r := by
  rw [← toInt_combined hLeft hRight hRow hBits, fit_eq, if_pos (inWord_toInt row)]

/- An operator gives its exact result if a word holds it, except for a refused exponent. -/
theorem onInts_of_isExact
    (hLeft : Number.inWord a = true)
    (hRight : Number.inWord b = true)
    (hExact : IsExact a b op r) :
    onInts op a b =
      if op = .pow ∧ maxExponent < b then .error (.overflow .integer)
      else fit r := by
  cases hExact with
  | add | sub | mul => rw [if_neg (by simp)]; rfl
  | floorDiv hDivision =>
      rw [if_neg (by simp), onInts, if_neg (by simpa using hDivision.ne_zero),
        floorQuotient_eq hLeft hDivision]
  | mod hDivision =>
      rw [if_neg (by simp), onInts, if_neg (by simpa using hDivision.ne_zero),
        signedRemainder_eq hLeft hRight hDivision, fit_eq,
        if_pos (inWord_remainder hRight hDivision)]
  | pow hCount =>
      subst hCount
      rw [onInts, intPower_eq]
      simp
  | shiftLeft hCount =>
      subst hCount
      rw [if_neg (by simp), onInts, shiftLeft_eq hLeft]
  | shiftRight hCount hDivision =>
      subst hCount
      rw [if_neg (by simp), onInts, shiftRight_eq hLeft hDivision]
  | bitOr hBits =>
      rw [if_neg (by simp)]
      exact combined_eq_fit hLeft hRight (fun i => BitVec.getLsbD_or) hBits
  | bitXor hBits =>
      rw [if_neg (by simp)]
      exact combined_eq_fit hLeft hRight (fun i => BitVec.getLsbD_xor) hBits
  | bitAnd hBits =>
      rw [if_neg (by simp)]
      exact combined_eq_fit hLeft hRight (fun i => BitVec.getLsbD_and) hBits

/-
  For words, an operator on integers other than a true division
  fails with a division by zero if and only if it divides by
  zero, and has an exact result otherwise. It gives that result
  if a word holds it and reports an overflow if none does, and
  what it does unchecked stays in words. Only an exponent beyond
  32 bits is always an overflow, although powers of -1, 0 and 1
  are words.
-/
theorem exact_or_overflow
    (hLeft : Number.inWord a = true)
    (hRight : Number.inWord b = true)
    (hOp : op ∉ [.div, .matMul])
    (hCount : op ∈ [.pow, .shiftLeft, .shiftRight] → 0 ≤ b) :
    (onInts op a b = .error (.zeroDivision .integer) ↔
        op ∈ [.floorDiv, .mod] ∧ b = 0) ∧
      (¬(op ∈ [.floorDiv, .mod] ∧ b = 0) → ∃ r, IsExact a b op r) ∧
      (∀ r,
        IsExact a b op r →
          ¬(op = .pow ∧ maxExponent < b) →
            onInts op a b =
              if Number.inWord r = true then .ok (.int r)
              else .error (.overflow .integer)) ∧
      (b ≠ 0 → StepsFit a b) ∧
      (op = .pow →
        maxExponent < b →
          onInts op a b = .error (.overflow .integer) ∧
            ∀ r,
              IsExact a b op r →
                (Number.inWord r = true ↔ a = -1 ∨ a = 0 ∨ a = 1)) := by
  have hExists (hDefined : ¬(op ∈ [.floorDiv, .mod] ∧ b = 0)) :
      ∃ r, IsExact a b op r :=
    exists_isExact hOp hCount fun hDivides hZero => hDefined ⟨hDivides, hZero⟩
  refine ⟨⟨fun hFault => ?_, ?_⟩, hExists, ?_, stepsFit hLeft hRight, ?_⟩
  · by_contra hDefined
    obtain ⟨r, hExact⟩ := hExists hDefined
    rw [onInts_of_isExact hLeft hRight hExact, fit_eq] at hFault
    split_ifs at hFault
    all_goals cases hFault
  · rintro ⟨hDivides, rfl⟩
    rcases List.mem_pair.mp hDivides with rfl | rfl <;> rfl
  · intro r hExact hAccepted
    rw [onInts_of_isExact hLeft hRight hExact, if_neg hAccepted, fit_eq]
  · rintro rfl hLarge
    obtain ⟨r, hExact⟩ := hExists (by simp)
    refine ⟨?_, fun r hExact => ?_⟩
    · rw [onInts_of_isExact hLeft hRight hExact, if_pos ⟨rfl, hLarge⟩]
    · cases hExact with
      | @pow exponent hExponent =>
          subst hExponent
          exact inWord_high_pow_iff hLarge

/- The least word by -1, whose quotient is one more than the greatest word. -/
theorem exact_or_overflow_least :
    Number.inWord Number.wordMin = true ∧
      IsExact Number.wordMin (-1) .floorDiv 9223372036854775808 ∧
      onInts .floorDiv Number.wordMin (-1) = .error (.overflow .integer) := by
  have hExact : IsExact Number.wordMin (-1) .floorDiv 9223372036854775808 :=
    .floorDiv (r := 0) ⟨by decide, by decide⟩
  refine ⟨by decide, hExact, ?_⟩
  exact (exact_or_overflow (by decide) (by decide) (by decide)
    (by decide)).2.2.1 _ hExact (by decide)

/- A power of one is refused if the exponent has more than 32 bits. -/
theorem power_of_one_refused :
    ¬∀ (op : BinaryOp) (a b r : Int),
      Number.inWord a = true →
        Number.inWord b = true →
          IsExact a b op r →
            Number.inWord r = true → onInts op a b = .ok (.int r) := by
  intro hClaim
  have hExact : IsExact 1 4294967296 .pow 1 := by
    have hPower : IsExact 1 4294967296 .pow (1 ^ 4294967296) := .pow rfl
    rwa [one_pow] at hPower
  have hRefused : onInts .pow 1 4294967296 = .error (.overflow .integer) := rfl
  cases hRefused.symm.trans (hClaim .pow 1 4294967296 1 rfl rfl hExact rfl)

end Operators

end SnippetGrader.Arithmetic
