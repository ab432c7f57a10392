import SnippetGrader.Proofs.Evaluation.Integers

/-
  Powers of integers modulo a word.

  Repeated squaring keeps two residues of the modulus, and the
  first one times what is left of the power is congruent to the
  whole power. Products of two residues are wide words, so that
  none of them is cut off, and what comes out is a word.

  Key definitions include:
    * `Arithmetic.IsResidue`
    * `PowerState.Reaches`
    * `PowerState.Keeps`

  Key theorems include:
    * `PowerState.Keeps.next`
    * `PowerState.Reaches.keeps`
    * `Arithmetic.signedPowerModulo_exact`
-/

namespace SnippetGrader.Arithmetic

------------------------------------------------------------
-- Residues
------------------------------------------------------------

/- What a division by a modulus leaves, without regard to its sign. -/
def IsResidue (modulus n : Int) : Prop :=
  0 ≤ n ∧ n < |modulus|

section Residues

variable {modulus m n : Int}

theorem isResidue_emod
    (n : Int)
    (hModulus : modulus ≠ 0) :
    IsResidue modulus (n % modulus) :=
  ⟨Int.emod_nonneg n hModulus, Int.emod_lt_abs n hModulus⟩

theorem IsResidue.emod_eq
    (hResidue : IsResidue modulus n) :
    n % modulus = n := by
  rw [← Int.emod_abs, Int.emod_eq_of_lt hResidue.1 hResidue.2]

theorem abs_le_of_inWord
    (hModulus : Number.inWord modulus = true) :
    |modulus| ≤ 2 ^ 63 := by
  rw [Number.inWord_iff] at hModulus
  exact abs_le.mpr ⟨by omega, by omega⟩

/- Words have residues whose products are wide words. -/
theorem IsResidue.inWide_mul
    (hModulus : Number.inWord modulus = true)
    (hLeft : IsResidue modulus m)
    (hRight : IsResidue modulus n) :
    Number.inWide (m * n) = true := by
  have hMost := abs_le_of_inWord hModulus
  have hNonneg : 0 ≤ m * n := mul_nonneg hLeft.1 hRight.1
  have hProduct : m * n ≤ 2 ^ 63 * 2 ^ 63 :=
    mul_le_mul (hLeft.2.le.trans hMost) (hRight.2.le.trans hMost) hRight.1
      (by positivity)
  rw [Number.inWide_iff]
  omega

end Residues

------------------------------------------------------------
-- Rounds
------------------------------------------------------------

namespace PowerState

/- The states that rounds lead to while an exponent is left. -/
inductive Reaches (state : PowerState) (modulus : Int) : PowerState → Prop
  | refl : Reaches state modulus state
  | next
      {reached : PowerState}
      (hReached : Reaches state modulus reached)
      (hLeft : reached.exponent ≠ 0) :
      Reaches state modulus (reached.next modulus)

/-
  What every round keeps: two residues, of which the first times
  what is left of the power is congruent to the power.
-/
structure Keeps (power modulus : Int) (state : PowerState) : Prop where
  result : IsResidue modulus state.result
  factor : IsResidue modulus state.factor
  congruent :
    state.result * state.factor ^ state.exponent ≡ power [ZMOD modulus]

section Rounds

variable {base power modulus : Int}
variable {exponent : Nat}
variable {state reached : PowerState}

theorem Reaches.trans
    {last : PowerState}
    (hFirst : Reaches state modulus reached)
    (hSecond : Reaches reached modulus last) :
    Reaches state modulus last := by
  induction hSecond with
  | refl => exact hFirst
  | next hReached hLeft ih => exact ih.next hLeft

/- The rounds end in a state that they lead to. -/
theorem reaches_run
    (modulus : Int)
    (state : PowerState) :
    Reaches state modulus (state.run modulus) ∧
      (state.run modulus).exponent = 0 := by
  induction state using run.induct modulus with
  | case1 state hDone =>
      rw [run, if_pos hDone]
      exact ⟨.refl, hDone⟩
  | case2 state hLeft ih =>
      rw [run, if_neg hLeft]
      exact ⟨(Reaches.refl.next hLeft).trans ih.1, ih.2⟩

theorem keeps_start
    (base : Int)
    (exponent : Nat)
    (hModulus : modulus ≠ 0) :
    Keeps (base ^ exponent) modulus (start base exponent modulus) := by
  have hOne : Int.tmod 1 modulus = 1 % modulus :=
    Int.tmod_eq_emod_of_nonneg (by decide)
  have hFactor :
      (base % modulus) ^ exponent ≡ base ^ exponent [ZMOD modulus] :=
    (Int.mod_modEq base modulus).pow exponent
  rw [start, hOne]
  refine ⟨isResidue_emod 1 hModulus, isResidue_emod base hModulus, ?_⟩
  simpa only [one_mul] using (Int.mod_modEq 1 modulus).mul hFactor

theorem Keeps.next
    (hModulus : Number.inWord modulus = true)
    (hNonzero : modulus ≠ 0)
    (hKeeps : Keeps power modulus state) :
    Keeps power modulus (state.next modulus) := by
  have hProduct :
      Number.wrapWide (state.result * state.factor) =
        state.result * state.factor :=
    Number.wrapWide_of_inWide
      (hKeeps.result.inWide_mul hModulus hKeeps.factor)
  have hSquare :
      Number.wrapWide (state.factor * state.factor) =
        state.factor * state.factor :=
    Number.wrapWide_of_inWide
      (hKeeps.factor.inWide_mul hModulus hKeeps.factor)
  have hHalf :
      (state.factor * state.factor % modulus) ^ (state.exponent / 2) ≡
        state.factor ^ (2 * (state.exponent / 2)) [ZMOD modulus] := by
    rw [pow_mul, pow_two]
    exact (Int.mod_modEq _ modulus).pow _
  rcases Nat.mod_two_eq_zero_or_one state.exponent with hEven | hOdd
  · have hExponent : 2 * (state.exponent / 2) = state.exponent := by omega
    rw [hExponent] at hHalf
    rw [PowerState.next, if_neg (by omega), hSquare]
    exact ⟨hKeeps.result, isResidue_emod _ hNonzero,
      ((Int.ModEq.refl _).mul hHalf).trans hKeeps.congruent⟩
  · have hExponent : state.exponent = 2 * (state.exponent / 2) + 1 := by omega
    rw [PowerState.next, if_pos hOdd, hProduct, hSquare]
    refine ⟨isResidue_emod _ hNonzero, isResidue_emod _ hNonzero, ?_⟩
    calc
      state.result * state.factor % modulus *
            (state.factor * state.factor % modulus) ^ (state.exponent / 2)
          ≡ state.result * state.factor *
              state.factor ^ (2 * (state.exponent / 2)) [ZMOD modulus] :=
        (Int.mod_modEq _ modulus).mul hHalf
      _ = state.result * state.factor ^ (2 * (state.exponent / 2) + 1) := by
        rw [pow_succ, mul_assoc, mul_comm state.factor]
      _ = state.result * state.factor ^ state.exponent := by rw [← hExponent]
      _ ≡ power [ZMOD modulus] := hKeeps.congruent

theorem Reaches.keeps
    (hModulus : Number.inWord modulus = true)
    (hNonzero : modulus ≠ 0)
    (hReaches : Reaches state modulus reached)
    (hKeeps : Keeps power modulus state) :
    Keeps power modulus reached := by
  induction hReaches with
  | refl => exact hKeeps
  | next hReached hLeft ih => exact ih.next hModulus hNonzero

/- In the end, the result is the residue of the power. -/
theorem result_run
    (base : Int)
    (exponent : Nat)
    (hModulus : Number.inWord modulus = true)
    (hNonzero : modulus ≠ 0) :
    ((start base exponent modulus).run modulus).result =
      base ^ exponent % modulus := by
  obtain ⟨hReaches, hDone⟩ := reaches_run modulus (start base exponent modulus)
  have hKeeps :=
    hReaches.keeps hModulus hNonzero (keeps_start base exponent hNonzero)
  have hCongruent := hKeeps.congruent
  rw [hDone, pow_zero, mul_one] at hCongruent
  rw [← hCongruent.eq, hKeeps.result.emod_eq]

end Rounds

end PowerState

------------------------------------------------------------
-- Signed Residues
------------------------------------------------------------

section Signs

variable {modulus : Int}

/- The residue of a power is that of a division to the floor. -/
theorem wideResidue_eq
    (base : Int)
    (exponent : Nat)
    (hModulus : Number.inWord modulus = true)
    (hNonzero : modulus ≠ 0) :
    wideResidue base exponent modulus = (base ^ exponent).fmod modulus := by
  have hResidue : IsResidue modulus (base ^ exponent % modulus) :=
    isResidue_emod _ hNonzero
  simp only [wideResidue]
  rw [PowerState.result_run base exponent hModulus hNonzero,
    Int.natCast_natAbs, Int.emod_abs, hResidue.emod_eq, Int.fmod_eq_emod]
  have hMoves :
      (modulus < 0 && base ^ exponent % modulus != 0) = true ↔
        ¬(0 ≤ modulus ∨ modulus ∣ base ^ exponent) := by
    rw [Int.dvd_iff_emod_eq_zero]
    simp
  by_cases hSide : 0 ≤ modulus ∨ modulus ∣ base ^ exponent
  · rw [if_neg (mt hMoves.mp (not_not.mpr hSide)), if_pos hSide, add_zero]
  · have hNegative : modulus < 0 := not_le.mp (not_or.mp hSide).1
    have hWide : Number.inWide (base ^ exponent % modulus + modulus) = true := by
      have hMost := abs_le_of_inWord hModulus
      have hNonneg := hResidue.1
      have hLess := hResidue.2
      rw [abs_of_neg hNegative] at hLess hMost
      rw [Number.inWide_iff]
      omega
    rw [if_pos (hMoves.mpr hSide), if_neg hSide,
      Number.wrapWide_of_inWide hWide]

/-
  For words, the power modulo a number that is not zero is the
  remainder of the division of the power to the floor, so it has
  the sign of the modulus and is smaller. The two products of
  each round are wide words, and the result is a word before it
  is made one.
-/
theorem signedPowerModulo_exact
    (base : Int)
    (exponent : Nat)
    (hModulus : Number.inWord modulus = true)
    (hNonzero : modulus ≠ 0) :
    let power := signedPowerModulo base exponent modulus
    power = (base ^ exponent).fmod modulus ∧
      ((0 ≤ power ∧ power < modulus) ∨ (modulus < power ∧ power ≤ 0)) ∧
      (∀ state,
        (PowerState.start base exponent modulus).Reaches modulus state →
          Number.inWide (state.result * state.factor) = true ∧
            Number.inWide (state.factor * state.factor) = true) ∧
      Number.inWord (wideResidue base exponent modulus) = true ∧
      power = wideResidue base exponent modulus := by
  intro power
  have hResidue := wideResidue_eq base exponent hModulus hNonzero
  have hDivision := division_floor (base ^ exponent) hNonzero
  have hWord : Number.inWord (wideResidue base exponent modulus) = true := by
    rw [hResidue]
    exact inWord_remainder hModulus hDivision
  have hNarrow : power = wideResidue base exponent modulus :=
    Number.wrapWord_of_inWord hWord
  have hPower : power = (base ^ exponent).fmod modulus := hNarrow.trans hResidue
  refine ⟨hPower, hPower ▸ hDivision.remainder, fun state hReaches => ?_,
    hWord, hNarrow⟩
  have hKeeps :=
    hReaches.keeps hModulus hNonzero
      (PowerState.keeps_start base exponent hNonzero)
  exact ⟨hKeeps.result.inWide_mul hModulus hKeeps.factor,
    hKeeps.factor.inWide_mul hModulus hKeeps.factor⟩

/- A power modulo the least word, whose magnitude is no word. -/
theorem signedPowerModulo_exact_least :
    Number.inWord Number.wordMin = true ∧
      Number.wordMin ≠ 0 ∧
      signedPowerModulo (-3) 41 Number.wordMin = -8802880266606458979 := by
  refine ⟨by decide, by decide, ?_⟩
  exact (signedPowerModulo_exact (-3) 41 (by decide) (by decide)).1.trans rfl

end Signs

end SnippetGrader.Arithmetic
