/-
  The integers of a signed word of sixty-four bits, and those of
  a wide word of twice as many.

  Key definitions include:
    * `Number.inWord`
    * `Number.fitWord?`
    * `Number.wrapWord`, `Number.wrapWide`
-/

namespace SnippetGrader.Number

/- The least integer that a word holds. -/
def wordMin : Int := -9223372036854775808

/- The greatest integer that a word holds. -/
def wordMax : Int := 9223372036854775807

/- Whether a word holds an integer. -/
def inWord (n : Int) : Bool :=
  wordMin ≤ n && n ≤ wordMax

/- An integer, if a word holds it. -/
def fitWord? (n : Int) : Option Int :=
  if inWord n then some n else none

/- The integer of the word that has the low bits of an integer. -/
def wrapWord (n : Int) : Int :=
  n.bmod 18446744073709551616

/- Whether a wide word holds an integer. -/
def inWide (n : Int) : Bool :=
  -170141183460469231731687303715884105728 ≤ n
    && n ≤ 170141183460469231731687303715884105727

/- The integer of the wide word that has the low bits of an integer. -/
def wrapWide (n : Int) : Int :=
  n.bmod 340282366920938463463374607431768211456

/-
  The nearest float to an integer of a word, a tie going to the
  even one. Its magnitude is that of the integer's magnitude.
-/
def wordToFloat (n : Int) : Float :=
  if n < 0 then -n.natAbs.toUInt64.toFloat else n.natAbs.toUInt64.toFloat

theorem fitWord?_eq_some_iff (n m : Int) :
    fitWord? n = some m ↔ inWord n = true ∧ n = m := by
  unfold fitWord?
  split <;> simp_all

theorem inWord_iff (n : Int) :
    inWord n = true ↔
      -9223372036854775808 ≤ n ∧ n ≤ 9223372036854775807 := by
  rw [inWord, Bool.and_eq_true, decide_eq_true_eq, decide_eq_true_eq,
    wordMin, wordMax]

theorem inWide_iff (n : Int) :
    inWide n = true ↔
      -170141183460469231731687303715884105728 ≤ n ∧
        n ≤ 170141183460469231731687303715884105727 := by
  rw [inWide, Bool.and_eq_true, decide_eq_true_eq, decide_eq_true_eq]

/- An integer that a word holds is that of its low bits. -/
theorem wrapWord_of_inWord {n : Int} (hWord : inWord n = true) :
    wrapWord n = n := by
  obtain ⟨hLeast, hMost⟩ := (inWord_iff n).mp hWord
  exact Int.bmod_eq_of_le_mul_two (by omega) (by omega)

theorem wrapWide_of_inWide {n : Int} (hWide : inWide n = true) :
    wrapWide n = n := by
  obtain ⟨hLeast, hMost⟩ := (inWide_iff n).mp hWide
  exact Int.bmod_eq_of_le_mul_two (by omega) (by omega)

end SnippetGrader.Number
