import SnippetGrader.Proofs.Evaluation.Lengths
import SnippetGrader.Proofs.Evaluation.Slices

/-
  Lists of numbers by a step.

  The distance to the stop is rounded up to whole steps, and so
  the items are the arithmetic progression from the start as far
  as it is before the stop. Nothing on the way leaves the wide
  words, and every item is a word. The items are paid for before
  the list is made.

  Key definitions include:
    * `RangeArguments`
    * `Interpreter.CanSpend`

  Key theorems include:
    * `lt_rangeLength_iff`, `rangeItem_eq`
    * `Eval.range_exact`
-/

namespace SnippetGrader

------------------------------------------------------------
-- Counting Steps
------------------------------------------------------------

section Steps

variable {start stop step : Int}

/- A distance that is rounded up to whole steps counts the steps that fall short of it. -/
theorem lt_raised_tdiv_iff
    {distance : Int}
    (hStep : 0 < step)
    (hDistance : 0 < distance)
    (k : Nat) :
    k < ((distance + step - 1).tdiv step).toNat ↔ k * step < distance := by
  have hRaised : 0 ≤ distance + step - 1 := by omega
  rw [Int.tdiv_eq_ediv_of_nonneg hRaised, Int.lt_toNat, Int.lt_iff_add_one_le,
    Int.le_ediv_iff_mul_le hStep, add_mul, one_mul]
  omega

/- Every number of steps whose item is before the stop is counted, and no other. -/
theorem lt_rangeLength_iff
    (hStart : Number.inWord start = true)
    (hStop : Number.inWord stop = true)
    (hStep : Number.inWord step = true)
    (k : Nat) :
    k < rangeLength start stop step ↔ IsBefore step stop (start + k * step) := by
  rw [Number.inWord_iff] at hStart hStop hStep
  have hWide {n : Int} (hSmall : |n| ≤ 36893488147419103232) :
      Number.wrapWide n = n := by
    rw [abs_le] at hSmall
    exact Number.wrapWide_of_inWide ((Number.inWide_iff n).mpr (by omega))
  have hSign : |step.sign| ≤ 1 := by
    rw [abs_le]
    rcases lt_trichotomy step 0 with hBackward | hStill | hForward
    · simp [Int.sign_eq_neg_one_of_neg hBackward]
    · simp [hStill]
    · simp [Int.sign_eq_one_of_pos hForward]
  rw [abs_le] at hSign
  have hDistance : Number.wrapWide (stop - start) = stop - start :=
    hWide (abs_le.mpr (by omega))
  have hSum : Number.wrapWide (stop - start + step) = stop - start + step :=
    hWide (abs_le.mpr (by omega))
  have hRaised :
      Number.wrapWide (stop - start + step - step.sign) =
        stop - start + step - step.sign :=
    hWide (abs_le.mpr (by omega))
  simp only [rangeLength, hDistance, hSum, hRaised]
  split
  · rename_i hMoves
    simp only [Bool.or_eq_true, Bool.and_eq_true, decide_eq_true_eq] at hMoves
    rcases hMoves with ⟨hForward, hAhead⟩ | ⟨hBackward, hBehind⟩
    · rw [Int.sign_eq_one_of_pos hForward, lt_raised_tdiv_iff hForward hAhead]
      constructor
      · intro hShort
        exact .inl ⟨hForward, by omega⟩
      · rintro (⟨-, hBelow⟩ | ⟨hBackward, -⟩) <;> omega
    · -- Both numbers are negative, so that their quotient is that of their magnitudes.
      have hQuotient :
          (stop - start + step - step.sign).tdiv step =
            (start - stop + -step - 1).tdiv (-step) := by
        rw [Int.sign_eq_neg_one_of_neg hBackward, ← Int.neg_tdiv_neg]
        congr 1
        omega
      rw [hQuotient, lt_raised_tdiv_iff (by omega) (by omega), mul_neg]
      constructor
      · intro hShort
        exact .inr ⟨hBackward, by omega⟩
      · rintro (⟨hForward, -⟩ | ⟨-, hAbove⟩) <;> omega
  · rename_i hStays
    simp only [Bool.or_eq_true, Bool.and_eq_true, decide_eq_true_eq,
      not_or, not_and] at hStays
    refine iff_of_false (Nat.not_lt_zero k) fun hBefore => ?_
    have hFirst := hBefore.of_later
    rcases hFirst with ⟨hForward, hBelow⟩ | ⟨hBackward, hAbove⟩
    · exact hStays.1 hForward (by omega)
    · exact hStays.2 hBackward (by omega)

/- An item before the stop lies between the start and the stop. -/
theorem IsBefore.inWord_item
    {k : Nat}
    (hBefore : IsBefore step stop (start + k * step))
    (hStart : Number.inWord start = true)
    (hStop : Number.inWord stop = true) :
    Number.inWord (start + k * step) = true := by
  rw [Number.inWord_iff] at *
  rcases hBefore with ⟨hForward, hBelow⟩ | ⟨hBackward, hAbove⟩
  · have hUp : 0 ≤ k * step := by positivity
    omega
  · have hDown : k * step ≤ 0 :=
      mul_nonpos_of_nonneg_of_nonpos (by positivity) hBackward.le
    omega

/- An item before the stop is made a word without loss. -/
theorem rangeItem_eq
    {k : Nat}
    (hBefore : IsBefore step stop (start + k * step))
    (hStart : Number.inWord start = true)
    (hStop : Number.inWord stop = true) :
    rangeItem start step k = start + k * step := by
  have hWord := hBefore.inWord_item hStart hStop
  have hItem := (Number.inWord_iff _).mp hWord
  rw [Number.inWord_iff] at hStart
  have hMoved : Number.wrapWide (k * step) = k * step :=
    Number.wrapWide_of_inWide ((Number.inWide_iff _).mpr (by omega))
  have hSum : Number.wrapWide (start + k * step) = start + k * step :=
    Number.wrapWide_of_inWide ((Number.inWide_iff _).mpr (by omega))
  rw [rangeItem, hMoved, hSum, Number.wrapWord_of_inWord hWord]

/- No more steps are counted than the counter of gas can show. -/
theorem rangeLength_le
    (hStart : Number.inWord start = true)
    (hStop : Number.inWord stop = true)
    (hStep : Number.inWord step = true) :
    rangeLength start stop step ≤ Eval.maxGas := by
  by_contra hMore
  have hLast :=
    (lt_rangeLength_iff hStart hStop hStep Eval.maxGas).mp (not_le.mp hMore)
  rw [Number.inWord_iff] at hStart hStop
  unfold Eval.maxGas at hLast
  rcases hLast with ⟨hForward, hBelow⟩ | ⟨hBackward, hAbove⟩ <;> omega

/- The items of a range are the progression as far as it is before the stop. -/
theorem getElem?_rangeItems
    (hStart : Number.inWord start = true)
    (hStop : Number.inWord stop = true)
    (hStep : Number.inWord step = true)
    (k : Nat) :
    ((List.range (rangeLength start stop step)).map (rangeItem start step))[k]? =
      if IsBefore step stop (start + k * step) then some (start + k * step)
      else none := by
  rw [List.getElem?_map]
  by_cases hBefore : IsBefore step stop (start + k * step)
  · have hCounted := (lt_rangeLength_iff hStart hStop hStep k).mpr hBefore
    rw [if_pos hBefore, List.getElem?_range hCounted, Option.map_some,
      rangeItem_eq hBefore hStart hStop]
  · have hPast := mt (lt_rangeLength_iff hStart hStop hStep k).mp hBefore
    rw [if_neg hBefore, List.getElem?_eq_none (by simpa using hPast),
      Option.map_none]

end Steps

------------------------------------------------------------
-- Gas
------------------------------------------------------------

/-
  Whether there is gas for a number of units: the counter, which
  stops at its greatest value, stays within the limit.
-/
def Interpreter.CanSpend (interpreter : Interpreter) (units : Nat) : Prop :=
  min (interpreter.gas + units) Eval.maxGas ≤ interpreter.limits.gasLimit

instance (interpreter : Interpreter) (units : Nat) :
    Decidable (interpreter.CanSpend units) :=
  inferInstanceAs (Decidable (_ ≤ _))

/- Below the greatest value of the counter, the limit is what may be used in all. -/
theorem Interpreter.canSpend_iff
    {interpreter : Interpreter}
    (hLimit : interpreter.limits.gasLimit < Eval.maxGas)
    (units : Nat) :
    interpreter.CanSpend units ↔
      interpreter.gas + units ≤ interpreter.limits.gasLimit := by
  unfold CanSpend
  omega

namespace Eval

theorem charge_of_canSpend
    {interpreter : Interpreter}
    {units : Nat}
    (hGas : interpreter.CanSpend units) :
    charge units interpreter =
      .ok () { interpreter with gas := min (interpreter.gas + units) maxGas } := by
  unfold charge
  exact if_neg (not_lt.mpr hGas)

theorem charge_of_not_canSpend
    {interpreter : Interpreter}
    {units : Nat}
    (hGas : ¬interpreter.CanSpend units) :
    charge units interpreter =
      .error (.gasExhausted interpreter.limits.gasLimit)
        { interpreter with gas := min (interpreter.gas + units) maxGas } := by
  unfold charge
  exact if_pos (not_le.mp hGas)

end Eval

------------------------------------------------------------
-- Arguments
------------------------------------------------------------

/- The integer that a value stands for where one is asked for. -/
def Value.integer? : Value → Option Int
  | .int n => some n
  | .bool value => some (if value then 1 else 0)
  | _ => Option.none

/- The start, stop and step that arguments stand for. -/
inductive RangeArguments : List Value → Int → Int → Int → Prop
  | stop
      {last : Value}
      {stop : Int}
      (hStop : last.integer? = some stop) :
      RangeArguments [last] 0 stop 1
  | bounds
      {first last : Value}
      {start stop : Int}
      (hStart : first.integer? = some start)
      (hStop : last.integer? = some stop) :
      RangeArguments [first, last] start stop 1
  | stepped
      {first last stride : Value}
      {start stop step : Int}
      (hStart : first.integer? = some start)
      (hStop : last.integer? = some stop)
      (hStep : stride.integer? = some step) :
      RangeArguments [first, last, stride] start stop step

namespace Eval

variable {args : List Value}
variable {start stop step : Int}

theorem asInt_of_integer?
    (what : String)
    {value : Value}
    {n : Int}
    (hInteger : value.integer? = some n) :
    asInt what value = pure n := by
  cases value <;> cases hInteger <;> rfl

/- The items are paid for, and then the list is made. -/
theorem range_eq
    (hArgs : RangeArguments args start stop step)
    (hNonzero : step ≠ 0) :
    range args =
      (charge (min (rangeLength start stop step) maxGas) >>= fun _ =>
        newList
          (((List.range (rangeLength start stop step)).map
            (rangeItem start step)).map Value.int).toArray) := by
  have hStep : (step == 0) = false := beq_eq_false_iff_ne.mpr hNonzero
  unfold range
  rw [List.map_map]
  cases hArgs with
  | @stop last _ hStop =>
      have hCount : checkCount "range" 1 3 [last] = pure () := rfl
      simp only [hCount, List.mapM_cons, List.mapM_nil,
        asInt_of_integer? _ hStop, pure_bind, hStep]
      rfl
  | @bounds first last _ _ hStart hStop =>
      have hCount : checkCount "range" 1 3 [first, last] = pure () := rfl
      simp only [hCount, List.mapM_cons, List.mapM_nil,
        asInt_of_integer? _ hStart, asInt_of_integer? _ hStop, pure_bind,
        hStep]
      rfl
  | @stepped first last stride _ _ _ hStart hStop hStride =>
      have hCount : checkCount "range" 1 3 [first, last, stride] = pure () :=
        rfl
      simp only [hCount, List.mapM_cons, List.mapM_nil,
        asInt_of_integer? _ hStart, asInt_of_integer? _ hStop,
        asInt_of_integer? _ hStride, pure_bind, hStep]
      rfl

------------------------------------------------------------
-- Exactness
------------------------------------------------------------

/-
  For all words and every step that is not zero, there is one
  list of integers: the progression from the start by the step,
  as far as it is before the stop, all of which are words. If
  there is gas for a unit an item, the routine uses that, adds a
  list of the items to the heap, and changes nothing else. If
  there is none, it fails for that reason and makes no list.
  There is gas if what is used in all is within the limit, and
  there is none if it is not, unless the limit is the greatest
  value of the counter and so no limit.
-/
theorem range_exact
    (call : Caller)
    (hArgs : RangeArguments args start stop step)
    (hStart : Number.inWord start = true)
    (hStop : Number.inWord stop = true)
    (hStep : Number.inWord step = true)
    (hNonzero : step ≠ 0)
    {interpreter : Interpreter}
    (hLimit : interpreter.limits.gasLimit ≤ maxGas) :
    ∃ items : List Int,
      (∀ k : Nat,
        items[k]? =
          if IsBefore step stop (start + k * step) then
            some (start + k * step)
          else none) ∧
      (∀ item ∈ items, Number.inWord item = true) ∧
      (interpreter.CanSpend items.length →
        runBuiltin call .range args [] interpreter =
          .ok (.list interpreter.heap.lists.size)
            { interpreter with
              gas := min (interpreter.gas + items.length) maxGas
              store.heap :=
                (interpreter.heap.addList (items.map Value.int).toArray).2 }) ∧
      (¬interpreter.CanSpend items.length →
        runBuiltin call .range args [] interpreter =
          .error (.gasExhausted interpreter.limits.gasLimit)
            { interpreter with
              gas := min (interpreter.gas + items.length) maxGas }) ∧
      (interpreter.gas + items.length ≤ interpreter.limits.gasLimit →
        interpreter.CanSpend items.length ∧
          min (interpreter.gas + items.length) maxGas =
            interpreter.gas + items.length) ∧
      (interpreter.limits.gasLimit < interpreter.gas + items.length →
        interpreter.limits.gasLimit < maxGas →
          ¬interpreter.CanSpend items.length) := by
  let items :=
    (List.range (rangeLength start stop step)).map (rangeItem start step)
  have hItems := getElem?_rangeItems hStart hStop hStep
  have hCount : min (rangeLength start stop step) maxGas = items.length := by
    rw [min_eq_left (rangeLength_le hStart hStop hStep)]
    simp [items]
  have hRun :
      runBuiltin call .range args [] =
        (charge items.length >>= fun _ =>
          newList (items.map Value.int).toArray) := by
    rw [← hCount]
    exact range_eq hArgs hNonzero
  refine ⟨items, hItems, fun item hMem => ?_, fun hGas => ?_,
    fun hGas => ?_, fun hLess => ⟨?_, ?_⟩, fun hMore hBounded => ?_⟩
  · obtain ⟨k, hIndex⟩ := List.getElem?_of_mem hMem
    rw [hItems k] at hIndex
    split at hIndex
    · rename_i hBefore
      cases hIndex
      exact hBefore.inWord_item hStart hStop
    · cases hIndex
  · rw [hRun]
    exact bind_eq_of_ok (charge_of_canSpend hGas) _
  · rw [hRun]
    exact bind_eq_of_error (charge_of_not_canSpend hGas) _
  · exact (min_le_left _ _).trans hLess
  · exact min_eq_left (hLess.trans hLimit)
  · rw [Interpreter.canSpend_iff hBounded]
    exact not_le.mpr hMore

/- From the greatest word by the least, which leads past the stop in two steps. -/
theorem range_exact_leastStep :
    let extremes := [Number.wordMax, Number.wordMin, Number.wordMin]
    let start : Interpreter := .fresh {} {}
    RangeArguments (extremes.map Value.int)
        Number.wordMax Number.wordMin Number.wordMin ∧
      Number.inWord Number.wordMax = true ∧
      Number.inWord Number.wordMin = true ∧
      Number.wordMin ≠ 0 ∧
      start.limits.gasLimit ≤ maxGas ∧
      runBuiltin (fun _ _ _ => throw .unfinished) .range
          (extremes.map Value.int) [] start =
        .ok (.list 0)
          { start with
            gas := 2
            store.heap :=
              (start.heap.addList #[.int Number.wordMax, .int (-1)]).2 } := by
  intro extremes start
  have hArgs :
      RangeArguments (extremes.map Value.int)
        Number.wordMax Number.wordMin Number.wordMin :=
    .stepped rfl rfl rfl
  have hLimit : start.limits.gasLimit ≤ maxGas := by decide
  obtain ⟨items, hItems, -, hOk, -⟩ :=
    range_exact (fun _ _ _ => throw .unfinished) hArgs (by decide)
      (by decide) (by decide) (by decide) hLimit
  have hAll : items = [Number.wordMax, -1] := by
    have hFirst : items[0]? = some Number.wordMax := (hItems 0).trans (by decide)
    have hSecond : items[1]? = some (-1) := (hItems 1).trans (by decide)
    have hThird : items[2]? = none := (hItems 2).trans (by decide)
    rcases items with _ | ⟨first, _ | ⟨second, _ | ⟨third, rest⟩⟩⟩ <;>
      simp_all
  rw [hAll] at hOk
  exact
    ⟨hArgs, by decide, by decide, by decide, hLimit, hOk (by decide)⟩

end Eval

end SnippetGrader
