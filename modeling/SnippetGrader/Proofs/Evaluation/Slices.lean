import Mathlib
import SnippetGrader.Evaluation.Access

/-
  The positions that a slice picks.

  They are the arithmetic progression from the start by the step,
  as far as it is before the stop. The walk along it is over
  after as many rounds as there are items, and where the next
  position would be no word, it would not be before the stop.

  Key definitions include:
    * `IsBefore`
    * `startOfSlice`, `stopOfSlice`

  Key theorems include:
    * `isProgression_positionsFrom`
    * `slicePositions_exact`
-/

namespace SnippetGrader

------------------------------------------------------------
-- Progressions
------------------------------------------------------------

/- Whether a position is before a stop, in the direction of a step. -/
def IsBefore (step stop position : Int) : Prop :=
  (0 < step ∧ position < stop) ∨ (step < 0 ∧ stop < position)

instance (step stop position : Int) : Decidable (IsBefore step stop position) :=
  inferInstanceAs (Decidable (_ ∨ _))

/- Whether positions are those from a start by a step that are before a stop. -/
def IsProgression (step stop start : Int) (positions : List Nat) : Prop :=
  ∀ k : Nat,
    (positions.map Int.ofNat)[k]? =
      if IsBefore step stop (start + k * step) then some (start + k * step)
      else none

/- How many rounds a walk to a stop takes at most. -/
def roundsTo (step stop position : Int) : Nat :=
  if 0 < step then (stop - position).toNat else (position - stop).toNat

/- Whether no position before the stop is negative. -/
def StaysNonneg (step stop position : Int) : Prop :=
  (0 < step ∧ 0 ≤ position) ∨ (step < 0 ∧ -1 ≤ stop)

section Progressions

variable {step stop position : Int}

theorem isBefore_iff :
    IsBefore step stop position ↔
      ((0 < step && position < stop) || (step < 0 && stop < position)) = true := by
  simp [IsBefore]

/- What is not before the stop is not so later either. -/
theorem IsBefore.of_later
    {k : Nat}
    (hLater : IsBefore step stop (position + k * step)) :
    IsBefore step stop position := by
  rcases hLater with ⟨hStep, hBelow⟩ | ⟨hStep, hAbove⟩
  · have hForward : 0 ≤ k * step := by positivity
    exact .inl ⟨hStep, by omega⟩
  · have hBackward : k * step ≤ 0 :=
      mul_nonpos_of_nonneg_of_nonpos (by positivity) hStep.le
    exact .inr ⟨hStep, by omega⟩

theorem IsBefore.roundsTo_lt
    (hBefore : IsBefore step stop position) :
    roundsTo step stop (position + step) < roundsTo step stop position := by
  unfold roundsTo
  rcases hBefore with ⟨hStep, hBelow⟩ | ⟨hStep, hAbove⟩
  · rw [if_pos hStep, if_pos hStep]
    omega
  · rw [if_neg (by omega), if_neg (by omega)]
    omega

/- What comes next is a word if it is before a stop that is one. -/
theorem IsBefore.inWord_next
    (hNext : IsBefore step stop (position + step))
    (hStop : Number.inWord stop = true)
    (hPosition : Number.inWord position = true) :
    Number.inWord (position + step) = true := by
  rw [Number.inWord_iff] at *
  rcases hNext with ⟨hForward, hBelow⟩ | ⟨hBackward, hAbove⟩ <;> omega

theorem StaysNonneg.next
    (hNonneg : StaysNonneg step stop position) :
    StaysNonneg step stop (position + step) := by
  rcases hNonneg with ⟨hForward, hFirst⟩ | hBackward
  · exact .inl ⟨hForward, by omega⟩
  · exact .inr hBackward

theorem StaysNonneg.nonneg
    (hNonneg : StaysNonneg step stop position)
    (hBefore : IsBefore step stop position) :
    0 ≤ position := by
  rcases hNonneg with ⟨hForward, hFirst⟩ | ⟨hBackward, hLast⟩
  · exact hFirst
  · rcases hBefore with ⟨hForward, hBelow⟩ | ⟨hBackward, hAbove⟩ <;> omega

theorem positionsFrom_of_not_isBefore
    (rounds : Nat)
    (hEnd : ¬IsBefore step stop position) :
    positionsFrom stop step rounds position = [] := by
  cases rounds with
  | zero => rfl
  | succ rounds => rw [positionsFrom, if_neg (mt isBefore_iff.mpr hEnd)]

/- One round. It makes no difference whether it is the last one that words allow. -/
theorem positionsFrom_of_isBefore
    (rounds : Nat)
    (hStop : Number.inWord stop = true)
    (hPosition : Number.inWord position = true)
    (hBefore : IsBefore step stop position) :
    positionsFrom stop step (rounds + 1) position =
      position.toNat :: positionsFrom stop step rounds (position + step) := by
  rw [positionsFrom, if_pos (isBefore_iff.mp hBefore), Number.fitWord?]
  by_cases hWord : Number.inWord (position + step) = true
  · rw [if_pos hWord]
  · have hEnd : ¬IsBefore step stop (position + step) := fun hNext =>
      hWord (hNext.inWord_next hStop hPosition)
    rw [if_neg hWord, positionsFrom_of_not_isBefore rounds hEnd]

/- A walk that is long enough is the progression as far as it is before the stop. -/
theorem isProgression_positionsFrom
    {rounds : Nat}
    (hStop : Number.inWord stop = true)
    (hPosition : Number.inWord position = true)
    (hNonneg : StaysNonneg step stop position)
    (hRounds : roundsTo step stop position ≤ rounds) :
    IsProgression step stop position
      (positionsFrom stop step rounds position) := by
  intro k
  by_cases hBefore : IsBefore step stop position
  · have hLess := hBefore.roundsTo_lt
    induction rounds generalizing position k with
    | zero => omega
    | succ rounds ih =>
        rw [positionsFrom_of_isBefore rounds hStop hPosition hBefore,
          List.map_cons]
        cases k with
        | zero =>
            have hFirst : Int.ofNat position.toNat = position :=
              Int.toNat_of_nonneg (hNonneg.nonneg hBefore)
            rw [List.getElem?_cons_zero, hFirst, Nat.cast_zero, zero_mul,
              add_zero, if_pos hBefore]
        | succ k =>
            have hLater :
                position + (k + 1 : Nat) * step = position + step + k * step := by
              push_cast
              ring
            rw [List.getElem?_cons_succ, hLater]
            by_cases hNext : IsBefore step stop (position + step)
            · exact ih (hNext.inWord_next hStop hPosition) hNonneg.next
                (by omega) k hNext hNext.roundsTo_lt
            · rw [positionsFrom_of_not_isBefore rounds hNext,
                if_neg (mt IsBefore.of_later hNext)]
              rfl
  · rw [positionsFrom_of_not_isBefore rounds hBefore,
      if_neg (mt IsBefore.of_later hBefore)]
    rfl

namespace IsProgression

variable {start : Int}
variable {positions others : List Nat}

theorem unique
    (hPositions : IsProgression step stop start positions)
    (hOthers : IsProgression step stop start others) :
    positions = others := by
  have hSame : positions.map Int.ofNat = others.map Int.ofNat :=
    List.ext_getElem? fun k => (hPositions k).trans (hOthers k).symm
  exact List.map_injective_iff.mpr (fun _ _ => Int.ofNat.inj) hSame

theorem getElem_eq
    {k : Nat}
    (hPositions : IsProgression step stop start positions)
    (hIndex : k < positions.length) :
    (positions[k] : Int) = start + k * step ∧
      IsBefore step stop positions[k] := by
  have hItem := hPositions k
  rw [List.getElem?_map, List.getElem?_eq_getElem hIndex, Option.map_some] at hItem
  split_ifs at hItem with hBefore
  have hSame : (positions[k] : Int) = start + k * step := Option.some.inj hItem
  exact ⟨hSame, hSame ▸ hBefore⟩

theorem pairwise_lt
    (hPositions : IsProgression step stop start positions)
    (hForward : 0 < step) :
    positions.Pairwise (· < ·) := by
  refine List.pairwise_iff_getElem.mpr fun i j hI hJ hLess => ?_
  have hFirst := (hPositions.getElem_eq hI).1
  have hSecond := (hPositions.getElem_eq hJ).1
  have hProducts : (i : Int) * step < j * step :=
    mul_lt_mul_of_pos_right (by exact_mod_cast hLess) hForward
  omega

theorem pairwise_gt
    (hPositions : IsProgression step stop start positions)
    (hBackward : step < 0) :
    positions.Pairwise (· > ·) := by
  refine List.pairwise_iff_getElem.mpr fun i j hI hJ hLess => ?_
  have hFirst := (hPositions.getElem_eq hI).1
  have hSecond := (hPositions.getElem_eq hJ).1
  have hProducts : (j : Int) * step < i * step :=
    mul_lt_mul_of_neg_right (by exact_mod_cast hLess) hBackward
  omega

theorem nodup
    (hPositions : IsProgression step stop start positions)
    (hNonzero : step ≠ 0) :
    positions.Nodup := by
  rcases lt_or_gt_of_ne hNonzero with hBackward | hForward
  · exact (hPositions.pairwise_gt hBackward).imp fun hGreater => hGreater.ne'
  · exact (hPositions.pairwise_lt hForward).imp fun hLess => hLess.ne

end IsProgression

end Progressions

------------------------------------------------------------
-- Slices
------------------------------------------------------------

/-
  A bound of a slice counted from the start, if it is negative,
  and moved into the ends of a sequence. Backward, the ends are
  one less.
-/
def clampedBound (size step index : Int) : Int :=
  let shifted := if index < 0 then index + size else index
  if 0 < step then min (max shifted 0) size
  else min (max shifted (-1)) (size - 1)

/- Where a slice of a sequence of a given size starts. -/
def startOfSlice (size : Int) (lower : Option Int) (step : Int) : Int :=
  match lower with
  | some index => clampedBound size step index
  | none => if 0 < step then 0 else size - 1

/- Where it stops. -/
def stopOfSlice (size : Int) (upper : Option Int) (step : Int) : Int :=
  match upper with
  | some index => clampedBound size step index
  | none => if 0 < step then size else -1

section Slices

variable {size step index : Int}
variable {bound lower upper : Option Int}
variable {length : Nat}

theorem wordLength_bounds
    (length : Nat) :
    0 ≤ wordLength length ∧
      wordLength length ≤ length ∧
      wordLength length ≤ 9223372036854775807 := by
  unfold wordLength Number.wordMax
  omega

/- Counting from the end does not leave the words. -/
theorem inWord_add_length
    (length : Nat)
    (hIndex : Number.inWord index = true)
    (hNegative : index < 0) :
    Number.inWord (index + wordLength length) = true := by
  have hBounds := wordLength_bounds length
  rw [Number.inWord_iff] at *
  omega

theorem fromStart_eq
    (length : Nat)
    (hIndex : Number.inWord index = true) :
    fromStart (wordLength length) index =
      if index < 0 then index + wordLength length else index := by
  unfold fromStart
  split_ifs with hNegative
  · exact Number.wrapWord_of_inWord
      (inWord_add_length length hIndex hNegative)
  · rfl

/- Positions at which a slice can start or stop. -/
def IsBound (size step position : Int) : Prop :=
  if 0 < step then 0 ≤ position ∧ position ≤ size
  else -1 ≤ position ∧ position ≤ size - 1

theorem isBound_clampedBound
    (step index : Int)
    (hSize : 0 ≤ size) :
    IsBound size step (clampedBound size step index) := by
  simp only [IsBound, clampedBound]
  split_ifs <;> omega

theorem isBound_startOfSlice
    (lower : Option Int)
    (step : Int)
    (hSize : 0 ≤ size) :
    IsBound size step (startOfSlice size lower step) := by
  cases lower with
  | none =>
      simp only [IsBound, startOfSlice]
      split_ifs <;> omega
  | some index => exact isBound_clampedBound step index hSize

theorem isBound_stopOfSlice
    (upper : Option Int)
    (step : Int)
    (hSize : 0 ≤ size) :
    IsBound size step (stopOfSlice size upper step) := by
  cases upper with
  | none =>
      simp only [IsBound, stopOfSlice]
      split_ifs <;> omega
  | some index => exact isBound_clampedBound step index hSize

/- An end that is in place of a bound is not moved. -/
theorem boundPosition_none
    {otherwise : Int}
    (hBound : IsBound size step otherwise) :
    boundPosition size step none otherwise = otherwise := by
  unfold IsBound at hBound
  simp only [boundPosition, Option.map_none, Option.getD_none]
  split_ifs at hBound ⊢ <;> omega

theorem boundPosition_some
    (length : Nat)
    (step : Int)
    (hIndex : Number.inWord index = true)
    (otherwise : Int) :
    boundPosition (wordLength length) step (some index) otherwise =
      clampedBound (wordLength length) step index := by
  have hBounds := wordLength_bounds length
  simp only [boundPosition, clampedBound, Option.map_some,
    Option.getD_some, fromStart_eq length hIndex]
  generalize
    (if index < 0 then index + wordLength length else index) = shifted
  split_ifs <;> omega

theorem sliceStart_eq
    (length : Nat)
    (step : Int)
    (hLower : ∀ index, lower = some index → Number.inWord index = true) :
    sliceStart (wordLength length) lower step =
      startOfSlice (wordLength length) lower step := by
  cases lower with
  | none =>
      exact boundPosition_none
        (isBound_startOfSlice none step (wordLength_bounds length).1)
  | some index => exact boundPosition_some length step (hLower index rfl) _

theorem sliceStop_eq
    (length : Nat)
    (step : Int)
    (hUpper : ∀ index, upper = some index → Number.inWord index = true) :
    sliceStop (wordLength length) upper step =
      stopOfSlice (wordLength length) upper step := by
  cases upper with
  | none =>
      exact boundPosition_none
        (isBound_stopOfSlice none step (wordLength_bounds length).1)
  | some index => exact boundPosition_some length step (hUpper index rfl) _

theorem IsBound.inWord
    {position : Int}
    (hBound : IsBound (wordLength length) step position) :
    Number.inWord position = true := by
  have hBounds := wordLength_bounds length
  unfold IsBound at hBound
  rw [Number.inWord_iff]
  split_ifs at hBound <;> omega

/- A walk from one bound to another takes at most as many rounds as there are items. -/
theorem IsBound.roundsTo_le
    {start stop : Int}
    (hStart : IsBound (wordLength length) step start)
    (hStop : IsBound (wordLength length) step stop) :
    roundsTo step stop start ≤ length := by
  have hBounds := wordLength_bounds length
  unfold IsBound at hStart hStop
  unfold roundsTo
  split_ifs at * <;> omega

theorem IsBound.staysNonneg
    {start stop : Int}
    (hStart : IsBound size step start)
    (hStop : IsBound size step stop)
    (hNonzero : step ≠ 0) :
    StaysNonneg step stop start := by
  unfold IsBound at hStart hStop
  rcases lt_or_gt_of_ne hNonzero with hBackward | hForward
  · rw [if_neg (not_lt.mpr hBackward.le)] at hStop
    exact .inr ⟨hBackward, hStop.1⟩
  · rw [if_pos hForward] at hStart
    exact .inl ⟨hForward, hStart.1⟩

/- What a progression from one bound to another picks is in the sequence. -/
theorem IsProgression.lt_size
    {start stop : Int}
    {positions : List Nat}
    (hPositions : IsProgression step stop start positions)
    (hStart : IsBound size step start)
    (hStop : IsBound size step stop) :
    ∀ position ∈ positions, (position : Int) < size := by
  intro position hMem
  obtain ⟨k, hIndex, rfl⟩ := List.getElem_of_mem hMem
  obtain ⟨hSame, hBefore⟩ := hPositions.getElem_eq hIndex
  unfold IsBound at hStart hStop
  rcases hBefore with ⟨hForward, hBelow⟩ | ⟨hBackward, hAbove⟩
  · rw [if_pos hForward] at hStop
    omega
  · have hDown : k * step ≤ 0 :=
      mul_nonpos_of_nonneg_of_nonpos (by positivity) hBackward.le
    rw [if_neg (not_lt.mpr hBackward.le)] at hStart
    omega

/-
  For words and a step that is not zero, a slice picks exactly
  the progression from its start by the step, as far as it is
  before its stop: positions of items, in order and without
  repetition. No index that is counted from the end leaves the
  words, and a sum of a position and the step does so only where
  the progression is over. The walk stops by itself, so that
  more rounds add nothing, and all lengths of words count as
  what they are.
-/
theorem slicePositions_exact
    (length : Nat)
    (hLower : ∀ index, lower = some index → Number.inWord index = true)
    (hUpper : ∀ index, upper = some index → Number.inWord index = true)
    (hNonzero : step ≠ 0) :
    let size := wordLength length
    let start := startOfSlice size lower step
    let stop := stopOfSlice size upper step
    let positions := slicePositions length lower upper step
    IsProgression step stop start positions ∧
      (∀ position ∈ positions, position < length) ∧
      (0 < step → positions.Pairwise (· < ·)) ∧
      (step < 0 → positions.Pairwise (· > ·)) ∧
      positions.Nodup ∧
      (∀ index,
        lower = some index ∨ upper = some index →
          index < 0 → Number.inWord (index + size) = true) ∧
      (∀ position ∈ positions,
        Number.inWord (position + step) = true ∨
          ¬IsBefore step stop (position + step)) ∧
      (∀ more,
        positionsFrom (sliceStop size upper step) step (length + more)
            (sliceStart size lower step) =
          positions) ∧
      (length ≤ Number.wordMax → size = length) := by
  intro size start stop positions
  obtain ⟨hSize, hCounted, hMost⟩ := wordLength_bounds length
  have hStart : IsBound size step start := isBound_startOfSlice lower step hSize
  have hStop : IsBound size step stop := isBound_stopOfSlice upper step hSize
  have hWalk (more : Nat) :
      IsProgression step stop start
        (positionsFrom (sliceStop size upper step) step (length + more)
          (sliceStart size lower step)) := by
    rw [sliceStart_eq length step hLower, sliceStop_eq length step hUpper]
    exact isProgression_positionsFrom hStop.inWord hStart.inWord
      (hStart.staysNonneg hStop hNonzero)
      ((hStart.roundsTo_le hStop).trans (Nat.le_add_right length more))
  have hPositions : IsProgression step stop start positions := hWalk 0
  have hInside := hPositions.lt_size hStart hStop
  refine ⟨hPositions, fun position hMem => ?_,
    hPositions.pairwise_lt, hPositions.pairwise_gt, hPositions.nodup hNonzero,
    ?_, ?_, fun more => (hWalk more).unique hPositions, ?_⟩
  · have hLess := hInside position hMem
    omega
  · rintro index (hGiven | hGiven) hNegative
    · exact inWord_add_length length (hLower index hGiven) hNegative
    · exact inWord_add_length length (hUpper index hGiven) hNegative
  · intro position hMem
    by_cases hNext : IsBefore step stop (position + step)
    · have hWord : Number.inWord position = true := by
        have hLess := hInside position hMem
        rw [Number.inWord_iff]
        omega
      exact .inl (hNext.inWord_next hStop.inWord hWord)
    · exact .inr hNext
  · intro hLength
    exact min_eq_left hLength

/- By a step that leads from the last but one of three items to what is no word. -/
theorem slicePositions_exact_longStep :
    Number.inWord (-2) = true ∧
      Number.wordMax ≠ 0 ∧
      slicePositions 3 (some (-2)) none Number.wordMax = [1] ∧
      IsProgression Number.wordMax 3 1 [1] := by
  have hLower (index : Int) (hGiven : some (-2) = some index) :
      Number.inWord index = true := by
    cases hGiven
    decide
  have hPositions : slicePositions 3 (some (-2)) none Number.wordMax = [1] := by
    decide
  have hExact :=
    (@slicePositions_exact Number.wordMax (some (-2)) none 3 hLower nofun
      (by decide)).1
  rw [hPositions] at hExact
  exact ⟨by decide, by decide, hPositions, hExact⟩

end Slices

end SnippetGrader
