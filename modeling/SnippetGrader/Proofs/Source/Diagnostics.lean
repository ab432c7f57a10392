import Mathlib
import SnippetGrader.Proofs.Source.Extent
import SnippetGrader.Source.Diagnostic

/-
  Capped lists of faults.

  What is stored when a second list is appended are the faults of
  the first list and as many of the second one as there is room
  for. All of them are counted. The fault that starts first is at
  the head of the sorted list.

  Key definitions include:
    * `Diagnostics.Capped`

  Key theorems include:
    * `Diagnostics.stored_append`, `Diagnostics.total_append`
    * `Diagnostics.first?_eq_argmin`, `Diagnostics.head?_sorted`
-/

namespace SnippetGrader

theorem Diagnostic.startsNoLater_iff
    {fault other : Diagnostic} :
    fault.startsNoLater other = true ↔
      fault.span.first ≤ other.span.first :=
  Span.positionLe_iff

namespace Diagnostics

variable {faults others : Diagnostics}

------------------------------------------------------------
-- Lists Below the Cap
------------------------------------------------------------

/- A list that stores its faults, up to the cap. -/
def Capped (faults : Diagnostics) : Prop :=
  faults.stored.length = min faults.total maxErrors

theorem Capped.push
    (hFaults : faults.Capped)
    (fault : Diagnostic) :
    (faults.push fault).Capped := by
  unfold Capped at hFaults ⊢
  rw [Diagnostics.push]
  dsimp only
  split
  · rw [List.length_append, List.length_singleton]
    omega
  · omega

theorem stored_foldl_push
    (faults : Diagnostics)
    (added : List Diagnostic) :
    (added.foldl push faults).stored =
        faults.stored ++ added.take (maxErrors - faults.stored.length) ∧
      (added.foldl push faults).total = faults.total + added.length := by
  induction added generalizing faults with
  | nil => simp
  | cons fault added ih =>
      obtain ⟨hStored, hTotal⟩ := ih (faults.push fault)
      rw [List.foldl_cons, hStored, hTotal, push]
      dsimp only
      refine ⟨?_, by rw [List.length_cons]; omega⟩
      split
      · rename_i hRoom
        have hLeft :
            maxErrors - faults.stored.length =
              maxErrors - (faults.stored ++ [fault]).length + 1 := by
          rw [List.length_append, List.length_singleton]
          omega
        rw [hLeft, List.take_succ_cons, List.append_assoc,
          List.singleton_append]
      · rename_i hFull
        rw [Nat.sub_eq_zero_of_le (Nat.not_lt.mp hFull), List.take_zero,
          List.take_zero]

theorem stored_append
    (faults others : Diagnostics) :
    (faults.append others).stored =
      faults.stored ++
        others.stored.take (maxErrors - faults.stored.length) :=
  (stored_foldl_push faults others.stored).1

theorem total_append
    (hOthers : others.Capped) :
    (faults.append others).total = faults.total + others.total := by
  rw [Capped] at hOthers
  rw [append]
  dsimp only
  rw [(stored_foldl_push faults others.stored).2]
  omega

------------------------------------------------------------
-- The First Fault
------------------------------------------------------------

theorem first?_eq_argmin
    (faults : Diagnostics) :
    faults.first? = faults.stored.argmin (·.span.first) := by
  unfold first? List.argmin
  congr 1
  funext best fault
  cases best with
  | none => rfl
  | some earliest =>
      by_cases hLater : earliest.span.first ≤ fault.span.first
      · simp [List.argAux, Diagnostic.startsNoLater_iff.mpr hLater,
          not_lt.mpr hLater]
      · simp [List.argAux, Diagnostic.startsNoLater_iff, hLater,
          not_le.mp hLater]

theorem startsNoLater_trans
    (first middle last : Diagnostic)
    (hFirst : first.startsNoLater middle = true)
    (hLast : middle.startsNoLater last = true) :
    first.startsNoLater last = true :=
  Diagnostic.startsNoLater_iff.mpr
    ((Diagnostic.startsNoLater_iff.mp hFirst).trans
      (Diagnostic.startsNoLater_iff.mp hLast))

theorem startsNoLater_total
    (fault other : Diagnostic) :
    (fault.startsNoLater other || other.startsNoLater fault) = true := by
  rw [Bool.or_eq_true, Diagnostic.startsNoLater_iff,
    Diagnostic.startsNoLater_iff]
  exact le_total _ _

/- Sorting does not change the order of faults that start at the same place. -/
theorem head?_mergeSort
    (stored : List Diagnostic) :
    (stored.mergeSort Diagnostic.startsNoLater).head? =
      stored.argmin (·.span.first) := by
  induction stored with
  | nil => rw [List.mergeSort_nil, List.argmin_nil, List.head?_nil]
  | cons fault stored ih =>
      obtain ⟨before, after, hAll, hRest, hBefore⟩ :=
        List.mergeSort_cons startsNoLater_trans startsNoLater_total fault
          stored
      rw [List.argmin_cons, ← ih, hAll, hRest]
      cases before with
      | cons other before =>
          have hLater := hBefore other List.mem_cons_self
          rw [Bool.not_eq_true', Bool.eq_false_iff, ne_eq,
            Diagnostic.startsNoLater_iff, not_le] at hLater
          simp [hLater]
      | nil =>
          cases after with
          | nil => rfl
          | cons other after =>
              have hSorted :=
                List.pairwise_mergeSort startsNoLater_trans
                  startsNoLater_total (fault :: stored)
              rw [hAll] at hSorted
              have hFirst :=
                Diagnostic.startsNoLater_iff.mp
                  (List.rel_of_pairwise_cons hSorted List.mem_cons_self)
              simp [not_lt.mpr hFirst]

/- The fault that starts first is at the head of the sorted list. -/
theorem head?_sorted
    (faults : Diagnostics) :
    faults.sorted.stored.head? = faults.first? :=
  (head?_mergeSort faults.stored).trans faults.first?_eq_argmin.symm

theorem first?_sorted
    (faults : Diagnostics) :
    faults.sorted.first? = faults.first? := by
  have hSorted :=
    List.pairwise_mergeSort startsNoLater_trans startsNoLater_total
      faults.stored
  rw [← head?_sorted, ← head?_sorted, sorted, sorted,
    List.mergeSort_of_pairwise hSorted]

/- No stored fault starts before the first one. -/
theorem first_le
    {first fault : Diagnostic}
    (hFirst : faults.first? = some first)
    (hFault : fault ∈ faults.stored) :
    first.span.first ≤ fault.span.first := by
  rw [first?_eq_argmin] at hFirst
  exact List.le_of_mem_argmin (f := fun fault => fault.span.first)
    hFault hFirst

theorem exists_first?
    (hStored : faults.stored ≠ []) :
    ∃ first ∈ faults.stored, faults.first? = some first := by
  rw [first?_eq_argmin]
  cases hFirst : faults.stored.argmin (·.span.first) with
  | none => exact absurd (List.argmin_eq_none.mp hFirst) hStored
  | some first => exact ⟨first, List.argmin_mem hFirst, rfl⟩

end Diagnostics

end SnippetGrader
