import SnippetGrader.Proofs.Source.Diagnostics

/-
  Capped lists of faults that are filled and joined.

  A capped list stands for all faults that ever came into it: it
  counts them and stores the first of them. Adding a fault and
  appending a second list do to what a list stands for what they
  do to lists without a cap. So every list accounts for all of
  its faults, in whatever order lists are filled and joined, and
  the number of those that a list no longer stores is the exact
  difference of its count and its length.

  Key definitions include:
    * `Diagnostics.recorded`
    * `Diagnostics.Operation`
    * `Diagnostics.performAll`, `Diagnostics.contributions`

  Key theorems include:
    * `Diagnostics.recorded_push`, `Diagnostics.recorded_append`
    * `Diagnostics.performAll_eq`
    * `Diagnostics.accounts_for_contributions`
-/

namespace SnippetGrader

namespace Diagnostics

------------------------------------------------------------
-- What a List Stands For
------------------------------------------------------------

/- The capped list that stands for some faults. -/
def recorded (found : List Diagnostic) : Diagnostics :=
  { stored := found.take maxErrors
    total := found.length }

/- A list that stands for some faults stores as many as it may. -/
theorem capped_recorded
    (found : List Diagnostic) :
    (recorded found).Capped := by
  rw [Capped, recorded, List.length_take, Nat.min_comm]

/- Only below the cap can one tell which faults a list stands for. -/
theorem Capped.exists_recorded
    {faults : Diagnostics}
    (hFaults : faults.Capped) :
    ∃ found, faults = recorded found := by
  obtain ⟨stored, total⟩ := faults
  have hLength : stored.length = min total maxErrors := hFaults
  have hNone : min (maxErrors - stored.length) (total - stored.length) = 0 := by
    omega
  refine ⟨stored ++ List.replicate (total - stored.length) default, ?_⟩
  unfold recorded
  congr 1
  · rw [List.take_append, List.take_of_length_le (by omega),
      List.take_replicate, hNone, List.replicate_zero, List.append_nil]
  · rw [List.length_append, List.length_replicate]
    omega

theorem recorded_push
    (found : List Diagnostic)
    (fault : Diagnostic) :
    (recorded found).push fault = recorded (found ++ [fault]) := by
  unfold recorded push
  rw [List.length_append, List.length_singleton, List.length_take]
  congr 1
  split
  · rename_i hRoom
    rw [List.take_of_length_le (by omega), List.take_of_length_le]
    rw [List.length_append, List.length_singleton]
    omega
  · rename_i hFull
    rw [List.take_append_of_le_length (by omega)]

theorem recorded_foldl_push
    (found added : List Diagnostic) :
    added.foldl push (recorded found) = recorded (found ++ added) := by
  induction added generalizing found with
  | nil => rw [List.foldl_nil, List.append_nil]
  | cons fault added ih =>
      rw [List.foldl_cons, recorded_push, ih, List.append_assoc,
        List.singleton_append]

/- What a list no longer stores does not show below the cap. -/
theorem take_append_take
    (found others : List Diagnostic) :
    (found ++ others.take maxErrors).take maxErrors =
      (found ++ others).take maxErrors := by
  rw [List.take_append, List.take_take, List.take_append,
    Nat.min_eq_left (Nat.sub_le _ _)]

theorem take_recorded_append
    (found others : List Diagnostic) :
    ((recorded found).stored ++ others).take maxErrors =
      (found ++ others).take maxErrors := by
  rw [recorded, List.take_append, List.take_take, Nat.min_self,
    List.length_take, List.take_append]
  congr 2
  omega

/- What a second list no longer stores lies beyond the cap of both. -/
theorem recorded_append
    (found others : List Diagnostic) :
    (recorded found).append (recorded others) =
      recorded (found ++ others) := by
  have hStored :
      ((recorded found).append (recorded others)).stored =
        (recorded (found ++ others)).stored := by
    rw [stored_append]
    unfold recorded
    dsimp only
    rw [List.take_append, List.take_take, List.length_take]
    congr 2
    omega
  have hTotal :
      ((recorded found).append (recorded others)).total =
        (recorded (found ++ others)).total := by
    rw [total_append (capped_recorded others)]
    exact List.length_append.symm
  generalize (recorded found).append (recorded others) = joined at *
  obtain ⟨stored, total⟩ := joined
  exact congr (congrArg Diagnostics.mk hStored) hTotal

------------------------------------------------------------
-- Lists That Are Filled and Joined
------------------------------------------------------------

/-
  A fault is added to a list, or a list is extended with another
  one. That one is a copy that leaves the other list as it is, or
  it is handed over and an empty list takes its place.
-/
inductive Operation (Name : Type) where
  | push (list : Name) (fault : Diagnostic)
  | extend (list other : Name) (kept : Bool)

section Operations

variable {Name : Type}
variable [DecidableEq Name]

/- The lists after an operation. -/
def perform
    (lists : Name → Diagnostics) :
    Operation Name → Name → Diagnostics
  | .push list fault =>
      Function.update lists list ((lists list).push fault)
  | .extend list other kept =>
      let left := if kept then lists else Function.update lists other {}
      Function.update left list ((lists list).append (lists other))

/- The lists after a sequence of operations on empty ones. -/
def performAll (operations : List (Operation Name)) : Name → Diagnostics :=
  operations.foldl perform fun _ => {}

/- The faults that have come into each list after an operation. -/
def contribute
    (pushed : Name → List Diagnostic) :
    Operation Name → Name → List Diagnostic
  | .push list fault =>
      Function.update pushed list (pushed list ++ [fault])
  | .extend list other kept =>
      let left := if kept then pushed else Function.update pushed other []
      Function.update left list (pushed list ++ pushed other)

/-
  The faults that have come into each list, directly or with a
  list that it was extended with, in the order in which they came.
-/
def contributions
    (operations : List (Operation Name)) :
    Name → List Diagnostic :=
  operations.foldl contribute fun _ => []

theorem perform_recorded
    (pushed : Name → List Diagnostic)
    (operation : Operation Name) :
    perform (recorded ∘ pushed) operation =
      recorded ∘ contribute pushed operation := by
  cases operation with
  | push list fault =>
      rw [perform, contribute, Function.comp_update, ← recorded_push]
      rfl
  | extend list other kept =>
      rw [perform, contribute, Function.comp_update, ← recorded_append]
      cases kept with
      | true => rfl
      | false =>
          simp only [Bool.false_eq_true, if_false, Function.comp_update,
            Function.comp_apply]
          rfl

/- Every list stands for what has come into it. -/
theorem performAll_eq
    (operations : List (Operation Name)) :
    performAll operations = recorded ∘ contributions operations := by
  have hEmpty :
      (fun _ : Name => ({} : Diagnostics)) = recorded ∘ fun _ => [] := rfl
  rw [performAll, hEmpty]
  exact List.foldl_hom (recorded ∘ ·) perform_recorded

/-
  However lists are filled and joined, each of them counts all
  faults that have come into it and stores the first of them in
  their order, as many as the cap allows. No list ever stored more
  faults than it counted, so that the number of those it did not
  store was an exact difference wherever it was handed over.
-/
theorem accounts_for_contributions
    (operations : List (Operation Name))
    (list : Name) :
    let faults := performAll operations list
    let pushed := contributions operations list
    faults.total = pushed.length ∧
      faults.stored = pushed.take (min maxErrors pushed.length) ∧
      faults.stored.length = min maxErrors faults.total ∧
      ∀ count other,
        let before := performAll (operations.take count) other
        before.stored.length ≤ before.total := by
  intro faults pushed
  have hFaults : faults = recorded pushed :=
    congrFun (performAll_eq operations) list
  refine ⟨?_, ?_, ?_, fun count other => ?_⟩
  · rw [hFaults, recorded]
  · rw [hFaults, recorded, List.take_eq_take_min]
  · rw [hFaults, capped_recorded, Nat.min_comm]
  · intro before
    have hBefore : before.Capped := by
      rw [show before = _ from congrFun (performAll_eq _) other]
      exact capped_recorded _
    exact hBefore.le.trans (Nat.min_le_left _ _)

end Operations

end Diagnostics

end SnippetGrader
