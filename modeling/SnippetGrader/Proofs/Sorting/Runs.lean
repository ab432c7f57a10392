import SnippetGrader.Proofs.Sorting.Short
import SnippetGrader.Sorting.Runs

/-
  Merging runs is stable.

  Each run stands for a stretch of the list, sorted or left as
  it is, and the runs that wait to be merged stand for all that
  is before the last one. The order in which runs are merged
  makes no difference, since only neighbours are joined.

  Key definitions include:
    * `Sorting.StandsFor`, `Sorting.WaitFor`
    * `Sorting.Plan.Settles`

  Key theorems include:
    * `Sorting.nextRun_stable`
    * `Sorting.Plan.gather_stable`
    * `Sorting.runSort_stable`
-/

namespace SnippetGrader.Sorting

variable {α κ σ : Type}
variable [LinearOrder κ]
variable {less : Less σ α}
variable {rank : α → κ}
variable {known : α → Prop}

------------------------------------------------------------
-- Runs
------------------------------------------------------------

/- Items that follow each other as a run goes on: each is less, or none is. -/
def Follows (rank : α → κ) (descending : Bool) (a b : α) : Prop :=
  decide (rank b < rank a) = descending

theorem Follows.trans
    {descending : Bool}
    {a b c : α}
    (hFirst : Follows rank descending a b)
    (hSecond : Follows rank descending b c) :
    Follows rank descending a c := by
  cases descending with
  | true =>
      exact decide_eq_true
        ((of_decide_eq_true hSecond).trans (of_decide_eq_true hFirst))
  | false =>
      have hLe := not_lt.mp (of_decide_eq_false hFirst)
      exact decide_eq_false
        (not_lt.mpr (hLe.trans (not_lt.mp (of_decide_eq_false hSecond))))

theorem Follows.extend
    {descending : Bool}
    {a b : α}
    {run : List α}
    (hFirst : Follows rank descending a b)
    (hRun : (b :: run).Pairwise (Follows rank descending)) :
    (a :: b :: run).Pairwise (Follows rank descending) := by
  refine List.pairwise_cons.mpr ⟨fun item hMem => ?_, hRun⟩
  rcases List.mem_cons.mp hMem with rfl | hMem
  · exact hFirst
  · exact hFirst.trans ((List.pairwise_cons.mp hRun).1 item hMem)

/-
  A run that stands for a stretch of a list. It is sorted, unless
  a plan lets it be put off.
-/
structure StandsFor
    (rank : α → κ)
    (eager : Bool)
    (run : Run α)
    (stretch : List α) :
    Prop where
  size : run.size = stretch.length
  sorted : run.sorted = true → StablySorted rank stretch run.items
  unsorted : run.sorted = false → run.items = stretch ∧ eager = false

section Reading

variable (hLess : Answers less rank known)

include hLess

theorem runSize_stable
    {descending : Bool}
    {previous : α}
    {size : Nat}
    {items : List α}
    (hPrevious : known previous)
    (hKnown : ∀ item ∈ items, known item) :
    Gives (runSize less descending previous size items) fun total =>
      ∃ taken rest,
        items = taken ++ rest ∧
          total = size + taken.length ∧
            (previous :: taken).Pairwise (Follows rank descending) := by
  have hStop (items : List α) :
      Gives (pure size : Asking σ Nat) fun total =>
        ∃ taken rest,
          items = taken ++ rest ∧
            total = size + taken.length ∧
              (previous :: taken).Pairwise (Follows rank descending) :=
    .pure ⟨[], items, rfl, rfl, List.pairwise_singleton ..⟩
  induction items generalizing previous size with
  | nil => exact hStop []
  | cons next rest ih =>
      obtain ⟨hNext, hRest⟩ := List.forall_mem_cons.mp hKnown
      rw [runSize]
      refine .ask hLess hNext hPrevious ?_
      split
      · rename_i hFollows
        refine (ih hNext hRest fun items =>
          .pure ⟨[], items, rfl, rfl, List.pairwise_singleton ..⟩).imp ?_
        rintro total ⟨taken, left, rfl, rfl, hTaken⟩
        exact ⟨next :: taken, left, rfl, by rw [List.length_cons]; omega,
          Follows.extend hFollows hTaken⟩
      · exact hStop _

/- The run that a list starts with is the longest that goes on as it starts. -/
theorem firstRun_stable
    {items : List α}
    (hKnown : ∀ item ∈ items, known item) :
    Gives (firstRun less items) fun (size, descending) =>
      ∃ taken rest,
        items = taken ++ rest ∧
          size = taken.length ∧
            taken.Pairwise (Follows rank descending) := by
  cases items with
  | nil => exact .pure ⟨[], [], rfl, rfl, .nil⟩
  | cons first items =>
      cases items with
      | nil => exact .pure ⟨[first], [], rfl, rfl, List.pairwise_singleton ..⟩
      | cons second rest =>
          obtain ⟨hFirst, hSecond, hRest⟩ :
              known first ∧ known second ∧ ∀ item ∈ rest, known item := by
            simpa using hKnown
          rw [firstRun]
          refine .ask hLess hSecond hFirst ?_
          refine (runSize_stable hLess hSecond hRest).bind ?_
          rintro size ⟨taken, left, rfl, rfl, hTaken⟩
          exact .pure ⟨first :: second :: taken, left, rfl, by
            simp only [List.length_cons]; omega, Follows.extend rfl hTaken⟩

theorem longRun?_stable
    {least : Nat}
    {items : List α}
    (hLeast : 0 < least)
    (hKnown : ∀ item ∈ items, known item) :
    Gives (longRun? less least items) fun found =>
      ∀ run, found = some run →
        run.sorted = true ∧
          ∃ start rest,
            items = start ++ rest ∧
              start ≠ [] ∧
                run.size = start.length ∧
                  StablySorted rank start run.items := by
  rw [longRun?]
  split
  · exact .pure nofun
  · refine (firstRun_stable hLess hKnown).bind ?_
    rintro ⟨size, descending⟩ ⟨taken, rest, rfl, rfl, hTaken⟩
    dsimp only
    split
    · exact .pure nofun
    · rw [List.take_left' rfl]
      refine .pure ?_
      rintro _ ⟨⟩
      refine ⟨rfl, taken, rest, rfl, ?_, rfl, ?_⟩
      · rintro rfl
        simp at *
        omega
      · cases descending with
        | true =>
            exact .of_strictly_falling
              (hTaken.imp fun hFollows => of_decide_eq_true hFollows)
        | false =>
            exact .of_rising
              (hTaken.imp fun hFollows =>
                not_lt.mp (of_decide_eq_false hFollows))

theorem nextRun_stable
    {eager : Bool}
    {least : Nat}
    {items : List α}
    (hLeast : 0 < least)
    (hSome : items ≠ [])
    (hKnown : ∀ item ∈ items, known item) :
    Gives (nextRun less eager least items) fun run =>
      ∃ start rest,
        items = start ++ rest ∧ start ≠ [] ∧
          StandsFor rank eager run start := by
  have hStart (size : Nat) (hSize : 0 < size) :
      items.take size ≠ [] := by
    rw [Ne, List.take_eq_nil_iff, not_or]
    exact ⟨by omega, hSome⟩
  rw [nextRun]
  refine (longRun?_stable hLess hLeast hKnown).bind fun found hFound => ?_
  cases found with
  | some run =>
      obtain ⟨hSorted, start, rest, rfl, hStart, hSize, hRun⟩ :=
        hFound run rfl
      refine .pure ⟨start, rest, rfl, hStart, hSize, fun _ => hRun, ?_⟩
      rw [hSorted]
      nofun
  | none =>
      cases eager with
      | true =>
          refine (shortSort_stable hLess fun item hMem =>
            hKnown item (List.mem_of_mem_take hMem)).bind ?_
          intro sorted hSorted
          exact .pure ⟨_, _, (List.take_append_drop ..).symm,
            hStart shortLength (Nat.zero_lt_succ 31), rfl, fun _ => hSorted,
            nofun⟩
      | false =>
          exact .pure ⟨_, _, (List.take_append_drop ..).symm,
            hStart _ hLeast, rfl, nofun, fun _ => ⟨rfl, rfl⟩⟩

end Reading

------------------------------------------------------------
-- The Merge Tree
------------------------------------------------------------

/- A plan that sorts whatever it lets be put off. -/
def Plan.Settles
    (plan : Plan σ α)
    (rank : α → κ)
    (known : α → Prop) :
    Prop :=
  plan.eager = false →
    ∀ items, (∀ item ∈ items, known item) →
      Gives (plan.settle items) (StablySorted rank items)

/- Runs that stand for the stretches of a list, given from the last to the first. -/
inductive WaitFor
    (rank : α → κ)
    (eager : Bool) :
    Waiting α → List α → Prop
  | nil : WaitFor rank eager [] []
  | cons
      {run : Run α}
      {depth : Nat}
      {waiting : Waiting α}
      {before stretch : List α}
      (hRun : StandsFor rank eager run stretch)
      (hWaiting : WaitFor rank eager waiting before) :
      WaitFor rank eager ((run, depth) :: waiting) (before ++ stretch)

/- What is behind the start of a list is found by the size of the start. -/
theorem drop_start
    {first : α}
    {rest start behind : List α}
    (hEq : first :: rest = start ++ behind)
    (hStart : start ≠ []) :
    rest.drop (start.length - 1) = behind := by
  cases start with
  | nil => exact absurd rfl hStart
  | cons item start =>
      obtain ⟨-, rfl⟩ := List.cons_eq_cons.mp hEq
      exact List.drop_left

theorem leastRun_pos
    {size : Nat}
    (hSize : 0 < size) :
    0 < leastRun size := by
  unfold leastRun
  split
  · omega
  · rename_i hLong
    have hPlaces : 12 ≤ size.log2 :=
      (Nat.le_log2 (by omega)).mpr (by omega)
    have hPower :
        Nat.pow 2 6 ≤ Nat.pow 2 ((1 + size.log2) / 2) :=
      Nat.pow_le_pow_right (by decide) (by omega)
    exact Nat.div_pos
      ((by decide : 2 ≤ Nat.pow 2 6).trans
        (hPower.trans (Nat.le_add_right ..)))
      (by decide)

section Joining

variable {plan : Plan σ α}
variable (hLess : Answers less rank known)
variable (hSettles : plan.Settles rank known)

namespace Plan

include hSettles in
theorem settled_stable
    {run : Run α}
    {stretch : List α}
    (hRun : StandsFor rank plan.eager run stretch)
    (hKnown : ∀ item ∈ stretch, known item) :
    Gives (plan.settled run) (StablySorted rank stretch) := by
  rw [settled]
  split
  · rename_i hSorted
    exact .pure (hRun.sorted hSorted)
  · rename_i hUnsorted
    obtain ⟨hItems, hEager⟩ := hRun.unsorted (by simpa using hUnsorted)
    rw [hItems]
    exact hSettles hEager stretch hKnown

include hLess hSettles

theorem join_stable
    {left right : Run α}
    {before stretch : List α}
    (hLeft : StandsFor rank plan.eager left before)
    (hRight : StandsFor rank plan.eager right stretch)
    (hKnown : ∀ item ∈ before ++ stretch, known item) :
    Gives (plan.join less left right) fun run =>
      StandsFor rank plan.eager run (before ++ stretch) := by
  have hSize :
      left.size + right.size = (before ++ stretch).length := by
    rw [hLeft.size, hRight.size, List.length_append]
  rw [join]
  split
  · rename_i hPutOff
    simp only [Bool.and_eq_true, Bool.not_eq_true'] at hPutOff
    obtain ⟨hLeftItems, hEager⟩ := hLeft.unsorted hPutOff.1.1
    obtain ⟨hRightItems, -⟩ := hRight.unsorted hPutOff.1.2
    rw [hLeftItems, hRightItems]
    exact .pure ⟨hSize, nofun, fun _ => ⟨rfl, hEager⟩⟩
  · refine (settled_stable hSettles hLeft fun item hMem =>
      hKnown item (List.mem_append_left _ hMem)).bind fun leftItems hLeft => ?_
    refine (settled_stable hSettles hRight fun item hMem =>
      hKnown item (List.mem_append_right _ hMem)).bind fun rightItems hRight => ?_
    have hTies := hLeft.ties.append hRight.ties
    refine (merge_stable hLess hLeft.rising hRight.rising fun item hMem =>
      hKnown item (hTies.mem_iff.mp hMem)).bind fun merged hMerged => ?_
    exact .pure ⟨hSize, fun _ => hMerged.of_ties hTies, nofun⟩

/- With the least depth, all runs that wait are joined. -/
theorem collapse_stable
    {depth : Nat}
    {run : Run α}
    {waiting : Waiting α}
    {before stretch : List α}
    (hWaiting : WaitFor rank plan.eager waiting before)
    (hRun : StandsFor rank plan.eager run stretch)
    (hKnown : ∀ item ∈ before ++ stretch, known item) :
    Gives (plan.collapse less depth run waiting) fun (joined, waiting) =>
      ∃ before' stretch',
        before ++ stretch = before' ++ stretch' ∧
          WaitFor rank plan.eager waiting before' ∧
            StandsFor rank plan.eager joined stretch' ∧
              (depth = 0 → before' = []) := by
  induction hWaiting generalizing run stretch with
  | nil =>
      rw [collapse]
      exact .pure ⟨[], stretch, rfl, .nil, hRun, fun _ => rfl⟩
  | @cons last nodeAt waiting before middle hLast hWaiting ih =>
      rw [collapse]
      split
      · refine (join_stable hLess hSettles hLast hRun fun item hMem =>
          hKnown item ?_).bind fun joined hJoined => ?_
        · rw [List.append_assoc]
          exact List.mem_append_right _ hMem
        · rw [List.append_assoc] at hKnown ⊢
          exact ih hJoined hKnown
      · exact .pure ⟨before ++ middle, stretch, rfl, .cons hLast hWaiting, hRun,
          fun hZero => by omega⟩

/- Each further run is read from what is behind the one before. -/
theorem gather_stable
    {size position : Nat}
    {run : Run α}
    {waiting : Waiting α}
    {before stretch items : List α}
    (hSize : 0 < size)
    (hWaiting : WaitFor rank plan.eager waiting before)
    (hRun : StandsFor rank plan.eager run stretch)
    (hKnown : ∀ item ∈ before ++ stretch ++ items, known item) :
    Gives (plan.gather less size position run waiting items) fun joined =>
      StandsFor rank plan.eager joined (before ++ stretch ++ items) := by
  induction hLength : items.length using Nat.strongRecOn
    generalizing position run waiting before stretch items with
  | ind length ih =>
      have hHere : ∀ item ∈ before ++ stretch, known item := fun item hMem =>
        hKnown item (List.mem_append_left _ hMem)
      cases items with
      | nil =>
          rw [gather]
          refine (collapse_stable hLess hSettles hWaiting hRun
            hHere).bind ?_
          rintro ⟨joined, waiting⟩ ⟨before', stretch', hEq, -, hJoined, hAll⟩
          rw [List.append_nil, hEq, hAll rfl]
          exact .pure hJoined
      | cons first rest =>
          have hItems : ∀ item ∈ first :: rest, known item :=
            fun item hMem => hKnown item (List.mem_append_right _ hMem)
          rw [gather]
          refine (nextRun_stable hLess (leastRun_pos hSize)
            (List.cons_ne_nil first rest) hItems).bind ?_
          rintro next ⟨start, left, hEq, hStart, hNext⟩
          refine (collapse_stable hLess hSettles hWaiting hRun hHere).bind ?_
          rintro ⟨joined, waiting⟩ ⟨before', stretch', hEq', hWaiting', hJoined, -⟩
          dsimp only
          rw [hNext.size, drop_start hEq hStart]
          have hShorter : left.length < length := by
            have hTotal := congrArg List.length hEq
            have hSome := List.length_pos_iff.mpr hStart
            rw [List.length_append] at hTotal
            omega
          have hWhole :
              before ++ stretch ++ first :: rest =
                before' ++ stretch' ++ start ++ left := by
            rw [hEq', hEq, List.append_assoc _ start]
          rw [hWhole] at hKnown ⊢
          exact ih left.length hShorter (.cons hJoined hWaiting') hNext hKnown
            rfl

end Plan

include hLess hSettles in
theorem runSort_stable
    {items : List α}
    (hKnown : ∀ item ∈ items, known item) :
    Gives (runSort plan less items) (StablySorted rank items) := by
  cases items with
  | nil => exact .pure .nil
  | cons first rest =>
      have hSize : 0 < (first :: rest).length := Nat.zero_lt_succ _
      rw [runSort]
      refine (nextRun_stable hLess (leastRun_pos hSize)
        (List.cons_ne_nil first rest) hKnown).bind ?_
      rintro run ⟨start, left, hEq, hStart, hRun⟩
      rw [hRun.size, drop_start hEq hStart]
      rw [hEq] at hKnown ⊢
      refine (Plan.gather_stable hLess hSettles (by rw [← hEq]; exact hSize)
        .nil hRun hKnown).bind fun joined hJoined => ?_
      exact Plan.settled_stable hSettles hJoined hKnown

end Joining

end SnippetGrader.Sorting
