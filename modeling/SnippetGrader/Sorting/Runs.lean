import SnippetGrader.Sorting.Short

/-
  Sorting by merging runs.

  A list is read as a row of runs: long stretches that are in
  order already, and between them stretches that are sorted at
  once, or left as they are until they have to be merged. Runs
  are merged along a tree that is close to balanced: the depth
  of the node between two runs is the number of binary places in
  which the middles of the two runs agree.

  Key definitions include:
    * `Sorting.Run`
    * `Sorting.nodeDepth`
    * `Sorting.runSort`
-/

namespace SnippetGrader.Sorting

variable {σ α : Type}

------------------------------------------------------------
-- Runs
------------------------------------------------------------

/- A stretch of a list, in order or not yet. -/
structure Run (α : Type) where
  items : List α
  size : Nat
  sorted : Bool

/-
  The size of the run that goes on as it started: each item
  comes before the one ahead of it, or none does.
-/
def runSize
    (less : Less σ α)
    (descending : Bool)
    (previous : α)
    (size : Nat) :
    List α → Asking σ Nat
  | [] => return size
  | next :: rest => do
      if (← less next previous) = descending then
        runSize less descending next (size + 1) rest
      else return size

/- The size of the run that a list starts with, and whether it descends. -/
def firstRun (less : Less σ α) : List α → Asking σ (Nat × Bool)
  | first :: second :: rest => do
      let descending ← less second first
      return (← runSize less descending second 2 rest, descending)
  | items => return (items.length, false)

/-
  The run that a list starts with, if it is long enough. One
  that descends is turned round; no two of its items are equal.
-/
def longRun?
    (less : Less σ α)
    (least : Nat)
    (items : List α) :
    Asking σ (Option (Run α)) := do
  if (items.take least).length < least then return none
  else
    let (size, descending) ← firstRun less items
    if size < least then return none
    else
      let start := items.take size
      return some ⟨if descending then start.reverse else start, size, true⟩

/-
  The first run of a list. If there is no long one, then the
  start of the list is sorted at once, or put off.
-/
def nextRun
    (less : Less σ α)
    (eager : Bool)
    (least : Nat)
    (items : List α) :
    Asking σ (Run α) := do
  match ← longRun? less least items with
  | some run => return run
  | none =>
      let start := items.take (if eager then shortLength else least)
      if eager then return ⟨← shortSort less start, start.length, true⟩
      else return ⟨start, start.length, false⟩

------------------------------------------------------------
-- The Merge Tree
------------------------------------------------------------

/- The number of binary places of a number. -/
def binaryPlaces (n : Nat) : Nat :=
  if n = 0 then 0 else n.log2 + 1

/-
  The depth of the node between the runs from `left` to `middle`
  and from `middle` to `right`, in a list of a given size.
-/
def nodeDepth (size left middle right : Nat) : Nat :=
  let scale := (Nat.pow 2 62 + size - 1) / size
  64 - binaryPlaces ((scale * (left + middle)) ^^^ (scale * (middle + right)))

/- How a sort treats the runs that it put off. -/
structure Plan (σ α : Type) where
  eager : Bool
  settle : List α → Asking σ (List α)
  room : Nat

/- The items of a run in order. -/
def Plan.settled (plan : Plan σ α) (run : Run α) : Asking σ (List α) :=
  if run.sorted then return run.items else plan.settle run.items

/-
  Joins two runs. Two that are not in order are put off together
  while there is room, and all others are merged.
-/
def Plan.join
    (plan : Plan σ α)
    (less : Less σ α)
    (left right : Run α) :
    Asking σ (Run α) := do
  let size := left.size + right.size
  if !left.sorted && !right.sorted && size ≤ plan.room then
    return ⟨left.items ++ right.items, size, false⟩
  else
    let leftItems ← plan.settled left
    let rightItems ← plan.settled right
    return ⟨← merge less leftItems rightItems, size, true⟩

/- The earlier runs, from the last to the first, each with the depth behind it. -/
abbrev Waiting (α : Type) := List (Run α × Nat)

/- Joins a run with those before it whose nodes are not above a depth. -/
def Plan.collapse
    (plan : Plan σ α)
    (less : Less σ α)
    (depth : Nat)
    (run : Run α) :
    Waiting α → Asking σ (Run α × Waiting α)
  | [] => return (run, [])
  | (before, nodeAt) :: waiting => do
      if depth ≤ nodeAt then
        plan.collapse less depth (← plan.join less before run) waiting
      else return (run, (before, nodeAt) :: waiting)

/-
  The least size of a run that is worth keeping: half the list,
  at most 64, and in a long list about the root of its size.
-/
def leastRun (size : Nat) : Nat :=
  if size ≤ 4096 then min (size - size / 2) 64
  else
    let shift := (1 + size.log2) / 2
    (Nat.pow 2 shift + size / Nat.pow 2 shift) / 2

/-
  Reads the runs of a list from a position on, and joins all of
  them. The last run before the position is given apart.
-/
def Plan.gather
    (plan : Plan σ α)
    (less : Less σ α)
    (size : Nat)
    (position : Nat)
    (run : Run α)
    (waiting : Waiting α) :
    List α → Asking σ (Run α)
  | [] => do return (← plan.collapse less 0 run waiting).1
  | first :: rest => do
      let next ← nextRun less plan.eager (leastRun size) (first :: rest)
      let depth :=
        nodeDepth size (position - run.size) position (position + next.size)
      let (joined, waiting) ← plan.collapse less depth run waiting
      plan.gather less size (position + next.size) next
        ((joined, depth) :: waiting) (rest.drop (next.size - 1))
termination_by items => items.length
decreasing_by
  simp only [List.length_drop, List.length_cons]
  omega

/- Sorts by merging runs. -/
def runSort (plan : Plan σ α) (less : Less σ α) (items : List α) : Asking σ (List α) := do
  match items with
  | [] => return []
  | first :: rest =>
      let size := items.length
      let run ← nextRun less plan.eager (leastRun size) (first :: rest)
      plan.settled
        (← plan.gather less size run.size run [] (rest.drop (run.size - 1)))

end SnippetGrader.Sorting
