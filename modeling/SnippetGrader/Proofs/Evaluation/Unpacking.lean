import SnippetGrader.Proofs.Evaluation.Lengths

/-
  Unpacking into names.

  Targets that are names, of which one may be starred, get the
  items of a value from left to right. The starred one gets the
  list of all that the names before it and after it leave. If
  the number of items does not fit the number of targets,
  nothing is assigned.

  The items are cut with natural numbers, where a difference is
  zero if it would be negative. `cut?` makes the same cuts with
  each difference and each place checked, and does not fail.

  Key definitions include:
    * `NameTargets`, `FitsTargets`
    * `cut?`
    * `Eval.defineAll`

  Key theorems include:
    * `cut?_eq_some`
    * `Evaluator.assignEach_names`
    * `Evaluator.unpacks_each_item_once`
-/

namespace SnippetGrader

variable {α : Type}
variable {star : Option Nat}
variable {targets : List Expr}
variable {names : List String}

------------------------------------------------------------
-- Targets
------------------------------------------------------------

/- Targets that are names, of which the one at a place may be starred. -/
inductive NameTargets : (star : Option Nat) → List Expr → List String → Prop
  | nil :
      NameTargets none [] []
  | name
      {star : Option Nat}
      {targets : List Expr}
      {names : List String}
      (span : Span)
      (id : String)
      (hRest : NameTargets star targets names) :
      NameTargets (star.map (· + 1)) (.mk span (.name id) :: targets) (id :: names)
  | starred
      {targets : List Expr}
      {names : List String}
      (span nameSpan : Span)
      (id : String)
      (hRest : NameTargets none targets names) :
      NameTargets (some 0)
        (.mk span (.starred (.mk nameSpan (.name id))) :: targets)
        (id :: names)

namespace NameTargets

theorem length_eq
    (hTargets : NameTargets star targets names) :
    targets.length = names.length := by
  induction hTargets with
  | nil => rfl
  | name _ _ _ ih | starred _ _ _ _ ih => exact congrArg (· + 1) ih

/- The place is that of the first target that is starred. -/
theorem findIdx?_eq
    (hTargets : NameTargets star targets names) :
    targets.findIdx? Expr.isStarred = star := by
  induction hTargets with
  | nil => rfl
  | name span id _ ih => rw [List.findIdx?_cons, ih]; rfl
  | starred => rfl

/- One of the targets is at the place of the starred one. -/
theorem place_lt
    (hTargets : NameTargets star targets names)
    {place : Nat}
    (hPlace : star = some place) :
    place < names.length := by
  induction hTargets generalizing place with
  | nil => cases hPlace
  | @name star _ _ _ _ _ ih =>
      obtain ⟨before, rfl, rfl⟩ := Option.map_eq_some_iff.mp hPlace
      exact Nat.succ_lt_succ (ih rfl)
  | starred =>
      cases hPlace
      exact Nat.zero_lt_succ _

end NameTargets

/-
  Whether a number of items fits a number of targets: it is the
  same, or, with a starred one, at least that of the others.
-/
def FitsTargets (star : Option Nat) (count size : Nat) : Prop :=
  match star with
  | none => size = count
  | some _ => count ≤ size + 1

------------------------------------------------------------
-- Checked Cuts
------------------------------------------------------------

/- A difference, unless it would be negative. -/
def checkedSub (a b : Nat) : Option Nat :=
  if b ≤ a then some (a - b) else none

/- The items before a place and those from it on, if there is that place. -/
def splitAt? (items : List α) (place : Nat) : Option (List α × List α) :=
  if place ≤ items.length then some (items.take place, items.drop place)
  else none

/-
  The items for the targets before the starred one, for it, and
  for those after it: the last are cut off first.
-/
def cut? (place count : Nat) (items : List α) : Option (List α × List α × List α) := do
  let after ← checkedSub (← checkedSub count place) 1
  let (others, back) ← splitAt? items (← checkedSub items.length after)
  let (front, middle) ← splitAt? others place
  return (front, middle, back)

/- With enough items, every place to cut at exists. -/
theorem cut?_eq_some
    {place count : Nat}
    {items : List α}
    (hPlace : place < count)
    (hSize : count ≤ items.length + 1) :
    let taken := items.length - (count - 1)
    cut? place count items =
      some (items.take place, (items.drop place).take taken,
        items.drop (place + taken)) := by
  intro taken
  have hAfter :
      (checkedSub count place >>= (checkedSub · 1)) = some (count - place - 1) := by
    rw [checkedSub, if_pos (by omega)]
    exact if_pos (by omega)
  have hCut :
      checkedSub items.length (count - place - 1) = some (place + taken) := by
    rw [checkedSub, if_pos (by omega)]
    congr 1
    omega
  have hBack :
      splitAt? items (place + taken) =
        some (items.take (place + taken), items.drop (place + taken)) :=
    if_pos (by omega)
  have hFront :
      splitAt? (items.take (place + taken)) place =
        some (items.take place, (items.drop place).take taken) := by
    rw [splitAt?, List.length_take, if_pos (by omega), List.take_take,
      List.drop_take, Nat.min_eq_left (by omega), Nat.add_sub_cancel_left]
  unfold cut?
  rw [← bind_assoc, hAfter]
  simp only [Option.bind_eq_bind, Option.bind_some, hCut, hBack, hFront]
  rfl

/- The cuts are the items, with one for each target but the starred one. -/
theorem exists_cut?
    {place count : Nat}
    {items : List α}
    (hPlace : place < count)
    (hSize : count ≤ items.length + 1) :
    ∃ front middle back,
      cut? place count items = some (front, middle, back) ∧
        front ++ middle ++ back = items ∧
        front.length = place ∧
        front.length + 1 + back.length = count := by
  refine ⟨_, _, _, cut?_eq_some hPlace hSize, ?_, ?_, ?_⟩
  · rw [List.append_assoc, ← List.drop_drop, List.take_append_drop,
      List.take_append_drop]
  · rw [List.length_take]
    omega
  · rw [List.length_take, List.length_drop]
    omega

------------------------------------------------------------
-- Assigning
------------------------------------------------------------

namespace Eval

/- Binds names from left to right. -/
def defineAll (bindings : List (String × Value)) : Eval Unit :=
  bindings.forM fun binding => define binding.1 binding.2

theorem exists_defineAll
    (bindings : List (String × Value))
    (start : Interpreter) :
    ∃ last, defineAll bindings start = .ok () last := by
  induction bindings generalizing start with
  | nil => exact ⟨start, rfl⟩
  | cons binding rest ih => exact ih _

end Eval

namespace Evaluator

open Eval

variable {inner : Evaluator}

/- Each name is bound to its value, and a star makes no difference. -/
theorem assignEach_names
    (hTargets : NameTargets star targets names)
    (values : List Value) :
    inner.assignEach star targets values = defineAll (names.zip values) := by
  induction hTargets generalizing values with
  | nil => rfl
  | @name star targets names span id _ ih =>
      cases values with
      | nil => cases star <;> rfl
      | cons value values =>
          -- After the first name, the starred target is one place nearer.
          have hStar : (star.map (· + 1)).map (· - 1) = star := by
            cases star <;> rfl
          have hFirst :
              inner.assignEach (star.map (· + 1))
                  (.mk span (.name id) :: targets) (value :: values) = (do
                inner.assign (.mk span (.name id)) value
                inner.assignEach ((star.map (· + 1)).map (· - 1)) targets
                  values) := by
            cases star <;> rfl
          rw [hFirst, hStar, ih]
          rfl
  | @starred targets names span nameSpan id _ ih =>
      cases values with
      | nil => rfl
      | cons value values =>
          have hFirst :
              inner.assignEach (some 0)
                  (.mk span (.starred (.mk nameSpan (.name id))) :: targets)
                  (value :: values) = (do
                inner.assign (.mk nameSpan (.name id)) value
                inner.assignEach none targets values) := rfl
          rw [hFirst, ih]
          rfl

/- A tuple and a list of targets are unpacked into in the same way. -/
theorem assign_names
    (hTargets : NameTargets star targets names)
    {span : Span}
    {target : Expr}
    (hTarget :
      target = .mk span (.tuple targets) ∨ target = .mk span (.list targets))
    {value : Value}
    {items : Array Value}
    {start last : Interpreter}
    (hItems : iterate value start = .ok items last) :
    inner.assign target value start =
      (do
        let values ← distribute star names.length items.toList
        defineAll (names.zip values)) start := by
  obtain rfl : last = start := by
    have hState := reads_iterate value start
    rwa [hItems] at hState
  have hAssign :
      inner.assign target value = (do
        let items ← iterate value
        let values ← distribute star names.length items.toList
        defineAll (names.zip values)) := by
    have hEach :
        inner.assignEach star targets =
          fun values => defineAll (names.zip values) :=
      funext (assignEach_names hTargets)
    have hUnpacked :
        inner.assign target value = (do
          let items ← iterate value
          inner.assignEach (targets.findIdx? Expr.isStarred) targets
            (← distribute (targets.findIdx? Expr.isStarred) targets.length
              items.toList)) := by
      rcases hTarget with rfl | rfl <;> rfl
    rw [hUnpacked, hTargets.findIdx?_eq, hEach, hTargets.length_eq]
  rw [hAssign, bind_eq_of_ok hItems]

/- What does not fit is refused before anything is assigned. -/
theorem distribute_of_not_fits
    {items : List Value}
    (hPlace : ∀ place, star = some place → place < names.length)
    (hFits : ¬FitsTargets star names.length items.length)
    (start : Interpreter) :
    ∃ fault,
      distribute star names.length items start =
        .error (.value fault) start := by
  cases star with
  | none =>
      have hSize : items.length ≠ names.length := hFits
      by_cases hMany : items.length > names.length
      · exact ⟨.tooManyToUnpack _, by rw [distribute, if_pos hMany]; rfl⟩
      · have hFew : items.length < names.length := by omega
        exact ⟨.tooFewToUnpack _ _,
          by rw [distribute, if_neg hMany, if_pos hFew]; rfl⟩
  | some place =>
      have hBound := hPlace place rfl
      have hSize : ¬names.length ≤ items.length + 1 := hFits
      have hFew : items.length < names.length - 1 := by omega
      exact ⟨.tooFewToUnpackStarred _ _, by rw [distribute, if_pos hFew]; rfl⟩

/- Without a starred target, the values are the items. -/
theorem distribute_none
    {items : List Value}
    (hSize : items.length = names.length) :
    distribute none names.length items = pure items := by
  simp [distribute, hSize]

/- With a starred target, it gets the list of what is cut out for it. -/
theorem distribute_some
    {place : Nat}
    {items front middle back : List Value}
    (hPlace : place < names.length)
    (hSize : names.length ≤ items.length + 1)
    (hCut : cut? place names.length items = some (front, middle, back)) :
    distribute (some place) names.length items = (do
      let list ← newList middle.toArray
      return front ++ list :: back) := by
  obtain ⟨rfl, rfl, rfl⟩ :
      items.take place = front ∧
        (items.drop place).take (items.length - (names.length - 1)) = middle ∧
        items.drop (place + (items.length - (names.length - 1))) = back := by
    simpa [cut?_eq_some hPlace hSize] using hCut
  rw [distribute, if_neg (by omega)]

/-
  Items that do not fit the targets are refused and nothing has
  changed. Otherwise each item is given away once, in order:
  without a starred target each name is bound to one item, and
  with one, the items are those before it, those in its list and
  those behind it. None of the cuts is made at a place that does
  not exist.
-/
theorem unpacks_each_item_once
    (inner : Evaluator)
    (hTargets : NameTargets star targets names)
    {span : Span}
    {target : Expr}
    (hTarget :
      target = .mk span (.tuple targets) ∨ target = .mk span (.list targets))
    {value : Value}
    {items : Array Value}
    {start mid : Interpreter}
    (hItems : iterate value start = .ok items mid) :
    (¬FitsTargets star names.length items.size →
        ∃ fault, inner.assign target value start = .error (.value fault) start) ∧
      (FitsTargets star names.length items.size →
        star = none →
          ∃ last,
            inner.assign target value start = .ok () last ∧
              defineAll (names.zip items.toList) start = .ok () last) ∧
      ∀ place,
        star = some place →
          place < names.length ∧
            (FitsTargets star names.length items.size →
              ∃ front middle back list listed last,
                cut? place names.length items.toList =
                    some (front, middle, back) ∧
                  front ++ middle ++ back = items.toList ∧
                  front.length = place ∧
                  front.length + 1 + back.length = names.length ∧
                  newList middle.toArray start = .ok list listed ∧
                  inner.assign target value start = .ok () last ∧
                  defineAll (names.zip (front ++ list :: back)) listed =
                    .ok () last) := by
  rw [assign_names hTargets hTarget hItems, ← Array.length_toList]
  refine ⟨?_, ?_, ?_⟩
  · intro hFits
    obtain ⟨fault, hFault⟩ :=
      distribute_of_not_fits (fun _ => hTargets.place_lt) hFits start
    exact ⟨fault, bind_eq_of_error hFault _⟩
  · rintro hFits rfl
    obtain ⟨last, hLast⟩ := exists_defineAll (names.zip items.toList) start
    refine ⟨last, ?_, hLast⟩
    rw [distribute_none hFits, pure_bind, hLast]
  · rintro place rfl
    have hPlace := hTargets.place_lt rfl
    refine ⟨hPlace, fun hFits => ?_⟩
    obtain ⟨front, middle, back, hCut, hParts, hFront, hCount⟩ :=
      exists_cut? hPlace hFits
    obtain ⟨list, listed, hList⟩ :
        ∃ list listed, newList middle.toArray start = .ok list listed :=
      ⟨_, _, rfl⟩
    obtain ⟨last, hLast⟩ :=
      exists_defineAll (names.zip (front ++ list :: back)) listed
    refine ⟨front, middle, back, list, listed, last, hCut, hParts, hFront,
      hCount, hList, ?_, hLast⟩
    rw [distribute_some hPlace hFits hCut, bind_assoc, bind_eq_of_ok hList,
      pure_bind, hLast]

/-
  Four items go to a name, a starred name and a name: the middle
  two are in the list.
-/
theorem unpacks_each_item_once_starred_middle :
    let text (id : String) : Expr := .synthetic (.name id)
    let targets := [text "a", .synthetic (.starred (text "rest")), text "z"]
    let start : Interpreter :=
      { (default : Interpreter) with
        store.heap.lists := #[#[.int 1, .int 2, .int 3, .int 4]] }
    ∃ list listed last,
      newList #[.int 2, .int 3] start = .ok list listed ∧
        (levels 1).assign (.synthetic (.tuple targets)) (.list 0) start =
          .ok () last ∧
        defineAll [("a", .int 1), ("rest", list), ("z", .int 4)] listed =
          .ok () last := by
  intro text targets start
  have hTargets : NameTargets (some 1) targets ["a", "rest", "z"] :=
    .name _ _ (.starred _ _ _ (.name _ _ .nil))
  have hTarget :
      Expr.synthetic (.tuple targets) = .mk .synthetic (.tuple targets) ∨
        Expr.synthetic (.tuple targets) = .mk .synthetic (.list targets) :=
    .inl rfl
  have hItems :
      iterate (.list 0) start =
        .ok #[.int 1, .int 2, .int 3, .int 4] start :=
    rfl
  have hUnpacked := unpacks_each_item_once (levels 1) hTargets hTarget hItems
  obtain ⟨-, hCuts⟩ := hUnpacked.2.2 1 rfl
  obtain ⟨front, middle, back, list, listed, last, hCut, -, -, -, hList,
    hAssign, hDefine⟩ := hCuts (show 3 ≤ 4 + 1 by decide)
  cases hCut
  exact ⟨list, listed, last, hList, hAssign, hDefine⟩

end Evaluator

end SnippetGrader
