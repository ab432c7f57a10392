import SnippetGrader.Evaluation.Operators
import SnippetGrader.Proofs.Evaluation.Equivalence

/-
  The order of integers, strings and sequences of them.

  Sequences are ordered by their first items that are not equal.
  Items are equal if their nearest floats are, and integers are
  ordered exactly. So the order fits equality except where two
  integers are not the same and yet have the same float: those
  are equal, and one of them is less than the other too.

  Key definitions include:
    * `Heap.IsOrdinal`
    * `Heap.ConsistentOn`
    * `Value.Merged`

  Key theorems include:
    * `Heap.IsOrdinal.order_iff`
    * `Heap.consistentOn_ordinals`
    * `Heap.order_consistent`
-/

namespace SnippetGrader

namespace Heap

------------------------------------------------------------
-- Values with an Order
------------------------------------------------------------

/-
  Values built from integers, truth values and strings by lists
  and tuples, nested in each other to at most a depth.
-/
inductive IsOrdinal (heap : Heap) : (depth : Nat) → Value → Prop
  | bool
      {depth : Nat}
      (value : Bool) :
      IsOrdinal heap depth (.bool value)
  | int
      {depth : Nat}
      {value : Int}
      (hRange : Number.inWord value = true) :
      IsOrdinal heap depth (.int value)
  | str
      {depth : Nat}
      (value : String) :
      IsOrdinal heap depth (.str value)
  | list
      {depth address : Nat}
      (hItems :
        ∀ item ∈ (heap.list address).toList, IsOrdinal heap depth item) :
      IsOrdinal heap (depth + 1) (.list address)
  | tuple
      {depth address : Nat}
      (hItems :
        ∀ item ∈ (heap.tuple address).toList, IsOrdinal heap depth item) :
      IsOrdinal heap (depth + 1) (.tuple address)

/- Ordinal values that are nested less deep than a depth. -/
def IsOrdinalBelow (heap : Heap) (n : Nat) (value : Value) : Prop :=
  ∃ m, n = m + 1 ∧ heap.IsOrdinal m value

section Values

variable {heap : Heap}
variable {symbol : String}
variable {m n : Nat}
variable {value other : Value}
variable {outcome : Ordering}

theorem IsOrdinal.isData
    (hOrdinal : heap.IsOrdinal n value) :
    heap.IsData n value := by
  induction hOrdinal with
  | bool value => exact .bool value
  | int hRange => exact .int hRange
  | str value => exact .str value
  | list hItems ih => exact .list ih
  | tuple hItems ih => exact .tuple ih

theorem IsOrdinal.list_items
    {a : Nat}
    (hOrdinal : heap.IsOrdinal n (.list a)) :
    ∀ item ∈ (heap.list a).toList, heap.IsOrdinalBelow n item := by
  cases hOrdinal with
  | list hItems => exact fun item hMem => ⟨_, rfl, hItems item hMem⟩

theorem IsOrdinal.tuple_items
    {a : Nat}
    (hOrdinal : heap.IsOrdinal n (.tuple a)) :
    ∀ item ∈ (heap.tuple a).toList, heap.IsOrdinalBelow n item := by
  cases hOrdinal with
  | tuple hItems => exact fun item hMem => ⟨_, rfl, hItems item hMem⟩

------------------------------------------------------------
-- Depths
------------------------------------------------------------

theorem sequenceOrder_congr
    {first second : Value → Value → Except EvalError Ordering}
    {left right : List Value}
    (hSame : ∀ a ∈ left, ∀ b ∈ right, first a b = second a b) :
    heap.sequenceOrder first left right =
      heap.sequenceOrder second left right := by
  induction left generalizing right with
  | nil => cases right <;> rfl
  | cons a left ih =>
      cases right with
      | nil => rfl
      | cons b right =>
          have hRest :=
            ih fun x hX y hY =>
              hSame x (List.mem_cons_of_mem _ hX) y (List.mem_cons_of_mem _ hY)
          rw [sequenceOrder, sequenceOrder, hRest,
            hSame a List.mem_cons_self b List.mem_cons_self]

/- Values are ordered alike at all depths that they do not exceed. -/
theorem IsOrdinal.orderTo_eq
    (hValue : heap.IsOrdinal m value)
    (hOther : heap.IsOrdinal m other)
    (hLe : m ≤ n) :
    heap.orderTo symbol m value other = heap.orderTo symbol n value other := by
  induction m generalizing n value other with
  | zero => cases hValue <;> cases hOther <;> cases n <;> rfl
  | succ m ih =>
      obtain ⟨n, rfl⟩ := Nat.exists_eq_add_one.mpr (by omega : 0 < n)
      cases hValue with
      | list hItems =>
          cases hOther with
          | list hOthers =>
              exact sequenceOrder_congr fun a hA b hB =>
                ih (hItems a hA) (hOthers b hB) (by omega)
          | _ => rfl
      | tuple hItems =>
          cases hOther with
          | tuple hOthers =>
              exact sequenceOrder_congr fun a hA b hB =>
                ih (hItems a hA) (hOthers b hB) (by omega)
          | _ => rfl
      | _ => cases hOther <;> rfl

/- What the items of sequences are ordered by. -/
theorem sequenceOrder_eq_order
    {left right : List Value}
    (hLeft : ∀ a ∈ left, heap.IsOrdinalBelow n a)
    (hRight : ∀ b ∈ right, heap.IsOrdinalBelow n b)
    (hDepth : n ≤ maxNesting) :
    heap.sequenceOrder (heap.orderTo symbol (maxNesting - 1)) left right =
      heap.sequenceOrder (heap.order symbol) left right := by
  refine sequenceOrder_congr fun a hA b hB => ?_
  obtain ⟨m, rfl, hItem⟩ := hLeft a hA
  obtain ⟨_, hSame, hOther⟩ := hRight b hB
  cases hSame
  rw [← hItem.orderTo_eq hOther (Nat.le_sub_one_of_lt hDepth)]
  exact hItem.orderTo_eq hOther (Nat.le_of_succ_le hDepth)

/- How two values can be ordered. -/
inductive Orders
    (heap : Heap)
    (symbol : String) :
    Value → Value → Ordering → Prop
  | integers
      {left right : Value}
      {i j : Int}
      (hLeft : Numeral.of? left = some (.int i))
      (hRight : Numeral.of? right = some (.int j)) :
      Orders heap symbol left right (compare i j)
  | strings
      (a b : String) :
      Orders heap symbol (.str a) (.str b) (compare a b)
  | lists
      {a b : Nat}
      {outcome : Ordering}
      (hItems :
        heap.sequenceOrder (heap.order symbol) (heap.list a).toList
          (heap.list b).toList = .ok outcome) :
      Orders heap symbol (.list a) (.list b) outcome
  | tuples
      {a b : Nat}
      {outcome : Ordering}
      (hItems :
        heap.sequenceOrder (heap.order symbol) (heap.tuple a).toList
          (heap.tuple b).toList = .ok outcome) :
      Orders heap symbol (.tuple a) (.tuple b) outcome

theorem order_of_integers
    {i j : Int}
    (hValue : Numeral.of? value = some (.int i))
    (hOther : Numeral.of? other = some (.int j)) :
    heap.order symbol value other = .ok (compare i j) := by
  cases value <;> cases hValue <;> cases other <;> cases hOther <;> rfl

theorem IsOrdinal.order_list
    {a b : Nat}
    (hValue : heap.IsOrdinal n (.list a))
    (hOther : heap.IsOrdinal n (.list b))
    (hDepth : n ≤ maxNesting) :
    heap.order symbol (.list a) (.list b) =
      heap.sequenceOrder (heap.order symbol) (heap.list a).toList
        (heap.list b).toList :=
  sequenceOrder_eq_order hValue.list_items hOther.list_items hDepth

theorem IsOrdinal.order_tuple
    {a b : Nat}
    (hValue : heap.IsOrdinal n (.tuple a))
    (hOther : heap.IsOrdinal n (.tuple b))
    (hDepth : n ≤ maxNesting) :
    heap.order symbol (.tuple a) (.tuple b) =
      heap.sequenceOrder (heap.order symbol) (heap.tuple a).toList
        (heap.tuple b).toList :=
  sequenceOrder_eq_order hValue.tuple_items hOther.tuple_items hDepth

/- Two values have an order if and only if they can be ordered. -/
theorem IsOrdinal.order_iff
    (hValue : heap.IsOrdinal n value)
    (hOther : heap.IsOrdinal n other)
    (hDepth : n ≤ maxNesting) :
    heap.order symbol value other = .ok outcome ↔
      heap.Orders symbol value other outcome := by
  constructor
  · intro hOrder
    cases id hValue with
    | bool _ | int _ =>
        cases hOther with
        | bool _ | int _ =>
            cases (order_of_integers rfl rfl).symm.trans hOrder
            exact .integers rfl rfl
        | _ => cases hOrder
    | str a =>
        cases hOther with
        | str b =>
            cases hOrder
            exact .strings a b
        | _ => cases hOrder
    | list _ =>
        cases id hOther with
        | list _ => exact .lists (hValue.order_list hOther hDepth ▸ hOrder)
        | _ => cases hOrder
    | tuple _ =>
        cases id hOther with
        | tuple _ => exact .tuples (hValue.order_tuple hOther hDepth ▸ hOrder)
        | _ => cases hOrder
  · intro hOrders
    cases hOrders with
    | integers hLeft hRight => exact order_of_integers hLeft hRight
    | strings a b => rfl
    | lists hItems => exact (hValue.order_list hOther hDepth).trans hItems
    | tuples hItems => exact (hValue.order_tuple hOther hDepth).trans hItems

------------------------------------------------------------
-- Integers
------------------------------------------------------------

/- An integer is compared as its nearest float. -/
theorem number?_of_integer
    {i : Int}
    (hValue : Numeral.of? value = some (.int i)) :
    value.number? = some (Number.wordToFloat i) := by
  have hBits (x y : Float) (hSame : x.toBits = y.toBits) : x = y :=
    Float.toBits_inj.mp hSame
  cases value with
  | bool value =>
      cases hValue
      refine congrArg some ?_
      cases value <;> exact hBits _ _ (by decide)
  | int value =>
      cases hValue
      rfl
  | _ => cases hValue

theorem IsOrdinal.range_of_integer
    {i : Int}
    (hOrdinal : heap.IsOrdinal n value)
    (hInteger : Numeral.of? value = some (.int i)) :
    i.natAbs < 2 ^ 64 := by
  cases hOrdinal with
  | bool value =>
      cases hInteger
      cases value <;> decide
  | int hRange =>
      cases hInteger
      rw [Number.inWord_iff] at hRange
      omega
  | _ => cases hInteger

theorem IsOrdinal.exists_integer
    {x : Float}
    (hOrdinal : heap.IsOrdinal n value)
    (hNumber : value.number? = some x) :
    ∃ i, Numeral.of? value = some (.int i) := by
  cases hOrdinal with
  | bool value => exact ⟨_, rfl⟩
  | int hRange => exact ⟨_, rfl⟩
  | _ => cases hNumber

/- Integers are equal if they are rounded to the same number. -/
theorem IsOrdinal.equal_integers_iff
    {i j : Int}
    (hValue : heap.IsOrdinal m value)
    (hOther : heap.IsOrdinal n other)
    (hLeft : Numeral.of? value = some (.int i))
    (hRight : Numeral.of? other = some (.int j)) :
    heap.Equal value other ↔ Number.rounded i = Number.rounded j := by
  rw [Equal, equal_of_numbers (number?_of_integer hLeft)
    (number?_of_integer hRight)]
  exact Number.beq_wordToFloat_iff (hValue.range_of_integer hLeft)
    (hOther.range_of_integer hRight)

------------------------------------------------------------
-- Consistency
------------------------------------------------------------

/- How the order of some values fits their equality. -/
structure ConsistentOn
    (heap : Heap)
    (symbol : String)
    (data : Value → Prop) :
    Prop where
  swap :
    ∀ {x y outcome},
      data x → data y →
        heap.order symbol x y = .ok outcome →
          heap.order symbol y x = .ok outcome.swap
  equal :
    ∀ {x y},
      data x → data y → heap.order symbol x y = .ok .eq → heap.Equal x y
  congr :
    ∀ {x x' y outcome},
      data x → data x' → data y →
        heap.Equal x x' →
          heap.equal x y = false →
            heap.order symbol x y = .ok outcome →
              heap.order symbol x' y = .ok outcome
  trans :
    ∀ {x y z outcome},
      data x → data y → data z →
        heap.order symbol x y = .ok .lt →
          heap.order symbol y z = .ok .lt →
            heap.order symbol x z = .ok outcome → outcome = .lt

section Sequences

variable {data : Value → Prop}
variable (hOrder : heap.ConsistentOn symbol data)
variable (hEqual : heap.EquivalenceOn data)

include hOrder hEqual

theorem sequenceOrder_swap
    {xs ys : List Value}
    (hXs : ∀ x ∈ xs, data x)
    (hYs : ∀ y ∈ ys, data y)
    (hSequence :
      heap.sequenceOrder (heap.order symbol) xs ys = .ok outcome) :
    heap.sequenceOrder (heap.order symbol) ys xs = .ok outcome.swap := by
  induction xs generalizing ys with
  | nil =>
      cases ys <;> cases hSequence <;> rfl
  | cons x xs ih =>
      cases ys with
      | nil =>
          cases hSequence
          rfl
      | cons y ys =>
          rw [List.forall_mem_cons] at hXs hYs
          have hBack : heap.equal y x = heap.equal x y := by
            rw [Bool.eq_iff_iff]
            exact ⟨hEqual.symm hYs.1 hXs.1, hEqual.symm hXs.1 hYs.1⟩
          rw [sequenceOrder] at hSequence ⊢
          rw [hBack]
          split at hSequence
          · rw [if_pos ‹_›]
            exact ih hXs.2 hYs.2 hSequence
          · rw [if_neg ‹_›]
            exact hOrder.swap hXs.1 hYs.1 hSequence

omit hEqual in
/- Sequences are ordered as equal if and only if their items are equal. -/
theorem sequenceOrder_eq_iff
    {xs ys : List Value}
    (hXs : ∀ x ∈ xs, data x)
    (hYs : ∀ y ∈ ys, data y) :
    heap.sequenceOrder (heap.order symbol) xs ys = .ok .eq ↔
      List.Forall₂ heap.Equal xs ys := by
  induction xs generalizing ys with
  | nil =>
      cases ys with
      | nil => exact ⟨fun _ => .nil, fun _ => rfl⟩
      | cons y ys => exact ⟨nofun, nofun⟩
  | cons x xs ih =>
      cases ys with
      | nil => exact ⟨nofun, nofun⟩
      | cons y ys =>
          rw [List.forall_mem_cons] at hXs hYs
          rw [sequenceOrder, List.forall₂_cons]
          split
          · rename_i hSame
            rw [ih hXs.2 hYs.2]
            exact ⟨fun hRest => ⟨hSame, hRest⟩, fun hBoth => hBoth.2⟩
          · rename_i hUnequal
            exact ⟨fun hItem => (hUnequal (hOrder.equal hXs.1 hYs.1 hItem)).elim,
              fun hBoth => (hUnequal hBoth.1).elim⟩

/- A sequence is ordered like one with equal items. -/
theorem sequenceOrder_of_equal
    {xs xs' ys : List Value}
    (hXs : ∀ x ∈ xs, data x)
    (hXs' : ∀ x ∈ xs', data x)
    (hYs : ∀ y ∈ ys, data y)
    (hSame : List.Forall₂ heap.Equal xs xs')
    (hSequence :
      heap.sequenceOrder (heap.order symbol) xs ys = .ok outcome) :
    heap.sequenceOrder (heap.order symbol) xs' ys = .ok outcome := by
  induction hSame generalizing ys with
  | nil => exact hSequence
  | @cons x x' xs xs' hHere hRest ih =>
      cases ys with
      | nil => exact hSequence
      | cons y ys =>
          rw [List.forall_mem_cons] at hXs hXs' hYs
          rw [sequenceOrder] at hSequence ⊢
          have hBack := hEqual.symm hXs.1 hXs'.1 hHere
          by_cases hItem : heap.equal x y = true
          · rw [if_pos hItem] at hSequence
            rw [if_pos (hEqual.trans hXs'.1 hXs.1 hYs.1 hBack hItem)]
            exact ih hXs.2 hXs'.2 hYs.2 hSequence
          · rw [if_neg hItem] at hSequence
            rw [if_neg fun hOther =>
              hItem (hEqual.trans hXs.1 hXs'.1 hYs.1 hHere hOther)]
            exact hOrder.congr hXs.1 hXs'.1 hYs.1 hHere
              (Bool.eq_false_iff.mpr hItem) hSequence

/- An item that differs from two others lies where they put it. -/
theorem item_trans
    {x y z : Value}
    (hX : data x)
    (hY : data y)
    (hZ : data z)
    (hUnequal : heap.equal x y = false)
    (hFirst : heap.order symbol x y = .ok .lt)
    (hSecond : heap.Equal y z ∨ heap.order symbol y z = .ok .lt) :
    heap.equal x z = false ∧
      (heap.order symbol x z = .ok outcome → outcome = .lt) := by
  rcases hSecond with hSame | hLess
  · have hBack := hEqual.symm hY hZ hSame
    refine ⟨?_, fun hThird => ?_⟩
    · rw [Bool.eq_false_iff] at hUnequal ⊢
      exact fun hOther => hUnequal (hEqual.trans hX hZ hY hOther hBack)
    · have hUnequal' : heap.equal y x = false := by
        rw [Bool.eq_false_iff] at hUnequal ⊢
        exact fun hOther => hUnequal (hEqual.symm hY hX hOther)
      have hFound :=
        hOrder.congr hY hZ hX hSame hUnequal' (hOrder.swap hX hY hFirst)
      cases (hOrder.swap hZ hX hFound).symm.trans hThird
      rfl
  · refine ⟨?_, hOrder.trans hX hY hZ hFirst hLess⟩
    rw [Bool.eq_false_iff]
    intro hOther
    -- Otherwise the last item would be both below and above the second.
    have hFound := hOrder.congr hX hZ hY hOther hUnequal hFirst
    cases (hOrder.swap hY hZ hLess).symm.trans hFound

theorem sequenceOrder_trans
    {xs ys zs : List Value}
    (hXs : ∀ x ∈ xs, data x)
    (hYs : ∀ y ∈ ys, data y)
    (hZs : ∀ z ∈ zs, data z)
    (hFirst : heap.sequenceOrder (heap.order symbol) xs ys = .ok .lt)
    (hSecond : heap.sequenceOrder (heap.order symbol) ys zs = .ok .lt)
    (hThird :
      heap.sequenceOrder (heap.order symbol) xs zs = .ok outcome) :
    outcome = .lt := by
  induction xs generalizing ys zs with
  | nil =>
      cases zs with
      | nil => cases ys <;> cases hSecond
      | cons z zs =>
          cases hThird
          rfl
  | cons x xs ih =>
      cases ys with
      | nil => cases hFirst
      | cons y ys =>
          cases zs with
          | nil => cases hSecond
          | cons z zs =>
              rw [List.forall_mem_cons] at hXs hYs hZs
              rw [sequenceOrder] at hFirst hSecond hThird
              by_cases hXY : heap.equal x y = true
              · by_cases hYZ : heap.equal y z = true
                · rw [if_pos hXY] at hFirst
                  rw [if_pos hYZ] at hSecond
                  rw [if_pos (hEqual.trans hXs.1 hYs.1 hZs.1 hXY hYZ)] at hThird
                  exact ih hXs.2 hYs.2 hZs.2 hFirst hSecond hThird
                · rw [if_neg hYZ] at hSecond
                  have hYX := hEqual.symm hXs.1 hYs.1 hXY
                  rw [if_neg fun hXZ =>
                    hYZ (hEqual.trans hYs.1 hXs.1 hZs.1 hYX hXZ)] at hThird
                  have hFound :=
                    hOrder.congr hYs.1 hXs.1 hZs.1 hYX
                      (Bool.eq_false_iff.mpr hYZ) hSecond
                  cases hFound.symm.trans hThird
                  rfl
              · rw [if_neg hXY] at hFirst
                have hYZ :
                    heap.Equal y z ∨ heap.order symbol y z = .ok .lt := by
                  split at hSecond
                  · exact .inl ‹_›
                  · exact .inr hSecond
                obtain ⟨hXZ, hLess⟩ :=
                  item_trans hOrder hEqual hXs.1 hYs.1 hZs.1
                    (Bool.eq_false_iff.mpr hXY) hFirst hYZ
                rw [if_neg (Bool.eq_false_iff.mp hXZ)] at hThird
                exact hLess hThird

end Sequences

------------------------------------------------------------
-- Ordinal Values
------------------------------------------------------------

section Items

variable (hOrder : heap.ConsistentOn symbol (heap.IsOrdinalBelow n))
variable (hEqual : heap.EquivalenceOn (heap.IsOrdinalBelow n))

include hOrder hEqual

theorem Orders.swap
    (hValue : heap.IsOrdinal n value)
    (hOther : heap.IsOrdinal n other)
    (hOrders : heap.Orders symbol value other outcome) :
    heap.Orders symbol other value outcome.swap := by
  cases hOrders with
  | integers hLeft hRight =>
      rw [← Std.OrientedCmp.eq_swap]
      exact .integers hRight hLeft
  | strings a b =>
      rw [← Std.OrientedCmp.eq_swap]
      exact .strings b a
  | lists hItems =>
      exact .lists (sequenceOrder_swap hOrder hEqual hValue.list_items
        hOther.list_items hItems)
  | tuples hItems =>
      exact .tuples (sequenceOrder_swap hOrder hEqual hValue.tuple_items
        hOther.tuple_items hItems)

omit hEqual in
theorem Orders.equates
    (hValue : heap.IsOrdinal n value)
    (hOther : heap.IsOrdinal n other)
    (hOrders : heap.Orders symbol value other outcome)
    (hOutcome : outcome = .eq) :
    heap.Equates value other := by
  cases hOrders with
  | integers hLeft hRight =>
      cases Std.LawfulEqCmp.eq_of_compare hOutcome
      exact .number (number?_of_integer hLeft) (number?_of_integer hRight)
        (Number.beq_self (isNaN_wordToFloat _))
  | strings a b =>
      cases Std.LawfulEqCmp.eq_of_compare hOutcome
      exact .str a
  | lists hItems =>
      rw [hOutcome, sequenceOrder_eq_iff hOrder hValue.list_items
        hOther.list_items] at hItems
      exact .list hItems
  | tuples hItems =>
      rw [hOutcome, sequenceOrder_eq_iff hOrder hValue.tuple_items
        hOther.tuple_items] at hItems
      exact .tuple hItems

/- A value is ordered like an equal one, unless it equals what it is ordered by. -/
theorem Orders.of_equates
    {value' : Value}
    (hValue : heap.IsOrdinal n value)
    (hValue' : heap.IsOrdinal n value')
    (hOther : heap.IsOrdinal n other)
    (hEquates : heap.Equates value value')
    (hUnequal : heap.equal value other = false)
    (hOrders : heap.Orders symbol value other outcome) :
    heap.Orders symbol value' other outcome := by
  cases hOrders with
  | @integers _ _ i j hLeft hRight =>
      cases hEquates with
      | number hNumber hNumber' hSame =>
          obtain ⟨i', hLeft'⟩ := hValue'.exists_integer hNumber'
          have hRounded : Number.rounded i = Number.rounded i' := by
            rw [← hValue.equal_integers_iff hValue' hLeft hLeft']
            exact (equal_of_numbers hNumber hNumber').trans hSame
          have hDiffer : Number.rounded i ≠ Number.rounded j := by
            intro hBoth
            rw [← hValue.equal_integers_iff hOther hLeft hRight] at hBoth
            exact Bool.false_ne_true (hUnequal.symm.trans hBoth)
          rw [Number.compare_eq_of_rounded_eq
            (hValue.range_of_integer hLeft)
            (hValue'.range_of_integer hLeft')
            (hOther.range_of_integer hRight) hRounded hDiffer]
          exact .integers hLeft' hRight
      | _ => cases hLeft
  | strings a b =>
      cases hEquates with
      | str a => exact .strings a b
      | number hNumber _ _ => cases hNumber
  | lists hItems =>
      cases hEquates with
      | number hNumber _ _ => cases hNumber
      | list hSame =>
          exact .lists (sequenceOrder_of_equal hOrder hEqual
            hValue.list_items hValue'.list_items hOther.list_items hSame
            hItems)
  | tuples hItems =>
      cases hEquates with
      | number hNumber _ _ => cases hNumber
      | tuple hSame =>
          exact .tuples (sequenceOrder_of_equal hOrder hEqual
            hValue.tuple_items hValue'.tuple_items hOther.tuple_items hSame
            hItems)

theorem Orders.trans
    {third : Value}
    {first second : Ordering}
    (hValue : heap.IsOrdinal n value)
    (hOther : heap.IsOrdinal n other)
    (hThird : heap.IsOrdinal n third)
    (hLess : heap.Orders symbol value other first)
    (hLess' : heap.Orders symbol other third second)
    (hBoth : heap.Orders symbol value third outcome)
    (hFirst : first = .lt)
    (hSecond : second = .lt) :
    outcome = .lt := by
  cases hLess with
  | integers hLeft hMiddle =>
      cases hLess' with
      | integers hMiddle' hRight =>
          cases hMiddle.symm.trans hMiddle'
          cases hBoth with
          | integers hLeft' hRight' =>
              cases hLeft.symm.trans hLeft'
              cases hRight.symm.trans hRight'
              exact Std.TransCmp.lt_trans hFirst hSecond
          | _ => cases hLeft
      | _ => cases hMiddle
  | strings a b =>
      cases hLess' with
      | integers hMiddle _ => cases hMiddle
      | strings b c =>
          cases hBoth with
          | integers hLeft _ => cases hLeft
          | strings a c => exact Std.TransCmp.lt_trans hFirst hSecond
  | lists hItems =>
      cases hLess' with
      | integers hMiddle _ => cases hMiddle
      | lists hItems' =>
          cases hBoth with
          | integers hLeft _ => cases hLeft
          | lists hItems'' =>
              rw [hFirst] at hItems
              rw [hSecond] at hItems'
              exact sequenceOrder_trans hOrder hEqual hValue.list_items
                hOther.list_items hThird.list_items hItems hItems' hItems''
  | tuples hItems =>
      cases hLess' with
      | integers hMiddle _ => cases hMiddle
      | tuples hItems' =>
          cases hBoth with
          | integers hLeft _ => cases hLeft
          | tuples hItems'' =>
              rw [hFirst] at hItems
              rw [hSecond] at hItems'
              exact sequenceOrder_trans hOrder hEqual hValue.tuple_items
                hOther.tuple_items hThird.tuple_items hItems hItems'
                hItems''

end Items

theorem ConsistentOn.below
    (hItems :
      ∀ m, n = m + 1 → heap.ConsistentOn symbol (heap.IsOrdinal m)) :
    heap.ConsistentOn symbol (heap.IsOrdinalBelow n) := by
  constructor
  · rintro x y outcome ⟨m, hDepth, hX⟩ ⟨_, rfl, hY⟩
    cases hDepth
    exact (hItems m rfl).swap hX hY
  · rintro x y ⟨m, hDepth, hX⟩ ⟨_, rfl, hY⟩
    cases hDepth
    exact (hItems m rfl).equal hX hY
  · rintro x x' y outcome ⟨m, hDepth, hX⟩ ⟨_, hDepth', hX'⟩ ⟨_, rfl, hY⟩
    cases hDepth
    cases hDepth'
    exact (hItems m rfl).congr hX hX' hY
  · rintro x y z outcome ⟨m, hDepth, hX⟩ ⟨_, hDepth', hY⟩ ⟨_, rfl, hZ⟩
    cases hDepth
    cases hDepth'
    exact (hItems m rfl).trans hX hY hZ

theorem equivalenceOn_ordinals
    (hDepth : n ≤ maxNesting) :
    heap.EquivalenceOn (heap.IsOrdinalBelow n) := by
  refine (heap.equivalenceOn_below hDepth).mono ?_
  rintro value ⟨m, hBelow, hOrdinal⟩
  exact ⟨m, hBelow, hOrdinal.isData⟩

/- The order of ordinal values fits their equality. -/
theorem consistentOn_ordinals
    (hDepth : n ≤ maxNesting) :
    heap.ConsistentOn symbol (heap.IsOrdinal n) := by
  induction n using Nat.strongRecOn with
  | ind n ih =>
      have hOrder : heap.ConsistentOn symbol (heap.IsOrdinalBelow n) :=
        .below fun m hBelow => ih m (by omega) (by omega)
      have hEqual := @equivalenceOn_ordinals heap n hDepth
      constructor
      · intro x y outcome hX hY hFound
        rw [hX.order_iff hY hDepth] at hFound
        rw [hY.order_iff hX hDepth]
        exact hFound.swap hOrder hEqual hX hY
      · intro x y hX hY hFound
        rw [hX.order_iff hY hDepth] at hFound
        exact (hX.isData.equal_iff hY.isData hDepth).mpr
          (hFound.equates hOrder hX hY rfl)
      · intro x x' y outcome hX hX' hY hSame hUnequal hFound
        rw [hX.order_iff hY hDepth] at hFound
        rw [hX'.order_iff hY hDepth]
        exact hFound.of_equates hOrder hEqual hX hX' hY
          ((hX.isData.equal_iff hX'.isData hDepth).mp hSame) hUnequal
      · intro x y z outcome hX hY hZ hFirst hSecond hThird
        rw [hX.order_iff hY hDepth] at hFirst
        rw [hY.order_iff hZ hDepth] at hSecond
        rw [hX.order_iff hZ hDepth] at hThird
        exact hFirst.trans hOrder hEqual hX hY hZ hSecond hThird rfl rfl

theorem consistentOn_below
    (hDepth : n ≤ maxNesting) :
    heap.ConsistentOn symbol (heap.IsOrdinalBelow n) :=
  .below fun _ hBelow => consistentOn_ordinals (by omega)

------------------------------------------------------------
-- Symbols
------------------------------------------------------------

/- Sequences keep an order when their items do. -/
theorem sequenceOrder_imp
    {first second : Value → Value → Except EvalError Ordering}
    {left right : List Value}
    (hItems :
      ∀ a ∈ left, ∀ b ∈ right, ∀ outcome,
        first a b = .ok outcome → second a b = .ok outcome)
    (hSequence : heap.sequenceOrder first left right = .ok outcome) :
    heap.sequenceOrder second left right = .ok outcome := by
  induction left generalizing right with
  | nil => cases right <;> exact hSequence
  | cons a left ih =>
      cases right with
      | nil => exact hSequence
      | cons b right =>
          rw [sequenceOrder] at hSequence ⊢
          split
          · rw [if_pos ‹_›] at hSequence
            exact ih (fun x hX y hY =>
              hItems x (List.mem_cons_of_mem _ hX) y
                (List.mem_cons_of_mem _ hY)) hSequence
          · rw [if_neg ‹_›] at hSequence
            exact hItems a List.mem_cons_self b List.mem_cons_self outcome
              hSequence

/- Only the report of a missing order depends on the symbol. -/
theorem IsOrdinal.order_symbol
    {symbol' : String}
    (hValue : heap.IsOrdinal n value)
    (hOther : heap.IsOrdinal n other)
    (hDepth : n ≤ maxNesting)
    (hOrder : heap.order symbol value other = .ok outcome) :
    heap.order symbol' value other = .ok outcome := by
  induction n using Nat.strongRecOn generalizing value other outcome with
  | ind n ih =>
      have hItems
          {xs ys : List Value}
          (hXs : ∀ x ∈ xs, heap.IsOrdinalBelow n x)
          (hYs : ∀ y ∈ ys, heap.IsOrdinalBelow n y) :
          ∀ x ∈ xs, ∀ y ∈ ys, ∀ outcome,
            heap.order symbol x y = .ok outcome →
              heap.order symbol' x y = .ok outcome := by
        intro x hX y hY outcome hFound
        obtain ⟨m, rfl, hItem⟩ := hXs x hX
        obtain ⟨_, hSame, hItem'⟩ := hYs y hY
        cases hSame
        exact ih m (by omega) hItem hItem' (by omega) hFound
      rw [hValue.order_iff hOther hDepth] at hOrder ⊢
      cases hOrder with
      | integers hLeft hRight => exact .integers hLeft hRight
      | strings a b => exact .strings a b
      | lists hSequence =>
          exact .lists (sequenceOrder_imp
            (hItems hValue.list_items hOther.list_items) hSequence)
      | tuples hSequence =>
          exact .tuples (sequenceOrder_imp
            (hItems hValue.tuple_items hOther.tuple_items) hSequence)

end Values

end Heap

------------------------------------------------------------
-- Comparisons
------------------------------------------------------------

/- Two integers that are not the same, and have the same nearest float. -/
def Value.Merged (left right : Value) : Prop :=
  ∃ i j,
    Numeral.of? left = some (.int i) ∧
      Numeral.of? right = some (.int j) ∧
        i ≠ j ∧ (Number.wordToFloat i == Number.wordToFloat j) = true

namespace Heap

section Comparisons

variable {heap : Heap}
variable {symbol : String}
variable {n : Nat}
variable {left right : Value}
variable {outcome : Ordering}

/- Values are ordered as equal if they are equal and not merged. -/
theorem IsOrdinal.eq_iff
    (hLeft : heap.IsOrdinal n left)
    (hRight : heap.IsOrdinal n right)
    (hDepth : n ≤ maxNesting)
    (hOrder : heap.order symbol left right = .ok outcome) :
    outcome = .eq ↔ heap.Equal left right ∧ ¬left.Merged right := by
  constructor
  · rintro rfl
    refine ⟨(consistentOn_ordinals hDepth).equal hLeft hRight hOrder, ?_⟩
    rintro ⟨i, j, hFirst, hSecond, hDiffer, -⟩
    have hSame := (order_of_integers hFirst hSecond).symm.trans hOrder
    exact hDiffer (Std.LawfulEqCmp.eq_of_compare (Except.ok.inj hSame))
  · rintro ⟨hEqual, hApart⟩
    have hEquates := (hLeft.isData.equal_iff hRight.isData hDepth).mp hEqual
    have hOrders := (hLeft.order_iff hRight hDepth).mp hOrder
    cases hOrders with
    | @integers _ _ i j hFirst hSecond =>
        by_contra hOutcome
        refine hApart ⟨i, j, hFirst, hSecond, ?_, ?_⟩
        · rintro rfl
          exact hOutcome Std.ReflCmp.compare_self
        · exact (equal_of_numbers (number?_of_integer hFirst)
            (number?_of_integer hSecond)).symm.trans hEqual
    | strings a b =>
        cases hEquates with
        | str a => exact Std.ReflCmp.compare_self
        | number hNumber _ _ => cases hNumber
    | lists hItems =>
        cases hEquates with
        | number hNumber _ _ => cases hNumber
        | list hSame =>
            rw [← sequenceOrder_eq_iff (consistentOn_below hDepth)
              hLeft.list_items hRight.list_items] at hSame
            exact Except.ok.inj (hItems.symm.trans hSame)
    | tuples hItems =>
        cases hEquates with
        | number hNumber _ _ => cases hNumber
        | tuple hSame =>
            rw [← sequenceOrder_eq_iff (consistentOn_below hDepth)
              hLeft.tuple_items hRight.tuple_items] at hSame
            exact Except.ok.inj (hItems.symm.trans hSame)

/- Values that have an order are ordered by it, and nothing changes. -/
theorem IsOrdinal.ordered_eq
    {interpreter : Interpreter}
    (hLeft : heap.IsOrdinal n left)
    (hRight : heap.IsOrdinal n right)
    (hDepth : n ≤ maxNesting)
    (hHeap : interpreter.store.heap = heap)
    (hOrder : heap.order symbol left right = .ok outcome)
    (expected : Ordering → Bool) :
    Eval.ordered symbol expected left right interpreter =
      .ok (expected outcome) interpreter := by
  subst hHeap
  have hOrders := (hLeft.order_iff hRight hDepth).mp hOrder
  have hFound :
      Eval.order symbol left right interpreter = .ok outcome interpreter := by
    change Eval.ofExcept (interpreter.store.heap.order symbol left right)
      interpreter = _
    rw [hOrder]
    rfl
  have hDecided :
      (do return expected (← Eval.order symbol left right) : Eval Bool)
          interpreter =
        .ok (expected outcome) interpreter := by
    change EStateM.bind _ _ interpreter = _
    rw [EStateM.bind, hFound]
    rfl
  cases hOrders with
  | integers hFirst hSecond =>
      rw [Eval.ordered, hFirst, hSecond]
      rfl
  | strings a b => exact hDecided
  | lists hItems => exact hDecided
  | tuples hItems => exact hDecided

/- Integers that are merged are equal. -/
theorem equal_of_merged
    (hMerged : left.Merged right) :
    heap.equal left right = true := by
  obtain ⟨i, j, hFirst, hSecond, -, hSame⟩ := hMerged
  exact (equal_of_numbers (number?_of_integer hFirst)
    (number?_of_integer hSecond)).trans hSame

/- How many of the comparisons less, equal and greater hold. -/
theorem IsOrdinal.count_eq
    (hLeft : heap.IsOrdinal n left)
    (hRight : heap.IsOrdinal n right)
    (hDepth : n ≤ maxNesting)
    (hOrder : heap.order symbol left right = .ok outcome) :
    (¬left.Merged right →
        [outcome.isLT, heap.equal left right, outcome.isGT].count true = 1) ∧
      (left.Merged right →
        [outcome.isLT, heap.equal left right, outcome.isGT].count true = 2) := by
  have hEq := hLeft.eq_iff hRight hDepth hOrder
  constructor
  · intro hApart
    have hSame : outcome = .eq ↔ heap.equal left right = true :=
      hEq.trans (and_iff_left hApart)
    cases outcome with
    | eq =>
        rw [hSame.mp rfl]
        rfl
    | lt | gt =>
        rw [Bool.eq_false_iff.mpr fun hEqual => nomatch hSame.mpr hEqual]
        rfl
  · intro hMerged
    rw [equal_of_merged hMerged]
    cases outcome with
    | eq => exact ((hEq.mp rfl).2 hMerged).elim
    | lt | gt => rfl

/-
  For integers, truth values, strings and sequences of them that
  have an order: it is that of equal values exactly if they are
  equal and not merged, it is reversed for the values reversed,
  and what is less than something less is less. So exactly one
  of the comparisons holds, unless two integers are merged,
  which are equal and in order too.
-/
theorem order_consistent
    (hLeft : heap.IsOrdinal maxNesting left)
    (hRight : heap.IsOrdinal maxNesting right)
    (hOrder : heap.order symbol left right = .ok outcome) :
    (outcome = .eq ↔ heap.equal left right = true ∧ ¬left.Merged right) ∧
      heap.order symbol right left = .ok outcome.swap ∧
      (∀ third after,
        heap.IsOrdinal maxNesting third →
          outcome = .lt →
            heap.order symbol right third = .ok .lt →
              heap.order symbol left third = .ok after → after = .lt) ∧
      ∀ interpreter : Interpreter,
        interpreter.store.heap = heap →
          ∃ less equal greater,
            Eval.compareBy .less left right interpreter =
                .ok less interpreter ∧
              Eval.compareBy .eq left right interpreter =
                .ok equal interpreter ∧
              Eval.compareBy .greater left right interpreter =
                .ok greater interpreter ∧
              (¬left.Merged right → [less, equal, greater].count true = 1) ∧
              (left.Merged right → [less, equal, greater].count true = 2) := by
  have hConsistent := @consistentOn_ordinals heap symbol _ le_rfl
  refine ⟨hLeft.eq_iff hRight le_rfl hOrder,
    hConsistent.swap hLeft hRight hOrder, ?_, ?_⟩
  · rintro third after hThird rfl hSecond hBoth
    exact hConsistent.trans hLeft hRight hThird hOrder hSecond hBoth
  · intro interpreter hHeap
    have hSymbol (op : CompareOp) :
        heap.order op.symbol left right = .ok outcome :=
      hLeft.order_symbol hRight le_rfl hOrder
    refine ⟨outcome.isLT, heap.equal left right, outcome.isGT, ?_, ?_, ?_,
      hLeft.count_eq hRight le_rfl hOrder⟩
    · exact hLeft.ordered_eq hRight le_rfl hHeap (hSymbol .less) (·.isLT)
    · subst hHeap
      rfl
    · exact hLeft.ordered_eq hRight le_rfl hHeap (hSymbol .greater) (·.isGT)

/- Two lists whose first items are equal are ordered by their second ones. -/
theorem order_consistent_lists :
    let heap : Heap :=
      { lists := #[#[.int 1, .str "a"], #[.bool true, .str "b"]] }
    heap.IsOrdinal maxNesting (.list 0) ∧
      heap.IsOrdinal maxNesting (.list 1) ∧
      heap.order "<" (.list 0) (.list 1) = .ok .lt ∧
      heap.order "<" (.list 1) (.list 0) = .ok .gt := by
  intro heap
  have hItem : heap.equal (.int 1) (.bool true) = true := by decide
  have hLeft : heap.IsOrdinal maxNesting (.list 0) := by
    refine .list fun item hMem => ?_
    rcases List.mem_pair.mp hMem with rfl | rfl
    · exact .int rfl
    · exact .str _
  have hRight : heap.IsOrdinal maxNesting (.list 1) := by
    refine .list fun item hMem => ?_
    rcases List.mem_pair.mp hMem with rfl | rfl
    · exact .bool _
    · exact .str _
  have hOrder : heap.order "<" (.list 0) (.list 1) = .ok .lt := by
    rw [hLeft.order_list hRight le_rfl]
    change heap.sequenceOrder _ [.int 1, .str "a"] [.bool true, .str "b"] = _
    rw [sequenceOrder, if_pos hItem]
    decide
  exact ⟨hLeft, hRight, hOrder, (order_consistent hLeft hRight hOrder).2.1⟩

/-
  Two integers beyond 53 bits are equal although one of them is
  less than the other.
-/
theorem order_disagrees_with_equality :
    ¬∀ (heap : Heap) (left right : Value) (outcome : Ordering),
      heap.IsOrdinal maxNesting left →
        heap.IsOrdinal maxNesting right →
          heap.order "<" left right = .ok outcome →
            (outcome = .eq ↔ heap.equal left right = true) := by
  intro hClaim
  have hOrder :
      ({} : Heap).order "<" (.int 9007199254740992) (.int 9007199254740993) =
        .ok .lt := rfl
  have hEqual :
      ({} : Heap).equal (.int 9007199254740992) (.int 9007199254740993) =
        true := by
    decide
  cases (hClaim {} _ _ _ (.int rfl) (.int rfl) hOrder).mpr hEqual

end Comparisons

end Heap

end SnippetGrader
