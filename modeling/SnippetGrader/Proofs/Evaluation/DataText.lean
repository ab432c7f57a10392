import SnippetGrader.Proofs.Evaluation.Data
import SnippetGrader.Proofs.Parsing.RoundTrip

/-
  The text of plain data.

  Data is shown as an expression is written. Numbers with a sign
  are written with an operator and the empty set as a call, and
  everything else as a literal or a display. Nothing is left out
  unless it is nested too deeply, so the text of a value is read
  as the expression of its data.

  Key definitions include:
    * `Datum.expr`

  Key theorems include:
    * `Heap.Holds.legible`
    * `Heap.Holds.writtenAs_reprTo`
    * `Heap.Holds.parseSource_repr`
-/

namespace SnippetGrader

------------------------------------------------------------
-- Expressions of Data
------------------------------------------------------------

namespace Datum

mutual

/- The expression that data is written as. -/
def expr : Datum → Expr
  | .none => .synthetic .none
  | .bool value => .synthetic (.bool value)
  | .int value =>
      if value < 0 then .synthetic (.unary .neg (.synthetic (.int (-value))))
      else .synthetic (.int value)
  | .float value =>
      if Number.isNegative value then
        .synthetic (.unary .neg (.synthetic (.float (-value))))
      else .synthetic (.float value)
  | .str value => .synthetic (.str value)
  | .list items => .synthetic (.list (itemExprs items))
  | .tuple items => .synthetic (.tuple (itemExprs items))
  | .dict entries => .synthetic (.dict (entryExprs entries))
  | .set [] => .synthetic (.call (.synthetic (.name "set")) [] [])
  | .set (first :: rest) =>
      .synthetic (.set (first.expr :: itemExprs rest))

/- The expressions of items. -/
def itemExprs : List Datum → List Expr
  | [] => []
  | item :: rest => item.expr :: itemExprs rest

/- The expressions of entries. -/
def entryExprs : List (Datum × Datum) → List (Expr × Expr)
  | [] => []
  | (key, value) :: rest => (key.expr, value.expr) :: entryExprs rest

end

theorem itemExprs_eq_map
    (items : List Datum) :
    itemExprs items = items.map expr := by
  induction items with
  | nil => rfl
  | cons item rest ih => rw [itemExprs, ih, List.map_cons]

theorem entryExprs_eq_map
    (entries : List (Datum × Datum)) :
    entryExprs entries =
      entries.map fun entry => (entry.1.expr, entry.2.expr) := by
  induction entries with
  | nil => rfl
  | cons entry rest ih => rw [entryExprs, ih, List.map_cons]

/- The expression of data has no star and no colons. -/
theorem isStarred_and_isSlice_expr
    (datum : Datum) :
    datum.expr.isStarred = false ∧ datum.expr.isSlice = false := by
  cases datum with
  | int value | float value =>
      rw [expr]
      split <;> exact ⟨rfl, rfl⟩
  | set items => cases items <;> exact ⟨rfl, rfl⟩
  | _ => exact ⟨rfl, rfl⟩

/- So it may stand wherever an expression may. -/
theorem isPlain_expr
    (datum : Datum) :
    datum.expr.IsPlain := by
  refine ⟨datum.isStarred_and_isSlice_expr.1, ?_⟩
  cases datum with
  | int value | float value =>
      rw [expr]
      split <;> rfl
  | set items => cases items <;> rfl
  | tuple items =>
      refine List.any_eq_false.mpr fun item hMem => ?_
      rw [itemExprs_eq_map] at hMem
      obtain ⟨part, -, rfl⟩ := List.mem_map.mp hMem
      rw [part.isStarred_and_isSlice_expr.2]
      exact Bool.false_ne_true
  | _ => rfl

end Datum

------------------------------------------------------------
-- Nesting
------------------------------------------------------------

namespace Expr

theorem itemsNesting_le
    {items : List Expr}
    {n : Nat}
    (hItems : ∀ item ∈ items, 1 + item.nestingAt 0 ≤ n) :
    itemsNesting items ≤ n := by
  induction items with
  | nil => exact Nat.zero_le n
  | cons item rest ih =>
      rw [List.forall_mem_cons] at hItems
      obtain ⟨span, form⟩ := item
      have hHere := hItems.1
      have hDepth : form.itemDepth ≤ 1 := by
        cases form <;> first | exact Nat.le_refl 1 | exact Nat.zero_le 1
      rw [nestingAt, if_neg (Nat.not_lt_zero _)] at hHere
      rw [itemsNesting]
      exact max_le (by omega) (ih hItems.2)

theorem entriesNesting_le
    {entries : List (Expr × Expr)}
    {n : Nat}
    (hEntries :
      ∀ entry ∈ entries,
        1 + entry.1.nestingAt 0 ≤ n ∧ 1 + entry.2.nestingAt 0 ≤ n) :
    entriesNesting entries ≤ n := by
  induction entries with
  | nil => exact Nat.zero_le n
  | cons entry rest ih =>
      rw [List.forall_mem_cons] at hEntries
      rw [entriesNesting]
      exact max_le (max_le hEntries.1.1 hEntries.1.2) (ih hEntries.2)

end Expr

namespace Datum

/-
  The expression of data nests no deeper than the data, and one
  level more for the sign of a number.
-/
theorem nestingAt_expr_le
    (datum : Datum) :
    datum.expr.nestingAt 0 ≤ datum.depth + 1 := by
  induction datum using induct with
  | step datum ih =>
      have hParts :
          ∀ part ∈ datum.parts,
            1 + part.expr.nestingAt 0 ≤ datum.depth + 1 := by
        intro part hMem
        have hPart := ih part hMem
        have hDepth := depth_lt hMem
        omega
      have hItems {items : List Datum} (hItems : items ⊆ datum.parts) :
          Expr.itemsNesting (items.map expr) ≤ datum.depth + 1 := by
        refine Expr.itemsNesting_le fun item hMem => ?_
        obtain ⟨part, hPart, rfl⟩ := List.mem_map.mp hMem
        exact hParts part (hItems hPart)
      cases datum with
      | none | bool _ | str _ => exact Nat.zero_le _
      | int value | float value =>
          rw [expr]
          split
          · exact Nat.le_refl 1
          · exact Nat.zero_le _
      | list items =>
          rw [expr, itemExprs_eq_map]
          exact (Nat.zero_add _).trans_le (hItems (List.Subset.refl _))
      | tuple items =>
          rw [expr, itemExprs_eq_map]
          exact (Nat.zero_add _).trans_le (hItems (List.Subset.refl _))
      | set items =>
          cases items with
          | nil => exact Nat.zero_le _
          | cons first rest =>
              rw [expr, itemExprs_eq_map]
              exact (Nat.zero_add _).trans_le (hItems (List.Subset.refl _))
      | dict entries =>
          rw [expr, entryExprs_eq_map]
          refine (Nat.zero_add _).trans_le
            (Expr.entriesNesting_le fun entry hMem => ?_)
          obtain ⟨found, hFound, rfl⟩ := List.mem_map.mp hMem
          obtain ⟨hKey, hValue⟩ := mem_parts_dict hFound
          exact ⟨hParts found.1 hKey, hParts found.2 hValue⟩

end Datum

------------------------------------------------------------
-- Legibility
------------------------------------------------------------

namespace Heap

variable {heap : Heap}
variable {value : Value}
variable {datum : Datum}

/- What a value holds is written as it is read. -/
theorem Holds.legible
    (hHolds : heap.Holds value datum) :
    datum.expr.Legible := by
  induction datum using Datum.induct generalizing value with
  | step datum ih =>
      have hParts : ∀ part ∈ datum.parts, part.expr.Legible := by
        intro part hMem
        obtain ⟨inner, hInner⟩ := hHolds.of_mem_parts hMem
        exact ih part hMem hInner
      have hItems {items : List Datum} (hSubset : items ⊆ datum.parts) :
          ∀ item ∈ items.map Datum.expr, item.IsItem ∧ item.Legible := by
        intro item hMem
        obtain ⟨part, hPart, rfl⟩ := List.mem_map.mp hMem
        exact ⟨part.isPlain_expr.complete, hParts part (hSubset hPart)⟩
      cases hHolds with
      | none | bool _ | str _ => exact .intro trivial nofun
      | @int value hRange =>
          have hWord {n : Int} (hLeast : 0 ≤ n) (hMost : n ≤ Number.wordMax) :
              (Expr.synthetic (.int n)).Legible := by
            have hMin : Number.wordMin ≤ n := le_trans (by decide) hLeast
            refine .intro ⟨hLeast, ?_⟩ nofun
            exact (Number.inWord_iff n).mpr ⟨hMin, hMost⟩
          have hBounds : Number.wordMin = -Number.wordMax - 1 := rfl
          rw [Datum.expr]
          split
          · exact .intro ⟨rfl, rfl⟩
              (List.forall_mem_singleton.mpr (hWord (by omega) (by omega)))
          · exact hWord (by omega) hRange.2
      | @float value hFinite =>
          rw [Datum.expr]
          split
          · rename_i hNegative
            refine .intro ⟨rfl, rfl⟩ (List.forall_mem_singleton.mpr ?_)
            exact .intro (Number.finite_neg hFinite hNegative) nofun
          · rename_i hSign
            rw [Bool.not_eq_true] at hSign
            exact .intro ⟨⟨hFinite.number, hSign⟩, hFinite.bounded⟩ nofun
      | list hAddress hHeld =>
          rw [Datum.expr, Datum.itemExprs_eq_map]
          have hAll := hItems (List.Subset.refl _)
          exact .intro (fun item hMem => (hAll item hMem).1)
            fun item hMem => (hAll item hMem).2
      | tuple hAddress hHeld =>
          rw [Datum.expr, Datum.itemExprs_eq_map]
          have hAll := hItems (List.Subset.refl _)
          exact .intro (fun item hMem => .inr (hAll item hMem).1)
            fun item hMem => (hAll item hMem).2
      | @set _ items hAddress hHeld hDistinct =>
          have hAll := hItems (List.Subset.refl _)
          cases items with
          | nil =>
              have hName : (Expr.synthetic (.name "set")).Legible :=
                .intro (by decide : IsName "set") nofun
              exact .intro ⟨⟨rfl, rfl⟩, nofun, nofun, nofun, .nil⟩
                (List.forall_mem_singleton.mpr hName)
          | cons first rest =>
              rw [Datum.expr, Datum.itemExprs_eq_map]
              exact .intro
                ⟨List.cons_ne_nil _ _, fun item hMem => (hAll item hMem).1⟩
                fun item hMem => (hAll item hMem).2
      | @dict _ entries hAddress hKeys hValues hDistinct =>
          rw [Datum.expr, Datum.entryExprs_eq_map]
          refine .intro (fun entry hMem => ?_) fun item hMem => ?_
          · obtain ⟨found, -, rfl⟩ := List.mem_map.mp hMem
            exact ⟨found.1.isPlain_expr, found.2.isPlain_expr⟩
          · obtain ⟨entry, hEntry, hItem⟩ := List.mem_flatMap.mp hMem
            obtain ⟨found, hFound, rfl⟩ := List.mem_map.mp hEntry
            obtain ⟨hKey, hValue⟩ := Datum.mem_parts_dict hFound
            rcases List.mem_cons.mp hItem with rfl | hItem
            · exact hParts found.1 hKey
            · obtain rfl := List.mem_singleton.mp hItem
              exact hParts found.2 hValue

end Heap

------------------------------------------------------------
-- Shown Values
------------------------------------------------------------

/- An open container as a value. -/
def OpenContainer.value : OpenContainer → Value
  | .list address => .list address
  | .tuple address => .tuple address
  | .dict address => .dict address
  | .set address => .set address

namespace Heap

variable {heap : Heap}
variable {value : Value}
variable {datum : Datum}
variable {n : Nat}
variable {opened : List OpenContainer}

/- Containers around a value, which all hold data that is nested deeper. -/
def Surround
    (heap : Heap)
    (opened : List OpenContainer)
    (datum : Datum) :
    Prop :=
  ∀ container ∈ opened,
    ∃ outer,
      heap.Holds container.value outer ∧ datum.depth < outer.depth

/- A container is not inside itself. -/
theorem Surround.not_contains
    (hOpened : heap.Surround opened datum)
    (container : OpenContainer)
    (hHolds : heap.Holds container.value datum) :
    opened.contains container = false := by
  rw [Bool.eq_false_iff]
  intro hContains
  obtain ⟨outer, hOuter, hDeeper⟩ :=
    hOpened container (List.contains_iff_mem.mp hContains)
  rw [hHolds.datum_unique hOuter] at hDeeper
  exact lt_irrefl _ hDeeper

/- What surrounds a container surrounds its parts, and so does the container. -/
theorem Surround.part
    (hOpened : heap.Surround opened datum)
    {container : OpenContainer}
    (hHolds : heap.Holds container.value datum)
    {part : Datum}
    (hPart : part ∈ datum.parts) :
    heap.Surround (container :: opened) part := by
  have hLess := Datum.depth_lt hPart
  refine List.forall_mem_cons.mpr ⟨⟨datum, hHolds, hLess⟩, ?_⟩
  intro other hMem
  obtain ⟨outer, hOuter, hDeeper⟩ := hOpened other hMem
  exact ⟨outer, hOuter, hLess.trans hDeeper⟩

/- How a constant is shown does not depend on what is around it. -/
theorem exists_reprTo_eq
    (heap : Heap)
    (n : Nat)
    (opened : List OpenContainer) :
    ∃ contents, heap.reprTo n opened = heap.reprBy contents := by
  cases n with
  | zero => exact ⟨_, rfl⟩
  | succ n => exact ⟨_, rfl⟩

section OpenedContainers

variable {address : Nat}

/- The text of a container depends on how its own contents are written. -/
theorem reprBy_congr
    {contents other : OpenContainer → Option (Value → String)}
    {container : OpenContainer}
    (hSame : contents container = other container) :
    heap.reprBy contents container.value =
      heap.reprBy other container.value := by
  cases container <;>
    · dsimp only [OpenContainer.value]
      unfold reprBy
      rw [hSame]

/- A container is written with its contents unless it is inside itself. -/
theorem reprTo_of_closed
    {container : OpenContainer}
    (hClosed : opened.contains container = false) :
    heap.reprTo (n + 1) opened container.value =
      heap.reprBy (fun _ => some (heap.reprTo n (container :: opened)))
        container.value :=
  reprBy_congr (if_neg (Bool.eq_false_iff.mp hClosed))

theorem reprTo_list
    (hClosed : opened.contains (.list address) = false) :
    heap.reprTo (n + 1) opened (.list address) =
      "[" ++
          itemsText (heap.reprTo n (.list address :: opened))
            (heap.list address) ++
        "]" :=
  reprTo_of_closed hClosed

theorem reprTo_tuple
    (hClosed : opened.contains (.tuple address) = false) :
    heap.reprTo (n + 1) opened (.tuple address) =
      "(" ++
          itemsText (heap.reprTo n (.tuple address :: opened))
            (heap.tuple address) ++
        if (heap.tuple address).size = 1 then ",)" else ")" :=
  reprTo_of_closed hClosed

theorem reprTo_dict
    (hClosed : opened.contains (.dict address) = false) :
    heap.reprTo (n + 1) opened (.dict address) =
      "\x7b" ++
          entriesText (heap.reprTo n (.dict address :: opened))
            (heap.dict address) ++
        "\x7d" :=
  reprTo_of_closed hClosed

theorem reprTo_set
    (hClosed : opened.contains (.set address) = false) :
    heap.reprTo (n + 1) opened (.set address) =
      if (heap.set address).isEmpty then "set()"
      else
        "\x7b" ++
            itemsText (heap.reprTo n (.set address :: opened))
              (heap.set address) ++
          "\x7d" :=
  reprTo_of_closed hClosed

end OpenedContainers

/- A sign and a number that is written without one. -/
theorem writtenAs_neg
    {kind : TokenKind} :
    WrittenAs [.token (.mark .minus), .token kind] ("-" ++ kind.spelling) :=
  .token (.spelling (.mark .minus)) (.ofToken (.spelling kind))

theorem toString_of_neg
    {value : Int}
    (hNegative : value < 0) :
    toString value = "-" ++ toString (-value) := by
  obtain ⟨n, rfl⟩ := Int.eq_negSucc_of_lt_zero hNegative
  rfl

section Displays

variable {items : List Datum}
variable {values : Array Value}
variable {shown : Value → String}

/- How the items of a container are shown. -/
def Shows (shown : Value → String) (item : Datum) (inner : Value) : Prop :=
  WrittenAs (item.expr.lexemesAt 0) (shown inner)

theorem writtenAs_itemsText
    (hShown :
      List.Forall₂ (fun inner item => Shows shown item inner) values.toList
        items) :
    WrittenAs (commaSeparated (Expr.lexemesAll 0 (Datum.itemExprs items)))
      (itemsText shown values) := by
  refine .commaSeparated ?_
  rw [Datum.itemExprs_eq_map, Expr.lexemesAll_eq_map, List.map_map,
    List.forall₂_map_left_iff, List.forall₂_map_right_iff]
  exact hShown.flip

theorem writtenAs_entriesText
    {entries : List (Datum × Datum)}
    {pairs : Array (Value × Value)}
    (hShown :
      List.Forall₂
        (fun pair entry =>
          Shows shown entry.1 pair.1 ∧ Shows shown entry.2 pair.2)
        pairs.toList entries) :
    WrittenAs (commaSeparated (Expr.entryLexemes (Datum.entryExprs entries)))
      (entriesText shown pairs) := by
  refine .commaSeparated ?_
  rw [Datum.entryExprs_eq_map, Expr.entryLexemes_eq_map, List.map_map,
    List.forall₂_map_left_iff, List.forall₂_map_right_iff]
  refine hShown.flip.imp fun entry pair hPair => ?_
  have hColon :
      WrittenAs [.token (.mark .colon), .space] ": " :=
    writtenAs_spelled [.token (.mark .colon), .space]
  have hWritten := (WrittenAs.append hPair.1 hColon).append hPair.2
  rw [List.append_assoc] at hWritten
  exact hWritten

/- A tuple of one item has a comma after it. -/
theorem writtenAs_tuple
    (hShown :
      List.Forall₂ (fun inner item => Shows shown item inner) values.toList
        items) :
    WrittenAs ((Datum.tuple items).expr.lexemesAt 0)
      ("(" ++ itemsText shown values ++
        if values.size = 1 then ",)" else ")") := by
  have hItems := writtenAs_itemsText hShown
  have hSize : values.size = items.length := by
    rw [← Array.length_toList, hShown.length_eq]
  rw [hSize]
  rcases items with _ | ⟨first, _ | ⟨second, later⟩⟩
  · exact .enclosed .openParen .closeParen hItems
  · have hComma := hItems.append (.ofToken (.spelling (.mark .comma)))
    have hText := WrittenAs.enclosed .openParen .closeParen hComma
    have hLexemes :
        commaSeparated (Expr.lexemesAll 0 (Datum.itemExprs [first])) =
          first.expr.lexemesAt 0 :=
      List.intercalate_singleton
    have hEnd : "," ++ ")" = ",)" := rfl
    rw [hLexemes] at hText
    rw [List.length_singleton, if_pos rfl, ← hEnd, ← String.append_assoc]
    rw [← String.append_assoc] at hText
    exact hText
  · exact .enclosed .openParen .closeParen hItems

/- A set without items is written as a call. -/
theorem writtenAs_set
    (hShown :
      List.Forall₂ (fun inner item => Shows shown item inner) values.toList
        items) :
    WrittenAs ((Datum.set items).expr.lexemesAt 0)
      (if values.isEmpty then "set()"
      else "\x7b" ++ itemsText shown values ++ "\x7d") := by
  have hItems := writtenAs_itemsText hShown
  have hEmpty : values.isEmpty = items.isEmpty := by
    rw [← Array.isEmpty_toList]
    generalize values.toList = inner at hShown
    cases hShown <;> rfl
  rw [hEmpty]
  cases items with
  | nil =>
      exact writtenAs_spelled
        [.token (.name "set"), .token (.mark .openParen),
          .token (.mark .closeParen)]
  | cons first rest => exact .enclosed .openBrace .closeBrace hItems

end Displays

/- Data that is not nested too deeply is shown as it is written. -/
theorem Holds.writtenAs_reprTo
    (hHolds : heap.Holds value datum)
    (hDepth : datum.depth ≤ n)
    (hOpened : heap.Surround opened datum) :
    WrittenAs (datum.expr.lexemesAt 0) (heap.reprTo n opened value) := by
  induction datum using Datum.induct generalizing value n opened with
  | step datum ih =>
      have hItems
          {m : Nat}
          (hSucc : n = m + 1)
          (container : OpenContainer)
          (hContainer : heap.Holds container.value datum)
          {values : List Value}
          {items : List Datum}
          (hSubset : items ⊆ datum.parts)
          (hHeld : List.Forall₂ heap.Holds values items) :
          List.Forall₂
            (fun inner item =>
              Shows (heap.reprTo m (container :: opened)) item inner)
            values items :=
        forall₂_imp hHeld fun inner item hMem hInner =>
          ih item (hSubset hMem) hInner
            (Datum.depth_part_le (hSucc ▸ hDepth) (hSubset hMem))
            (hOpened.part hContainer (hSubset hMem))
      obtain ⟨contents, hContents⟩ := heap.exists_reprTo_eq n opened
      have hHeld := hHolds
      cases hHolds with
      | none =>
          rw [hContents]
          exact .ofToken (.spelling (.keyword .noneWord))
      | bool value =>
          rw [hContents]
          cases value with
          | true => exact .ofToken (.spelling (.keyword .trueWord))
          | false => exact .ofToken (.spelling (.keyword .falseWord))
      | @int value hRange =>
          rw [hContents, Datum.expr]
          split
          · rename_i hNegative
            change WrittenAs _ (toString value)
            rw [toString_of_neg hNegative]
            exact writtenAs_neg
          · exact .ofToken (.spelling (.int value))
      | @float value hFinite =>
          rw [hContents, Datum.expr]
          split
          · rename_i hNegative
            change WrittenAs _ (Number.valueText value)
            rw [Number.valueText_of_negative hFinite hNegative]
            exact writtenAs_neg
          · exact .ofToken (.spelling (.float value))
      | str value =>
          rw [hContents]
          change WrittenAs [.token (.str value)] (Text.quoted value)
          unfold Text.quoted
          dsimp only
          split
          · exact .ofToken (.quoted (.inl rfl) value)
          · exact .ofToken (.quoted (.inr rfl) value)
      | @list address items hAddress hValues =>
          obtain ⟨m, rfl⟩ := Datum.exists_succ rfl hDepth
          rw [reprTo_list (hOpened.not_contains (.list address) hHeld)]
          exact .enclosed .openBracket .closeBracket
            (writtenAs_itemsText
              (hItems rfl (.list address) hHeld (List.Subset.refl _) hValues))
      | @tuple address items hAddress hValues =>
          obtain ⟨m, rfl⟩ := Datum.exists_succ rfl hDepth
          rw [reprTo_tuple (hOpened.not_contains (.tuple address) hHeld)]
          exact writtenAs_tuple
            (hItems rfl (.tuple address) hHeld (List.Subset.refl _) hValues)
      | @set address items hAddress hValues hDistinct =>
          obtain ⟨m, rfl⟩ := Datum.exists_succ rfl hDepth
          rw [reprTo_set (hOpened.not_contains (.set address) hHeld)]
          exact writtenAs_set
            (hItems rfl (.set address) hHeld (List.Subset.refl _) hValues)
      | @dict address entries hAddress hKeys hValues hDistinct =>
          obtain ⟨m, rfl⟩ := Datum.exists_succ rfl hDepth
          rw [reprTo_dict (hOpened.not_contains (.dict address) hHeld)]
          refine .enclosed .openBrace .closeBrace (writtenAs_entriesText ?_)
          exact forall₂_pairs
            (hItems rfl (.dict address) hHeld (List.subset_append_left _ _)
              hKeys)
            (hItems rfl (.dict address) hHeld (List.subset_append_right _ _)
              hValues)

/- The text of a value is read as the expression of its data. -/
theorem Holds.parseSource_repr
    (hHolds : heap.Holds value datum)
    (hDepth : datum.depth + 2 ≤ maxExprDepth)
    (name : String) :
    ∃ program,
      parseSource name (heap.repr value) = .ok program ∧
        program.body.map Stmt.erased =
          [(Stmt.mk .synthetic (.expr datum.expr)).erased] := by
  have hNesting : datum.expr.nesting ≤ maxExprDepth := by
    have hLess := datum.nestingAt_expr_le
    rw [Expr.nesting]
    omega
  have hShown : datum.depth ≤ maxNesting :=
    le_trans (by omega) (show maxExprDepth ≤ maxNesting by decide)
  exact hHolds.legible.parseSource_written datum.isPlain_expr
    (hHolds.writtenAs_reprTo hShown (List.forall_mem_nil _)) hNesting name

end Heap

end SnippetGrader
