import SnippetGrader.Evaluation.Session
import SnippetGrader.Proofs.Evaluation.DataText
import SnippetGrader.Proofs.Evaluation.Frames
import SnippetGrader.Proofs.Evaluation.KeptData

/-
  Data is read back from its text.

  The expression of data evaluates to a value that holds the
  data: containers are made anew, numbers with a sign are
  negated, and no item of a set and no entry of a dict is lost,
  as none is equal to an earlier one. So the interpreter reads
  the text of a value as a value with the same data.

  Key definitions include:
    * `Interpreter.Adds`
    * `Evaluator.Gives`, `Evaluator.Rebuilds`

  Key theorems include:
    * `Evaluator.rebuilds_of_parts`
    * `Evaluator.rebuilds_datum`
    * `Interpreter.lastValue_repr`
-/

namespace SnippetGrader

open Eval

------------------------------------------------------------
-- Code that Only Adds
------------------------------------------------------------

namespace Interpreter

/- A later state of code that only adds to the heap and uses gas. -/
structure Adds (start last : Interpreter) (units : Nat) : Prop where
  limits_eq : last.limits = start.limits
  scope_eq : last.scope = start.scope
  scopes_eq : last.store.scopes = start.store.scopes
  gas_le : last.gas ≤ start.gas + units
  grows : start.heap.Grows last.heap

theorem Adds.trans
    {start mid last : Interpreter}
    {units rest : Nat}
    (hFirst : start.Adds mid units)
    (hSecond : mid.Adds last rest) :
    start.Adds last (units + rest) where
  limits_eq := hSecond.limits_eq.trans hFirst.limits_eq
  scope_eq := hSecond.scope_eq.trans hFirst.scope_eq
  scopes_eq := hSecond.scopes_eq.trans hFirst.scopes_eq
  gas_le := by
    have hEarlier := hFirst.gas_le
    have hLater := hSecond.gas_le
    omega
  grows := hFirst.grows.trans hSecond.grows

end Interpreter

namespace Evaluator

variable {α β : Type}
variable {start : Interpreter}
variable {units rest : Nat}

/-
  Code that, given gas for a number of steps, ends with a value
  of a kind, and does nothing but add to the heap.
-/
def Gives
    (action : Eval α)
    (start : Interpreter)
    (units : Nat)
    (post : Heap → α → Prop) :
    Prop :=
  start.gas + units ≤ start.limits.gasLimit →
    ∃ value last,
      action start = .ok value last ∧
        start.Adds last units ∧ post last.heap value

namespace Gives

theorem pure
    {post : Heap → α → Prop}
    {value : α}
    (hPost : post start.heap value) :
    Gives (pure value) start 0 post :=
  fun _ => ⟨value, start, rfl, ⟨rfl, rfl, rfl, le_rfl, .refl _⟩, hPost⟩

theorem bind
    {first : Eval α}
    {next : α → Eval β}
    {mid : Heap → α → Prop}
    {post : Heap → β → Prop}
    (hFirst : Gives first start units mid)
    (hNext :
      ∀ value later,
        start.Adds later units →
          mid later.heap value → Gives (next value) later rest post) :
    Gives (first >>= next) start (units + rest) post := by
  intro hGas
  obtain ⟨value, later, hOk, hAdds, hMid⟩ := hFirst (by omega)
  have hLater : later.gas + rest ≤ later.limits.gasLimit := by
    have hUsed := hAdds.gas_le
    rw [hAdds.limits_eq]
    omega
  obtain ⟨result, last, hResult, hMore, hPost⟩ :=
    hNext value later hAdds hMid hLater
  exact
    ⟨result, last, (bind_eq_of_ok hOk next).trans hResult,
      hAdds.trans hMore, hPost⟩

/- More gas than is needed is enough. -/
theorem weaken
    {action : Eval α}
    {post : Heap → α → Prop}
    (hGives : Gives action start units post)
    (hUnits : units ≤ rest) :
    Gives action start rest post := by
  intro hGas
  obtain ⟨value, last, hOk, hAdds, hPost⟩ := hGives (by omega)
  have hUsed := hAdds.gas_le
  exact ⟨value, last, hOk, { hAdds with gas_le := by omega }, hPost⟩

theorem tick :
    Gives Eval.tick start 1 fun _ _ => True := by
  intro hGas
  have hLeast : min (start.gas + 1) maxGas ≤ start.gas + 1 := min_le_left _ _
  refine
    ⟨(), { start with gas := min (start.gas + 1) maxGas }, ?_,
      ⟨rfl, rfl, rfl, hLeast, .refl _⟩, trivial⟩
  unfold Eval.tick charge
  dsimp only
  rw [if_neg (by omega)]

/- A change of the heap that only adds to it. -/
theorem withHeap
    {change : Heap → α × Heap}
    {post : Heap → α → Prop}
    (hChange :
      start.heap.Grows (change start.heap).2 ∧
        post (change start.heap).2 (change start.heap).1) :
    Gives (withHeap change) start 0 post :=
  fun _ => ⟨_, _, rfl, ⟨rfl, rfl, rfl, le_rfl, hChange.1⟩, hChange.2⟩

theorem onHeap
    {read : Heap → α}
    {post : Heap → α → Prop}
    (hRead : post start.heap (read start.heap)) :
    Gives (onHeap read) start 0 post :=
  fun _ => ⟨_, start, rfl, ⟨rfl, rfl, rfl, le_rfl, .refl _⟩, hRead⟩

/- An expression costs gas, and its form is evaluated with what is left. -/
theorem expr
    {n : Nat}
    {span : Span}
    {form : ExprForm Expr}
    {post : Heap → Value → Prop}
    (hForm :
      ∀ later,
        start.Adds later 1 →
          Gives ((levels n).evalForm form) later units post) :
    Gives ((levels (n + 1)).expr (.mk span form)) start (1 + units) post :=
  tick.bind fun _ later hAdds _ => hForm later hAdds

end Gives

------------------------------------------------------------
-- Evaluated Data
------------------------------------------------------------

/- A state in which the routine that makes sets goes by its own name. -/
def FindsSet (start : Interpreter) : Prop :=
  start.store.scopes.get? start.scope "set" = some (.builtin .set)

theorem FindsSet.of_adds
    {later : Interpreter}
    (hSet : FindsSet start)
    (hAdds : start.Adds later units) :
    FindsSet later := by
  rw [FindsSet, hAdds.scope_eq, hAdds.scopes_eq]
  exact hSet

/- An expression that gives a value with some data wherever it is evaluated. -/
def Rebuilds (inner : Evaluator) (expr : Expr) (datum : Datum) : Prop :=
  ∀ start,
    FindsSet start →
      Gives (inner.expr expr) start (2 * datum.size) fun heap value =>
        heap.Holds value datum

theorem elements_cons
    {inner : Evaluator}
    {found : Array Value}
    {item : Expr}
    {rest : List Expr}
    (hItem : item.isStarred = false) :
    inner.elements found (item :: rest) =
      inner.expr item >>= fun value =>
        inner.elements (found.push value) rest := by
  obtain ⟨span, form⟩ := item
  cases form <;> first | rfl | cases hItem

/- The items of a display are evaluated to values with their data. -/
theorem gives_elements
    {inner : Evaluator}
    {exprs : List Expr}
    {items known : List Datum}
    {found : Array Value}
    (hExprs :
      List.Forall₂
        (fun expr item => expr.isStarred = false ∧ Rebuilds inner expr item)
        exprs items)
    (hDepth : ∀ item ∈ known, item.depth ≤ maxNesting)
    (hDepth' : ∀ item ∈ items, item.depth ≤ maxNesting)
    (hFound : List.Forall₂ start.heap.Holds found.toList known)
    (hSet : FindsSet start) :
    Gives (inner.elements found exprs) start (2 * Datum.itemsSize items)
      fun heap values =>
        List.Forall₂ heap.Holds values.toList (known ++ items) := by
  induction hExprs generalizing start found known with
  | nil =>
      rw [List.append_nil]
      exact .pure hFound
  | @cons expr item exprs items hHere hRest ih =>
      rw [List.forall_mem_cons] at hDepth'
      rw [elements_cons hHere.1, Datum.itemsSize, Nat.mul_add]
      refine (hHere.2 start hSet).bind fun value later hAdds hValue => ?_
      have hLater := Heap.forall₂_holds_of_grows hFound hDepth hAdds.grows
      have hPushed :
          List.Forall₂ later.heap.Holds (found.push value).toList
            (known ++ [item]) := by
        rw [Array.toList_push]
        exact List.rel_append hLater (.cons hValue .nil)
      rw [List.append_cons]
      refine ih ?_ hDepth'.2 hPushed (hSet.of_adds hAdds)
      intro other hMem
      rcases List.mem_append.mp hMem with hKnown | hNew
      · exact hDepth other hKnown
      · rw [List.mem_singleton.mp hNew]
        exact hDepth'.1

/- So are the entries of a dict, and none of them replaces another. -/
theorem gives_entries
    {inner : Evaluator}
    {exprs : List (Expr × Expr)}
    {entries known : List (Datum × Datum)}
    {found : Array (Value × Value)}
    (hExprs :
      List.Forall₂
        (fun expr entry =>
          Rebuilds inner expr.1 entry.1 ∧ Rebuilds inner expr.2 entry.2)
        exprs entries)
    (hDepth : Heap.EntriesWithin (known ++ entries))
    (hDiffer : ((known ++ entries).map (·.1)).Pairwise Heap.Differ)
    (hFound : start.heap.HoldsEntries found known)
    (hSet : FindsSet start) :
    Gives (inner.entries found exprs) start (2 * Datum.entriesSize entries)
      fun heap pairs => heap.HoldsEntries pairs (known ++ entries) := by
  induction hExprs generalizing start found known with
  | nil =>
      rw [List.append_nil]
      exact .pure hFound
  | @cons expr entry exprs entries hHere hRest ih =>
      have hEntry : entry ∈ known ++ entry :: entries := by simp
      have hKey := hDepth entry.1 (Datum.mem_parts_dict hEntry).1
      have hKnown := hDepth.of_subset (List.subset_append_left known _)
      have hNew : ∀ other ∈ known.map (·.1), Heap.Differ other entry.1 := by
        rw [List.map_append, List.pairwise_append] at hDiffer
        exact fun other hMem =>
          hDiffer.2.2 other hMem entry.1 List.mem_cons_self
      rw [List.append_cons] at hDepth hDiffer ⊢
      have hSteps :
          Gives (inner.entries found (expr :: exprs)) start
            (2 * entry.1.size +
              (2 * entry.2.size + (0 + 2 * Datum.entriesSize entries)))
            fun heap pairs =>
              heap.HoldsEntries pairs (known ++ [entry] ++ entries) := by
        refine (hHere.1 start hSet).bind fun key mid hAdds hKeyHeld => ?_
        have hSet := hSet.of_adds hAdds
        refine (hHere.2 mid hSet).bind fun value later hMore hValueHeld => ?_
        have hLater := hFound.of_grows hKnown (hAdds.trans hMore).grows
        have hAdded :
            Gives (addEntry found key value) later 0 fun heap pairs =>
              heap.HoldsEntries pairs (known ++ [entry]) :=
          .onHeap (Heap.holdsEntries_insertEntry hLater
            (hKeyHeld.of_grows hMore.grows hKey) hValueHeld hNew)
        refine hAdded.bind fun pairs last hLast hPairs => ?_
        exact ih hDepth hDiffer hPairs
          ((hSet.of_adds hMore).of_adds hLast)
      exact hSteps.weaken (by rw [Datum.entriesSize]; omega)

/- A name is looked up without a change. -/
theorem Gives.lookupName
    {name : String}
    {value : Value}
    (hFound : start.store.scopes.get? start.scope name = some value) :
    Gives (lookupName name) start 0 fun _ found => found = value := by
  have hState : (get : Eval Interpreter) start = .ok start start := rfl
  have hLooked : Eval.lookupName name start = .ok value start := by
    unfold Eval.lookupName
    rw [bind_eq_of_ok hState, hFound]
    rfl
  exact fun _ =>
    ⟨value, start, hLooked, ⟨rfl, rfl, rfl, le_rfl, .refl _⟩, rfl⟩

/- A call of the routine without arguments makes an empty set. -/
theorem gives_emptySet
    {n : Nat}
    {span nameSpan : Span}
    (hSet : FindsSet start) :
    Gives
      ((levels (n + 2)).expr
        (.mk span (.call (.mk nameSpan (.name "set")) [] [])))
      start 2 fun heap value => heap.Holds value (.set []) := by
  have hName (later : Interpreter) (hLater : FindsSet later) :
      Gives ((levels (n + 1)).expr (.mk nameSpan (.name "set"))) later (1 + 0)
        fun _ found => found = .builtin .set :=
    .expr fun _ hAdds => .lookupName (hLater.of_adds hAdds)
  have hMade (later : Interpreter) :
      Gives (newSet #[]) later 0 fun heap value =>
        heap.Holds value (.set []) :=
    .withHeap (Heap.holds_addSet .nil (List.forall_mem_nil _) .nil)
  have hForm (later : Interpreter) (hLater : FindsSet later) :
      Gives
        ((levels (n + 1)).evalForm
          (.call (.mk nameSpan (.name "set")) [] []))
        later (1 + 0 + 0) fun heap value => heap.Holds value (.set []) := by
    refine (hName later hLater).bind fun callee mid hAdds hCallee => ?_
    subst hCallee
    exact hMade mid
  exact .expr fun later hAdds => hForm later (hSet.of_adds hAdds)

/- A form is that call if it is the one of the empty set. -/
theorem exists_of_erased_emptySet
    {form : ExprForm Expr}
    (hForm : form.erased = (Datum.set []).expr.form.erased) :
    ∃ span, form = .call (.mk span (.name "set")) [] [] := by
  cases form with
  | call callee args keywords =>
      obtain ⟨hCallee, hArgs, hKeywords⟩ := ExprForm.call.inj hForm
      obtain ⟨span, calleeForm⟩ := callee
      rw [Expr.erased_eq_iff] at hCallee
      obtain rfl : args = [] := by cases args <;> [rfl; cases hArgs]
      obtain rfl : keywords = [] := by cases keywords <;> [rfl; cases hKeywords]
      cases calleeForm with
      | name found =>
          cases hCallee
          exact ⟨span, rfl⟩
      | _ => cases hCallee
  | _ => cases hForm

/- A constant is its own value. -/
theorem gives_constant
    {n : Nat}
    {span : Span}
    {form : ExprForm Expr}
    {value : Value}
    {post : Heap → Value → Prop}
    (hForm : (levels n).evalForm form = Pure.pure value)
    (hPost : ∀ heap, post heap value) :
    Gives ((levels (n + 1)).expr (.mk span form)) start (1 + 0) post := by
  refine .expr fun later hAdds => ?_
  rw [hForm]
  exact .pure (hPost later.heap)

/- A number with a sign is negated. -/
theorem gives_negated
    {n : Nat}
    {span operandSpan : Span}
    {form : ExprForm Expr}
    {operand value : Value}
    {post : Heap → Value → Prop}
    (hForm : (levels n).evalForm form = Pure.pure operand)
    (hNegated : Eval.unary .neg operand = Pure.pure value)
    (hPost : ∀ heap, post heap value) :
    Gives
      ((levels (n + 2)).expr (.mk span (.unary .neg (.mk operandSpan form))))
      start 2 post := by
  have hForm (later : Interpreter) :
      Gives ((levels (n + 1)).evalForm (.unary .neg (.mk operandSpan form)))
        later (1 + 0 + 0) post := by
    have hOperand :
        Gives ((levels (n + 1)).expr (.mk operandSpan form)) later (1 + 0)
          fun _ found => found = operand :=
      gives_constant hForm fun _ => rfl
    refine hOperand.bind fun found mid hAdds hFound => ?_
    subst hFound
    rw [hNegated]
    exact .pure (hPost mid.heap)
  exact .expr fun later _ => hForm later

theorem unary_neg_int
    {value : Int}
    (hWord : Number.inWord value = true) :
    Eval.unary .neg (.int (-value)) = Pure.pure (.int value) := by
  have hFit : Arithmetic.fit (- -value) = .ok (.int value) := by
    rw [Arithmetic.fit, Int.neg_neg,
      (Number.fitWord?_eq_some_iff value value).mpr ⟨hWord, rfl⟩]
  change ofExcept (Arithmetic.fit (- -value)) = _
  rw [hFit]
  rfl

/- A form is negated if it is the one of a number with a sign. -/
theorem exists_of_erased_neg
    {form operand : ExprForm Expr}
    (hForm :
      form.erased = (ExprForm.unary .neg (.synthetic operand)).erased) :
    ∃ span found,
      form = .unary .neg (.mk span found) ∧ found.erased = operand.erased := by
  cases form with
  | unary op inner =>
      obtain ⟨rfl, hInner⟩ := ExprForm.unary.inj hForm
      obtain ⟨span, found⟩ := inner
      exact ⟨span, found, rfl, (Expr.erased_eq_iff _ _).mp hInner⟩
  | _ => cases hForm

theorem gives_int
    {n : Nat}
    {value : Int}
    (hRange : Number.wordMin < value ∧ value ≤ Number.wordMax)
    {span : Span}
    {form : ExprForm Expr}
    (hForm : form.erased = (Datum.int value).expr.form.erased) :
    Gives ((levels (n + 2)).expr (.mk span form)) start 2
      fun heap found => heap.Holds found (.int value) := by
  rw [Datum.expr] at hForm
  split at hForm
  · obtain ⟨operandSpan, operand, rfl, hOperand⟩ := exists_of_erased_neg hForm
    cases operand with
    | int found =>
        cases hOperand
        have hWord : Number.inWord value = true :=
          (Number.inWord_iff value).mpr ⟨hRange.1.le, hRange.2⟩
        exact gives_negated rfl (unary_neg_int hWord) fun _ => .int hRange
    | _ => cases hOperand
  · cases form with
    | int found =>
        cases hForm
        exact (gives_constant rfl fun _ => .int hRange).weaken one_le_two
    | _ => cases hForm

theorem gives_float
    {n : Nat}
    {value : Float}
    (hFinite : Number.IsFinite value)
    {span : Span}
    {form : ExprForm Expr}
    (hForm : form.erased = (Datum.float value).expr.form.erased) :
    Gives ((levels (n + 2)).expr (.mk span form)) start 2
      fun heap found => heap.Holds found (.float value) := by
  rw [Datum.expr] at hForm
  split at hForm
  · obtain ⟨operandSpan, operand, rfl, hOperand⟩ := exists_of_erased_neg hForm
    cases operand with
    | float found =>
        cases hOperand
        have hNegated :
            Eval.unary .neg (.float (-value)) = Pure.pure (.float value) := by
          change Pure.pure (Value.float (- -value)) = _
          rw [Number.neg_neg hFinite.number]
        exact gives_negated rfl hNegated fun _ => .float hFinite
    | _ => cases hOperand
  · cases form with
    | float found =>
        cases hForm
        exact (gives_constant rfl fun _ => .float hFinite).weaken one_le_two
    | _ => cases hForm

theorem forall₂_of_map_eq
    {α β γ : Type}
    {f : α → γ}
    {g : β → γ}
    {xs : List α}
    {ys : List β}
    (hSame : xs.map f = ys.map g) :
    List.Forall₂ (fun x y => f x = g y) xs ys := by
  rw [← List.forall₂_eq_eq_eq, List.forall₂_map_left_iff,
    List.forall₂_map_right_iff] at hSame
  exact hSame

/- A display evaluates its items, and makes a container of their values. -/
theorem gives_display
    {n : Nat}
    {span : Span}
    {form : ExprForm Expr}
    {exprs : List Expr}
    {items : List Datum}
    {datum : Datum}
    {add : Heap → Array Value → Value × Heap}
    (hForm :
      (levels n).evalForm form =
        (levels n).elements #[] exprs >>= fun values =>
          withHeap (add · values))
    (hExprs :
      List.Forall₂
        (fun expr item =>
          expr.isStarred = false ∧ Rebuilds (levels n) expr item)
        exprs items)
    (hDepth : ∀ item ∈ items, item.depth ≤ maxNesting)
    (hAdd :
      ∀ heap values,
        List.Forall₂ heap.Holds values.toList items →
          heap.Grows (add heap values).2 ∧
            (add heap values).2.Holds (add heap values).1 datum)
    (hSet : FindsSet start) :
    Gives ((levels (n + 1)).expr (.mk span form)) start
      (2 * (1 + Datum.itemsSize items)) fun heap value =>
        heap.Holds value datum := by
  have hUnits :
      1 + (2 * Datum.itemsSize items + 0) ≤
        2 * (1 + Datum.itemsSize items) := by
    omega
  refine (Gives.expr fun later hAdds => ?_).weaken hUnits
  rw [hForm]
  have hItems :=
    gives_elements hExprs (List.forall_mem_nil _) hDepth .nil (hSet.of_adds hAdds)
  exact hItems.bind fun values last hLast hHeld =>
    .withHeap (hAdd last.heap values hHeld)

/- The display of a dict makes one of the entries that it evaluates. -/
theorem gives_dict
    {n : Nat}
    {span : Span}
    {exprs : List (Expr × Expr)}
    {entries : List (Datum × Datum)}
    (hExprs :
      List.Forall₂
        (fun expr entry =>
          Rebuilds (levels n) expr.1 entry.1 ∧
            Rebuilds (levels n) expr.2 entry.2)
        exprs entries)
    (hDepth : Heap.EntriesWithin entries)
    (hDiffer : (entries.map (·.1)).Pairwise Heap.Differ)
    (hSet : FindsSet start) :
    Gives ((levels (n + 1)).expr (.mk span (.dict exprs))) start
      (2 * (1 + Datum.entriesSize entries)) fun heap value =>
        heap.Holds value (.dict entries) := by
  have hUnits :
      1 + (2 * Datum.entriesSize entries + 0) ≤
        2 * (1 + Datum.entriesSize entries) := by
    omega
  refine (Gives.expr fun later hAdds => ?_).weaken hUnits
  have hAll : Heap.EntriesWithin ([] ++ entries) := hDepth
  have hNone : later.heap.HoldsEntries #[] [] := ⟨.nil, .nil⟩
  have hEntries :=
    gives_entries hExprs hAll hDiffer hNone (hSet.of_adds hAdds)
  exact hEntries.bind fun pairs last hLast hHeld =>
    .withHeap (Heap.holds_addDict hHeld hDepth hDiffer)

/- All expressions of some data give values that hold it. -/
def RebuildsAll (n : Nat) (items : List Datum) : Prop :=
  ∀ item ∈ items, ∀ expr : Expr,
    expr.erased = item.expr.erased → Rebuilds (levels n) expr item

theorem RebuildsAll.forall₂_items
    {n : Nat}
    {items : List Datum}
    (hAll : RebuildsAll n items)
    {exprs : List Expr}
    (hExprs :
      Expr.erasedAll exprs = Expr.erasedAll (Datum.itemExprs items)) :
    List.Forall₂
      (fun expr item => expr.isStarred = false ∧ Rebuilds (levels n) expr item)
      exprs items := by
  rw [Datum.itemExprs_eq_map, Expr.erasedAll_eq_map, Expr.erasedAll_eq_map,
    List.map_map] at hExprs
  refine forall₂_imp (forall₂_of_map_eq hExprs) fun expr item hMem hExpr => ?_
  refine ⟨?_, hAll item hMem expr hExpr⟩
  rw [← expr.isStarred_erased, hExpr]
  exact item.expr.isStarred_erased.trans item.isStarred_and_isSlice_expr.1

theorem RebuildsAll.forall₂_entries
    {n : Nat}
    {entries : List (Datum × Datum)}
    (hAll : RebuildsAll n (Datum.dict entries).parts)
    {exprs : List (Expr × Expr)}
    (hExprs :
      Expr.erasedEntries exprs =
        Expr.erasedEntries (Datum.entryExprs entries)) :
    List.Forall₂
      (fun expr entry =>
        Rebuilds (levels n) expr.1 entry.1 ∧
          Rebuilds (levels n) expr.2 entry.2)
      exprs entries := by
  rw [Datum.entryExprs_eq_map, Expr.erasedEntries_eq_map,
    Expr.erasedEntries_eq_map, List.map_map] at hExprs
  refine forall₂_imp (forall₂_of_map_eq hExprs) fun expr entry hMem hExpr => ?_
  obtain ⟨hKey, hValue⟩ := Prod.mk.inj hExpr
  obtain ⟨hKeyPart, hValuePart⟩ := Datum.mem_parts_dict hMem
  exact ⟨hAll entry.1 hKeyPart expr.1 hKey, hAll entry.2 hValuePart expr.2 hValue⟩

/- The expression of data gives a value with it if those of its parts do. -/
theorem rebuilds_of_parts
    {source : Heap}
    {origin : Value}
    {datum : Datum}
    (hHolds : source.Holds origin datum)
    (hDepth : ∀ part ∈ datum.parts, part.depth ≤ maxNesting)
    {n : Nat}
    (hParts : RebuildsAll (n + 1) datum.parts)
    {expr : Expr}
    (hExpr : expr.erased = datum.expr.erased) :
    Rebuilds (levels (n + 2)) expr datum := by
  obtain ⟨span, form⟩ := expr
  rw [Expr.erased_eq_iff] at hExpr
  intro start hSet
  cases hHolds with
  | none =>
      cases form with
      | none => exact (gives_constant rfl fun _ => .none).weaken one_le_two
      | _ => cases hExpr
  | bool value =>
      cases form with
      | bool found =>
          cases hExpr
          exact (gives_constant rfl fun _ => .bool value).weaken one_le_two
      | _ => cases hExpr
  | str value =>
      cases form with
      | str found =>
          cases hExpr
          exact (gives_constant rfl fun _ => .str value).weaken one_le_two
      | _ => cases hExpr
  | int hRange => exact gives_int hRange hExpr
  | float hFinite => exact gives_float hFinite hExpr
  | list hAddress hHeld =>
      cases form with
      | list exprs =>
          have hExprs := hParts.forall₂_items (ExprForm.list.inj hExpr)
          exact gives_display rfl hExprs hDepth
            (fun _ _ hMade => Heap.holds_addList hMade hDepth) hSet
      | _ => cases hExpr
  | tuple hAddress hHeld =>
      cases form with
      | tuple exprs =>
          have hExprs := hParts.forall₂_items (ExprForm.tuple.inj hExpr)
          exact gives_display rfl hExprs hDepth
            (fun _ _ hMade => Heap.holds_addTuple hMade hDepth) hSet
      | _ => cases hExpr
  | @set _ items hAddress hHeld hDistinct =>
      have hDiffer := (Heap.pairwise_unequal_iff hHeld hDepth).mp hDistinct
      cases items with
      | nil =>
          obtain ⟨nameSpan, rfl⟩ := exists_of_erased_emptySet hExpr
          exact gives_emptySet hSet
      | cons first rest =>
          cases form with
          | set exprs =>
              have hExprs := hParts.forall₂_items (ExprForm.set.inj hExpr)
              exact gives_display rfl hExprs hDepth
                (fun _ _ hMade => Heap.holds_addSet hMade hDepth hDiffer) hSet
          | _ => cases hExpr
  | dict hAddress hKeys hValues hDistinct =>
      cases form with
      | dict exprs =>
          have hExprs := hParts.forall₂_entries (ExprForm.dict.inj hExpr)
          have hDiffer :=
            (Heap.pairwise_unequal_iff hKeys fun key hMem =>
              hDepth key (List.mem_append_left _ hMem)).mp hDistinct
          exact gives_dict hExprs hDepth hDiffer hSet
      | _ => cases hExpr

/- The expression of data gives a value that holds the data. -/
theorem rebuilds_datum
    {source : Heap}
    {origin : Value}
    {datum : Datum}
    (hHolds : source.Holds origin datum)
    (hDepth : datum.depth ≤ maxNesting)
    {n : Nat}
    (hLevels : 2 * datum.size ≤ n)
    {expr : Expr}
    (hExpr : expr.erased = datum.expr.erased) :
    Rebuilds (levels n) expr datum := by
  induction datum using Datum.induct generalizing origin n expr with
  | step datum ih =>
      have hSize := datum.size_pos
      obtain ⟨m, rfl⟩ : ∃ m, n = m + 2 := ⟨n - 2, by omega⟩
      have hDepths : ∀ part ∈ datum.parts, part.depth ≤ maxNesting :=
        fun part hMem => (Datum.depth_lt hMem).le.trans hDepth
      refine rebuilds_of_parts hHolds hDepths ?_ hExpr
      intro part hMem expr hExpr
      obtain ⟨inner, hInner⟩ := hHolds.of_mem_parts hMem
      have hLess := Datum.size_lt hMem
      exact ih part hMem hInner (hDepths part hMem) (by omega) hExpr

end Evaluator

------------------------------------------------------------
-- Fresh Interpreters
------------------------------------------------------------

theorem Scopes.scope_add
    {α : Type}
    (scopes : Scopes α)
    (added : Scope α) :
    (scopes.add added).2.scope scopes.all.size = added := by
  unfold scope add
  rw [Array.getElem?_push_size]
  rfl

theorem Bindings.get?_append
    {α : Type}
    {first second : Bindings α}
    {name : String}
    {value : α}
    (hFirst : first.get? name = some value) :
    Bindings.get? (first ++ second) name = some value := by
  obtain ⟨entry, hEntry, rfl⟩ := Option.map_eq_some_iff.mp hFirst
  rw [get?, List.find?_append, hEntry]
  rfl

/- A name that a scope does not bind is looked up around it. -/
theorem Scopes.get?_child
    {α : Type}
    (scopes : Scopes α)
    (added : Scope α)
    {name : String}
    {value : α}
    (hBound : added.bindings.get? name = some value) :
    let (id, outer) := scopes.add added
    let (inner, all) := outer.child id
    all.get? inner name = some value := by
  let outer := (scopes.add added).2
  have hSize : outer.all.size = scopes.all.size + 1 := size_add scopes added
  have hInner :
      (outer.child scopes.all.size).2.scope outer.all.size =
        { parent := some scopes.all.size } :=
    scope_add outer _
  have hOuter :
      (outer.child scopes.all.size).2.scope scopes.all.size = added :=
    (scope_add_of_lt outer _ (by omega)).trans (scope_add scopes added)
  have hNone : Bindings.get? ([] : Bindings α) name = none := rfl
  change (outer.child scopes.all.size).2.get? outer.all.size name = some value
  rw [get?, lookup, hInner, hNone]
  dsimp only
  rw [hSize, lookup, hOuter, hBound]

namespace Interpreter

open Evaluator

/- A new interpreter finds the routine that makes sets. -/
theorem findsSet_fresh
    (limits : Limits)
    (store : Store) :
    FindsSet (fresh limits store) := by
  let routines : Bindings Value :=
    Builtin.globals.map fun routine => (routine.name, .builtin routine)
  have hRoutines : routines.get? "set" = some (.builtin .set) := rfl
  let bindings := routines ++ (addExceptions store.heap).1
  have hBound : Bindings.get? bindings "set" = some (.builtin .set) :=
    Bindings.get?_append hRoutines
  exact Scopes.get?_child store.scopes { bindings } hBound

theorem gasLimit_le_levelCount
    (interpreter : Interpreter) :
    interpreter.limits.gasLimit ≤ interpreter.levelCount := by
  rw [levelCount]
  exact (Nat.le_add_right _ 2).trans (Nat.le_mul_of_pos_right _ (by omega))

/- A program of one expression of data gives a value that holds the data. -/
theorem exists_lastValue_of_datum
    {start : Interpreter}
    (hSet : FindsSet start)
    {source : Heap}
    {origin : Value}
    {datum : Datum}
    (hHolds : source.Holds origin datum)
    (hDepth : datum.depth ≤ maxNesting)
    (hGas : start.gas + (2 * datum.size + 1) ≤ start.limits.gasLimit)
    {program : Program}
    (hBody :
      program.body.map Stmt.erased =
        [(Stmt.mk .synthetic (.expr datum.expr)).erased]) :
    ∃ found last,
      start.lastValue program = (.ok (some found), last) ∧
        last.heap.Holds found datum := by
  obtain ⟨⟨span, form⟩, hStmts, hStmt⟩ := List.map_eq_singleton_iff.mp hBody
  cases form with
  | expr expr =>
      have hExpr : expr.erased = datum.expr.erased := by
        injection hStmt with _ hForm
        injection hForm
      have hLevels : 2 * datum.size ≤ start.levelCount :=
        le_trans (by omega) start.gasLimit_le_levelCount
      have hBuilt := rebuilds_datum hHolds hDepth hLevels hExpr
      have hRun :
          Gives (evalStatements (levels start.levelCount) program.body) start
            (1 + (2 * datum.size + 0)) fun heap found =>
              ∃ value, found = some value ∧ heap.Holds value datum := by
        rw [hStmts]
        refine Gives.tick.bind fun _ later hAdds _ => ?_
        refine (hBuilt later (hSet.of_adds hAdds)).bind ?_
        exact fun found last _ hFound => .pure ⟨found, rfl, hFound⟩
      obtain ⟨_, last, hOk, -, found, rfl, hFound⟩ := hRun (by omega)
      refine ⟨found, last, ?_, hFound⟩
      rw [lastValue, run, hOk]
  | _ => cases hStmt

/-
  What a value shows is read and run as a value that shows the
  same: its text is a program of one expression, and that gives
  a value with the same data.
-/
theorem lastValue_repr
    {heap : Heap}
    {value : Value}
    {datum : Datum}
    (hHolds : heap.Holds value datum)
    (hDepth : datum.depth < 60)
    (name : String)
    (limits : Limits)
    (hGas : 2 * datum.size + 1 ≤ limits.gasLimit)
    (store : Store) :
    ∃ program found last,
      parseSource name (heap.repr value) = .ok program ∧
        (fresh limits store).lastValue program = (.ok (some found), last) ∧
          last.heap.Holds found datum := by
  have hNesting : datum.depth + 2 ≤ maxExprDepth :=
    le_trans (by omega) (show 61 ≤ maxExprDepth by decide)
  have hShown : datum.depth ≤ maxNesting :=
    le_trans (by omega) (show 60 ≤ maxNesting by decide)
  have hEnough :
      (fresh limits store).gas + (2 * datum.size + 1) ≤
        (fresh limits store).limits.gasLimit :=
    (Nat.zero_add _).trans_le hGas
  obtain ⟨program, hProgram, hBody⟩ := hHolds.parseSource_repr hNesting name
  obtain ⟨found, last, hLast, hFound⟩ :=
    exists_lastValue_of_datum (findsSet_fresh limits store) hHolds hShown
      hEnough hBody
  exact ⟨program, found, last, hProgram, hLast, hFound⟩

/- A heap with containers of every kind. -/
def sampleHeap : Heap where
  lists := #[#[.int (-7), .float (-0.5), .set 0]]
  tuples := #[#[.str "it's"]]
  dicts := #[#[(.none, .list 0), (.tuple 0, .set 1)]]
  sets := #[#[], #[.bool true, .str "\n"]]

theorem holds_sampleHeap :
    sampleHeap.Holds (.dict 0)
      (.dict
        [(.none, .list [.int (-7), .float (-0.5), .set []]),
          (.tuple [.str "it's"], .set [.bool true, .str "\n"])]) := by
  have hHalf : Number.IsFinite (-0.5) :=
    ⟨by decide, by decide⟩
  have hEmpty : sampleHeap.Holds (.set 0) (.set []) :=
    .set (by decide) .nil .nil
  have hList :
      sampleHeap.Holds (.list 0) (.list [.int (-7), .float (-0.5), .set []]) :=
    .list (by decide)
      (.cons (.int (by decide)) (.cons (.float hHalf) (.cons hEmpty .nil)))
  have hTuple : sampleHeap.Holds (.tuple 0) (.tuple [.str "it's"]) :=
    .tuple (by decide) (.cons (.str _) .nil)
  have hSet :
      sampleHeap.Holds (.set 1) (.set [.bool true, .str "\n"]) :=
    .set (by decide) (.cons (.bool _) (.cons (.str _) .nil))
      (by decide)
  exact
    .dict (by decide) (.cons .none (.cons hTuple .nil))
      (.cons hList (.cons hSet .nil)) (by decide)

theorem lastValue_repr_sample :
    sampleHeap.repr (.dict 0) =
        "\x7bNone: [-7, -0.5, set()], (\"it's\",): \x7bTrue, '\\n'\x7d\x7d" ∧
      ∃ program found last,
        parseSource "<string>" (sampleHeap.repr (.dict 0)) = .ok program ∧
          (fresh ⟨23, 0⟩ {}).lastValue program = (.ok (some found), last) ∧
            last.heap.Holds found
              (.dict
                [(.none, .list [.int (-7), .float (-0.5), .set []]),
                  (.tuple [.str "it's"], .set [.bool true, .str "\n"])]) :=
  ⟨by decide +kernel,
    lastValue_repr holds_sampleHeap (by decide) "<string>" ⟨23, 0⟩
      (by decide) {}⟩

end Interpreter

end SnippetGrader
