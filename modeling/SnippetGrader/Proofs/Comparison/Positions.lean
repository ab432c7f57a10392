import SnippetGrader.Proofs.Comparison.Invariance
import SnippetGrader.Proofs.Tree.ErasedText

/-
  Where things stand does not matter to a comparison.

  Trees that differ only in positions have one shape, and their
  calls have normal forms of one text. So they are accepted,
  whoever answers for the callees on either side, as long as the
  two answer alike.

  Key definitions include:
    * `NormalizedCall.texts`
    * `Comparison.CallParts.Alike`
    * `Node.AnsweredAlike`

  Key theorems include:
    * `texts_normalizeWith_erased`
    * `Comparison.succeeds_of_erased`
-/

namespace SnippetGrader

open SnippetGrader.Comparison

------------------------------------------------------------
-- Shapes
------------------------------------------------------------

/- The shape of a slot does not show where its nodes stand. -/
theorem Slot.sameShape_erased
    (left right : Slot) :
    left.erased.sameShape right.erased = left.sameShape right := by
  cases left <;> cases right <;> simp [erased, sameShape]

/- Items that stand at one place have one image if the lists have. -/
theorem eq_of_mem_zip
    {α β : Type}
    {f : α → β}
    {lefts rights : List α}
    (hSame : lefts.map f = rights.map f)
    {a b : α}
    (hMem : (a, b) ∈ lefts.zip rights) :
    f a = f b := by
  rw [← List.forall₂_eq_eq_eq, List.forall₂_map_left_iff,
    List.forall₂_map_right_iff] at hSame
  exact (List.forall₂_iff_zip.mp hSame).2 hMem

/- Nodes that differ only in positions have one shape. -/
theorem Node.sameShape_of_erased
    {left right : Node}
    (hErased : left.erased = right.erased)
    (hReads : left.ReadsBack) :
    left.SameShape right := by
  obtain ⟨hKind, hSlots⟩ := (Node.erased_eq_iff left right).mp hErased
  rw [Node.slots_erased, Node.slots_erased] at hSlots
  have hLength : left.slots.length = right.slots.length := by
    simpa using congrArg List.length hSlots
  refine ⟨hKind, List.forall₂_iff_zip.mpr ⟨hLength, fun {a b} hMem => ?_⟩⟩
  obtain ⟨hName, hSlot⟩ := Prod.ext_iff.mp (eq_of_mem_zip hSlots hMem)
  refine ⟨hName, ?_⟩
  rw [← Slot.sameShape_erased, ← show a.2.erased = b.2.erased from hSlot,
    Slot.sameShape_erased]
  exact Slot.sameShape_self
    (Node.isDefinite_slots hReads a (List.of_mem_zip hMem).1)

/- Children that stand at one place differ only in positions. -/
theorem Node.erased_of_mem_zip
    {left right : Node}
    (hErased : left.erased = right.erased)
    {a b : Node}
    (hMem : (a, b) ∈ left.children.zip right.children) :
    a.erased = b.erased := by
  refine eq_of_mem_zip ?_ hMem
  rw [← children_erased, ← children_erased, hErased]

------------------------------------------------------------
-- Calls
------------------------------------------------------------

theorem namedKeywords_erased
    (keywords : List (KeywordArg Expr)) :
    namedKeywords (keywords.map KeywordArg.erased) =
      (namedKeywords keywords).mapValues Expr.erased := by
  simp only [namedKeywords, Keywords.mapValues, List.filterMap_map,
    List.map_filterMap]
  congr 1
  funext keyword
  obtain ⟨name, value, span⟩ := keyword
  cases name <;> rfl

theorem hasUnpacking_erased
    (args : List Expr)
    (keywords : List (KeywordArg Expr)) :
    hasUnpacking (args.map Expr.erased) (keywords.map KeywordArg.erased) =
      hasUnpacking args keywords := by
  have hName (keyword : KeywordArg Expr) :
      keyword.erased.name.isNone = keyword.name.isNone :=
    Option.isNone_map
  simp only [hasUnpacking, List.any_map, Function.comp_def,
    Expr.isStarred_erased, hName]

/- What a parameter is bound to is written alike wherever it stands. -/
theorem source_bindingExpr?_erased
    (param : Parameter)
    (binding : Binding Expr) :
    (BoundArguments.bindingExpr? param (binding.map Expr.erased)).map
        Expr.source =
      (BoundArguments.bindingExpr? param binding).map Expr.source := by
  cases binding with
  | value expr => exact congrArg some expr.source_erased
  | default => rfl
  | varPositional items =>
      have hTuple :
          Expr.synthetic (.tuple (items.map Expr.erased)) =
            (Expr.synthetic (.tuple items)).erased := by
        simp [Expr.erased, Expr.synthetic, ExprForm.erased]
      simp only [Binding.map, BoundArguments.bindingExpr?, hTuple,
        Option.map_some, Expr.source_erased]
  | varKeyword pairs =>
      have hDict :
          Expr.synthetic (.dict
              ((pairs.map fun pair => (pair.1, pair.2.erased)).map
                fun pair => (.synthetic (.str pair.1), pair.2))) =
            (Expr.synthetic (.dict
              (pairs.map fun pair =>
                (.synthetic (.str pair.1), pair.2)))).erased := by
        simp [Expr.erased, Expr.synthetic, ExprForm.erased,
          Function.comp_def, Prod.map]
      exact congrArg some
        ((congrArg Expr.source hDict).trans (Expr.source_erased _))

/- The texts of the values that a normal form gives to parameters. -/
def NormalizedCall.texts (call : NormalizedCall) : List String :=
  call.params.map (·.value.source)

theorem texts_paramsOf
    (bound : BoundArguments Expr) :
    (NormalizedCall.paramsOf bound).map (·.value.source) =
      bound.entries.filterMap fun (param, binding) =>
        (BoundArguments.bindingExpr? param binding).map Expr.source := by
  simp only [NormalizedCall.paramsOf, List.map_filterMap, Option.map_map,
    Function.comp_def]

theorem entries_map
    {α β : Type}
    (f : α → β)
    (bound : BoundArguments α) :
    (bound.map f).entries =
      bound.entries.map fun (param, binding) => (param, binding.map f) := by
  simp only [BoundArguments.entries, BoundArguments.map,
    Signature.mapSlot, List.filterMap_map, List.map_filterMap,
    Option.map_map, Function.comp_def]

/- Normal forms are written alike wherever the arguments stand. -/
theorem texts_normalizeWith_erased
    (signature : Signature)
    (callee : Expr)
    (args : List Expr)
    (keywords : List (KeywordArg Expr)) :
    (normalizeWith signature callee.erased (args.map Expr.erased)
        (keywords.map KeywordArg.erased)).map NormalizedCall.texts =
      (normalizeWith signature callee args keywords).map
        NormalizedCall.texts := by
  unfold normalizeWith
  rw [namedKeywords_erased, Signature.bind_map]
  cases signature.bind args (namedKeywords keywords) with
  | error fault => rfl
  | ok bound =>
      simp only [Except.map, NormalizedCall.texts,
        BoundArguments.withDefaults_map, texts_paramsOf, entries_map,
        List.filterMap_map, Function.comp_def, source_bindingExpr?_erased]

------------------------------------------------------------
-- Comparison
------------------------------------------------------------

namespace Comparison

/- The parts of calls that differ only in positions. -/
structure CallParts.Alike (left right : CallParts) : Prop where
  callee : left.callee.erased = right.callee.erased
  args : left.args.map Expr.erased = right.args.map Expr.erased
  keywords :
    left.keywords.map KeywordArg.erased =
      right.keywords.map KeywordArg.erased

theorem callParts_of_erased
    {left right : Node}
    (hErased : left.erased = right.erased)
    {leftParts : CallParts}
    (hParts : callParts? left = some leftParts) :
    ∃ rightParts,
      callParts? right = some rightParts ∧ leftParts.Alike rightParts := by
  unfold callParts? at hParts
  split at hParts
  case h_2 => cases hParts
  case h_1 span callee args keywords =>
      cases hParts
      have hKind : right.kind = "Call" := by
        rw [← Node.kind_erased, ← hErased]
        rfl
      obtain ⟨_, _, _, _, rfl⟩ := call_of_kind hKind
      simp only [Node.erased_expr, Expr.erased, Expr.synthetic,
        ExprForm.erased, Expr.erasedAll_eq_map,
        Expr.erasedKeywords_eq_map, Node.expr.injEq, Expr.mk.injEq,
        true_and, ExprForm.call.injEq] at hErased
      exact ⟨_, rfl, hErased.1, hErased.2.1, hErased.2.2⟩

theorem CallParts.Alike.hasUnpacking_eq
    {left right : CallParts}
    (hAlike : left.Alike right) :
    hasUnpacking left.args left.keywords =
      hasUnpacking right.args right.keywords := by
  rw [← hasUnpacking_erased, hAlike.args, hAlike.keywords,
    hasUnpacking_erased]

/- Normal forms of calls that differ only in positions have one text. -/
theorem CallParts.Alike.texts_eq
    {left right : CallParts}
    (hAlike : left.Alike right)
    {signature : Signature}
    {leftCall rightCall : NormalizedCall}
    (hLeft :
      normalizeWith signature left.callee left.args left.keywords =
        .ok leftCall)
    (hRight :
      normalizeWith signature right.callee right.args right.keywords =
        .ok rightCall) :
    leftCall.texts = rightCall.texts := by
  have hTexts :=
    texts_normalizeWith_erased signature left.callee left.args
      left.keywords
  rw [hAlike.callee, hAlike.args, hAlike.keywords,
    texts_normalizeWith_erased, hLeft, hRight] at hTexts
  exact (Except.ok.inj hTexts).symm

end Comparison

/- Callees that are written alike are answered alike on both sides. -/
def Node.AnsweredAlike
    (first second : Expr → Except ResolveError Signature)
    (node : Node) :
    Prop :=
  ∀ parts, callParts? node = some parts →
    ∀ callee, parts.callee.erased = callee.erased →
      SameAnswer (first parts.callee) (second callee)

namespace Comparison

variable {σ τ : Type}

/-
  A comparison of trees that differ only in positions finds no
  difference, provided that every call settles and that callees
  are answered alike on both sides.
-/
theorem succeeds_of_erased
    {first second : Expr → Except ResolveError Signature}
    {resolvers : Resolvers σ τ}
    (hFirst : resolvers.submission.Answers first)
    (hSecond : resolvers.solution.Answers second)
    {depth : Nat}
    {left right : Node}
    (hDepth : left.size < depth)
    (hErased : left.erased = right.erased)
    (hReads : left.Everywhere Node.Grammatical)
    (hAnswered : left.Everywhere (Node.AnsweredAlike first second))
    (hLeft : left.Everywhere (Node.CallSettles first))
    (hRight : right.Everywhere (Node.CallSettles second))
    (place : Place) :
    Succeeds
      (toDepth resolvers depth (some left) (some right) place) := by
  induction depth generalizing left right place with
  | zero => omega
  | succ depth ih =>
      have hAbsent (place : Place) :
          toDepth resolvers depth none none place = return () := by
        have hSize := left.size_eq_sum
        cases depth with
        | zero => omega
        | succ below => rfl
      have hShape := Node.sameShape_of_erased hErased hReads.atNode.readsBack
      have hChild {a b : Node}
          (hMem : (a, b) ∈ left.children.zip right.children)
          (place : Place) :
          Succeeds (toDepth resolvers depth (some a) (some b) place) := by
        have hMems := List.of_mem_zip hMem
        have hSize := Node.size_lt_of_mem_children hMems.1
        exact ih (by omega) (Node.erased_of_mem_zip hErased hMem)
          (hReads.atChild hMems.1) (hAnswered.atChild hMems.1)
          (hLeft.atChild hMems.1) (hRight.atChild hMems.2) place
      have hSlots (place : Place) :
          Succeeds (bySlots (toDepth resolvers depth) left right place) :=
        succeeds_bySlots hAbsent hShape (fun a b => hChild) place
      simp only [toDepth, node, bothNodes, hShape.1, beq_self_eq_true,
        if_true]
      cases hLeftParts : callParts? left with
      | none => exact hSlots _
      | some leftParts =>
          obtain ⟨rightParts, hRightParts, hAlike⟩ :=
            callParts_of_erased hErased hLeftParts
          obtain ⟨_, hOther, hCallee, -⟩ :=
            callParts_of_sameShape hLeftParts hShape
          cases hRightParts.symm.trans hOther
          rw [hRightParts]
          dsimp only
          refine succeeds_call hFirst hSecond ?_
          rcases settles_cases
              (hAnswered.atNode leftParts hLeftParts _ hAlike.callee)
              hAlike.hasUnpacking_eq (hLeft.atNode leftParts hLeftParts)
              (hRight.atNode rightParts hRightParts) with
            ⟨_, _, hLeftUnknown, hRightUnknown⟩ |
              ⟨signature, leftCall, rightCall, hLeftOk, hRightOk,
                hLeftWith, hRightWith⟩
          · rw [hLeftUnknown, hRightUnknown]
            exact hSlots _
          · rw [hLeftOk, hRightOk]
            simp only [normalizedCall]
            split
            · exact hSlots _
            · -- Arguments of one text are not looked into.
              refine Succeeds.bind (hChild hCallee _) (succeeds_params ?_ _)
              refine paramsSucceed_of_texts _ ?_
                (hAlike.texts_eq hLeftWith hRightWith)
              rw [names_of_normalizeWith hLeftWith,
                names_of_normalizeWith hRightWith]

end Comparison

------------------------------------------------------------
-- Answers by Name
------------------------------------------------------------

theorem Node.everywhere_of_forall
    {holds : Node → Prop}
    (hHolds : ∀ node, holds node)
    (node : Node) :
    node.Everywhere holds := by
  induction hSize : node.size using Nat.strongRecOn generalizing node with
  | ind size ih =>
      refine ⟨hHolds node, fun child hChild => ih child.size ?_ child rfl⟩
      have hSmaller := Node.size_lt_of_mem_children hChild
      omega

theorem ExprForm.erased_eq_name_iff
    {form : ExprForm Expr}
    {id : String} :
    form.erased = .name id ↔ form = .name id := by
  constructor
  · intro hForm
    cases form <;> first | exact hForm | cases hForm
  · rintro rfl
    rfl

/- No answer by name depends on where the callee stands. -/
theorem sameAnswer_byName_of_erased
    (known : List (String × Signature))
    {left right : Expr}
    (hErased : left.erased = right.erased) :
    SameAnswer (answerByName known left) (answerByName known right) := by
  have hForm := (Expr.erased_eq_iff left right).mp hErased
  refine sameAnswer_of_names known fun id => ?_
  rw [← ExprForm.erased_eq_name_iff, hForm, ExprForm.erased_eq_name_iff]

end SnippetGrader
