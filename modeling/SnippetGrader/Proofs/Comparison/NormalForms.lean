import SnippetGrader.Proofs.Comparison.Steps
import SnippetGrader.Proofs.Signature.Naturality

/-
  Normal forms of calls that correspond.

  A normal form has one parameter for each parameter of the
  signature. If the arguments of two calls correspond one by
  one, then so do the values of their parameters, and a default
  stands on one side iff it stands on the other.

  Key definitions include:
    * `Paired`
    * `ParamsPaired`
    * `HoldsOfArguments`

  Key theorems include:
    * `names_of_normalizeWith`
    * `paired_of_normalizeWith`
    * `written_of_normalizeWith`
    * `Node.Everywhere.arguments`
-/

namespace SnippetGrader

open SnippetGrader.Signature (BoundSlot)

------------------------------------------------------------
-- Names
------------------------------------------------------------

/- What a slot contributes to a normal form. -/
theorem paramsOf_singleton
    {positional : List Expr}
    {keywords : Keywords Expr}
    {slot : BoundSlot Expr}
    (hProvided : Signature.Provided slot)
    (hDrawn : Signature.Drawn positional keywords slot) :
    ∃ param,
      NormalizedCall.paramsOf
          (BoundArguments.withDefaults ⟨[slot]⟩) = [param] ∧
        param.name = slot.1.name := by
  obtain ⟨⟨name, kind, default⟩, binding⟩ := slot
  rcases binding with _ | (_ | _ | _ | _)
  · -- The parameter is variadic, or it has a default.
    cases kind
    case varPositional => exact ⟨_, rfl, rfl⟩
    case varKeyword => exact ⟨_, rfl, rfl⟩
    all_goals
      cases default with
      | none => rcases hProvided with hFalse | hFalse <;> cases hFalse
      | some value => exact ⟨_, rfl, rfl⟩
  · exact ⟨_, rfl, rfl⟩
  · exact hDrawn.elim
  · exact ⟨_, rfl, rfl⟩
  · exact ⟨_, rfl, rfl⟩

theorem paramsOf_cons
    (slot : BoundSlot Expr)
    (slots : List (BoundSlot Expr)) :
    NormalizedCall.paramsOf
        (BoundArguments.withDefaults ⟨slot :: slots⟩) =
      NormalizedCall.paramsOf
          (BoundArguments.withDefaults ⟨[slot]⟩) ++
        NormalizedCall.paramsOf
          (BoundArguments.withDefaults ⟨slots⟩) := by
  have hSplit : slot :: slots = [slot] ++ slots := rfl
  simp only [NormalizedCall.paramsOf, BoundArguments.withDefaults,
    BoundArguments.entries]
  rw [hSplit, List.map_append, List.filterMap_append,
    List.filterMap_append]

/- A normal form names every parameter of the signature. -/
theorem names_of_normalizeWith
    {signature : Signature}
    {callee : Expr}
    {args : List Expr}
    {keywords : List (KeywordArg Expr)}
    {call : NormalizedCall}
    (hNormal :
      normalizeWith signature callee args keywords = .ok call) :
    call.params.map (·.name) = signature.params.map (·.name) := by
  unfold normalizeWith at hNormal
  split at hNormal
  · rename_i bound hBound
    cases hNormal
    obtain ⟨hParams, hSlots⟩ := Signature.drawn_of_bind hBound
    rw [← hParams]
    obtain ⟨slots⟩ := bound
    clear hBound hParams
    induction slots with
    | nil => rfl
    | cons slot rest ih =>
        obtain ⟨hProvided, hDrawn⟩ := hSlots slot List.mem_cons_self
        obtain ⟨param, hParam, hName⟩ :=
          paramsOf_singleton hProvided hDrawn
        have hRest :=
          ih fun other hOther =>
            hSlots other (List.mem_cons_of_mem _ hOther)
        simp only [paramsOf_cons, hParam, List.singleton_append,
          List.map_cons, hName]
        exact congrArg _ hRest
  · cases hNormal

/- Only a call without arguments fits a signature without parameters. -/
theorem Signature.bind_empty
    {α : Type}
    {positional : List α}
    {keywords : Keywords α}
    {bound : BoundArguments α}
    (hBound : Signature.bind ⟨[]⟩ positional keywords = .ok bound) :
    positional = [] ∧ keywords = [] := by
  unfold bind at hBound
  split at hBound
  · cases hBound
  · cases positional with
    | cons arg rest => cases hBound
    | nil =>
        cases keywords with
        | nil => exact ⟨rfl, rfl⟩
        | cons entry rest => cases hBound

theorem eq_nil_of_namedKeywords
    {keywords : List (KeywordArg Expr)}
    (hNamed : keywords.any (·.name.isNone) = false)
    (hNone : namedKeywords keywords = []) :
    keywords = [] := by
  cases keywords with
  | nil => rfl
  | cons keyword rest =>
      rw [List.any_cons, Bool.or_eq_false_iff,
        Option.isNone_eq_false_iff,
        Option.isSome_iff_exists] at hNamed
      obtain ⟨⟨ident, hIdent⟩, -⟩ := hNamed
      simp [namedKeywords, hIdent] at hNone

/- Only a call without arguments has an empty normal form. -/
theorem arguments_eq_nil
    {signature : Signature}
    {callee : Expr}
    {args : List Expr}
    {keywords : List (KeywordArg Expr)}
    {call : NormalizedCall}
    (hNormal :
      normalizeWith signature callee args keywords = .ok call)
    (hUnpacking : hasUnpacking args keywords = false)
    (hEmpty : call.isEmpty = true) :
    args = [] ∧ keywords = [] := by
  have hNames := names_of_normalizeWith hNormal
  have hNone : call.params = [] := List.isEmpty_iff.mp hEmpty
  rw [hNone, List.map_nil, eq_comm, List.map_eq_nil_iff] at hNames
  obtain ⟨params⟩ := signature
  simp only at hNames
  subst hNames
  unfold normalizeWith at hNormal
  split at hNormal
  · rename_i bound hBound
    obtain ⟨hArgs, hKeywords⟩ := Signature.bind_empty hBound
    rw [hasUnpacking, Bool.or_eq_false_iff] at hUnpacking
    exact ⟨hArgs, eq_nil_of_namedKeywords hUnpacking.2 hKeywords⟩
  · cases hNormal

------------------------------------------------------------
-- Pairs of Arguments
------------------------------------------------------------

/- Two expressions that a relation pairs. -/
abbrev Paired (related : Expr → Expr → Prop) :=
  { pair : Expr × Expr // related pair.1 pair.2 }

namespace Paired

variable {related : Expr → Expr → Prop}

def first (pair : Paired related) : Expr := pair.1.1

def second (pair : Paired related) : Expr := pair.1.2

/- Lists that are related one by one are the sides of a list of pairs. -/
theorem exists_of_forall₂
    {lefts rights : List Expr}
    (hRelated : List.Forall₂ related lefts rights) :
    ∃ pairs : List (Paired related),
      pairs.map first = lefts ∧ pairs.map second = rights := by
  induction hRelated with
  | nil => exact ⟨[], rfl, rfl⟩
  | @cons left right _ _ hHere _ ih =>
      obtain ⟨pairs, rfl, rfl⟩ := ih
      exact ⟨⟨(left, right), hHere⟩ :: pairs, rfl, rfl⟩

/- Keywords of the same names, too. -/
theorem exists_keywords_of_forall₂
    {lefts rights : List (KeywordArg Expr)}
    (hRelated :
      List.Forall₂
        (fun left right =>
          left.name.map (·.name) = right.name.map (·.name) ∧
            related left.value right.value)
        lefts rights) :
    ∃ pairs : Keywords (Paired related),
      pairs.mapValues first = namedKeywords lefts ∧
        pairs.mapValues second = namedKeywords rights := by
  induction hRelated with
  | nil => exact ⟨[], rfl, rfl⟩
  | @cons left right lefts rights hHere _ ih =>
      obtain ⟨pairs, hLefts, hRights⟩ := ih
      obtain ⟨leftName, leftValue, leftSpan⟩ := left
      obtain ⟨rightName, rightValue, rightSpan⟩ := right
      obtain ⟨hName, hValue⟩ := hHere
      simp only [namedKeywords, List.filterMap_cons] at hLefts hRights ⊢
      rw [← hLefts, ← hRights]
      cases leftName with
      | none =>
          cases rightName with
          | none => exact ⟨pairs, rfl, rfl⟩
          | some ident => simp at hName
      | some ident =>
          cases rightName with
          | none => simp at hName
          | some other =>
              simp only [Option.map_some, Option.some.injEq] at hName
              refine
                ⟨(ident.name, ⟨(leftValue, rightValue), hValue⟩) ::
                  pairs, rfl, ?_⟩
              rw [Option.map_some, ← hName]
              rfl

end Paired

------------------------------------------------------------
-- Pairs of Parameters
------------------------------------------------------------

/-
  Two parameters of one name with the same value, or with values
  that are both written and that a relation pairs.
-/
def ParamsPaired
    (related : Expr → Expr → Prop)
    (left right : NormalizedParam) :
    Prop :=
  left.name = right.name ∧
    (left.value = right.value ∨
      left.fromDefault = false ∧
        right.fromDefault = false ∧ related left.value right.value)

/- Values that a relation pairs stay paired where they are collected. -/
structure Collects
    (related inner : Expr → Expr → Prop)
    (positional : List (Paired inner))
    (keywords : Keywords (Paired inner)) :
    Prop where
  value : ∀ left right, inner left right → related left right
  tuple :
    ∀ items : List (Paired inner), items.Sublist positional →
      related
        (.synthetic (.tuple (items.map Paired.first)))
        (.synthetic (.tuple (items.map Paired.second)))
  dict :
    ∀ pairs : Keywords (Paired inner), pairs.Sublist keywords →
      related
        (.synthetic (.dict (pairs.map fun pair =>
          (.synthetic (.str pair.1), pair.2.first))))
        (.synthetic (.dict (pairs.map fun pair =>
          (.synthetic (.str pair.1), pair.2.second))))

theorem paired_of_entry
    {related inner : Expr → Expr → Prop}
    {positional : List (Paired inner)}
    {keywords : Keywords (Paired inner)}
    (hCollects : Collects related inner positional keywords)
    {slot : BoundSlot (Paired inner)}
    (hDrawn : Signature.Drawn positional keywords slot) :
    List.Forall₂ (ParamsPaired related)
      (NormalizedCall.paramsOf
        ((BoundArguments.withDefaults ⟨[slot]⟩).map Paired.first))
      (NormalizedCall.paramsOf
        ((BoundArguments.withDefaults ⟨[slot]⟩).map Paired.second)) := by
  obtain ⟨⟨name, kind, default⟩, binding⟩ := slot
  rcases binding with _ | (pair | _ | items | pairs)
  · -- Both sides fall back to the same value.
    cases kind
    case varPositional =>
        exact .cons ⟨rfl, Or.inl rfl⟩ .nil
    case varKeyword =>
        exact .cons ⟨rfl, Or.inl rfl⟩ .nil
    all_goals
      cases default with
      | none => exact .nil
      | some value => exact .cons ⟨rfl, Or.inl rfl⟩ .nil
  · refine .cons ⟨rfl, Or.inr ⟨rfl, rfl, ?_⟩⟩ .nil
    exact hCollects.value _ _ pair.2
  · exact hDrawn.elim
  · refine .cons ⟨rfl, Or.inr ⟨rfl, rfl, ?_⟩⟩ .nil
    exact hCollects.tuple items hDrawn
  · refine .cons ⟨rfl, Or.inr ⟨rfl, rfl, ?_⟩⟩ .nil
    have hDict := hCollects.dict pairs hDrawn
    simpa [Function.comp_def] using hDict

theorem paramsOf_map_cons
    {α : Type}
    (f : α → Expr)
    (slot : BoundSlot α)
    (slots : List (BoundSlot α)) :
    NormalizedCall.paramsOf
        ((BoundArguments.withDefaults ⟨slot :: slots⟩).map f) =
      NormalizedCall.paramsOf
          ((BoundArguments.withDefaults ⟨[slot]⟩).map f) ++
        NormalizedCall.paramsOf
          ((BoundArguments.withDefaults ⟨slots⟩).map f) := by
  simp only [← BoundArguments.withDefaults_map]
  exact paramsOf_cons (Signature.mapSlot f slot)
    (slots.map (Signature.mapSlot f))

/- Calls with paired arguments have normal forms with paired parameters. -/
theorem paired_of_normalizeWith
    {related inner : Expr → Expr → Prop}
    {positional : List (Paired inner)}
    {keywords : Keywords (Paired inner)}
    (hCollects : Collects related inner positional keywords)
    {signature : Signature}
    {leftCallee rightCallee : Expr}
    {leftArgs rightArgs : List Expr}
    {leftKeywords rightKeywords : List (KeywordArg Expr)}
    (hLeftArgs : positional.map Paired.first = leftArgs)
    (hRightArgs : positional.map Paired.second = rightArgs)
    (hLeftKeywords :
      keywords.mapValues Paired.first = namedKeywords leftKeywords)
    (hRightKeywords :
      keywords.mapValues Paired.second = namedKeywords rightKeywords)
    {left right : NormalizedCall}
    (hLeft :
      normalizeWith signature leftCallee leftArgs leftKeywords =
        .ok left)
    (hRight :
      normalizeWith signature rightCallee rightArgs rightKeywords =
        .ok right) :
    List.Forall₂ (ParamsPaired related) left.params right.params := by
  unfold normalizeWith at hLeft hRight
  rw [← hLeftArgs, ← hLeftKeywords, Signature.bind_map] at hLeft
  rw [← hRightArgs, ← hRightKeywords, Signature.bind_map] at hRight
  cases hBound : signature.bind positional keywords with
  | error fault => simp [hBound, Except.map] at hLeft
  | ok bound =>
      simp only [hBound, Except.map, Except.ok.injEq,
        BoundArguments.withDefaults_map] at hLeft hRight
      subst hLeft hRight
      have hDrawn := (Signature.drawn_of_bind hBound).2
      obtain ⟨slots⟩ := bound
      dsimp only
      clear hBound
      induction slots with
      | nil => exact .nil
      | cons slot rest ih =>
          rw [paramsOf_map_cons Paired.first slot rest,
            paramsOf_map_cons Paired.second slot rest]
          refine List.rel_append ?_ (ih ?_)
          · exact paired_of_entry hCollects
              (hDrawn slot List.mem_cons_self).2
          · intro other hOther
            exact hDrawn other (List.mem_cons_of_mem _ hOther)

------------------------------------------------------------
-- Written Parameters
------------------------------------------------------------

/- What holds of the arguments of a call, and where they are collected. -/
structure HoldsOfArguments
    (good : Expr → Prop)
    (args : List Expr)
    (keywords : Keywords Expr) :
    Prop where
  arg : ∀ arg ∈ args, good arg
  keyword : ∀ entry ∈ keywords, good entry.2
  tuple :
    ∀ items : List Expr, items.Sublist args →
      good (.synthetic (.tuple items))
  dict :
    ∀ pairs : Keywords Expr, pairs.Sublist keywords →
      good
        (.synthetic (.dict (pairs.map fun (name, value) =>
          (.synthetic (.str name), value))))

theorem written_of_entry
    {good : Expr → Prop}
    {positional : List { value // good value }}
    {keywords : Keywords { value // good value }}
    (hGood :
      HoldsOfArguments good (positional.map Subtype.val)
        (keywords.mapValues Subtype.val))
    {slot : BoundSlot { value // good value }}
    (hDrawn : Signature.Drawn positional keywords slot) :
    ∀ param ∈
        NormalizedCall.paramsOf
          ((BoundArguments.withDefaults ⟨[slot]⟩).map Subtype.val),
      param.fromDefault = false → good param.value := by
  obtain ⟨⟨name, kind, default⟩, binding⟩ := slot
  intro param hParam hWritten
  rcases binding with _ | (arg | _ | items | pairs)
  · -- Nothing is written: a collector is empty, or a default stands.
    cases kind
    case varPositional =>
        cases List.mem_singleton.mp hParam
        exact hGood.tuple [] (List.nil_sublist _)
    case varKeyword =>
        cases List.mem_singleton.mp hParam
        exact hGood.dict [] (List.nil_sublist _)
    all_goals
      cases default with
      | none => cases hParam
      | some value =>
          cases List.mem_singleton.mp hParam
          cases hWritten
  · cases List.mem_singleton.mp hParam
    exact arg.2
  · exact hDrawn.elim
  · cases List.mem_singleton.mp hParam
    exact hGood.tuple _ (List.Sublist.map _ hDrawn)
  · cases List.mem_singleton.mp hParam
    exact hGood.dict _ (List.Sublist.map _ hDrawn)

/- What holds of the arguments holds of all values that are no defaults. -/
theorem written_of_normalizeWith
    {good : Expr → Prop}
    {signature : Signature}
    {callee : Expr}
    {args : List Expr}
    {keywords : List (KeywordArg Expr)}
    (hGood : HoldsOfArguments good args (namedKeywords keywords))
    {call : NormalizedCall}
    (hNormal :
      normalizeWith signature callee args keywords = .ok call) :
    ∀ param ∈ call.params,
      param.fromDefault = false → good param.value := by
  obtain ⟨positional, rfl⟩ :
      ∃ positional : List { value // good value },
        positional.map Subtype.val = args :=
    ⟨args.attachWith good hGood.arg, by simp⟩
  obtain ⟨entries, hEntries⟩ :
      ∃ entries : Keywords { value // good value },
        entries.mapValues Subtype.val = namedKeywords keywords := by
    refine ⟨(namedKeywords keywords).attach.map fun entry =>
      (entry.1.1, ⟨entry.1.2, hGood.keyword _ entry.2⟩), ?_⟩
    rw [Keywords.mapValues, List.map_map]
    exact List.attach_map_subtype_val _
  unfold normalizeWith at hNormal
  rw [← hEntries] at hGood hNormal
  rw [Signature.bind_map] at hNormal
  cases hBound : signature.bind positional entries with
  | error fault => simp [hBound, Except.map] at hNormal
  | ok bound =>
      simp only [hBound, Except.map, Except.ok.injEq,
        BoundArguments.withDefaults_map] at hNormal
      subst hNormal
      have hDrawn := (Signature.drawn_of_bind hBound).2
      obtain ⟨slots⟩ := bound
      dsimp only
      clear hBound
      induction slots with
      | nil =>
          intro param hParam
          cases hParam
      | cons slot rest ih =>
          rw [paramsOf_map_cons Subtype.val slot rest,
            List.forall_mem_append]
          refine ⟨?_, ih ?_⟩
          · exact written_of_entry hGood
              (hDrawn slot List.mem_cons_self).2
          · intro other hOther
            exact hDrawn other (List.mem_cons_of_mem _ hOther)

section Arguments

open SnippetGrader.Comparison (CallParts callParts? node_of_callParts)

variable {holds : Node → Prop}
variable {node : Node}
variable {parts : CallParts}

theorem Node.Everywhere.arg
    (hNode : node.Everywhere holds)
    (hParts : callParts? node = some parts)
    {value : Expr}
    (hValue : value ∈ parts.args) :
    (Node.expr value).Everywhere holds := by
  obtain ⟨span, rfl⟩ := node_of_callParts hParts
  refine hNode.atChild ?_
  simp [children, slots, exprSlots, slotChildren, exprsSlot, hValue]

theorem Node.Everywhere.keywordValue
    (hNode : node.Everywhere holds)
    (hParts : callParts? node = some parts)
    {entry : String × Expr}
    (hEntry : entry ∈ namedKeywords parts.keywords) :
    (Node.expr entry.2).Everywhere holds := by
  obtain ⟨span, rfl⟩ := node_of_callParts hParts
  obtain ⟨keyword, hMem, hName⟩ := List.mem_filterMap.mp hEntry
  obtain ⟨ident, -, rfl⟩ := Option.map_eq_some_iff.mp hName
  have hKeyword : (Node.keyword keyword).Everywhere holds := by
    refine hNode.atChild ?_
    simp [children, slots, exprSlots, slotChildren, hMem]
  refine hKeyword.atChild ?_
  simp [children, slots, slotChildren, exprSlot]

/-
  What holds everywhere in a call holds everywhere in the values
  of its parameters, if it holds of what collects them.
-/
theorem Node.Everywhere.arguments
    (hNode : node.Everywhere holds)
    (hSynthetic :
      ∀ form, callParts? (.expr (.synthetic form)) = none →
        holds (.expr (.synthetic form)))
    (hParts : callParts? node = some parts) :
    HoldsOfArguments (fun value => (Node.expr value).Everywhere holds)
      parts.args (namedKeywords parts.keywords) := by
  refine ⟨fun _ hArg => hNode.arg hParts hArg,
    fun _ hEntry => hNode.keywordValue hParts hEntry, ?_, ?_⟩
  · intro items hItems
    refine ⟨hSynthetic _ rfl, fun child hChild => ?_⟩
    simp only [children, slots, Expr.synthetic, Expr.form_mk, exprSlots,
      List.flatMap_singleton, slotChildren, exprsSlot,
      List.mem_map] at hChild
    obtain ⟨value, hValue, rfl⟩ := hChild
    exact hNode.arg hParts (hItems.subset hValue)
  · intro pairs hPairs
    refine ⟨hSynthetic _ rfl, fun child hChild => ?_⟩
    simp only [children, slots, Expr.synthetic, Expr.form_mk, exprSlots,
      List.flatMap_cons, List.flatMap_nil, List.append_nil, slotChildren,
      exprsSlot, List.mem_append, List.mem_map] at hChild
    obtain ⟨_, ⟨_, ⟨entry, hEntry, rfl⟩, rfl⟩, rfl⟩ |
      ⟨_, ⟨_, ⟨entry, hEntry, rfl⟩, rfl⟩, rfl⟩ := hChild
    · exact .of_leaf (hSynthetic _ rfl) rfl
    · exact hNode.keywordValue hParts (hPairs.subset hEntry)

end Arguments

end SnippetGrader
