import SnippetGrader.Proofs.Comparison.Positions
import SnippetGrader.Proofs.Signature.Respelling
import SnippetGrader.Proofs.Tree.Legible

/-
  Keyword arguments in another order.

  Parameters take their keyword arguments wherever these stand,
  and so the order does not matter to what a parameter is bound
  to. What no parameter takes is collected in a dictionary, in
  the order of the call, and dictionaries are compared entry by
  entry. So two calls that differ only in the order of their
  keyword arguments are accepted iff the collected ones come in
  the same order.

  Key definitions include:
    * `Comparison.CallParts.Reordered`
    * `Comparison.CallParts.collectedNames`

  Key theorems include:
    * `Text.doubleQuoted_append_inj`
    * `Comparison.CallParts.Reordered.texts_eq`
    * `Comparison.CallParts.Reordered.collectedNames_eq`
    * `Comparison.compare_reordered_iff`
-/

namespace SnippetGrader

------------------------------------------------------------
-- Texts that Show Their End
------------------------------------------------------------

namespace Text

/- The character that is written as a backslash and another one. -/
def unescaped (written : Char) : Char :=
  if written = 'n' then '\n'
  else if written = 't' then '\t'
  else if written = 'r' then '\r'
  else written

/- A character is written after a backslash or as it is. -/
theorem escaped_cases
    (c : Char) :
    (∃ written,
        escaped '"' c = ['\\', written] ∧ unescaped written = c) ∨
      escaped '"' c = [c] ∧ c ≠ '\\' ∧ c ≠ '"' := by
  unfold escaped
  split_ifs with hSlash hLine hTab hReturn hMark
  · exact Or.inl ⟨_, rfl, (hSlash.trans rfl).symm⟩
  · exact Or.inl ⟨_, rfl, (hLine.trans rfl).symm⟩
  · exact Or.inl ⟨_, rfl, (hTab.trans rfl).symm⟩
  · exact Or.inl ⟨_, rfl, (hReturn.trans rfl).symm⟩
  · exact Or.inl ⟨_, rfl, (hMark.trans rfl).symm⟩
  · exact Or.inr ⟨rfl, hSlash, hMark⟩

theorem escaped_append_inj
    {c d : Char}
    {left right : List Char}
    (hSame : escaped '"' c ++ left = escaped '"' d ++ right) :
    c = d ∧ left = right := by
  rcases escaped_cases c with
      ⟨written, hFirst, hC⟩ | ⟨hFirst, hNotSlash, -⟩ <;>
    rcases escaped_cases d with
      ⟨other, hSecond, hD⟩ | ⟨hSecond, hNotSlash', -⟩ <;>
    rw [hFirst, hSecond] at hSame
  · obtain ⟨hWritten, hRest⟩ := List.cons.inj (List.cons.inj hSame).2
    exact ⟨hC.symm.trans ((congrArg unescaped hWritten).trans hD), hRest⟩
  · exact absurd (List.cons.inj hSame).1.symm hNotSlash'
  · exact absurd (List.cons.inj hSame).1 hNotSlash
  · exact List.cons.inj hSame

theorem escaped_ne_mark
    (c : Char)
    (left right : List Char) :
    escaped '"' c ++ left ≠ '"' :: right := by
  intro hSame
  rcases escaped_cases c with ⟨_, hWritten, -⟩ | ⟨hPlain, -, hNotMark⟩
  · rw [hWritten] at hSame
    exact absurd (List.cons.inj hSame).1 (by decide)
  · rw [hPlain] at hSame
    exact hNotMark (List.cons.inj hSame).1

/- A quoted text shows where it ends. -/
theorem content_append_inj
    {first second left right : List Char}
    (hSame :
      first.flatMap (escaped '"') ++ '"' :: left =
        second.flatMap (escaped '"') ++ '"' :: right) :
    first = second ∧ left = right := by
  induction first generalizing second with
  | nil =>
      cases second with
      | nil => exact ⟨rfl, (List.cons.inj hSame).2⟩
      | cons d second =>
          rw [List.flatMap_cons, List.append_assoc] at hSame
          exact absurd hSame.symm (escaped_ne_mark d _ _)
  | cons c first ih =>
      rw [List.flatMap_cons, List.append_assoc] at hSame
      cases second with
      | nil => exact absurd hSame (escaped_ne_mark c _ _)
      | cons d second =>
          rw [List.flatMap_cons, List.append_assoc] at hSame
          obtain ⟨rfl, hRest⟩ := escaped_append_inj hSame
          obtain ⟨rfl, rfl⟩ := ih hRest
          exact ⟨rfl, rfl⟩

theorem doubleQuoted_append_inj
    {first second left right : String}
    (hSame : doubleQuoted first ++ left = doubleQuoted second ++ right) :
    first = second ∧ left = right := by
  have hChars := congrArg String.toList hSame
  simp only [doubleQuoted, quotedWith, String.toList_append,
    String.toList_ofList, List.cons_append, List.append_assoc,
    List.cons.injEq, true_and,
    List.nil_append] at hChars
  obtain ⟨hFirst, hLeft⟩ := content_append_inj hChars
  exact ⟨String.toList_inj.mp hFirst, String.toList_inj.mp hLeft⟩

end Text

theorem commaJoined_cons
    (text : String)
    (texts : List String) :
    commaJoined (text :: texts) =
      text ++ (if texts = [] then "" else ", " ++ commaJoined texts) := by
  cases texts with
  | nil => simp [commaJoined]
  | cons next rest => simp [commaJoined, String.append_assoc]

namespace Keywords

/- The texts of dictionary entries. -/
def entryTexts (keywords : Keywords String) : List String :=
  keywords.map fun (name, text) => Text.doubleQuoted name ++ ": " ++ text

theorem entryTexts_cons
    (entry : String × String)
    (rest : Keywords String) :
    entryTexts (entry :: rest) =
      (Text.doubleQuoted entry.1 ++ ": " ++ entry.2) :: entryTexts rest :=
  rfl

theorem entryTexts_eq_nil_iff
    {keywords : Keywords String} :
    keywords.entryTexts = [] ↔ keywords = [] :=
  List.map_eq_nil_iff

/- The joined texts of entries tell which entry comes first. -/
theorem eq_of_joined_entryTexts
    {keywords others : Keywords String}
    (hPerm : keywords.Perm others)
    (hDistinct : (keywords.map (·.1)).Nodup)
    {left right : String}
    (hText :
      commaJoined keywords.entryTexts ++ left =
        commaJoined others.entryTexts ++ right) :
    keywords = others := by
  induction keywords generalizing others with
  | nil => exact hPerm.nil_eq
  | cons entry rest ih =>
      cases others with
      | nil => exact absurd hPerm.symm.nil_eq (List.cons_ne_nil _ _).symm
      | cons other rest' =>
          rw [entryTexts_cons, entryTexts_cons, commaJoined_cons,
            commaJoined_cons] at hText
          simp only [String.append_assoc, entryTexts_eq_nil_iff] at hText
          obtain ⟨hName, hText⟩ := Text.doubleQuoted_append_inj hText
          have hEntry : other = entry :=
            List.inj_on_of_nodup_map hDistinct
              (hPerm.mem_iff.mpr List.mem_cons_self) List.mem_cons_self
              hName.symm
          subst hEntry
          have hRest : rest = [] ↔ rest' = [] := by
            rw [← List.length_eq_zero_iff, ← List.length_eq_zero_iff,
              hPerm.cons_inv.length_eq]
          have hDistinct := (List.nodup_cons.mp hDistinct).2
          by_cases hNil : rest = []
          · rw [hNil, hRest.mp hNil]
          · simp only [hNil, mt hRest.mpr hNil, if_false,
              String.append_assoc, String.append_right_inj] at hText
            rw [ih hPerm.cons_inv hDistinct hText]

end Keywords

------------------------------------------------------------
-- Collected Keywords
------------------------------------------------------------

namespace Signature

variable {α β : Type}
variable (signature : Signature)

theorem unclaimed_map
    (f : α → β)
    (positional : List α)
    (keywords : Keywords α) :
    signature.unclaimed (positional.map f) (keywords.mapValues f) =
      (signature.unclaimed positional keywords).mapValues f := by
  simp only [unclaimed, Keywords.without, Keywords.mapValues,
    List.length_map, List.filter_map, Function.comp_def]

end Signature

------------------------------------------------------------
-- Reordered Calls
------------------------------------------------------------

open SnippetGrader.Comparison

/- The dictionary of collected keywords. -/
abbrev Keywords.asDict (pairs : Keywords Expr) : Expr :=
  .synthetic
    (.dict (pairs.map fun (key, value) => (.synthetic (.str key), value)))

theorem Keywords.source_asDict
    (pairs : Keywords Expr) :
    pairs.asDict.source =
      "\x7b" ++ (commaJoined (pairs.mapValues Expr.source).entryTexts
        ++ "\x7d") := by
  have hTexts :
      Expr.entryTexts
          (pairs.map fun (key, value) => (.synthetic (.str key), value)) =
        (pairs.mapValues Expr.source).entryTexts := by
    induction pairs with
    | nil => rfl
    | cons pair rest ih =>
        rw [List.map_cons, Expr.entryTexts, ih]
        rfl
  rw [← hTexts, ← String.append_assoc]
  rfl

namespace Comparison

/-
  The parts of calls that differ only in the order of their
  keyword arguments, and in positions.
-/
structure CallParts.Reordered (left right : CallParts) : Prop where
  callee : left.callee.erased = right.callee.erased
  args : left.args.map Expr.erased = right.args.map Expr.erased
  keywords :
    (left.keywords.map KeywordArg.erased).Perm
      (right.keywords.map KeywordArg.erased)

/- The names of the keywords that no parameter takes, in order. -/
def CallParts.collectedNames
    (parts : CallParts)
    (signature : Signature) :
    List String :=
  (signature.unclaimed parts.args (namedKeywords parts.keywords)).map (·.1)

variable {left right : CallParts}
variable {signature : Signature}
variable {leftCall rightCall : NormalizedCall}

theorem CallParts.collectedNames_erased
    (parts : CallParts)
    (signature : Signature) :
    (signature.unclaimed (parts.args.map Expr.erased)
        (namedKeywords (parts.keywords.map KeywordArg.erased))).map (·.1) =
      parts.collectedNames signature := by
  rw [namedKeywords_erased, Signature.unclaimed_map, Keywords.mapValues,
    List.map_map]
  rfl

theorem CallParts.Reordered.hasUnpacking_eq
    (hReordered : left.Reordered right) :
    hasUnpacking left.args left.keywords =
      hasUnpacking right.args right.keywords := by
  rw [← hasUnpacking_erased, hReordered.args,
    ← hasUnpacking_erased right.args]
  unfold hasUnpacking
  rw [hReordered.keywords.any_eq]

/- A normal form shows what the parameters are bound to. -/
theorem texts_of_normalizeWith
    (hWell : signature.WellFormed)
    {callee : Expr}
    {args : List Expr}
    {keywords : List (KeywordArg Expr)}
    {call : NormalizedCall}
    (hNormal : normalizeWith signature callee args keywords = .ok call) :
    call.texts =
      (signature.settledEntries args (namedKeywords keywords)).filterMap
        fun (param, binding) =>
          (BoundArguments.bindingExpr? param binding).map Expr.source := by
  unfold normalizeWith at hNormal
  cases hBound : signature.bind args (namedKeywords keywords) with
  | error fault =>
      rw [hBound] at hNormal
      cases hNormal
  | ok bound =>
      rw [hBound] at hNormal
      cases hNormal
      rw [NormalizedCall.texts, texts_paramsOf,
        Signature.entries_withDefaults_of_bind hWell hBound]

theorem accepts_of_normalizeWith
    (hWell : signature.WellFormed)
    {callee : Expr}
    {args : List Expr}
    {keywords : List (KeywordArg Expr)}
    {call : NormalizedCall}
    (hNormal : normalizeWith signature callee args keywords = .ok call) :
    signature.Accepts args (namedKeywords keywords) := by
  unfold normalizeWith at hNormal
  cases hBound : signature.bind args (namedKeywords keywords) with
  | error fault =>
      rw [hBound] at hNormal
      cases hNormal
  | ok bound =>
      exact ((Signature.bind_eq_ok_iff hWell _ _ bound).mp hBound).1

/- A normal form without positions has the same texts. -/
theorem exists_normalizeWith_erased
    {callee : Expr}
    {args : List Expr}
    {keywords : List (KeywordArg Expr)}
    {call : NormalizedCall}
    (hNormal : normalizeWith signature callee args keywords = .ok call) :
    ∃ erased,
      normalizeWith signature callee.erased (args.map Expr.erased)
          (keywords.map KeywordArg.erased) = .ok erased ∧
        erased.texts = call.texts := by
  have hTexts :=
    texts_normalizeWith_erased signature callee args keywords
  rw [hNormal] at hTexts
  cases hErased :
      normalizeWith signature callee.erased (args.map Expr.erased)
        (keywords.map KeywordArg.erased) with
  | error fault =>
      rw [hErased] at hTexts
      cases hTexts
  | ok erased =>
      rw [hErased] at hTexts
      exact ⟨erased, rfl, Except.ok.inj hTexts⟩

/-
  Calls that differ in the order of keywords have normal forms
  of one text if the collected keywords come in the same order.
-/
theorem CallParts.Reordered.texts_eq
    (hReordered : left.Reordered right)
    (hWell : signature.WellFormed)
    (hOrder :
      left.collectedNames signature = right.collectedNames signature)
    (hLeft :
      normalizeWith signature left.callee left.args left.keywords =
        .ok leftCall)
    (hRight :
      normalizeWith signature right.callee right.args right.keywords =
        .ok rightCall) :
    leftCall.texts = rightCall.texts := by
  obtain ⟨first, hFirst, hFirstTexts⟩ := exists_normalizeWith_erased hLeft
  obtain ⟨second, hSecond, hSecondTexts⟩ :=
    exists_normalizeWith_erased hRight
  have hPerm :
      (namedKeywords (left.keywords.map KeywordArg.erased)).Perm
        (namedKeywords (right.keywords.map KeywordArg.erased)) :=
    hReordered.keywords.filterMap _
  have hDistinct := (accepts_of_normalizeWith hWell hFirst).distinct
  rw [← left.collectedNames_erased, ← right.collectedNames_erased,
    ← hReordered.args] at hOrder
  rw [← hFirstTexts, ← hSecondTexts, texts_of_normalizeWith hWell hFirst,
    texts_of_normalizeWith hWell hSecond, ← hReordered.args,
    Signature.settledEntries_of_perm signature _ hPerm hDistinct hOrder]

/- The parameter that collects keywords holds them in a dictionary. -/
theorem asDict_mem_params
    (hWell : signature.WellFormed)
    {param : Parameter}
    (hParam : param ∈ signature.params)
    (hKind : param.kind = .varKeyword)
    {parts : CallParts}
    {call : NormalizedCall}
    (hNormal :
      normalizeWith signature parts.callee parts.args parts.keywords =
        .ok call) :
    ⟨param.name,
        (signature.unclaimed parts.args
          (namedKeywords parts.keywords)).asDict, false⟩ ∈
      call.params := by
  unfold normalizeWith at hNormal
  cases hBound : signature.bind parts.args (namedKeywords parts.keywords) with
  | error fault =>
      rw [hBound] at hNormal
      cases hNormal
  | ok bound =>
      rw [hBound] at hNormal
      cases hNormal
      have hBeyond :
          param ∈ beyond parts.args.length signature.params := by
        apply List.mem_append_right
        simp [hParam, hKind, ParamKind.isPositional]
      have hEntry :
          (param, .varKeyword
              (signature.unclaimed parts.args
                (namedKeywords parts.keywords))) ∈
            signature.settledEntries parts.args
              (namedKeywords parts.keywords) := by
        apply List.mem_append_right
        refine List.mem_map.mpr ⟨param, hBeyond, ?_⟩
        simp only [Signature.settled, hKind]
      rw [← Signature.entries_withDefaults_of_bind hWell hBound] at hEntry
      exact List.mem_filterMap.mpr ⟨_, hEntry, rfl⟩

------------------------------------------------------------
-- What Acceptance Shows
------------------------------------------------------------

section Accepted

variable {σ τ : Type}
variable {resolvers : Resolvers σ τ}
variable {answer : Expr → Except ResolveError Signature}
variable {depth : Nat}

/- Nodes that are no calls are accepted by shape alone. -/
theorem sameShape_of_accepts
    (hSubmission : resolvers.submission.Answers answer)
    (hSolution : resolvers.solution.Answers answer)
    {left right : Node}
    (hNone : callParts? left = none)
    (hAccepts :
      Accepts (toDepth resolvers depth) (some left) (some right)) :
    left.SameShape right ∧
      ∃ below, depth = below + 1 ∧
        ∀ a b, (a, b) ∈ left.children.zip right.children →
          Accepts (toDepth resolvers below) (some a) (some b) := by
  cases depth with
  | zero =>
      obtain ⟨_, _, _, hOk⟩ := hAccepts
      exact absurd hOk throw_ne_ok
  | succ below =>
      rcases accepts_node_cases hSubmission hSolution
          (strict_toDepth resolvers below) hAccepts with
        ⟨hShape, hChildren⟩ | hCalls
      · exact ⟨hShape, below, rfl, hChildren⟩
      · obtain ⟨calls⟩ := hCalls
        have hCall := calls.leftIsCall
        rw [hNone] at hCall
        cases hCall

/- Dictionaries that are accepted have the same keys in the same order. -/
theorem names_of_accepts_asDict
    (hSubmission : resolvers.submission.Answers answer)
    (hSolution : resolvers.solution.Answers answer)
    {pairs others : Keywords Expr}
    (hAccepts :
      Accepts (toDepth resolvers depth) (some (.expr pairs.asDict))
        (some (.expr others.asDict))) :
    pairs.map (·.1) = others.map (·.1) := by
  obtain ⟨hShape, below, -, hChildren⟩ :=
    sameShape_of_accepts hSubmission hSolution rfl hAccepts
  have hLength : pairs.length = others.length := by
    obtain ⟨_, hSlots⟩ := hShape
    cases hSlots with
    | cons hKeys _ => simpa [Node.exprsSlot, Slot.sameShape] using hKeys.2
  rw [← List.forall₂_eq_eq_eq, List.forall₂_map_left_iff,
    List.forall₂_map_right_iff, List.forall₂_iff_zip]
  refine ⟨hLength, fun {pair other} hMem => ?_⟩
  have hKeys :
      (Node.expr (.synthetic (.str pair.1)),
          Node.expr (.synthetic (.str other.1))) ∈
        (Node.expr pairs.asDict).children.zip
          (Node.expr others.asDict).children := by
    have hDict (entries : Keywords Expr) :
        (Node.expr entries.asDict).children =
          (entries.map fun entry => .expr (.synthetic (.str entry.1))) ++
            entries.map fun entry => .expr entry.2 := by
      simp [Node.children, Node.slots, Expr.synthetic, Node.exprSlots,
        Function.comp_def]
    rw [hDict, hDict, List.zip_append (by simpa using hLength),
      List.zip_map]
    exact List.mem_append_left _ (List.mem_map.mpr ⟨_, hMem, rfl⟩)
  obtain ⟨hText, -⟩ :=
    sameShape_of_accepts hSubmission hSolution rfl
      (hChildren _ _ hKeys)
  obtain ⟨_, hSlots⟩ := hText
  cases hSlots with
  | cons hHere _ =>
      have hSame : (pair.1 == other.1) = true := hHere.2
      exact beq_iff_eq.mp hSame

/- Reordered calls collect the same keywords, in some order. -/
theorem CallParts.Reordered.collected_perm
    (hReordered : left.Reordered right)
    (signature : Signature) :
    ((signature.unclaimed left.args
        (namedKeywords left.keywords)).mapValues Expr.source).Perm
      ((signature.unclaimed right.args
        (namedKeywords right.keywords)).mapValues Expr.source) := by
  have hNamed :
      (namedKeywords (left.keywords.map KeywordArg.erased)).Perm
        (namedKeywords (right.keywords.map KeywordArg.erased)) :=
    hReordered.keywords.filterMap _
  have hPerm :=
    (signature.unclaimed_of_perm (left.args.map Expr.erased) hNamed).map
      fun entry => (entry.1, entry.2.source)
  rw [namedKeywords_erased, namedKeywords_erased,
    Signature.unclaimed_map, hReordered.args,
    Signature.unclaimed_map] at hPerm
  simpa only [Keywords.mapValues, List.map_map, Function.comp_def,
    Expr.source_erased] using hPerm

/-
  If the parameters of reordered calls are accepted, then the
  collected keywords come in the same order.
-/
theorem CallParts.Reordered.collectedNames_eq
    (hReordered : left.Reordered right)
    (hSubmission : resolvers.submission.Answers answer)
    (hSolution : resolvers.solution.Answers answer)
    (hWell : signature.WellFormed)
    (hLeft :
      normalizeWith signature left.callee left.args left.keywords =
        .ok leftCall)
    (hRight :
      normalizeWith signature right.callee right.args right.keywords =
        .ok rightCall)
    (hParams :
      List.Forall₂ (ParamsAccepted (toDepth resolvers depth))
        leftCall.params rightCall.params) :
    left.collectedNames signature = right.collectedNames signature := by
  have hFits := accepts_of_normalizeWith hWell hLeft
  by_cases hCollects : ∃ param ∈ signature.params, param.kind = .varKeyword
  · obtain ⟨param, hParam, hKind⟩ := hCollects
    obtain ⟨other, hOther, hName, hValues⟩ :=
      exists_of_forall₂_left hParams
        (asDict_mem_params hWell hParam hKind hLeft)
    have hNames : (rightCall.params.map (·.name)).Nodup := by
      rw [names_of_normalizeWith hRight]
      exact hWell.distinct
    cases List.inj_on_of_nodup_map hNames hOther
      (asDict_mem_params hWell hParam hKind hRight) hName.symm
    rcases hValues with hText | ⟨-, -, hAccepts⟩
    · simp only [Keywords.source_asDict, String.append_right_inj] at hText
      have hDistinct :
          (((signature.unclaimed left.args
              (namedKeywords left.keywords)).mapValues
                Expr.source).map (·.1)).Nodup := by
        rw [Keywords.mapValues, List.map_map]
        exact (Signature.names_unclaimed signature _ _) ▸
          hFits.distinct.filter _
      have hSame :=
        Keywords.eq_of_joined_entryTexts
          (hReordered.collected_perm signature) hDistinct hText
      have hKeys := congrArg (List.map (·.1)) hSame
      rwa [Keywords.mapValues, Keywords.mapValues, List.map_map,
        List.map_map] at hKeys
    · exact names_of_accepts_asDict hSubmission hSolution hAccepts
  · have hNone {parts : CallParts}
        (hFits :
          signature.Accepts parts.args (namedKeywords parts.keywords)) :
        parts.collectedNames signature = [] := by
      rcases (Signature.known_iff signature parts.args
          (namedKeywords parts.keywords)).mpr hFits.known with
        hNil | hVar
      · rw [CallParts.collectedNames, hNil, List.map_nil]
      · exact absurd ((Signature.hasVarKeyword_iff signature).mp hVar)
          hCollects
    rw [hNone hFits, hNone (accepts_of_normalizeWith hWell hRight)]

end Accepted

------------------------------------------------------------
-- Programs of One Call
------------------------------------------------------------

section Programs

variable {σ τ : Type}
variable {resolvers : Resolvers σ τ}
variable {answer : Expr → Except ResolveError Signature}

theorem run_eq_none_iff
    (submission solution : Program)
    (states : σ × τ) :
    (run resolvers submission solution states).1 = .ok none ↔
      ∃ after,
        toDepth resolvers (submission.size + 1) (some (.program submission))
          (some (.program solution)) {} states = .ok () after := by
  unfold run
  rcases toDepth resolvers (submission.size + 1)
      (some (.program submission)) (some (.program solution)) {}
      states with ⟨_, after⟩ | ⟨_ | _, after⟩ <;> simp

/- Nodes that are no calls are accepted if their children are. -/
theorem succeeds_of_sameShape
    {depth : Nat}
    (hDepth : 0 < depth)
    {left right : Node}
    (hNone : callParts? left = none)
    (hShape : left.SameShape right)
    (hChildren :
      ∀ a b, (a, b) ∈ left.children.zip right.children →
        ∀ place, Succeeds (toDepth resolvers depth (some a) (some b) place))
    (place : Place) :
    Succeeds
      (toDepth resolvers (depth + 1) (some left) (some right) place) := by
  have hAbsent (place : Place) :
      toDepth resolvers depth none none place = return () := by
    cases depth with
    | zero => omega
    | succ below => rfl
  have hSlots (place : Place) :=
    succeeds_bySlots hAbsent hShape hChildren place
  simp only [toDepth, node, bothNodes, hShape.1, beq_self_eq_true,
    if_true, hNone]
  exact hSlots _

/- A call that settles fits the signature of its callee. -/
theorem CallParts.Settles.normalizeWith_ok
    {parts : CallParts}
    (hSettles : parts.Settles answer)
    (hPlain : hasUnpacking parts.args parts.keywords = false)
    (hAnswer : answer parts.callee = .ok signature) :
    ∃ call,
      normalizeWith signature parts.callee parts.args parts.keywords =
        .ok call := by
  rcases hSettles with hStar | ⟨text, hUnknown⟩ | ⟨call, -, found, hFound, hCall⟩
  · rw [hPlain] at hStar
    cases hStar
  · rw [hAnswer] at hUnknown
    cases hUnknown
  · rw [hAnswer] at hFound
    cases hFound
    exact ⟨call, hCall⟩

theorem succeeds_reordered
    (hSubmission : resolvers.submission.Answers answer)
    (hSolution : resolvers.solution.Answers answer)
    (hPositions :
      ∀ a b, a.erased = b.erased → SameAnswer (answer a) (answer b))
    (hWell : signature.WellFormed)
    (hReordered : left.Reordered right)
    (hPlain : hasUnpacking left.args left.keywords = false)
    {first second : Expr}
    (hFirst : callParts? (.expr first) = some left)
    (hSecond : callParts? (.expr second) = some right)
    (hReads : (Node.expr first).Everywhere Node.Grammatical)
    (hLeft : (Node.expr first).Everywhere (Node.CallSettles answer))
    (hRight : (Node.expr second).Everywhere (Node.CallSettles answer))
    (hLeftAnswer : answer left.callee = .ok signature)
    (hRightAnswer : answer right.callee = .ok signature)
    (hLeftNormal :
      normalizeWith signature left.callee left.args left.keywords =
        .ok leftCall)
    (hRightNormal :
      normalizeWith signature right.callee right.args right.keywords =
        .ok rightCall)
    (hOrder :
      left.collectedNames signature = right.collectedNames signature)
    {depth : Nat}
    (hDepth : first.size ≤ depth)
    (place : Place) :
    Succeeds
      (toDepth resolvers (depth + 1) (some (.expr first))
        (some (.expr second)) place) := by
  have hRightPlain : hasUnpacking right.args right.keywords = false := by
    rw [← hReordered.hasUnpacking_eq, hPlain]
  have hCallee := callee_mem_children hFirst
  have hSize := Node.size_lt_of_mem_children hCallee
  have hCalleeDepth : left.callee.size < depth := lt_of_lt_of_le hSize hDepth
  have hAbsent (place : Place) :
      toDepth resolvers depth none none place = return () := by
    cases depth with
    | zero => omega
    | succ below => rfl
  have hErased :
      (Node.expr left.callee).erased = (Node.expr right.callee).erased :=
    congrArg Node.expr hReordered.callee
  have hAnswered :
      (Node.expr left.callee).Everywhere
        (Node.AnsweredAlike answer answer) :=
    Node.everywhere_of_forall
      (fun _ _ _ _ hSame => hPositions _ _ hSame) _
  have hCallees (place : Place) :=
    succeeds_of_erased hSubmission hSolution hCalleeDepth hErased
      (hReads.atChild hCallee) hAnswered (hLeft.atChild hCallee)
      (hRight.atChild (callee_mem_children hSecond)) place
  have hKind : (Node.expr first).kind = (Node.expr second).kind := by
    obtain ⟨_, rfl⟩ := callParts_eq_some hFirst
    obtain ⟨_, rfl⟩ := callParts_eq_some hSecond
    rfl
  simp only [toDepth, node, bothNodes, hKind, beq_self_eq_true, if_true,
    hFirst, hSecond]
  refine succeeds_call hSubmission hSolution ?_
  rw [normalized_of_normalizes
      ⟨hPlain, signature, hLeftAnswer, hLeftNormal⟩,
    normalized_of_normalizes
      ⟨hRightPlain, signature, hRightAnswer, hRightNormal⟩]
  exact succeeds_of_texts hAbsent hFirst hSecond hPlain hRightPlain
    hLeftNormal hRightNormal
    (hReordered.texts_eq hWell hOrder hLeftNormal hRightNormal) hCallees _

/- Keywords of the same names in the same order are collected in it. -/
theorem CallParts.Reordered.collectedNames_eq_of_names
    (hReordered : left.Reordered right)
    (hNames :
      List.Forall₂
        (fun a b => a.name.map (·.name) = b.name.map (·.name))
        left.keywords right.keywords) :
    left.collectedNames signature = right.collectedNames signature := by
  have hLength : left.args.length = right.args.length := by
    simpa using congrArg List.length hReordered.args
  have hKeys (keywords : List (KeywordArg Expr)) :
      (namedKeywords keywords).map (·.1) =
        (keywords.map fun keyword =>
          keyword.name.map (·.name)).reduceOption := by
    simp [namedKeywords, List.reduceOption, List.map_filterMap,
      List.filterMap_map, Function.comp_def]
  have hSame :
      (left.keywords.map fun keyword => keyword.name.map (·.name)) =
        right.keywords.map fun keyword => keyword.name.map (·.name) := by
    rwa [← List.forall₂_eq_eq_eq, List.forall₂_map_left_iff,
      List.forall₂_map_right_iff]
  rw [CallParts.collectedNames, CallParts.collectedNames,
    Signature.names_unclaimed, Signature.names_unclaimed, hKeys, hKeys,
    hSame, hLength]

theorem collectedNames_of_accepts
    (hSubmission : resolvers.submission.Answers answer)
    (hSolution : resolvers.solution.Answers answer)
    (hWell : signature.WellFormed)
    (hReordered : left.Reordered right)
    {first second : Expr}
    (hFirst : callParts? (.expr first) = some left)
    (hSecond : callParts? (.expr second) = some right)
    (hLeftAnswer : answer left.callee = .ok signature)
    (hRightAnswer : answer right.callee = .ok signature)
    {depth : Nat}
    (hAccepts :
      Accepts (toDepth resolvers depth) (some (.expr first))
        (some (.expr second))) :
    left.collectedNames signature = right.collectedNames signature := by
  cases depth with
  | zero =>
      obtain ⟨_, _, _, hOk⟩ := hAccepts
      exact absurd hOk throw_ne_ok
  | succ below =>
      rcases accepts_node_cases hSubmission hSolution
          (strict_toDepth resolvers below) hAccepts with
        ⟨hShape, hChildren⟩ | hCalls
      · obtain ⟨_, hParts, -, -, hKeywords⟩ :=
          callParts_of_sameShape hFirst hShape
        cases hSecond.symm.trans hParts
        refine hReordered.collectedNames_eq_of_names ?_
        refine hKeywords.imp fun a b hMem => ?_
        exact keyword_name_of_sameShape
          (sameShape_of_accepts hSubmission hSolution rfl
            (hChildren _ _ hMem)).1
      · obtain ⟨calls⟩ := hCalls
        cases hFirst.symm.trans calls.leftIsCall
        cases hSecond.symm.trans calls.rightIsCall
        obtain ⟨-, found, hFound, hLeftNormal⟩ := calls.leftNormal
        cases hLeftAnswer.symm.trans hFound
        obtain ⟨-, found, hFound, hRightNormal⟩ := calls.rightNormal
        cases hRightAnswer.symm.trans hFound
        exact hReordered.collectedNames_eq hSubmission hSolution hWell
          hLeftNormal hRightNormal calls.params

/-
  Calls that differ only in the order of their keyword arguments
  are accepted iff the keywords that no parameter takes come in
  the same order.
-/
theorem compare_reordered_iff
    (hSubmission : resolvers.submission.Answers answer)
    (hSolution : resolvers.solution.Answers answer)
    (hPositions :
      ∀ a b, a.erased = b.erased → SameAnswer (answer a) (answer b))
    (hWell : signature.WellFormed)
    (hReordered : left.Reordered right)
    (hPlain : hasUnpacking left.args left.keywords = false)
    (hAnswer : answer left.callee = .ok signature)
    {first second : Expr}
    (hFirst : callParts? (.expr first) = some left)
    (hSecond : callParts? (.expr second) = some right)
    (hReads : (Node.expr first).Everywhere Node.Grammatical)
    (hLeft : (Node.expr first).Everywhere (Node.CallSettles answer))
    (hRight : (Node.expr second).Everywhere (Node.CallSettles answer))
    {submission solution : Program}
    {leftSpan rightSpan : Span}
    (hSubmissionBody : submission.body = [.mk leftSpan (.expr first)])
    (hSolutionBody : solution.body = [.mk rightSpan (.expr second)])
    (states : σ × τ) :
    (run resolvers submission solution states).1 = .ok none ↔
      left.collectedNames signature = right.collectedNames signature := by
  have hRightAnswer : answer right.callee = .ok signature := by
    have hSame := hPositions _ _ hReordered.callee
    rw [hAnswer] at hSame
    cases hFound : answer right.callee with
    | ok found =>
        rw [hFound] at hSame
        exact congrArg _ hSame.symm
    | error fault =>
        rw [hFound] at hSame
        exact hSame.elim
  obtain ⟨leftCall, hLeftNormal⟩ :=
    (hLeft.atNode left hFirst).normalizeWith_ok hPlain hAnswer
  obtain ⟨rightCall, hRightNormal⟩ :=
    (hRight.atNode right hSecond).normalizeWith_ok
      (hReordered.hasUnpacking_eq ▸ hPlain) hRightAnswer
  obtain ⟨submissionBody, submissionSpan⟩ := submission
  obtain ⟨solutionBody, solutionSpan⟩ := solution
  cases hSubmissionBody
  cases hSolutionBody
  rw [run_eq_none_iff]
  constructor
  · rintro ⟨after, hOk⟩
    obtain ⟨-, _, -, hStmts⟩ :=
      sameShape_of_accepts hSubmission hSolution rfl ⟨_, _, _, hOk⟩
    obtain ⟨-, _, -, hExprs⟩ :=
      sameShape_of_accepts hSubmission hSolution rfl
        (hStmts _ _ List.mem_cons_self)
    exact collectedNames_of_accepts hSubmission hSolution hWell hReordered
      hFirst hSecond hAnswer hRightAnswer
      (hExprs _ _ List.mem_cons_self)
  · intro hOrder
    have hCalls :=
      succeeds_reordered hSubmission hSolution hPositions hWell hReordered
        hPlain hFirst hSecond hReads hLeft hRight hAnswer hRightAnswer
        hLeftNormal hRightNormal hOrder le_rfl
    have hSize :
        Program.size ⟨[.mk leftSpan (.expr first)], submissionSpan⟩ =
          first.size + 1 + 1 := by
      simp only [Program.size, Stmt.sizeAll, Stmt.size, StmtForm.childSize]
      omega
    rw [hSize]
    have hStmt :
        (Node.stmt (.mk leftSpan (.expr first))).SameShape
          (.stmt (.mk rightSpan (.expr second))) :=
      ⟨rfl, .cons ⟨rfl, rfl⟩ .nil⟩
    have hProgram :
        (Node.program ⟨[.mk leftSpan (.expr first)],
            submissionSpan⟩).SameShape
          (.program ⟨[.mk rightSpan (.expr second)], solutionSpan⟩) :=
      ⟨rfl, .cons ⟨rfl, rfl⟩ .nil⟩
    refine succeeds_of_sameShape (Nat.succ_pos _) rfl hProgram ?_ {} states
    rintro _ _ (_ | ⟨_, ⟨⟩⟩)
    refine succeeds_of_sameShape (Nat.succ_pos _) rfl hStmt ?_
    rintro _ _ (_ | ⟨_, ⟨⟩⟩)
    exact hCalls

end Programs

------------------------------------------------------------
-- A Callee that Collects Keywords
------------------------------------------------------------

/- A call with keyword arguments only. -/
def callNaming (keywords : List (String × Int)) : CallParts :=
  ⟨.synthetic (.name "f"), [],
    keywords.map fun (name, value) =>
      ⟨some ⟨name, .synthetic⟩, .synthetic (.int value), .synthetic⟩⟩

/- The call as an expression. -/
def CallParts.expr (parts : CallParts) : Expr :=
  .synthetic (.call parts.callee parts.args parts.keywords)

/- The call as a program. -/
def CallParts.program (parts : CallParts) : Program :=
  ⟨[.mk .synthetic (.expr parts.expr)], .synthetic⟩

/- A callee with one parameter of its own. -/
def collecting : Signature :=
  ⟨[⟨"x", .positionalOrKeyword, none⟩, ⟨"rest", .varKeyword, none⟩]⟩

/- The resolver that knows the callee. -/
def collectingResolver : Resolver Unit := fun callee state =>
  (answerByName [("f", collecting)] callee, state)

theorem reordered_callNaming
    {keywords others : List (String × Int)}
    (hPerm : keywords.Perm others) :
    (callNaming keywords).Reordered (callNaming others) :=
  ⟨rfl, rfl, (hPerm.map _).map _⟩

theorem children_callNaming
    (keywords : List (String × Int)) :
    (Node.expr (callNaming keywords).expr).children =
      .expr (.synthetic (.name "f")) ::
        keywords.map fun (name, value) =>
          .keyword
            ⟨some ⟨name, .synthetic⟩, .synthetic (.int value),
              .synthetic⟩ := by
  simp [Node.children, Node.slots, CallParts.expr, callNaming,
    Expr.synthetic, Node.exprSlots, Function.comp_def]

/- Every node of the call settles if the call fits. -/
theorem settles_callNaming
    {keywords : List (String × Int)}
    {call : NormalizedCall}
    (hNormal :
      (callNaming keywords).Normalizes
        (answerByName [("f", collecting)]) call) :
    (Node.expr (callNaming keywords).expr).Everywhere
      (Node.CallSettles (answerByName [("f", collecting)])) := by
  refine ⟨?_, ?_⟩
  · rintro _ ⟨⟩
    exact Or.inr (Or.inr ⟨call, hNormal⟩)
  · rw [children_callNaming, List.forall_mem_cons, List.forall_mem_map]
    refine ⟨.of_leaf (callSettles_of_none rfl) rfl, fun keyword _ => ?_⟩
    refine ⟨callSettles_of_none rfl, ?_⟩
    rintro _ (_ | ⟨_, ⟨⟩⟩)
    exact .of_leaf (callSettles_of_none rfl) rfl

theorem grammatical_callNaming
    {keywords : List (String × Int)}
    (hNames : ∀ keyword ∈ keywords, IsName keyword.1 ∧ 0 ≤ keyword.2)
    (hDistinct : (keywords.map (·.1)).Nodup) :
    (Node.expr (callNaming keywords).expr).Everywhere
      Node.Grammatical := by
  have hName : IsName "f" := by decide
  refine ⟨⟨?_, ?_⟩, ?_⟩
  · simpa [Node.ReadsBack, CallParts.expr, callNaming, Expr.synthetic,
      List.filterMap_map, Function.comp_def] using hDistinct
  · intro index hIndex
    rw [children_callNaming] at hIndex
    simp only [List.mem_cons, Node.expr.injEq, List.mem_map,
      reduceCtorEq, and_false, exists_false, or_false] at hIndex
    subst hIndex
    intro hSlice
    cases hSlice
  · rw [children_callNaming, List.forall_mem_cons, List.forall_mem_map]
    refine ⟨Node.grammatical_of_leaf hName rfl, fun keyword hKeyword => ?_⟩
    obtain ⟨hKeywordName, hValue⟩ := hNames keyword hKeyword
    refine ⟨⟨?_, ?_⟩, ?_⟩
    · rintro ident ⟨⟩
      exact hKeywordName
    · rintro _ (_ | ⟨_, ⟨⟩⟩) hSlice
      cases hSlice
    · rintro _ (_ | ⟨_, ⟨⟩⟩)
      exact Node.grammatical_of_leaf hValue rfl

/- A keyword for a parameter may stand before or after collected ones. -/
theorem compare_reordered_iff_collecting :
    (run ⟨collectingResolver, collectingResolver⟩
      (callNaming [("x", 1), ("a", 2), ("b", 3)]).program
      (callNaming [("a", 2), ("x", 1), ("b", 3)]).program
      ((), ())).1 = .ok none := by
  have hReordered :=
    reordered_callNaming
      (List.Perm.swap ("a", 2) ("x", 1) [("b", (3 : Int))])
  refine (compare_reordered_iff (fun _ _ => rfl) (fun _ _ => rfl)
    (fun _ _ => sameAnswer_byName_of_erased _) (by decide)
    hReordered rfl rfl rfl rfl ?_ ?_ ?_ rfl rfl _).mpr rfl
  · exact grammatical_callNaming (by decide) (by decide)
  · exact settles_callNaming ⟨rfl, _, rfl, rfl⟩
  · exact settles_callNaming ⟨rfl, _, rfl, rfl⟩

/- Collected keywords in another order are another dictionary. -/
theorem reordered_collected_rejected :
    let left := callNaming [("x", 1), ("a", 2), ("b", 3)]
    let right := callNaming [("x", 1), ("b", 3), ("a", 2)]
    collecting.WellFormed ∧
      left.Reordered right ∧
      (∃ call, left.Normalizes (answerByName [("f", collecting)]) call) ∧
      (∃ call, right.Normalizes (answerByName [("f", collecting)]) call) ∧
      ∃ mismatch,
        (run ⟨collectingResolver, collectingResolver⟩ left.program
          right.program ((), ())).1 = .ok (some mismatch) := by
  refine ⟨by decide, reordered_callNaming ?_, ⟨_, rfl, _, rfl, rfl⟩,
    ⟨_, rfl, _, rfl, rfl⟩, _, rfl⟩
  exact (List.Perm.swap ("b", 3) ("a", 2) []).cons _

end Comparison

end SnippetGrader
