import SnippetGrader.Proofs.Comparison.NormalForms
import SnippetGrader.Proofs.Comparison.Steps

/-
  Passing the same arguments in another way.

  Two calls of one callee may pass the same arguments in two
  ways: by position or by name, written out or left to their
  defaults. Programs that differ only in which of the two calls
  stands at some places are accepted, wherever these places are.

  Key definitions include:
    * `Node.Matches`
    * `Restyled`

  Key theorems include:
    * `Comparison.Setting.succeeds_toDepth`
    * `compare_restyled`
-/

namespace SnippetGrader

open SnippetGrader.Comparison

------------------------------------------------------------
-- Matching Trees
------------------------------------------------------------

/-
  Trees of one shape, except at holes, where they hold what a
  relation pairs. The spans of nodes that stand at the same
  place are related, too.
-/
inductive Node.Matches
    (spans : Span → Span → Prop)
    (holes : Expr → Expr → Prop) :
    Node → Node → Prop
  | hole
      {first second : Expr}
      (here : holes first second) :
      Matches spans holes (.expr first) (.expr second)
  | node
      {left right : Node}
      (span : spans left.span right.span)
      (shape : left.SameShape right)
      (children :
        ∀ a b, (a, b) ∈ left.children.zip right.children →
          Matches spans holes a b) :
      Matches spans holes left right

namespace Node.Matches

variable {spans : Span → Span → Prop}
variable {holes : Expr → Expr → Prop}

/- A tree without holes matches with any holes. -/
theorem mono
    {others : Expr → Expr → Prop}
    (hHoles : ∀ first second, holes first second → others first second)
    {left right : Node}
    (hMatches : left.Matches spans holes right) :
    left.Matches spans others right := by
  induction hMatches with
  | hole hHere => exact .hole (hHoles _ _ hHere)
  | node hSpan hShape _ ih => exact .node hSpan hShape ih

end Node.Matches

------------------------------------------------------------
-- Answers
------------------------------------------------------------

/- Answers that differ at most in their wording. -/
def SameAnswer :
    Except ResolveError Signature →
    Except ResolveError Signature →
    Prop
  | .ok left, .ok right => left = right
  | .error (.notResolvable _), .error (.notResolvable _) => True
  | .error (.environment _), .error (.environment _) => True
  | _, _ => False

namespace Comparison

/- A call that has a normal form, or whose callee is not known. -/
def CallParts.Settles
    (parts : CallParts)
    (answer : Expr → Except ResolveError Signature) :
    Prop :=
  hasUnpacking parts.args parts.keywords = true ∨
    (∃ text, answer parts.callee = .error (.notResolvable text)) ∨
      ∃ call, parts.Normalizes answer call

/- What normalizing a call comes to, given the answers. -/
def CallParts.normalized
    (parts : CallParts)
    (answer : Expr → Except ResolveError Signature) :
    Except NormalizeError NormalizedCall :=
  if hasUnpacking parts.args parts.keywords then
    .error (.notResolvable parts.callee.source)
  else
    match answer parts.callee with
    | .error fault => .error (.ofResolve fault)
    | .ok signature =>
        match
          normalizeWith signature parts.callee parts.args parts.keywords
        with
        | .ok call => .ok call
        | .error fault => .error (.binding fault)

theorem normalize_fst
    {σ : Type}
    {resolver : Resolver σ}
    {answer : Expr → Except ResolveError Signature}
    (hAnswers : resolver.Answers answer)
    (parts : CallParts)
    (state : σ) :
    (normalize resolver parts.callee parts.args parts.keywords
      state).1 = parts.normalized answer := by
  have hAnswer := hAnswers parts.callee state
  unfold normalize CallParts.normalized
  split
  · rfl
  · rw [← hAnswer]
    cases resolver parts.callee state with
    | mk result after =>
        cases result with
        | error fault => rfl
        | ok signature =>
            dsimp only
            cases normalizeWith signature parts.callee parts.args
              parts.keywords <;> rfl

theorem normalized_of_normalizes
    {parts : CallParts}
    {answer : Expr → Except ResolveError Signature}
    {call : NormalizedCall}
    (hNormal : parts.Normalizes answer call) :
    parts.normalized answer = .ok call := by
  obtain ⟨hUnpacking, signature, hAnswer, hCall⟩ := hNormal
  unfold CallParts.normalized
  rw [hUnpacking, hAnswer]
  simp only [Bool.false_eq_true, if_false, hCall]

end Comparison

/- A node that is not a call, or a call that settles. -/
def Node.CallSettles
    (answer : Expr → Except ResolveError Signature)
    (node : Node) :
    Prop :=
  ∀ parts, callParts? node = some parts → parts.Settles answer

theorem callSettles_of_none
    {answer : Expr → Except ResolveError Signature}
    {node : Node}
    (hNone : callParts? node = none) :
    node.CallSettles answer := by
  intro parts hParts
  rw [hNone] at hParts
  cases hParts

/-
  Two calls that pass the same arguments to one callee: both
  have a normal form, and each parameter has values of one text
  in the two.
-/
def Restyled
    (spans : Span → Span → Prop)
    (answer : Expr → Except ResolveError Signature)
    (first second : Expr) :
    Prop :=
  ∃ leftParts rightParts signature left right,
    callParts? (.expr first) = some leftParts ∧
      callParts? (.expr second) = some rightParts ∧
      Node.Matches spans (fun _ _ => False)
        (.expr leftParts.callee) (.expr rightParts.callee) ∧
      hasUnpacking leftParts.args leftParts.keywords = false ∧
      hasUnpacking rightParts.args rightParts.keywords = false ∧
      answer leftParts.callee = .ok signature ∧
      normalizeWith signature leftParts.callee leftParts.args
        leftParts.keywords = .ok left ∧
      normalizeWith signature rightParts.callee rightParts.args
        rightParts.keywords = .ok right ∧
      left.params.map (·.value.source) =
        right.params.map (·.value.source)

------------------------------------------------------------
-- Successful Steps
------------------------------------------------------------

namespace Comparison

variable {σ τ : Type}

/- A step that finds no difference, whatever the resolvers' states. -/
def Succeeds (step : Comparing σ τ Unit) : Prop :=
  ∀ states, ∃ after, step states = .ok () after

theorem succeeds_return : Succeeds (return () : Comparing σ τ Unit) :=
  fun states => ⟨states, rfl⟩

theorem Succeeds.bind
    {step next : Comparing σ τ Unit}
    (hStep : Succeeds step)
    (hNext : Succeeds next) :
    Succeeds (do step; next) := by
  intro states
  obtain ⟨between, hBetween⟩ := hStep states
  obtain ⟨after, hAfter⟩ := hNext between
  refine ⟨after, ?_⟩
  change EStateM.bind step (fun _ => next) states = .ok () after
  simp only [EStateM.bind, hBetween, hAfter]

theorem succeeds_inOrder
    {inner : Rule σ τ}
    {pairs : List (Node × Node)}
    (hPairs :
      ∀ a b, (a, b) ∈ pairs → ∀ place, Succeeds (inner a b place))
    {steps : List (Comparing σ τ Unit)}
    (hSteps : Pairs inner pairs steps) :
    Succeeds (inOrder steps) := by
  induction hSteps with
  | nil => exact succeeds_return
  | @cons pair step _ _ hStep _ ih =>
      obtain ⟨place, rfl⟩ := hStep
      refine Succeeds.bind (hPairs _ _ List.mem_cons_self place) ?_
      refine ih fun a b hMem => ?_
      exact hPairs a b (List.mem_cons_of_mem _ hMem)

theorem succeeds_bySlots
    {inner : Rule σ τ}
    (hAbsent : ∀ place, inner none none place = return ())
    {left right : Node}
    (hShape : left.SameShape right)
    (hChildren :
      ∀ a b, (a, b) ∈ left.children.zip right.children →
        ∀ place, Succeeds (inner a b place))
    (place : Place) :
    Succeeds (bySlots inner left right place) := by
  obtain ⟨steps, hSteps, hBySlots⟩ :=
    bySlots_eq_inOrder hAbsent hShape place
  rw [hBySlots]
  exact succeeds_inOrder hChildren hSteps

/- Parameters with values of one text, or with values that succeed. -/
def ParamsSucceed
    (inner : Rule σ τ)
    (left right : NormalizedParam) :
    Prop :=
  left.name = right.name ∧
    (left.value.source = right.value.source ∨
      left.fromDefault = false ∧
        right.fromDefault = false ∧
          ∀ place,
            Succeeds
              (inner (some (.expr left.value))
                (some (.expr right.value)) place))

theorem succeeds_params
    {inner : Rule σ τ}
    {lefts rights : List NormalizedParam}
    (hParams : List.Forall₂ (ParamsSucceed inner) lefts rights)
    (place : Place) :
    Succeeds (params inner place (pairUp lefts rights)) := by
  induction hParams with
  | nil => exact succeeds_return
  | @cons left right _ _ hHere _ ih =>
      refine Succeeds.bind ?_ ih
      obtain ⟨hName, hText | ⟨hLeft, hRight, hInner⟩⟩ := hHere
      · simp only [param, hName, hText, bne_self_eq_false,
          beq_self_eq_true, Bool.false_eq_true, if_false, if_true]
        exact succeeds_return
      · simp only [param, hName, hLeft, hRight, bne_self_eq_false,
          Bool.or_self, Bool.false_eq_true, if_false]
        split
        · exact succeeds_return
        · exact hInner place

theorem succeeds_call
    {resolvers : Resolvers σ τ}
    {first second : Expr → Except ResolveError Signature}
    (hSubmission : resolvers.submission.Answers first)
    (hSolution : resolvers.solution.Answers second)
    {inner : Rule σ τ}
    {left right : Node}
    {leftParts rightParts : CallParts}
    {place : Place}
    (hNormalized :
      Succeeds
        (normalizedCall inner left right leftParts rightParts place
          (leftParts.normalized first)
          (rightParts.normalized second))) :
    Succeeds
      (call resolvers inner left right leftParts rightParts place) := by
  intro states
  have hLeft := normalize_fst hSubmission leftParts states.1
  have hRight := normalize_fst hSolution rightParts states.2
  obtain ⟨after, hAfter⟩ :=
    hNormalized
      ((normalize resolvers.submission leftParts.callee leftParts.args
          leftParts.keywords states.1).2,
        (normalize resolvers.solution rightParts.callee
          rightParts.args rightParts.keywords states.2).2)
  refine ⟨after, ?_⟩
  rw [← hLeft, ← hRight] at hAfter
  exact hAfter

------------------------------------------------------------
-- Parts of Matching Calls
------------------------------------------------------------

theorem call_of_kind
    {node : Node}
    (hKind : node.kind = "Call") :
    ∃ span callee args keywords,
      node = .expr (.mk span (.call callee args keywords)) := by
  obtain ⟨⟨span, form⟩, rfl⟩ :=
    Node.exists_expr_of_kind (by rw [hKind]; exact of_decide_eq_true rfl)
  have hForm : form.ctorIdx = 13 := Node.exprForm_ctorIdx hKind
  cases form <;>
    first
    | exact ⟨_, _, _, _, rfl⟩
    | exact absurd hForm (Nat.ne_of_beq_eq_false rfl)

/- Only a call has the shape of a call, and its parts correspond. -/
theorem callParts_of_sameShape
    {left right : Node}
    {leftParts : CallParts}
    (hParts : callParts? left = some leftParts)
    (hShape : left.SameShape right) :
    ∃ rightParts,
      callParts? right = some rightParts ∧
        (.expr leftParts.callee, .expr rightParts.callee) ∈
          left.children.zip right.children ∧
        List.Forall₂
          (fun a b =>
            (.expr a, .expr b) ∈ left.children.zip right.children)
          leftParts.args rightParts.args ∧
        List.Forall₂
          (fun a b =>
            (.keyword a, .keyword b) ∈
              left.children.zip right.children)
          leftParts.keywords rightParts.keywords := by
  unfold callParts? at hParts
  split at hParts
  case h_2 => cases hParts
  case h_1 leftSpan leftCallee leftArgs leftKeywords =>
  cases hParts
  obtain ⟨hKind, hSlots⟩ := hShape
  obtain ⟨rightSpan, rightCallee, rightArgs, rightKeywords, rfl⟩ :=
    call_of_kind hKind.symm
  have hArgs : leftArgs.length = rightArgs.length := by
    cases hSlots with
    | cons _ hSlots =>
        cases hSlots with
        | cons hHere _ => simpa [Node.exprsSlot, Slot.sameShape] using hHere.2
  have hKeywords : leftKeywords.length = rightKeywords.length := by
    cases hSlots with
    | cons _ hSlots =>
        cases hSlots with
        | cons _ hSlots =>
            cases hSlots with
            | cons hHere _ => simpa [Slot.sameShape] using hHere.2
  have hZip :
      (Node.expr (.mk leftSpan
            (.call leftCallee leftArgs leftKeywords))).children.zip
          (Node.expr (.mk rightSpan
            (.call rightCallee rightArgs rightKeywords))).children =
        (.expr leftCallee, .expr rightCallee) ::
          ((leftArgs.zip rightArgs).map
              (Prod.map Node.expr Node.expr) ++
            (leftKeywords.zip rightKeywords).map
              (Prod.map Node.keyword Node.keyword)) := by
    simp only [Node.children, Node.slots, Expr.form_mk,
      Node.exprSlots, List.flatMap_cons, List.flatMap_nil,
      Node.slotChildren_exprSlot, Node.slotChildren_exprsSlot,
      Node.slotChildren_nodes, List.append_nil,
      List.cons_append, List.nil_append, List.zip_cons_cons]
    rw [List.zip_append (by simpa using hArgs), List.zip_map,
      List.zip_map]
  rw [hZip]
  refine ⟨⟨rightCallee, rightArgs, rightKeywords⟩, rfl,
    List.mem_cons_self, ?_, ?_⟩
  · rw [List.forall₂_iff_zip]
    refine ⟨hArgs, fun {a b} hMem => ?_⟩
    refine List.mem_cons_of_mem _ (List.mem_append_left _ ?_)
    exact List.mem_map.mpr ⟨(a, b), hMem, rfl⟩
  · rw [List.forall₂_iff_zip]
    refine ⟨hKeywords, fun {a b} hMem => ?_⟩
    refine List.mem_cons_of_mem _ (List.mem_append_right _ ?_)
    exact List.mem_map.mpr ⟨(a, b), hMem, rfl⟩

/- Keyword arguments of one shape have one name. -/
theorem keyword_name_of_sameShape
    {left right : KeywordArg Expr}
    (hShape : (Node.keyword left).SameShape (.keyword right)) :
    left.name.map (·.name) = right.name.map (·.name) := by
  obtain ⟨_, hSlots⟩ := hShape
  cases hSlots with
  | cons hHere _ =>
      obtain ⟨leftName, _, _⟩ := left
      obtain ⟨rightName, _, _⟩ := right
      cases leftName <;> cases rightName
      · rfl
      · exact absurd hHere.2 Bool.false_ne_true
      · exact absurd hHere.2 Bool.false_ne_true
      · exact congrArg some (beq_iff_eq.mp hHere.2)

theorem keyword_of_matches
    {spans : Span → Span → Prop}
    {holes : Expr → Expr → Prop}
    {left right : KeywordArg Expr}
    (hMatches :
      Node.Matches spans holes (.keyword left) (.keyword right)) :
    left.name.map (·.name) = right.name.map (·.name) ∧
      Node.Matches spans holes (.expr left.value)
        (.expr right.value) := by
  cases hMatches with
  | node _ hShape hChildren =>
      exact ⟨keyword_name_of_sameShape hShape,
        hChildren _ _ List.mem_cons_self⟩

theorem isStarred_iff
    (expr : Expr) :
    expr.isStarred = true ↔ (Node.expr expr).kind = "Starred" := by
  obtain ⟨span, form⟩ := expr
  constructor
  · intro hStarred
    cases form <;> first | rfl | cases hStarred
  · intro hKind
    have hForm : form.ctorIdx = 14 := Node.exprForm_ctorIdx hKind
    cases form <;>
      first
      | rfl
      | exact absurd hForm (Nat.ne_of_beq_eq_false rfl)

------------------------------------------------------------
-- Corresponding Nodes
------------------------------------------------------------

theorem exists_of_forall₂_left
    {α : Type}
    {related : α → α → Prop}
    {lefts rights : List α}
    (hRelated : List.Forall₂ related lefts rights)
    {left : α}
    (hLeft : left ∈ lefts) :
    ∃ right, right ∈ rights ∧ related left right := by
  induction hRelated with
  | nil => cases hLeft
  | cons hHere _ ih =>
      rcases List.mem_cons.mp hLeft with rfl | hLater
      · exact ⟨_, List.mem_cons_self, hHere⟩
      · obtain ⟨right, hMem, hFound⟩ := ih hLater
        exact ⟨right, List.mem_cons_of_mem _ hMem, hFound⟩

/- Matching trees in which every call settles. -/
structure Corresponds
    (spans : Span → Span → Prop)
    (holes : Expr → Expr → Prop)
    (answer : Expr → Except ResolveError Signature)
    (left right : Node) :
    Prop where
  matching : left.Matches spans holes right
  left : left.Everywhere (Node.CallSettles answer)
  right : right.Everywhere (Node.CallSettles answer)

section Corresponding

variable {spans : Span → Span → Prop}
variable {holes : Expr → Expr → Prop}
variable {answer : Expr → Except ResolveError Signature}

/- A node that is no call corresponds if its children do. -/
theorem corresponds_of_children
    {left right : Node}
    (hSpan : spans left.span right.span)
    (hShape : left.SameShape right)
    (hLeft : callParts? left = none)
    (hRight : callParts? right = none)
    (hChildren :
      List.Forall₂ (Corresponds spans holes answer)
        left.children right.children) :
    Corresponds spans holes answer left right := by
  obtain ⟨hLength, hZip⟩ := List.forall₂_iff_zip.mp hChildren
  refine ⟨.node hSpan hShape ?_, ⟨callSettles_of_none hLeft, ?_⟩,
    ⟨callSettles_of_none hRight, ?_⟩⟩
  · intro a b hMem
    exact (hZip hMem).matching
  · intro a hMem
    obtain ⟨b, -, hCorresponds⟩ :=
      exists_of_forall₂_left hChildren hMem
    exact hCorresponds.left
  · intro b hMem
    obtain ⟨a, -, hCorresponds⟩ :=
      exists_of_forall₂_left hChildren.flip hMem
    exact hCorresponds.right

/- Corresponding expressions, the first of which has a bounded size. -/
def Bounded
    (spans : Span → Span → Prop)
    (holes : Expr → Expr → Prop)
    (answer : Expr → Except ResolveError Signature)
    (limit : Nat)
    (left right : Expr) :
    Prop :=
  Corresponds spans holes answer (.expr left) (.expr right) ∧
    left.size < limit

variable {limit : Nat}

theorem corresponds_tuple
    (hSpans : ∀ span, spans span span)
    (items : List (Paired (Bounded spans holes answer limit))) :
    Corresponds spans holes answer
      (.expr (.synthetic (.tuple (items.map Paired.first))))
      (.expr (.synthetic (.tuple (items.map Paired.second)))) := by
  refine corresponds_of_children (hSpans _) ⟨rfl, ?_⟩ rfl rfl ?_
  · exact .cons ⟨rfl, by simp [Node.exprsSlot, Slot.sameShape]⟩ .nil
  · simp only [Node.children, Node.slots, Expr.synthetic,
      Expr.form_mk, Node.exprSlots, List.flatMap_cons,
      List.flatMap_nil, Node.slotChildren_exprsSlot,
      List.append_nil, List.map_map, List.forall₂_map_left_iff,
      List.forall₂_map_right_iff, List.forall₂_same]
    intro item _
    exact item.2.1

theorem corresponds_text
    (hSpans : ∀ span, spans span span)
    (text : String) :
    Corresponds spans holes answer (.expr (.synthetic (.str text)))
      (.expr (.synthetic (.str text))) := by
  refine corresponds_of_children (hSpans _) ?_ rfl rfl .nil
  exact Node.sameShape_self trivial

theorem corresponds_dict
    (hSpans : ∀ span, spans span span)
    (pairs : Keywords (Paired (Bounded spans holes answer limit))) :
    Corresponds spans holes answer
      (.expr (.synthetic (.dict (pairs.map fun pair =>
        (.synthetic (.str pair.1), pair.2.first)))))
      (.expr (.synthetic (.dict (pairs.map fun pair =>
        (.synthetic (.str pair.1), pair.2.second))))) := by
  refine corresponds_of_children (hSpans _) ⟨rfl, ?_⟩ rfl rfl ?_
  · refine .cons ⟨rfl, ?_⟩ (.cons ⟨rfl, ?_⟩ .nil) <;>
      simp [Node.exprsSlot, Slot.sameShape]
  · simp only [Node.children, Node.slots, Expr.synthetic,
      Expr.form_mk, Node.exprSlots, List.flatMap_cons,
      List.flatMap_nil, Node.slotChildren_exprsSlot,
      List.append_nil, List.map_map]
    refine List.rel_append ?_ ?_
    · simp only [List.forall₂_map_left_iff,
        List.forall₂_map_right_iff, List.forall₂_same]
      intro pair _
      exact corresponds_text hSpans pair.1
    · simp only [List.forall₂_map_left_iff,
        List.forall₂_map_right_iff, List.forall₂_same]
      intro pair _
      exact pair.2.2.1

/- Keyword arguments count for at least what a dictionary of them does. -/
theorem sum_namedKeywords_le
    (keywords : List (KeywordArg Expr)) :
    ((namedKeywords keywords).map fun entry =>
        1 + entry.2.size).sum ≤
      Expr.sizeKeywords keywords := by
  rw [Expr.sizeKeywords_eq_sum]
  induction keywords with
  | nil => exact Nat.le_refl 0
  | cons keyword rest ih =>
      unfold namedKeywords at ih ⊢
      rw [List.filterMap_cons, List.map_cons, List.sum_cons]
      cases keyword.name with
      | none =>
          simp only [Option.map_none]
          omega
      | some ident =>
          simp only [Option.map_some, List.map_cons, List.sum_cons]
          omega

/- A call is larger than its callee and its arguments together. -/
theorem size_of_callParts
    {node : Node}
    {parts : CallParts}
    (hParts : callParts? node = some parts) :
    node.size =
      1 + (parts.callee.size + Expr.sizeAll parts.args +
        Expr.sizeKeywords parts.keywords) := by
  unfold callParts? at hParts
  split at hParts
  · cases hParts
    simp only [Node.size, Expr.size, ExprForm.childSize]
  · cases hParts

/- Collected positional arguments are smaller than the call. -/
theorem size_tuple_lt
    {node : Node}
    {parts : CallParts}
    (hParts : callParts? node = some parts)
    {items : List Expr}
    (hItems : items.Sublist parts.args) :
    (Expr.synthetic (.tuple items)).size < node.size := by
  have hSize := size_of_callParts hParts
  have hCallee := parts.callee.size_pos
  have hSum :
      (items.map Expr.size).sum ≤ (parts.args.map Expr.size).sum :=
    (hItems.map Expr.size).sum_le_sum fun _ _ => Nat.zero_le _
  simp only [Expr.synthetic, Expr.size, ExprForm.childSize,
    Expr.sizeAll_eq_sum] at hSum hSize ⊢
  omega

theorem size_dict
    (pairs : Keywords Expr) :
    (Expr.synthetic (.dict (pairs.map fun (name, value) =>
        (.synthetic (.str name), value)))).size =
      1 + (pairs.map fun entry => 1 + entry.2.size).sum := by
  simp only [Expr.synthetic, Expr.size, ExprForm.childSize,
    Expr.sizeEntries_eq_sum, List.map_map]
  congr 1
  induction pairs with
  | nil => rfl
  | cons pair rest ih =>
      simp only [List.map_cons, List.sum_cons, Function.comp_apply,
        Expr.size, ExprForm.childSize] at ih ⊢
      omega

/- Collected keyword arguments are smaller than the call. -/
theorem size_dict_lt
    {node : Node}
    {parts : CallParts}
    (hParts : callParts? node = some parts)
    {pairs : Keywords Expr}
    (hPairs : pairs.Sublist (namedKeywords parts.keywords)) :
    (Expr.synthetic (.dict (pairs.map fun (name, value) =>
        (.synthetic (.str name), value)))).size < node.size := by
  have hSize := size_of_callParts hParts
  have hCallee := parts.callee.size_pos
  have hNamed := sum_namedKeywords_le parts.keywords
  have hSum :
      (pairs.map fun entry => 1 + entry.2.size).sum ≤
        ((namedKeywords parts.keywords).map fun entry =>
          1 + entry.2.size).sum :=
    (hPairs.map _).sum_le_sum fun _ _ => Nat.zero_le _
  rw [size_dict]
  omega

/- What a call collects is smaller than the call. -/
theorem collects_of_call
    (hSpans : ∀ span, spans span span)
    {left : Node}
    {parts : CallParts}
    (hParts : callParts? left = some parts)
    {positional : List (Paired (Bounded spans holes answer left.size))}
    {keywords : Keywords (Paired (Bounded spans holes answer left.size))}
    (hArgs : positional.map Paired.first = parts.args)
    (hKeywords :
      keywords.mapValues Paired.first = namedKeywords parts.keywords) :
    Collects (Bounded spans holes answer left.size)
      (Bounded spans holes answer left.size) positional keywords := by
  refine ⟨fun _ _ hInner => hInner, ?_, ?_⟩
  · intro items hItems
    refine ⟨corresponds_tuple hSpans items, size_tuple_lt hParts ?_⟩
    rw [← hArgs]
    exact hItems.map _
  · intro pairs hPairs
    refine ⟨corresponds_dict hSpans pairs, ?_⟩
    have hDict : (pairs.mapValues Paired.first).Sublist
        (namedKeywords parts.keywords) := by
      rw [← hKeywords]
      exact hPairs.map _
    simpa [Keywords.mapValues, Function.comp_def] using
      size_dict_lt hParts hDict

------------------------------------------------------------
-- Holes
------------------------------------------------------------

/-
  Holes at which arguments are passed in another way, and a
  resolver that answers alike whichever way that is.
-/
structure Setting
    (spans : Span → Span → Prop)
    (holes : Expr → Expr → Prop)
    (answer : Expr → Except ResolveError Signature) :
    Prop where
  sameSpan : ∀ span, spans span span
  restyled :
    ∀ first second, holes first second →
      Restyled spans answer first second
  answered :
    ∀ first second,
      Node.Matches spans holes (.expr first) (.expr second) →
        SameAnswer (answer first) (answer second)

theorem callParts_eq_some
    {expr : Expr}
    {parts : CallParts}
    (hParts : callParts? (.expr expr) = some parts) :
    ∃ span,
      expr = .mk span (.call parts.callee parts.args parts.keywords) := by
  obtain ⟨span, hNode⟩ := node_of_callParts hParts
  exact ⟨span, Node.expr.inj hNode⟩

theorem Setting.isStarred_eq
    (hSetting : Setting spans holes answer)
    {left right : Expr}
    (hMatches :
      Node.Matches spans holes (.expr left) (.expr right)) :
    left.isStarred = right.isStarred := by
  cases hMatches with
  | hole hHere =>
      obtain ⟨_, _, _, _, _, hLeft, hRight, _⟩ :=
        hSetting.restyled _ _ hHere
      obtain ⟨_, rfl⟩ := callParts_eq_some hLeft
      obtain ⟨_, rfl⟩ := callParts_eq_some hRight
      rfl
  | node _ hShape _ =>
      rw [Bool.eq_iff_iff, isStarred_iff, isStarred_iff, hShape.1]

/- Calls whose arguments match both unpack some, or neither does. -/
theorem Setting.hasUnpacking_eq
    (hSetting : Setting spans holes answer)
    {leftArgs rightArgs : List Expr}
    (hArgs :
      List.Forall₂
        (fun left right =>
          Node.Matches spans holes (.expr left) (.expr right))
        leftArgs rightArgs)
    {leftKeywords rightKeywords : List (KeywordArg Expr)}
    (hKeywords :
      List.Forall₂
        (fun left right =>
          Node.Matches spans holes (.keyword left) (.keyword right))
        leftKeywords rightKeywords) :
    hasUnpacking leftArgs leftKeywords =
      hasUnpacking rightArgs rightKeywords := by
  unfold hasUnpacking
  congr 1
  · induction hArgs with
    | nil => rfl
    | cons hHere _ ih =>
        rw [List.any_cons, List.any_cons, ih,
          hSetting.isStarred_eq hHere]
  · induction hKeywords with
    | nil => rfl
    | cons hHere _ ih =>
        have hName := (keyword_of_matches hHere).1
        rw [List.any_cons, List.any_cons, ih,
          ← Option.isNone_map (f := Ident.name), hName,
          Option.isNone_map]

theorem paramsSucceed_of_texts
    (inner : Rule σ τ)
    {lefts rights : List NormalizedParam}
    (hNames : lefts.map (·.name) = rights.map (·.name))
    (hTexts :
      lefts.map (·.value.source) = rights.map (·.value.source)) :
    List.Forall₂ (ParamsSucceed inner) lefts rights := by
  induction lefts generalizing rights with
  | nil =>
      cases rights with
      | nil => exact .nil
      | cons right rights => cases hNames
  | cons left lefts ih =>
      cases rights with
      | nil => cases hNames
      | cons right rights =>
          simp only [List.map_cons, List.cons.injEq] at hNames hTexts
          exact .cons ⟨hNames.1, Or.inl hTexts.1⟩
            (ih hNames.2 hTexts.2)

/- Calls whose parameters have values of one text are accepted. -/
theorem succeeds_of_texts
    {inner : Rule σ τ}
    (hAbsent : ∀ place, inner none none place = return ())
    {left right : Node}
    {leftParts rightParts : CallParts}
    (hLeftParts : callParts? left = some leftParts)
    (hRightParts : callParts? right = some rightParts)
    (hLeftPlain : hasUnpacking leftParts.args leftParts.keywords = false)
    (hRightPlain :
      hasUnpacking rightParts.args rightParts.keywords = false)
    {signature : Signature}
    {leftCall rightCall : NormalizedCall}
    (hLeft :
      normalizeWith signature leftParts.callee leftParts.args
        leftParts.keywords = .ok leftCall)
    (hRight :
      normalizeWith signature rightParts.callee rightParts.args
        rightParts.keywords = .ok rightCall)
    (hTexts :
      leftCall.params.map (·.value.source) =
        rightCall.params.map (·.value.source))
    (hCallees :
      ∀ place,
        Succeeds
          (inner (some (.expr leftParts.callee))
            (some (.expr rightParts.callee)) place))
    (place : Place) :
    Succeeds
      (normalizedCall inner left right leftParts rightParts place
        (.ok leftCall) (.ok rightCall)) := by
  simp only [normalizedCall]
  split
  · -- A callee without parameters is called without arguments.
    rename_i hEmpty
    rw [Bool.and_eq_true] at hEmpty
    obtain ⟨hLeftArgs, hLeftKeywords⟩ :=
      arguments_eq_nil hLeft hLeftPlain hEmpty.1
    obtain ⟨hRightArgs, hRightKeywords⟩ :=
      arguments_eq_nil hRight hRightPlain hEmpty.2
    obtain ⟨_, _⟩ := leftParts
    obtain ⟨_, _⟩ := rightParts
    cases hLeftArgs
    cases hLeftKeywords
    cases hRightArgs
    cases hRightKeywords
    obtain ⟨_, rfl⟩ := node_of_callParts hLeftParts
    obtain ⟨_, rfl⟩ := node_of_callParts hRightParts
    refine succeeds_bySlots hAbsent ?_ ?_ _
    · refine ⟨rfl, ?_⟩
      exact .cons ⟨rfl, rfl⟩ (.cons ⟨rfl, rfl⟩ (.cons ⟨rfl, rfl⟩ .nil))
    · intro a b hMem
      cases List.mem_singleton.mp hMem
      exact hCallees
  · refine Succeeds.bind (hCallees _) (succeeds_params ?_ _)
    refine paramsSucceed_of_texts inner ?_ hTexts
    rw [names_of_normalizeWith hLeft, names_of_normalizeWith hRight]

/- The two calls at a hole are accepted. -/
theorem Setting.succeeds_hole
    (hSetting : Setting spans holes answer)
    {resolvers : Resolvers σ τ}
    (hSubmission : resolvers.submission.Answers answer)
    (hSolution : resolvers.solution.Answers answer)
    {inner : Rule σ τ}
    (hAbsent : ∀ place, inner none none place = return ())
    {first second : Expr}
    (hHole : holes first second)
    (hInner :
      ∀ a ∈ (Node.expr first).children,
        ∀ b ∈ (Node.expr second).children,
          a.Matches spans holes b →
            ∀ place, Succeeds (inner (some a) (some b) place))
    (place : Place) :
    Succeeds
      (bothNodes resolvers inner (.expr first) (.expr second)
        place) := by
  obtain ⟨leftParts, rightParts, signature, left, right, hFirst,
    hSecond, hCallees, hLeftPlain, hRightPlain, hAnswer, hLeft,
    hRight, hTexts⟩ := hSetting.restyled first second hHole
  obtain ⟨firstSpan, rfl⟩ := callParts_eq_some hFirst
  obtain ⟨secondSpan, rfl⟩ := callParts_eq_some hSecond
  have hMatches :
      Node.Matches spans holes (.expr leftParts.callee)
        (.expr rightParts.callee) :=
    hCallees.mono fun _ _ hNone => hNone.elim
  have hOther : answer rightParts.callee = .ok signature := by
    have hSame := hSetting.answered _ _ hMatches
    rw [hAnswer] at hSame
    cases hRightAnswer : answer rightParts.callee with
    | ok other =>
        rw [hRightAnswer] at hSame
        exact congrArg _ hSame.symm
    | error fault =>
        rw [hRightAnswer] at hSame
        exact hSame.elim
  have hCalleeSteps := hInner _ (callee_mem_children hFirst) _
    (callee_mem_children hSecond) hMatches
  refine succeeds_call hSubmission hSolution ?_
  rw [normalized_of_normalizes ⟨hLeftPlain, signature, hAnswer, hLeft⟩,
    normalized_of_normalizes ⟨hRightPlain, signature, hOther, hRight⟩]
  exact succeeds_of_texts hAbsent hFirst hSecond hLeftPlain hRightPlain
    hLeft hRight hTexts hCalleeSteps _

------------------------------------------------------------
-- Nodes around Holes
------------------------------------------------------------

/- What is known of the nodes below two nodes. -/
def SucceedsBelow
    (spans : Span → Span → Prop)
    (holes : Expr → Expr → Prop)
    (answer : Expr → Except ResolveError Signature)
    (inner : Rule σ τ)
    (limit : Nat) :
    Prop :=
  ∀ left right, left.size < limit →
    Corresponds spans holes answer left right →
      ∀ place, Succeeds (inner (some left) (some right) place)

/- Two calls with normal forms around holes. -/
theorem Setting.succeeds_boundCall
    (hSetting : Setting spans holes answer)
    {inner : Rule σ τ}
    {left : Node}
    (hBelow : SucceedsBelow spans holes answer inner left.size)
    {leftParts rightParts : CallParts}
    (hParts : callParts? left = some leftParts)
    (hCallee :
      Bounded spans holes answer left.size leftParts.callee
        rightParts.callee)
    (hArgs :
      List.Forall₂ (Bounded spans holes answer left.size)
        leftParts.args rightParts.args)
    (hKeywords :
      List.Forall₂
        (fun a b =>
          a.name.map (·.name) = b.name.map (·.name) ∧
            Bounded spans holes answer left.size a.value b.value)
        leftParts.keywords rightParts.keywords)
    {signature : Signature}
    {leftCall rightCall : NormalizedCall}
    (hLeft :
      normalizeWith signature leftParts.callee leftParts.args
        leftParts.keywords = .ok leftCall)
    (hRight :
      normalizeWith signature rightParts.callee rightParts.args
        rightParts.keywords = .ok rightCall)
    (place : Place) :
    Succeeds
      (boundCall inner leftParts.callee rightParts.callee leftCall
        rightCall place) := by
  have hInner {a b : Expr}
      (hBounded : Bounded spans holes answer left.size a b)
      (place : Place) :
      Succeeds (inner (some (.expr a)) (some (.expr b)) place) :=
    hBelow (.expr a) (.expr b) hBounded.2 hBounded.1 place
  obtain ⟨positional, hLeftArgs, hRightArgs⟩ :=
    Paired.exists_of_forall₂ hArgs
  obtain ⟨keywords, hLeftKeywords, hRightKeywords⟩ :=
    Paired.exists_keywords_of_forall₂ hKeywords
  have hParams :=
    paired_of_normalizeWith
      (collects_of_call hSetting.sameSpan hParts hLeftArgs hLeftKeywords)
      hLeftArgs hRightArgs hLeftKeywords hRightKeywords hLeft hRight
  refine Succeeds.bind (hInner hCallee _) (succeeds_params ?_ _)
  refine hParams.imp ?_
  rintro first second ⟨hName, hSame | ⟨hFirst, hSecond, hValues⟩⟩
  · exact ⟨hName, Or.inl (by rw [hSame])⟩
  · exact ⟨hName, Or.inr ⟨hFirst, hSecond, hInner hValues⟩⟩

/- Both of two calls have a normal form, or neither has one. -/
theorem settles_cases
    {first second : Expr → Except ResolveError Signature}
    {leftParts rightParts : CallParts}
    (hSame :
      SameAnswer (first leftParts.callee) (second rightParts.callee))
    (hUnpacking :
      hasUnpacking leftParts.args leftParts.keywords =
        hasUnpacking rightParts.args rightParts.keywords)
    (hLeft : leftParts.Settles first)
    (hRight : rightParts.Settles second) :
    (∃ leftText rightText,
        leftParts.normalized first =
            .error (.notResolvable leftText) ∧
          rightParts.normalized second =
            .error (.notResolvable rightText)) ∨
      ∃ signature left right,
        leftParts.normalized first = .ok left ∧
          rightParts.normalized second = .ok right ∧
          normalizeWith signature leftParts.callee leftParts.args
            leftParts.keywords = .ok left ∧
          normalizeWith signature rightParts.callee rightParts.args
            rightParts.keywords = .ok right := by
  cases hPlain : hasUnpacking leftParts.args leftParts.keywords with
  | true =>
      rw [hPlain] at hUnpacking
      left
      simp only [CallParts.normalized, hPlain, ← hUnpacking, if_true]
      exact ⟨_, _, rfl, rfl⟩
  | false =>
      rw [hPlain] at hUnpacking
      rcases hLeft with hStar | ⟨text, hUnknown⟩ | ⟨call, hCall⟩
      · rw [hPlain] at hStar
        cases hStar
      · rw [hUnknown] at hSame
        left
        cases hOther : second rightParts.callee with
        | ok signature =>
            rw [hOther] at hSame
            exact hSame.elim
        | error fault =>
            rw [hOther] at hSame
            cases fault with
            | environment detail => exact hSame.elim
            | notResolvable other =>
                simp only [CallParts.normalized, hPlain,
                  ← hUnpacking, Bool.false_eq_true, if_false,
                  hUnknown, hOther, NormalizeError.ofResolve]
                exact ⟨_, _, rfl, rfl⟩
      · obtain ⟨-, signature, hAnswer, hWith⟩ := id hCall
        rw [hAnswer] at hSame
        rcases hRight with hStar | ⟨text, hUnknown⟩ | ⟨other, hOther⟩
        · rw [← hUnpacking] at hStar
          cases hStar
        · rw [hUnknown] at hSame
          exact hSame.elim
        · obtain ⟨-, signature', hAnswer', hWith'⟩ := id hOther
          rw [hAnswer'] at hSame
          cases hSame
          exact Or.inr
            ⟨signature, call, other, normalized_of_normalizes hCall,
              normalized_of_normalizes hOther, hWith, hWith'⟩

/- Two nodes of one shape around holes. -/
theorem Setting.succeeds_alike
    (hSetting : Setting spans holes answer)
    {resolvers : Resolvers σ τ}
    (hSubmission : resolvers.submission.Answers answer)
    (hSolution : resolvers.solution.Answers answer)
    {inner : Rule σ τ}
    (hAbsent : ∀ place, inner none none place = return ())
    {left right : Node}
    (hBelow : SucceedsBelow spans holes answer inner left.size)
    (hShape : left.SameShape right)
    (hChildren :
      ∀ a b, (a, b) ∈ left.children.zip right.children →
        a.Matches spans holes b)
    (hLeft : left.Everywhere (Node.CallSettles answer))
    (hRight : right.Everywhere (Node.CallSettles answer))
    (place : Place) :
    Succeeds (bothNodes resolvers inner left right place) := by
  have hPairs :
      ∀ a b, (a, b) ∈ left.children.zip right.children →
        Corresponds spans holes answer a b ∧ a.size < left.size := by
    intro a b hMem
    have hMems := List.of_mem_zip hMem
    exact ⟨⟨hChildren a b hMem, hLeft.atChild hMems.1,
      hRight.atChild hMems.2⟩, Node.size_lt_of_mem_children hMems.1⟩
  have hSlots (place : Place) :
      Succeeds (bySlots inner left right place) := by
    refine succeeds_bySlots hAbsent hShape ?_ place
    intro a b hMem
    exact hBelow a b (hPairs a b hMem).2 (hPairs a b hMem).1
  simp only [bothNodes, hShape.1, beq_self_eq_true, if_true]
  cases hLeftParts : callParts? left with
  | none => exact hSlots place
  | some leftParts =>
  obtain ⟨rightParts, hRightParts, hCallee, hArgs, hKeywords⟩ :=
    callParts_of_sameShape hLeftParts hShape
  rw [hRightParts]
  dsimp only
  refine succeeds_call hSubmission hSolution ?_
  have hUnpacking :=
    hSetting.hasUnpacking_eq
      (hArgs.imp fun a b hMem => hChildren _ _ hMem)
      (hKeywords.imp fun a b hMem => hChildren _ _ hMem)
  have hSame := hSetting.answered _ _ (hChildren _ _ hCallee)
  rcases settles_cases hSame hUnpacking
      (hLeft.atNode leftParts hLeftParts)
      (hRight.atNode rightParts hRightParts) with
    ⟨_, _, hLeftUnknown, hRightUnknown⟩ |
      ⟨signature, leftCall, rightCall, hLeftOk, hRightOk, hLeftWith,
        hRightWith⟩
  · rw [hLeftUnknown, hRightUnknown]
    exact hSlots _
  · rw [hLeftOk, hRightOk]
    simp only [normalizedCall]
    split
    · exact hSlots _
    · refine hSetting.succeeds_boundCall hBelow hLeftParts
        (hPairs _ _ hCallee) (hArgs.imp fun a b => hPairs _ _)
        (hKeywords.imp ?_) hLeftWith hRightWith place
      intro a b hMem
      obtain ⟨hKeyword, hSize⟩ := hPairs _ _ hMem
      obtain ⟨hName, hValue⟩ := keyword_of_matches hKeyword.matching
      refine ⟨hName, ⟨hValue, ?_, ?_⟩, ?_⟩
      · exact hKeyword.left.atChild List.mem_cons_self
      · exact hKeyword.right.atChild List.mem_cons_self
      · have hValueSize :
            (Node.keyword a).size = 1 + a.value.size := rfl
        omega

/-
  A comparison of corresponding nodes, down to a depth that the
  size of the first does not reach, finds no difference.
-/
theorem Setting.succeeds_toDepth
    (hSetting : Setting spans holes answer)
    {resolvers : Resolvers σ τ}
    (hSubmission : resolvers.submission.Answers answer)
    (hSolution : resolvers.solution.Answers answer)
    {depth : Nat}
    {left right : Node}
    (hDepth : left.size < depth)
    (hNodes : Corresponds spans holes answer left right)
    (place : Place) :
    Succeeds
      (toDepth resolvers depth (some left) (some right) place) := by
  induction depth generalizing left right place with
  | zero => omega
  | succ depth ih =>
      have hAbsent (place : Place) :
          toDepth resolvers depth none none place = return () := by
        have hSize := left.size_eq_sum
        cases depth with
        | zero => omega
        | succ below => rfl
      have hBelow :
          SucceedsBelow spans holes answer (toDepth resolvers depth)
            left.size := by
        intro a b hSize hCorresponds
        exact ih (by omega) hCorresponds
      cases hNodes.matching with
      | hole hHere =>
          refine hSetting.succeeds_hole hSubmission hSolution hAbsent
            hHere ?_ _
          intro a ha b hb hMatches
          refine hBelow a b (Node.size_lt_of_mem_children ha) ?_
          exact ⟨hMatches, hNodes.left.atChild ha,
            hNodes.right.atChild hb⟩
      | node hSpan hShape hChildren =>
          exact hSetting.succeeds_alike hSubmission hSolution hAbsent
            hBelow hShape hChildren hNodes.left hNodes.right _

end Corresponding

end Comparison

------------------------------------------------------------
-- Programs around Holes
------------------------------------------------------------

/-
  Two programs that differ only by which of two calls stands in
  them are accepted, provided that the calls pass the same
  arguments, that every call settles, and that the answers do
  not depend on which of the two calls stands in a callee.
-/
theorem compare_restyled
    {σ τ : Type}
    {spans : Span → Span → Prop}
    (hSpans : ∀ span, spans span span)
    {resolvers : Resolvers σ τ}
    {answer : Expr → Except ResolveError Signature}
    (hSubmission : resolvers.submission.Answers answer)
    (hSolution : resolvers.solution.Answers answer)
    {first second : Expr}
    (hCalls : Restyled spans answer first second)
    (hAnswers :
      ∀ left right,
        Node.Matches spans (fun a b => a = first ∧ b = second)
            (.expr left) (.expr right) →
          SameAnswer (answer left) (answer right))
    {submission solution : Program}
    (hContext :
      Node.Matches spans (fun a b => a = first ∧ b = second)
        (.program submission) (.program solution))
    (hLeft :
      (Node.program submission).Everywhere (Node.CallSettles answer))
    (hRight :
      (Node.program solution).Everywhere (Node.CallSettles answer))
    (states : σ × τ) :
    (Comparison.run resolvers submission solution states).1 =
      .ok none := by
  have hSetting :
      Setting spans (fun a b => a = first ∧ b = second) answer := by
    refine ⟨hSpans, ?_, hAnswers⟩
    rintro _ _ ⟨rfl, rfl⟩
    exact hCalls
  have hDepth :
      (Node.program submission).size < submission.size + 1 :=
    Nat.lt_succ_self _
  obtain ⟨after, hAfter⟩ :=
    hSetting.succeeds_toDepth hSubmission hSolution hDepth
      ⟨hContext, hLeft, hRight⟩ {} states
  rw [Comparison.run, hAfter]

/- The answers of a resolver that knows its callees by name. -/
def answerByName
    (known : List (String × Signature))
    (callee : Expr) :
    Except ResolveError Signature :=
  match callee.form with
  | .name id =>
      match known.lookup id with
      | some signature => .ok signature
      | none => .error (.notResolvable id)
  | _ => .error (.notResolvable callee.source)

/- Only a name is looked up. -/
theorem name_or_refused
    (known : List (String × Signature))
    (callee : Expr) :
    (∃ id, callee.form = .name id) ∨
      ∃ text, answerByName known callee = .error (.notResolvable text) := by
  obtain ⟨_, form⟩ := callee
  cases form <;> first | exact .inl ⟨_, rfl⟩ | exact .inr ⟨_, rfl⟩

/- The answers are the same for one name, and whenever none is looked up. -/
theorem sameAnswer_of_names
    (known : List (String × Signature))
    {left right : Expr}
    (hNames :
      ∀ id, left.form = .name id ↔ right.form = .name id) :
    SameAnswer (answerByName known left) (answerByName known right) := by
  by_cases hName : ∃ id, left.form = .name id
  · obtain ⟨id, hLeft⟩ := hName
    unfold answerByName
    rw [hLeft, (hNames id).mp hLeft]
    dsimp only
    cases known.lookup id with
    | none => exact trivial
    | some signature => rfl
  · have hOther : ¬∃ id, right.form = .name id :=
      fun ⟨id, hRight⟩ => hName ⟨id, (hNames id).mpr hRight⟩
    obtain ⟨_, hLeft⟩ := (name_or_refused known left).resolve_left hName
    obtain ⟨_, hRight⟩ := (name_or_refused known right).resolve_left hOther
    rw [hLeft, hRight]
    exact trivial

/- Expressions of one shape are the same name, or both not names. -/
theorem name_iff_of_sameShape
    {left right : Expr}
    (hShape : (Node.expr left).SameShape (.expr right))
    (id : String) :
    left.form = .name id ↔ right.form = .name id := by
  obtain ⟨_, leftForm⟩ := left
  obtain ⟨_, rightForm⟩ := right
  obtain ⟨hKind, hSlots⟩ := hShape
  have hKinds : Node.exprKind leftForm = Node.exprKind rightForm := hKind
  have hForm : leftForm.ctorIdx = rightForm.ctorIdx := by
    rw [Node.exprForm_ctorIdx hKinds, Node.exprForm_ctorIdx rfl]
  have hText {first second : String}
      (hLeaf : (Leaf.ident first).beq (.ident second) = true) :
      (.name first : ExprForm Expr) = .name second :=
    congrArg _ (beq_iff_eq.mp hLeaf)
  constructor
  · rintro ⟨⟩
    cases rightForm <;> first
      | exact absurd hForm (Nat.ne_of_beq_eq_false rfl)
      | cases hSlots with
        | cons hHere _ => exact (hText hHere.2).symm
  · rintro ⟨⟩
    cases leftForm <;> first
      | exact absurd hForm (Nat.ne_of_beq_eq_false rfl)
      | cases hSlots with
        | cons hHere _ => exact hText hHere.2

/- No answer by name depends on what stands in a hole of a callee. -/
theorem sameAnswer_byName
    {spans : Span → Span → Prop}
    {holes : Expr → Expr → Prop}
    (hHoles :
      ∀ first second, holes first second →
        ∃ leftParts rightParts,
          callParts? (.expr first) = some leftParts ∧
            callParts? (.expr second) = some rightParts)
    (known : List (String × Signature))
    {left right : Expr}
    (hMatches :
      Node.Matches spans holes (.expr left) (.expr right)) :
    SameAnswer (answerByName known left)
      (answerByName known right) := by
  cases hMatches with
  | hole hHere =>
      obtain ⟨_, _, hLeft, hRight⟩ := hHoles _ _ hHere
      obtain ⟨_, rfl⟩ := callParts_eq_some hLeft
      obtain ⟨_, rfl⟩ := callParts_eq_some hRight
      exact trivial
  | node _ hShape _ =>
      exact sameAnswer_of_names known (name_iff_of_sameShape hShape)

/- An argument passed by name, inside a call that collects it. -/
theorem compare_restyled_nested :
    let name (id : String) : Expr := .synthetic (.name id)
    let one : Expr := .synthetic (.int 1)
    let first : Expr := .synthetic (.call (name "f") [one] [])
    let second : Expr :=
      .synthetic
        (.call (name "f") []
          [⟨some ⟨"x", .synthetic⟩, one, .synthetic⟩])
    let around (inner : Expr) : Program :=
      ⟨[.mk .synthetic
          (.expr (.synthetic (.call (name "g") [inner] [])))],
        .synthetic⟩
    let known : List (String × Signature) :=
      [("f", ⟨[⟨"x", .positionalOrKeyword, none⟩]⟩),
        ("g", ⟨[⟨"items", .varPositional, none⟩]⟩)]
    let resolver : Resolver Unit := fun callee state =>
      (answerByName known callee, state)
    (Comparison.run ⟨resolver, resolver⟩ (around first)
      (around second) ((), ())).1 = .ok none := by
  intro name one first second around known resolver
  have hName (id : String)
      (holes : Expr → Expr → Prop) :
      (Node.expr (name id)).Matches Eq holes (.expr (name id)) := by
    refine .node rfl ⟨rfl, .cons ⟨rfl, beq_self_eq_true id⟩ .nil⟩ ?_
    rintro _ _ ⟨⟩
  have hPlain {node : Node}
      (hNone : callParts? node = none)
      (hBelow :
        ∀ child ∈ node.children,
          child.Everywhere (Node.CallSettles (answerByName known))) :
      node.Everywhere (Node.CallSettles (answerByName known)) :=
    ⟨callSettles_of_none hNone, hBelow⟩
  have hLeaf {node : Node}
      (hNone : callParts? node = none)
      (hChildren : node.children = []) :
      node.Everywhere (Node.CallSettles (answerByName known)) := by
    refine ⟨callSettles_of_none hNone, ?_⟩
    rw [hChildren]
    rintro _ ⟨⟩
  have hAround (inner : Expr)
      (hInner :
        (Node.expr inner).Everywhere
          (Node.CallSettles (answerByName known)))
      (hStar : inner.isStarred = false) :
      (Node.program (around inner)).Everywhere
        (Node.CallSettles (answerByName known)) := by
    refine hPlain rfl ?_
    rintro _ (_ | ⟨_, ⟨⟩⟩)
    refine hPlain rfl ?_
    rintro _ (_ | ⟨_, ⟨⟩⟩)
    refine ⟨?_, ?_⟩
    · rintro _ ⟨⟩
      refine Or.inr (Or.inr ⟨_, ?_, _, rfl, rfl⟩)
      simp [hasUnpacking, hStar]
    · rintro _ (_ | ⟨_, _ | ⟨_, ⟨⟩⟩⟩)
      · exact hLeaf rfl rfl
      · exact hInner
  have hCalls : Restyled Eq (answerByName known) first second :=
    ⟨⟨name "f", [one], []⟩, ⟨name "f", [], _⟩, _, _, _, rfl, rfl,
      hName "f" _, rfl, rfl, rfl, rfl, rfl, rfl⟩
  refine compare_restyled (fun _ => rfl) (fun _ _ => rfl)
    (fun _ _ => rfl) hCalls ?_ ?_ ?_ ?_ _
  · intro left right hMatches
    refine sameAnswer_byName ?_ known hMatches
    rintro _ _ ⟨rfl, rfl⟩
    exact ⟨_, _, rfl, rfl⟩
  · refine .node rfl ⟨rfl, .cons ⟨rfl, rfl⟩ .nil⟩ ?_
    rintro _ _ (_ | ⟨_, ⟨⟩⟩)
    refine .node rfl ⟨rfl, .cons ⟨rfl, rfl⟩ .nil⟩ ?_
    rintro _ _ (_ | ⟨_, ⟨⟩⟩)
    refine .node rfl ⟨rfl, .cons ⟨rfl, rfl⟩
      (.cons ⟨rfl, rfl⟩ (.cons ⟨rfl, rfl⟩ .nil))⟩ ?_
    rintro _ _ (_ | ⟨_, _ | ⟨_, ⟨⟩⟩⟩)
    · exact hName "g" _
    · exact .hole ⟨rfl, rfl⟩
  · refine hAround first ?_ rfl
    refine ⟨?_, ?_⟩
    · rintro _ ⟨⟩
      exact Or.inr (Or.inr ⟨_, rfl, _, rfl, rfl⟩)
    · rintro _ (_ | ⟨_, _ | ⟨_, ⟨⟩⟩⟩) <;> exact hLeaf rfl rfl
  · refine hAround second ?_ rfl
    refine ⟨?_, ?_⟩
    · rintro _ ⟨⟩
      exact Or.inr (Or.inr ⟨_, rfl, _, rfl, rfl⟩)
    · rintro _ (_ | ⟨_, _ | ⟨_, ⟨⟩⟩⟩)
      · exact hLeaf rfl rfl
      · refine hPlain rfl ?_
        rintro _ (_ | ⟨_, ⟨⟩⟩)
        exact hLeaf rfl rfl

end SnippetGrader
