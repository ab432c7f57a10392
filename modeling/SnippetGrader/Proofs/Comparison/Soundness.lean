import SnippetGrader.Proofs.Comparison.Positions
import SnippetGrader.Proofs.Parsing.RoundTrip

/-
  What an accepted pair of programs has in common.

  Two nodes are equivalent if they have the same shape and their
  children are equivalent, or if they are calls with equivalent
  callees and, parameter by parameter, equivalent arguments.

  Arguments of one text are taken to be the same. So accepted
  programs are equivalent where the text of an argument shows
  what the argument is, and need not be elsewhere.

  Key definitions include:
    * `Comparison.Equivalent`
    * `Expr.Readable`
    * `Node.ShowsArguments`

  Key theorems include:
    * `Expr.Readable.erased_eq`
    * `Comparison.compare_sound`
    * `Comparison.compare_overlooks_tuple_index`
-/

namespace SnippetGrader

namespace Comparison

------------------------------------------------------------
-- Equivalent Nodes
------------------------------------------------------------

/-
  Nodes that differ at most in their positions, and in how the
  arguments of calls are passed. The signatures of callees are
  given for each side.
-/
inductive Equivalent
    (first second : Expr → Except ResolveError Signature) :
    Node → Node → Prop
  | shape
      {left right : Node}
      (hShape : left.SameShape right)
      (hChildren :
        ∀ a b, (a, b) ∈ left.children.zip right.children →
          Equivalent first second a b) :
      Equivalent first second left right
  | calls
      {left right : Node}
      {leftParts rightParts : CallParts}
      {leftCall rightCall : NormalizedCall}
      (hLeft : callParts? left = some leftParts)
      (hRight : callParts? right = some rightParts)
      (hLeftNormal : leftParts.Normalizes first leftCall)
      (hRightNormal : rightParts.Normalizes second rightCall)
      (hCallees :
        Equivalent first second (.expr leftParts.callee)
          (.expr rightParts.callee))
      (hNames :
        leftCall.params.map (·.name) = rightCall.params.map (·.name))
      (hValues :
        ∀ a b, (a, b) ∈ leftCall.params.zip rightCall.params →
          Equivalent first second (.expr a.value) (.expr b.value)) :
      Equivalent first second left right

variable {first second : Expr → Except ResolveError Signature}

theorem Equivalent.of_not_call
    {left right : Node}
    (hEquivalent : Equivalent first second left right)
    (hCall : callParts? left = none) :
    left.SameShape right ∧
      ∀ a b, (a, b) ∈ left.children.zip right.children →
        Equivalent first second a b := by
  cases hEquivalent with
  | shape hShape hChildren => exact ⟨hShape, hChildren⟩
  | calls hLeft =>
      rw [hCall] at hLeft
      cases hLeft

end Comparison

------------------------------------------------------------
-- Readable Expressions
------------------------------------------------------------

/-
  What stands below an expression is one of its operands, or
  holds one: the value of a keyword or the default of a parameter.
-/
theorem Node.mem_children_expr
    {span : Span}
    {form : ExprForm Expr}
    {child : Node}
    (hChild : child ∈ (Node.expr (.mk span form)).children) :
    (∃ operand ∈ form.operands, child = .expr operand) ∨
      (∃ callee args keywords,
        form = .call callee args keywords ∧
          ∃ keyword ∈ keywords, child = .keyword keyword) ∨
        ∃ params body,
          form = .lambda params body ∧
            ∃ param ∈ params, child = .param param := by
  cases form
  case call callee args keywords =>
      simp only [children, slots, Expr.form_mk, exprSlots,
        List.flatMap_cons, List.flatMap_nil, slotChildren_exprSlot,
        slotChildren_exprsSlot, slotChildren_nodes, List.append_nil,
        List.mem_append, List.mem_singleton, List.mem_map] at hChild
      rcases hChild with rfl | ⟨arg, hArg, rfl⟩ | ⟨keyword, hMem, rfl⟩
      · exact .inl ⟨callee, by simp [ExprForm.operands], rfl⟩
      · exact .inl ⟨arg, by simp [ExprForm.operands, hArg], rfl⟩
      · exact .inr (.inl ⟨_, _, _, rfl, keyword, hMem, rfl⟩)
  case lambda params body =>
      simp only [children, slots, Expr.form_mk, exprSlots,
        List.flatMap_cons, List.flatMap_nil, slotChildren_exprSlot,
        slotChildren_nodes, List.append_nil, List.mem_append,
        List.mem_singleton, List.mem_map] at hChild
      rcases hChild with ⟨param, hMem, rfl⟩ | rfl
      · exact .inr (.inr ⟨_, _, rfl, param, hMem, rfl⟩)
      · exact .inl ⟨body, by simp [ExprForm.operands], rfl⟩
  all_goals
    simp [children, slots, exprSlots, ExprForm.operands] at hChild ⊢
    try grind

/- What is legible reads back, node by node. -/
theorem Expr.Legible.everywhere_readsBack
    {expr : Expr}
    (hLegible : expr.Legible) :
    (Node.expr expr).Everywhere Node.ReadsBack := by
  induction hLegible with
  | @intro span form here below ih =>
      refine ⟨?_, fun child hChild => ?_⟩
      · cases form
        case int => exact here.1
        case float => exact here.unsigned
        case name => exact here
        case «attribute» => exact here.2.2
        case subscript => exact here.1.complete
        case set => exact here.1
        case boolean => exact here.1
        case compare => exact here.1
        case call => exact here.2.2.2.distinct
        case lambda => exact here.1
        all_goals trivial
      · rcases Node.mem_children_expr hChild with
          ⟨operand, hOperand, rfl⟩ |
            ⟨callee, args, keywords, rfl, keyword, hKeyword, rfl⟩ |
              ⟨params, body, rfl, param, hParam, rfl⟩
        · exact ih operand hOperand
        · refine ⟨here.2.2.2.named keyword hKeyword, ?_⟩
          simpa [Node.children, Node.slots] using
            ih keyword.value (mem_operands_keyword hKeyword)
        · refine ⟨(here.2.1 param hParam).1, ?_⟩
          simpa [Node.children, Node.slots] using
            fun default hDefault =>
              ih default (mem_operands_default hParam hDefault)

/- An expression that is read back from its text. -/
structure Expr.Readable (expr : Expr) : Prop where
  legible : expr.Legible
  plain : expr.IsPlain
  nesting : expr.nesting ≤ maxExprDepth

/- Such expressions of one text differ only in positions. -/
theorem Expr.Readable.erased_eq
    {left right : Expr}
    (hLeft : left.Readable)
    (hRight : right.Readable)
    (hText : left.source = right.source) :
    left.erased = right.erased := by
  obtain ⟨result, hRead, hBody⟩ :=
    hLeft.legible.parseSource_body hLeft.plain hLeft.nesting "snippet"
  obtain ⟨other, hOther, hOtherBody⟩ :=
    hRight.legible.parseSource_body hRight.plain hRight.nesting "snippet"
  rw [hText, hOther] at hRead
  cases hRead
  simpa [Stmt.erased, StmtForm.erased] using hBody.symm.trans hOtherBody

/-
  A call that shows what it passes: once its arguments are bound
  to parameters, each value is read back from its text.
-/
def Node.ShowsArguments
    (answer : Expr → Except ResolveError Signature)
    (node : Node) :
    Prop :=
  ∀ parts call, Comparison.callParts? node = some parts →
    parts.Normalizes answer call →
      ∀ param ∈ call.params, param.value.Readable

theorem Node.showsArguments_of_none
    {answer : Expr → Except ResolveError Signature}
    {node : Node}
    (hNone : Comparison.callParts? node = none) :
    node.ShowsArguments answer := by
  intro parts call hParts
  rw [hNone] at hParts
  cases hParts

------------------------------------------------------------
-- Accepted Programs
------------------------------------------------------------

namespace Comparison

/- Nodes that differ only in positions are equivalent. -/
theorem Equivalent.of_erased
    {left right : Node}
    (hReads : left.Everywhere Node.ReadsBack)
    (hErased : left.erased = right.erased) :
    Equivalent first second left right := by
  induction hReads generalizing right with
  | intro here below ih =>
      refine .shape (Node.sameShape_of_erased hErased here) ?_
      intro a b hMem
      exact
        ih a (List.of_mem_zip hMem).1 (Node.erased_of_mem_zip hErased hMem)

/- Values that are read back from one text are equivalent. -/
theorem Equivalent.of_text
    {left right : Expr}
    (hLeft : left.Readable)
    (hRight : right.Readable)
    (hText : left.source = right.source) :
    Equivalent first second (.expr left) (.expr right) :=
  .of_erased hLeft.legible.everywhere_readsBack
    (congrArg Node.expr (hLeft.erased_eq hRight hText))

section Accepted

variable {σ τ : Type}
variable {resolvers : Resolvers σ τ}

/- The values that are written in a call show their arguments, too. -/
theorem showsArguments_written
    {answer : Expr → Except ResolveError Signature}
    {node : Node}
    {parts : CallParts}
    {call : NormalizedCall}
    (hNode : node.Everywhere (Node.ShowsArguments answer))
    (hParts : callParts? node = some parts)
    (hNormal : parts.Normalizes answer call) :
    ∀ param ∈ call.params, param.fromDefault = false →
      (Node.expr param.value).Everywhere (Node.ShowsArguments answer) := by
  obtain ⟨-, signature, -, hWith⟩ := hNormal
  have hArguments :=
    hNode.arguments (fun _ => Node.showsArguments_of_none) hParts
  exact written_of_normalizeWith hArguments hWith

/-
  Calls whose parameters are accepted pairwise are equivalent, if
  accepted values are: those of one text are so in any case.
-/
theorem CallsAccepted.equivalent
    {inner : Rule σ τ}
    {left right : Node}
    (calls : CallsAccepted inner first second left right)
    (hLeft : left.Everywhere (Node.ShowsArguments first))
    (hRight : right.Everywhere (Node.ShowsArguments second))
    (hInner :
      ∀ a b,
        a.Everywhere (Node.ShowsArguments first) →
          b.Everywhere (Node.ShowsArguments second) →
            Accepts inner (some a) (some b) →
              Equivalent first second a b) :
    Equivalent first second left right := by
  refine .calls calls.leftIsCall calls.rightIsCall calls.leftNormal
    calls.rightNormal ?_ ?_ ?_
  · exact hInner _ _
      (hLeft.atChild (callee_mem_children calls.leftIsCall))
      (hRight.atChild (callee_mem_children calls.rightIsCall))
      calls.callees
  · rw [← List.forall₂_eq_eq_eq, List.forall₂_map_left_iff,
      List.forall₂_map_right_iff]
    exact calls.params.imp fun _ _ hParams => hParams.1
  · intro a b hMem
    have hMems := List.of_mem_zip hMem
    obtain ⟨-, hText | ⟨hLeftWritten, hRightWritten, hAccepts⟩⟩ :=
      (List.forall₂_iff_zip.mp calls.params).2 hMem
    · have hLeftShown :=
        hLeft.atNode _ _ calls.leftIsCall calls.leftNormal a hMems.1
      have hRightShown :=
        hRight.atNode _ _ calls.rightIsCall calls.rightNormal b hMems.2
      exact .of_text hLeftShown hRightShown hText
    · exact hInner _ _
        (showsArguments_written hLeft calls.leftIsCall calls.leftNormal a
          hMems.1 hLeftWritten)
        (showsArguments_written hRight calls.rightIsCall
          calls.rightNormal b hMems.2 hRightWritten)
        hAccepts

/-
  Accepted nodes are equivalent. The induction is on the depth: a
  step goes on to children, or to the callees and the written
  values of two calls.
-/
theorem equivalent_of_accepts
    (hFirst : resolvers.submission.Answers first)
    (hSecond : resolvers.solution.Answers second)
    {depth : Nat}
    {left right : Node}
    (hLeft : left.Everywhere (Node.ShowsArguments first))
    (hRight : right.Everywhere (Node.ShowsArguments second))
    (hAccepts :
      Accepts (toDepth resolvers depth) (some left) (some right)) :
    Equivalent first second left right := by
  induction depth generalizing left right with
  | zero =>
      obtain ⟨_, _, _, hOk⟩ := hAccepts
      exact absurd hOk throw_ne_ok
  | succ depth ih =>
      rcases accepts_node_cases hFirst hSecond
          (strict_toDepth resolvers depth) hAccepts with
        ⟨hShape, hChildren⟩ | ⟨⟨calls⟩⟩
      · refine .shape hShape fun a b hMem => ?_
        have hMems := List.of_mem_zip hMem
        exact ih (hLeft.atChild hMems.1) (hRight.atChild hMems.2)
          (hChildren a b hMem)
      · exact calls.equivalent hLeft hRight fun _ _ => ih

/-
  Programs that are accepted are equivalent, provided that every
  value that a call passes is read back from its text.
-/
theorem compare_sound
    (hFirst : resolvers.submission.Answers first)
    (hSecond : resolvers.solution.Answers second)
    {submission solution : Program}
    (hSubmission :
      (Node.program submission).Everywhere (Node.ShowsArguments first))
    (hSolution :
      (Node.program solution).Everywhere (Node.ShowsArguments second))
    (states : σ × τ)
    (hAccepted : (run resolvers submission solution states).1 = .ok none) :
    Equivalent first second (.program submission) (.program solution) := by
  unfold run at hAccepted
  split at hAccepted
  · rename_i after hOk
    exact equivalent_of_accepts hFirst hSecond hSubmission hSolution
      ⟨_, _, after, hOk⟩
  · cases hAccepted
  · cases hAccepted

end Accepted

/- A call of `f`, with arguments by position and by name. -/
def callOfF
    (args : List Expr)
    (keywords : List (String × Expr)) :
    Expr :=
  .synthetic
    (.call (.synthetic (.name "f")) args
      (keywords.map fun (name, value) =>
        ⟨some ⟨name, .synthetic⟩, value, .synthetic⟩))

/- A call shows its arguments everywhere if it does, and they do. -/
theorem showsArguments_callOfF
    {answer : Expr → Except ResolveError Signature}
    {args : List Expr}
    {keywords : List (String × Expr)}
    (hHere : (Node.expr (callOfF args keywords)).ShowsArguments answer)
    (hArgs :
      ∀ arg ∈ args,
        (Node.expr arg).Everywhere (Node.ShowsArguments answer))
    (hValues :
      ∀ entry ∈ keywords,
        (Node.expr entry.2).Everywhere (Node.ShowsArguments answer)) :
    (Node.expr (callOfF args keywords)).Everywhere
      (Node.ShowsArguments answer) := by
  refine ⟨hHere, fun child hChild => ?_⟩
  simp only [Node.children, Node.slots, callOfF, Expr.synthetic,
    Expr.form_mk, Node.exprSlots, List.flatMap_cons, List.flatMap_nil,
    Node.slotChildren_exprSlot, Node.slotChildren_exprsSlot,
    Node.slotChildren_nodes, List.append_nil, List.mem_append,
    List.mem_singleton, List.mem_map, List.map_map] at hChild
  rcases hChild with rfl | ⟨arg, hArg, rfl⟩ | ⟨entry, hEntry, rfl⟩
  · exact .of_leaf (Node.showsArguments_of_none rfl) rfl
  · exact hArgs arg hArg
  · refine ⟨Node.showsArguments_of_none rfl, ?_⟩
    rintro _ (_ | ⟨_, ⟨⟩⟩)
    exact hValues entry hEntry

theorem showsArguments_asProgram
    {answer : Expr → Except ResolveError Signature}
    {expr : Expr}
    (hExpr : (Node.expr expr).Everywhere (Node.ShowsArguments answer)) :
    (Node.program expr.asProgram).Everywhere
      (Node.ShowsArguments answer) := by
  refine ⟨Node.showsArguments_of_none rfl, ?_⟩
  rintro _ (_ | ⟨_, ⟨⟩⟩)
  refine ⟨Node.showsArguments_of_none rfl, ?_⟩
  rintro _ (_ | ⟨_, ⟨⟩⟩)
  exact hExpr

/- A value in two styles, and one that is left to its default. -/
theorem compare_sound_styles :
    let one : Expr := .synthetic (.int 1)
    let two : Expr := .synthetic (.int 2)
    let answer :=
      answerByName
        [("f", ⟨[⟨"x", .positionalOrKeyword, none⟩,
          ⟨"y", .positionalOrKeyword, some two⟩]⟩)]
    let resolver : Resolver Unit := fun callee state =>
      (answer callee, state)
    let submission := (callOfF [callOfF [one] [], two] []).asProgram
    let solution :=
      (callOfF [] [("x", callOfF [] [("x", one)])]).asProgram
    (Node.program submission).Everywhere (Node.ShowsArguments answer) ∧
      (Node.program solution).Everywhere (Node.ShowsArguments answer) ∧
        (run ⟨resolver, resolver⟩ submission solution ((), ())).1 =
            .ok none ∧
          Equivalent answer answer (.program submission)
            (.program solution) := by
  intro one two answer resolver submission solution
  have hNames : ∀ id ∈ ["f", "x"], IsName id := by decide
  simp only [List.forall_mem_cons] at hNames
  obtain ⟨hF, hX, -⟩ := hNames
  have hCallee : (Expr.synthetic (.name "f")).Legible := ⟨hF, nofun⟩
  have hOne : one.Readable :=
    ⟨⟨⟨by decide, by decide⟩, nofun⟩, ⟨rfl, rfl⟩, by decide⟩
  have hTwo : two.Readable :=
    ⟨⟨⟨by decide, by decide⟩, nofun⟩, ⟨rfl, rfl⟩, by decide⟩
  have hByPosition : (callOfF [one] []).Readable := by
    refine ⟨⟨⟨⟨rfl, rfl⟩, ?_, nofun, nofun, List.nodup_nil⟩, ?_⟩,
      ⟨rfl, rfl⟩, by decide⟩
    · rintro _ (_ | ⟨_, ⟨⟩⟩)
      rfl
    · rintro _ (_ | ⟨_, _ | ⟨_, ⟨⟩⟩⟩)
      · exact hCallee
      · exact hOne.legible
  have hByName : (callOfF [] [("x", one)]).Readable := by
    refine ⟨⟨⟨⟨rfl, rfl⟩, nofun, ?_, ?_, List.nodup_singleton _⟩, ?_⟩,
      ⟨rfl, rfl⟩, by decide⟩
    · rintro _ (_ | ⟨_, ⟨⟩⟩)
      exact hOne.plain
    · rintro _ (_ | ⟨_, ⟨⟩⟩) _ ⟨⟩
      exact hX
    · rintro _ (_ | ⟨_, _ | ⟨_, ⟨⟩⟩⟩)
      · exact hCallee
      · exact hOne.legible
  have hNumber (value : Int) :
      (Node.expr (.synthetic (.int value))).Everywhere
        (Node.ShowsArguments answer) :=
    .of_leaf (Node.showsArguments_of_none rfl) rfl
  have hSubmission :
      (Node.program submission).Everywhere (Node.ShowsArguments answer) := by
    refine showsArguments_asProgram (showsArguments_callOfF ?_ ?_ nofun)
    · rintro _ _ ⟨⟩ ⟨-, _, ⟨⟩, ⟨⟩⟩ param (_ | ⟨_, _ | ⟨_, ⟨⟩⟩⟩)
      · exact hByPosition
      · exact hTwo
    · rintro _ (_ | ⟨_, _ | ⟨_, ⟨⟩⟩⟩)
      · refine showsArguments_callOfF ?_ ?_ nofun
        · rintro _ _ ⟨⟩ ⟨-, _, ⟨⟩, ⟨⟩⟩ param (_ | ⟨_, _ | ⟨_, ⟨⟩⟩⟩)
          · exact hOne
          · exact hTwo
        · rintro _ (_ | ⟨_, ⟨⟩⟩)
          exact hNumber 1
      · exact hNumber 2
  have hSolution :
      (Node.program solution).Everywhere (Node.ShowsArguments answer) := by
    refine showsArguments_asProgram (showsArguments_callOfF ?_ nofun ?_)
    · rintro _ _ ⟨⟩ ⟨-, _, ⟨⟩, ⟨⟩⟩ param (_ | ⟨_, _ | ⟨_, ⟨⟩⟩⟩)
      · exact hByName
      · exact hTwo
    · rintro _ (_ | ⟨_, ⟨⟩⟩)
      refine showsArguments_callOfF ?_ nofun ?_
      · rintro _ _ ⟨⟩ ⟨-, _, ⟨⟩, ⟨⟩⟩ param (_ | ⟨_, _ | ⟨_, ⟨⟩⟩⟩)
        · exact hOne
        · exact hTwo
      · rintro _ (_ | ⟨_, ⟨⟩⟩)
        exact hNumber 1
  have hAccepted :
      (run ⟨resolver, resolver⟩ submission solution ((), ())).1 =
        .ok none :=
    rfl
  exact
    ⟨hSubmission, hSolution, hAccepted,
      compare_sound (fun _ _ => rfl) (fun _ _ => rfl) hSubmission hSolution
        _ hAccepted⟩

------------------------------------------------------------
-- An Overlooked Difference
------------------------------------------------------------

/- Expressions of different kinds are not equivalent. -/
theorem Equivalent.kind_eq
    {left right : Node}
    (hEquivalent : Equivalent first second left right) :
    left.kind = right.kind := by
  cases hEquivalent with
  | shape hShape _ => exact hShape.1
  | calls hLeft hRight =>
      unfold callParts? at hLeft hRight
      split at hLeft
      · split at hRight
        · rfl
        · cases hRight
      · cases hLeft

/- Subscripts are equivalent only if their indices are. -/
theorem Equivalent.indices
    {leftSpan rightSpan : Span}
    {object other index otherIndex : Expr}
    (hEquivalent :
      Equivalent first second
        (.expr (.mk leftSpan (.subscript object index)))
        (.expr (.mk rightSpan (.subscript other otherIndex)))) :
    Equivalent first second (.expr index) (.expr otherIndex) := by
  refine (hEquivalent.of_not_call rfl).2 _ _ ?_
  simp [Node.children, Node.slots, Node.exprSlots, Node.exprSlot,
    Node.slotChildren]

/- Calls of a function of one parameter are equivalent only if their arguments are. -/
theorem Equivalent.arguments
    {name : String}
    {leftSpan rightSpan : Span}
    {leftCallee rightCallee leftArg rightArg : Expr}
    (hLeft :
      first leftCallee = .ok ⟨[⟨name, .positionalOrKeyword, none⟩]⟩)
    (hRight :
      second rightCallee = .ok ⟨[⟨name, .positionalOrKeyword, none⟩]⟩)
    (hEquivalent :
      Equivalent first second
        (.expr (.mk leftSpan (.call leftCallee [leftArg] [])))
        (.expr (.mk rightSpan (.call rightCallee [rightArg] [])))) :
    Equivalent first second (.expr leftArg) (.expr rightArg) := by
  have hNormal
      {answer : Expr → Except ResolveError Signature}
      {callee arg : Expr}
      {call : NormalizedCall}
      (hAnswer :
        answer callee = .ok ⟨[⟨name, .positionalOrKeyword, none⟩]⟩)
      (hCall : (⟨callee, [arg], []⟩ : CallParts).Normalizes answer call) :
      call.params = [⟨name, arg, false⟩] := by
    obtain ⟨-, signature, hSignature, hBound⟩ := hCall
    rw [hAnswer] at hSignature
    cases hSignature
    cases hBound
    rfl
  cases hEquivalent with
  | shape hShape hChildren =>
      refine hChildren _ _ ?_
      simp [Node.children, Node.slots, Node.exprSlots, Node.exprSlot,
        Node.exprsSlot, Node.slotChildren]
  | calls hLeftParts hRightParts hLeftNormal hRightNormal _ _ hValues =>
      cases hLeftParts
      cases hRightParts
      rw [hNormal hLeft hLeftNormal, hNormal hRight hRightNormal] at hValues
      exact hValues _ _ (List.mem_singleton.mpr rfl)

/- The callee and the index, if a program is a call with a subscript. -/
def indexedCall? (program : Program) : Option (String × ExprForm Expr) :=
  match program.body with
  | [.mk _ (.expr (.mk _ (.call (.mk _ (.name callee))
      [.mk _ (.subscript _ (.mk _ index))] [])))] => some (callee, index)
  | _ => none

theorem body_of_indexedCall?
    {program : Program}
    {callee : String}
    {index : ExprForm Expr}
    (hCall : indexedCall? program = some (callee, index)) :
    ∃ stmtSpan callSpan nameSpan argSpan object indexSpan,
      program.body =
        [.mk stmtSpan (.expr (.mk callSpan
          (.call (.mk nameSpan (.name callee))
            [.mk argSpan (.subscript object (.mk indexSpan index))] [])))] := by
  unfold indexedCall? at hCall
  split at hCall
  · rename_i hBody
    cases hCall
    exact ⟨_, _, _, _, _, _, hBody⟩
  · cases hCall

/- Equivalent calls with a subscript have indices of one kind. -/
theorem Equivalent.index_kind_eq
    {submission solution : Program}
    {callee name : String}
    {index other : ExprForm Expr}
    (hSubmission : indexedCall? submission = some (callee, index))
    (hSolution : indexedCall? solution = some (callee, other))
    (hFirst :
      ∀ span, first (.mk span (.name callee)) =
        .ok ⟨[⟨name, .positionalOrKeyword, none⟩]⟩)
    (hSecond :
      ∀ span, second (.mk span (.name callee)) =
        .ok ⟨[⟨name, .positionalOrKeyword, none⟩]⟩)
    (hPrograms :
      Equivalent first second (.program submission) (.program solution)) :
    Node.exprKind index = Node.exprKind other := by
  obtain ⟨_, _, _, _, _, _, hLeft⟩ := body_of_indexedCall? hSubmission
  obtain ⟨_, _, _, _, _, _, hRight⟩ := body_of_indexedCall? hSolution
  obtain ⟨submission, _⟩ := submission
  obtain ⟨solution, _⟩ := solution
  subst hLeft hRight
  have hStmts :=
    (hPrograms.of_not_call rfl).2 _ _ (List.mem_singleton.mpr rfl)
  have hCalls :=
    (hStmts.of_not_call rfl).2 _ _ (List.mem_singleton.mpr rfl)
  exact (hCalls.arguments (hFirst _) (hSecond _)).indices.kind_eq

/-
  An index `1,` is written like the index `1` in the text of an
  argument, and so the two arguments are taken to be the same.
-/
theorem compare_overlooks_tuple_index :
    let resolver :=
      Resolver.ofTable [("f", .ok ⟨[⟨"x", .positionalOrKeyword, none⟩]⟩)]
    let answer (callee : Expr) := (resolver callee ()).1
    ∃ submission solution,
      parseSource "submission.py" "f(x[1,])" = .ok submission ∧
        parseSource "solution.py" "f(x[1])" = .ok solution ∧
          (run ⟨resolver, resolver⟩ submission solution ((), ())).1 =
              .ok none ∧
            ¬ Equivalent answer answer (.program submission)
              (.program solution) := by
  intro resolver answer
  have hRun :
      (parseSource "submission.py" "f(x[1,])").toOption.any
          (fun submission =>
            (parseSource "solution.py" "f(x[1])").toOption.any fun solution =>
              decide
                ((run ⟨resolver, resolver⟩ submission solution
                    ((), ())).1.toOption = some none) &&
                (indexedCall? submission).any (fun call =>
                  call.1 == "f" && Node.exprKind call.2 == "Tuple") &&
                (indexedCall? solution).any (fun call =>
                  call.1 == "f" && Node.exprKind call.2 == "Int")) =
        true := by
    decide +kernel
  simp only [Option.any_eq_true, Bool.and_eq_true, decide_eq_true_eq,
    beq_iff_eq] at hRun
  obtain ⟨submission, hSubmission, solution, hSolution, ⟨hSame, hLeft⟩, hRight⟩ :=
    hRun
  obtain ⟨⟨_, index⟩, hLeft, rfl, hTuple⟩ := hLeft
  obtain ⟨⟨_, other⟩, hRight, rfl, hInt⟩ := hRight
  refine ⟨submission, solution, ok_of_toOption hSubmission,
    ok_of_toOption hSolution, ok_of_toOption hSame, fun hEquivalent => ?_⟩
  have hKinds :=
    hEquivalent.index_kind_eq hLeft hRight (fun _ => rfl) (fun _ => rfl)
  rw [hTuple, hInt] at hKinds
  exact absurd hKinds (by decide)

end Comparison

end SnippetGrader
