import SnippetGrader.Proofs.Tree.Children

/-
  Trees without positions.

  Erasing the positions of a tree makes every span of it the one
  that belongs to no text, those of names included. Nothing else
  changes. The slots of a node show all that is left: two nodes
  of one kind with the same slots differ only in their
  positions.

  Key definitions include:
    * `Expr.erased`, `Stmt.erased`, `Program.erased`
    * `Node.erased`, `Slot.erased`

  Key theorems include:
    * `Node.slots_erased`
    * `Node.erased_eq_of_slots`
    * `Node.erased_eq_iff`
-/

namespace SnippetGrader

------------------------------------------------------------
-- Expressions
------------------------------------------------------------

/- A name without its position. -/
def Ident.erased (ident : Ident) : Ident :=
  ⟨ident.name, .synthetic⟩

@[simp] theorem Ident.name_erased
    (ident : Ident) :
    ident.erased.name = ident.name := rfl

mutual

/- An expression without positions. -/
def Expr.erased : Expr → Expr
  | .mk _ form => .synthetic (ExprForm.erased form)

/- A form without positions. -/
def ExprForm.erased : ExprForm Expr → ExprForm Expr
  | .int value => .int value
  | .float value => .float value
  | .str value => .str value
  | .bool value => .bool value
  | .none => .none
  | .list items => .list (Expr.erasedAll items)
  | .tuple items => .tuple (Expr.erasedAll items)
  | .set items => .set (Expr.erasedAll items)
  | .dict entries => .dict (Expr.erasedEntries entries)
  | .name id => .name id
  | .attribute object attr => .attribute object.erased attr.erased
  | .subscript object index => .subscript object.erased index.erased
  | .slice lower upper step =>
      .slice (Expr.erasedOption lower) (Expr.erasedOption upper)
        (Expr.erasedOption step)
  | .call callee args keywords =>
      .call callee.erased (Expr.erasedAll args)
        (Expr.erasedKeywords keywords)
  | .starred value => .starred value.erased
  | .binary left op right => .binary left.erased op right.erased
  | .unary op operand => .unary op operand.erased
  | .boolean op values => .boolean op (Expr.erasedAll values)
  | .compare left rest =>
      .compare left.erased (Expr.erasedSteps rest)
  | .conditional test body orelse =>
      .conditional test.erased body.erased orelse.erased
  | .lambda params body =>
      .lambda (Expr.erasedParams params) body.erased

/- Expressions without positions. -/
def Expr.erasedAll : List Expr → List Expr
  | [] => []
  | expr :: rest => expr.erased :: Expr.erasedAll rest

/- An optional expression without positions. -/
def Expr.erasedOption : Option Expr → Option Expr
  | none => none
  | some expr => some expr.erased

/- The entries of a dictionary without positions. -/
def Expr.erasedEntries : List (Expr × Expr) → List (Expr × Expr)
  | [] => []
  | (key, value) :: rest =>
      (key.erased, value.erased) :: Expr.erasedEntries rest

/- The later operands of a comparison without positions. -/
def Expr.erasedSteps : List (CompareOp × Expr) → List (CompareOp × Expr)
  | [] => []
  | (op, operand) :: rest =>
      (op, operand.erased) :: Expr.erasedSteps rest

/- Keyword arguments without positions. -/
def Expr.erasedKeywords : List (KeywordArg Expr) → List (KeywordArg Expr)
  | [] => []
  | ⟨name, value, _⟩ :: rest =>
      ⟨name.map Ident.erased, value.erased, .synthetic⟩ ::
        Expr.erasedKeywords rest

/- Parameters without positions. -/
def Expr.erasedParams : List (Param Expr) → List (Param Expr)
  | [] => []
  | ⟨name, kind, default, _⟩ :: rest =>
      ⟨name.erased, kind, Expr.erasedOption default, .synthetic⟩ ::
        Expr.erasedParams rest

end

/- A keyword argument without positions. -/
def KeywordArg.erased (argument : KeywordArg Expr) : KeywordArg Expr :=
  ⟨argument.name.map Ident.erased, argument.value.erased, .synthetic⟩

/- A parameter without positions. -/
def Param.erased (param : Param Expr) : Param Expr :=
  ⟨param.name.erased, param.kind, param.default.map Expr.erased, .synthetic⟩

namespace Expr

@[simp] theorem erasedAll_eq_map
    (items : List Expr) :
    erasedAll items = items.map erased := by
  induction items with
  | nil => rfl
  | cons first rest ih => rw [erasedAll, ih, List.map_cons]

@[simp] theorem erasedOption_eq_map
    (optional : Option Expr) :
    erasedOption optional = optional.map erased := by
  cases optional <;> rfl

@[simp] theorem erasedEntries_eq_map
    (entries : List (Expr × Expr)) :
    erasedEntries entries =
      entries.map (Prod.map erased erased) := by
  induction entries with
  | nil => rfl
  | cons first rest ih =>
      rw [erasedEntries, ih, List.map_cons, Prod.map]

@[simp] theorem erasedSteps_eq_map
    (steps : List (CompareOp × Expr)) :
    erasedSteps steps = steps.map (Prod.map id erased) := by
  induction steps with
  | nil => rfl
  | cons first rest ih =>
      rw [erasedSteps, ih, List.map_cons, Prod.map, id]

@[simp] theorem erasedKeywords_eq_map
    (keywords : List (KeywordArg Expr)) :
    erasedKeywords keywords = keywords.map KeywordArg.erased := by
  induction keywords with
  | nil => rfl
  | cons first rest ih =>
      rw [erasedKeywords, ih, List.map_cons, KeywordArg.erased]

@[simp] theorem erasedParams_eq_map
    (params : List (Param Expr)) :
    erasedParams params = params.map Param.erased := by
  induction params with
  | nil => rfl
  | cons first rest ih =>
      rw [erasedParams, ih, List.map_cons, Param.erased,
        erasedOption_eq_map]

/- Erased expressions have equal forms iff they are equal. -/
theorem erased_eq_iff
    (left right : Expr) :
    left.erased = right.erased ↔
      left.form.erased = right.form.erased := by
  obtain ⟨leftSpan, leftForm⟩ := left
  obtain ⟨rightSpan, rightForm⟩ := right
  simp only [erased, synthetic, mk.injEq, true_and, form_mk]

@[simp] theorem isStarred_erased
    (expr : Expr) :
    expr.erased.isStarred = expr.isStarred := by
  obtain ⟨span, form⟩ := expr
  cases form <;> rfl

end Expr

------------------------------------------------------------
-- Statements
------------------------------------------------------------

/- An imported name without its position. -/
def Alias.erased (name : Alias) : Alias :=
  ⟨name.name, name.asName.map Ident.erased, .synthetic⟩

mutual

/- A statement without positions. -/
def Stmt.erased : Stmt → Stmt
  | .mk _ form => .mk .synthetic (StmtForm.erased form)

/- A form without positions. -/
def StmtForm.erased : StmtForm Stmt → StmtForm Stmt
  | .expr value => .expr value.erased
  | .assign targets value =>
      .assign (targets.map Expr.erased) value.erased
  | .augAssign target op value =>
      .augAssign target.erased op value.erased
  | .functionDef name params body =>
      .functionDef name.erased (params.map Param.erased)
        (Stmt.erasedAll body)
  | .classDef name bases body =>
      .classDef name.erased (bases.map Expr.erased)
        (Stmt.erasedAll body)
  | .ret value => .ret (value.map Expr.erased)
  | .branch test body orelse =>
      .branch test.erased (Stmt.erasedAll body) (Stmt.erasedAll orelse)
  | .whileLoop test body orelse =>
      .whileLoop test.erased (Stmt.erasedAll body)
        (Stmt.erasedAll orelse)
  | .forLoop target items body orelse =>
      .forLoop target.erased items.erased (Stmt.erasedAll body)
        (Stmt.erasedAll orelse)
  | .importModules names => .importModules (names.map Alias.erased)
  | .importFrom source names =>
      .importFrom source (names.map Alias.erased)
  | .raise exception => .raise (exception.map Expr.erased)
  | .assert test message =>
      .assert test.erased (message.map Expr.erased)
  | .pass => .pass
  | .breakLoop => .breakLoop
  | .continueLoop => .continueLoop

/- A block without positions. -/
def Stmt.erasedAll : List Stmt → List Stmt
  | [] => []
  | stmt :: rest => stmt.erased :: Stmt.erasedAll rest

end

@[simp] theorem Stmt.erasedAll_eq_map
    (block : List Stmt) :
    Stmt.erasedAll block = block.map Stmt.erased := by
  induction block with
  | nil => rfl
  | cons first rest ih => rw [erasedAll, ih, List.map_cons]

/- A program without positions. -/
def Program.erased (program : Program) : Program :=
  ⟨program.body.map Stmt.erased, .synthetic⟩

------------------------------------------------------------
-- Nodes and Slots
------------------------------------------------------------

/- A node without positions. -/
def Node.erased : Node → Node
  | .program root => .program root.erased
  | .stmt inner => .stmt inner.erased
  | .expr inner => .expr inner.erased
  | .keyword inner => .keyword inner.erased
  | .param inner => .param inner.erased
  | .imported inner => .imported inner.erased

/- A slot without positions. -/
def Slot.erased : Slot → Slot
  | .node inner => .node inner.erased
  | .optional inner => .optional (inner.map Node.erased)
  | .nodes items => .nodes (items.map Node.erased)
  | .leaf value => .leaf value
  | .leaves values => .leaves values

namespace Slot

@[simp] theorem erased_nodes
    (items : List Node) :
    (Slot.nodes items).erased = .nodes (items.map Node.erased) := rfl

@[simp] theorem erased_leaf
    (value : Leaf) :
    (Slot.leaf value).erased = .leaf value := rfl

@[simp] theorem erased_leaves
    (values : List Leaf) :
    (Slot.leaves values).erased = .leaves values := rfl

end Slot

@[simp] theorem Ident.erased_inj
    {left right : Ident} :
    left.erased = right.erased ↔ left.name = right.name := by
  simp [erased]

/- The place of a symbol among the symbols gives the operator back. -/
theorem BinaryOp.symbol_injective : Function.Injective symbol :=
  Function.LeftInverse.injective
    (g := fun text =>
      .ofNat
        (["+", "-", "*", "@", "/", "//", "%", "**", "<<", ">>", "|", "^",
          "&"].idxOf text))
    fun op => by cases op <;> rfl

@[simp] theorem BinaryOp.symbol_inj
    {left right : BinaryOp} :
    left.symbol = right.symbol ↔ left = right :=
  symbol_injective.eq_iff

@[simp] theorem UnaryOp.symbol_inj
    {left right : UnaryOp} :
    left.symbol = right.symbol ↔ left = right := by
  cases left <;> cases right <;> simp [symbol]

@[simp] theorem BoolOp.symbol_inj
    {left right : BoolOp} :
    left.symbol = right.symbol ↔ left = right := by
  cases left <;> cases right <;> simp [symbol]

theorem CompareOp.symbol_injective : Function.Injective symbol :=
  Function.LeftInverse.injective
    (g := fun text =>
      .ofNat
        (["==", "!=", "<", "<=", ">", ">=", "is", "is not", "in",
          "not in"].idxOf text))
    fun op => by cases op <;> rfl

@[simp] theorem CompareOp.symbol_inj
    {left right : CompareOp} :
    left.symbol = right.symbol ↔ left = right :=
  symbol_injective.eq_iff

@[simp] theorem ParamKind.text_inj
    {left right : ParamKind} :
    left.text = right.text ↔ left = right := by
  cases left <;> cases right <;> simp [text]

namespace Node

@[simp] theorem erased_stmt
    (inner : Stmt) :
    (Node.stmt inner).erased = .stmt inner.erased := rfl

@[simp] theorem erased_expr
    (inner : Expr) :
    (Node.expr inner).erased = .expr inner.erased := rfl

@[simp] theorem erased_keyword
    (inner : KeywordArg Expr) :
    (Node.keyword inner).erased = .keyword inner.erased := rfl

@[simp] theorem erased_param
    (inner : Param Expr) :
    (Node.param inner).erased = .param inner.erased := rfl

@[simp] theorem erased_imported
    (inner : Alias) :
    (Node.imported inner).erased = .imported inner.erased := rfl

@[simp] theorem kind_erased
    (node : Node) :
    node.erased.kind = node.kind := by
  cases node with
  | stmt inner =>
      obtain ⟨span, form⟩ := inner
      cases form <;> rfl
  | expr inner =>
      obtain ⟨span, form⟩ := inner
      cases form <;> rfl
  | _ => rfl

@[simp] theorem erased_exprSlot
    (expr : Expr) :
    (exprSlot expr).erased = exprSlot expr.erased := rfl

@[simp] theorem erased_optionSlot
    (optional : Option Expr) :
    (optionSlot optional).erased =
      optionSlot (optional.map Expr.erased) := by
  cases optional <;> rfl

@[simp] theorem erased_exprsSlot
    (exprs : List Expr) :
    (exprsSlot exprs).erased = exprsSlot (exprs.map Expr.erased) := by
  simp [exprsSlot, Function.comp_def]

@[simp] theorem erased_stmtsSlot
    (stmts : List Stmt) :
    (stmtsSlot stmts).erased = stmtsSlot (stmts.map Stmt.erased) := by
  simp [stmtsSlot, Function.comp_def]

@[simp] theorem erased_identSlot
    (name : String) :
    (identSlot name).erased = identSlot name := rfl

@[simp] theorem erased_symbolSlot
    (text : String) :
    (symbolSlot text).erased = symbolSlot text := rfl

@[simp] theorem optionIdentSlot_erased
    (name : Option Ident) :
    optionIdentSlot (name.map Ident.erased) = optionIdentSlot name := by
  cases name <;> rfl

@[simp] theorem erased_optionIdentSlot
    (name : Option Ident) :
    (optionIdentSlot name).erased = optionIdentSlot name := rfl

private theorem exprSlots_erased
    (form : ExprForm Expr) :
    exprSlots form.erased =
      (exprSlots form).map fun slot => (slot.1, slot.2.erased) := by
  cases form <;>
    simp [ExprForm.erased, exprSlots, Function.comp_def]

private theorem stmtSlots_erased
    (form : StmtForm Stmt) :
    stmtSlots form.erased =
      (stmtSlots form).map fun slot => (slot.1, slot.2.erased) := by
  cases form <;>
    simp [StmtForm.erased, stmtSlots, Function.comp_def]

/- The slots of an erased node are those of the node, erased. -/
theorem slots_erased
    (node : Node) :
    node.erased.slots =
      node.slots.map fun slot => (slot.1, slot.2.erased) := by
  cases node with
  | program root => simp [erased, Program.erased, slots]
  | stmt inner =>
      obtain ⟨span, form⟩ := inner
      exact stmtSlots_erased form
  | expr inner =>
      obtain ⟨span, form⟩ := inner
      exact exprSlots_erased form
  | keyword inner => simp [KeywordArg.erased, slots]
  | param inner => simp [Param.erased, slots]
  | imported inner => simp [Alias.erased, slots]

theorem slotChildren_erased
    (slot : Slot) :
    slotChildren slot.erased = (slotChildren slot).map erased := by
  cases slot with
  | optional inner => cases inner <;> rfl
  | _ => rfl

theorem children_erased
    (node : Node) :
    node.erased.children = node.children.map erased := by
  simp only [children, slots_erased, List.flatMap_map,
    slotChildren_erased, List.map_flatMap]

------------------------------------------------------------
-- What the Slots Show
------------------------------------------------------------

@[simp] theorem map_expr_inj
    {left right : List Expr} :
    left.map Node.expr = right.map Node.expr ↔ left = right :=
  (List.map_injective_iff.mpr fun _ _ => Node.expr.inj).eq_iff

@[simp] theorem map_stmt_inj
    {left right : List Stmt} :
    left.map Node.stmt = right.map Node.stmt ↔ left = right :=
  (List.map_injective_iff.mpr fun _ _ => Node.stmt.inj).eq_iff

@[simp] theorem map_keyword_inj
    {left right : List (KeywordArg Expr)} :
    left.map Node.keyword = right.map Node.keyword ↔ left = right :=
  (List.map_injective_iff.mpr fun _ _ => Node.keyword.inj).eq_iff

@[simp] theorem map_param_inj
    {left right : List (Param Expr)} :
    left.map Node.param = right.map Node.param ↔ left = right :=
  (List.map_injective_iff.mpr fun _ _ => Node.param.inj).eq_iff

@[simp] theorem map_imported_inj
    {left right : List Alias} :
    left.map Node.imported = right.map Node.imported ↔ left = right :=
  (List.map_injective_iff.mpr fun _ _ => Node.imported.inj).eq_iff

@[simp] theorem exprSlot_inj
    {left right : Expr} :
    exprSlot left = exprSlot right ↔ left = right := by
  simp [exprSlot]

@[simp] theorem optionSlot_inj
    {left right : Option Expr} :
    optionSlot left = optionSlot right ↔ left = right := by
  cases left <;> cases right <;> simp [optionSlot]

@[simp] theorem exprsSlot_inj
    {left right : List Expr} :
    exprsSlot left = exprsSlot right ↔ left = right := by
  simp [exprsSlot]

@[simp] theorem stmtsSlot_inj
    {left right : List Stmt} :
    stmtsSlot left = stmtsSlot right ↔ left = right := by
  simp [stmtsSlot]

@[simp] theorem identSlot_inj
    {left right : String} :
    identSlot left = identSlot right ↔ left = right := by
  simp [identSlot]

@[simp] theorem symbolSlot_inj
    {left right : String} :
    symbolSlot left = symbolSlot right ↔ left = right := by
  simp [symbolSlot]

@[simp] theorem optionIdentSlot_inj
    {left right : Option Ident} :
    optionIdentSlot left = optionIdentSlot right ↔
      left.map Ident.erased = right.map Ident.erased := by
  cases left <;> cases right <;> simp [optionIdentSlot]

/- Pairs are determined by their sides. -/
private theorem eq_of_unzip
    {α β : Type}
    {left right : List (α × β)}
    (hFirst : left.map (·.1) = right.map (·.1))
    (hSecond : left.map (·.2) = right.map (·.2)) :
    left = right := by
  rw [← List.zip_unzip left, ← List.zip_unzip right]
  simp only [List.unzip_eq_map, hFirst, hSecond]

/-
  An erased form is determined by its kind and its slots. Forms
  of different kinds are told apart first.
-/
private theorem exprForm_erased_eq
    {left right : ExprForm Expr}
    (hKind : exprKind left = exprKind right)
    (hSlots : exprSlots left.erased = exprSlots right.erased) :
    left.erased = right.erased := by
  have hForm : left.ctorIdx = right.ctorIdx := by
    rw [exprForm_ctorIdx hKind, exprForm_ctorIdx rfl]
  cases left <;> cases right <;> first
    | exact absurd hForm (Nat.ne_of_beq_eq_false rfl)
    | simp only [ExprForm.erased, exprSlots, List.cons.injEq,
        Prod.mk.injEq, true_and, and_true] at hSlots ⊢
  case dict.dict =>
      exact congrArg _
        (eq_of_unzip (exprsSlot_inj.mp hSlots.1)
          (exprsSlot_inj.mp hSlots.2))
  case compare.compare =>
      obtain ⟨hLeft, hOps, hOperands⟩ := hSlots
      rw [exprSlot_inj.mp hLeft]
      have hInjective :
          Function.Injective fun op : CompareOp =>
            Leaf.symbol op.symbol := by
        intro first second hSymbol
        simpa using hSymbol
      refine congrArg _
        (eq_of_unzip (hInjective.list_map ?_)
          (exprsSlot_inj.mp hOperands))
      simpa [Function.comp_def] using hOps
  all_goals simp_all [-List.map_map]

private theorem stmtForm_erased_eq
    {left right : StmtForm Stmt}
    (hKind : stmtKind left = stmtKind right)
    (hSlots : stmtSlots left.erased = stmtSlots right.erased) :
    left.erased = right.erased := by
  have hForm : left.ctorIdx = right.ctorIdx := by
    rw [stmtForm_ctorIdx hKind, stmtForm_ctorIdx rfl]
  cases left <;> cases right <;> first
    | exact absurd hForm (Nat.ne_of_beq_eq_false rfl)
    | simp only [StmtForm.erased, stmtSlots, List.cons.injEq,
        Prod.mk.injEq, true_and, and_true] at hSlots ⊢
  all_goals simp_all [-List.map_map]

private theorem stmtKind_ne
    (form : StmtForm Stmt) :
    (∀ expr, stmtKind form ≠ exprKind expr) ∧
      stmtKind form ≠ "Module" ∧ stmtKind form ≠ "Keyword" ∧
        stmtKind form ≠ "Param" ∧ stmtKind form ≠ "Alias" := by
  have hOther := stmtKind_not_mem form
  simp only [List.mem_cons, not_or] at hOther
  obtain ⟨hModule, hKeyword, hParam, hAlias, hExpr⟩ := hOther
  exact ⟨fun expr hSame => hExpr (hSame ▸ exprKind_mem expr), hModule,
    hKeyword, hParam, hAlias⟩

private theorem exprKind_ne
    (form : ExprForm Expr) :
    exprKind form ≠ "Module" ∧ exprKind form ≠ "Keyword" ∧
      exprKind form ≠ "Param" ∧ exprKind form ≠ "Alias" := by
  cases form <;> exact of_decide_eq_true rfl

/-
  The slots of a node show all but its positions: nodes of one
  kind whose slots agree without positions are the same.
-/
theorem erased_eq_of_slots
    {left right : Node}
    (hKind : left.kind = right.kind)
    (hSlots : left.erased.slots = right.erased.slots) :
    left.erased = right.erased := by
  cases left <;> cases right
  case stmt.stmt left right =>
      obtain ⟨leftSpan, leftForm⟩ := left
      obtain ⟨rightSpan, rightForm⟩ := right
      have hForm : leftForm.erased = rightForm.erased :=
        stmtForm_erased_eq hKind hSlots
      rw [erased_stmt, erased_stmt, Stmt.erased, Stmt.erased, hForm]
  case expr.expr left right =>
      obtain ⟨leftSpan, leftForm⟩ := left
      obtain ⟨rightSpan, rightForm⟩ := right
      have hForm : leftForm.erased = rightForm.erased :=
        exprForm_erased_eq hKind hSlots
      rw [erased_expr, erased_expr, Expr.erased, Expr.erased, hForm]
  case program.program => simp_all [slots, erased, Program.erased]
  case keyword.keyword =>
      simp_all [slots, KeywordArg.erased]
  case param.param => simp_all [slots, Param.erased]
  case imported.imported => simp_all [slots, Alias.erased]
  all_goals
    have hOther := hKind.symm
    simp [kind, stmtKind_ne, exprKind_ne] at hKind hOther

theorem erased_eq_iff
    (left right : Node) :
    left.erased = right.erased ↔
      left.kind = right.kind ∧ left.erased.slots = right.erased.slots := by
  constructor
  · intro hErased
    refine ⟨?_, congrArg slots hErased⟩
    rw [← kind_erased left, hErased, kind_erased]
  · rintro ⟨hKind, hSlots⟩
    exact erased_eq_of_slots hKind hSlots

end Node

end SnippetGrader
