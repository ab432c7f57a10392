import Mathlib
import SnippetGrader.Tree.Node

/-
  The children of a node, seen through its slots.

  Every walk over a tree goes from a node to its children, and
  every child is smaller than its parent. The names of the
  slots, and so their number, depend on the kind alone.

  Key theorems include:
    * `Node.size_eq_sum`
    * `Node.size_lt_of_mem_children`
    * `Node.slotNames_eq_of_kind_eq`
-/

namespace SnippetGrader

------------------------------------------------------------
-- Sizes as Sums
------------------------------------------------------------

namespace Expr

theorem sizeAll_eq_sum
    (items : List Expr) :
    Expr.sizeAll items = (items.map Expr.size).sum := by
  induction items with
  | nil => rfl
  | cons first rest ih => exact congrArg (first.size + ·) ih

theorem sizeOption_eq_sum
    (optional : Option Expr) :
    Expr.sizeOption optional =
      (optional.toList.map Expr.size).sum := by
  cases optional <;> rfl

theorem sizeEntries_eq_sum
    (entries : List (Expr × Expr)) :
    Expr.sizeEntries entries =
      (entries.map (·.1.size)).sum +
        (entries.map (·.2.size)).sum := by
  induction entries with
  | nil => rfl
  | cons first rest ih =>
      simp only [Expr.sizeEntries, ih, List.map_cons,
        List.sum_cons]
      omega

theorem sizeComparisons_eq_sum
    (steps : List (CompareOp × Expr)) :
    Expr.sizeComparisons steps =
      (steps.map (·.2.size)).sum := by
  induction steps with
  | nil => rfl
  | cons first rest ih => exact congrArg (first.2.size + ·) ih

theorem sizeKeywords_eq_sum
    (keywords : List (KeywordArg Expr)) :
    Expr.sizeKeywords keywords =
      (keywords.map (1 + ·.value.size)).sum := by
  induction keywords with
  | nil => rfl
  | cons first rest ih => exact congrArg (1 + first.value.size + ·) ih

theorem sizeParams_eq_sum
    (params : List (Param Expr)) :
    Expr.sizeParams params =
      (params.map (1 + Expr.sizeOption ·.default)).sum := by
  induction params with
  | nil => rfl
  | cons first rest ih =>
      exact congrArg (1 + Expr.sizeOption first.default + ·) ih

end Expr

theorem Stmt.sizeAll_eq_sum
    (block : List Stmt) :
    Stmt.sizeAll block = (block.map Stmt.size).sum := by
  induction block with
  | nil => rfl
  | cons first rest ih => exact congrArg (first.size + ·) ih

------------------------------------------------------------
-- Children
------------------------------------------------------------

namespace Node

@[simp] theorem slotChildren_exprSlot
    (expr : Expr) :
    slotChildren (exprSlot expr) = [.expr expr] := rfl

@[simp] theorem slotChildren_optionSlot
    (optional : Option Expr) :
    slotChildren (optionSlot optional) =
      optional.toList.map .expr := by
  cases optional <;> rfl

@[simp] theorem slotChildren_exprsSlot
    (exprs : List Expr) :
    slotChildren (exprsSlot exprs) = exprs.map .expr := rfl

@[simp] theorem slotChildren_stmtsSlot
    (stmts : List Stmt) :
    slotChildren (stmtsSlot stmts) = stmts.map .stmt := rfl

@[simp] theorem slotChildren_identSlot
    (name : String) :
    slotChildren (identSlot name) = [] := rfl

@[simp] theorem slotChildren_symbolSlot
    (text : String) :
    slotChildren (symbolSlot text) = [] := rfl

@[simp] theorem slotChildren_optionIdentSlot
    (name : Option Ident) :
    slotChildren (optionIdentSlot name) = [] := rfl

@[simp] theorem slotChildren_nodes
    (nodes : List Node) :
    slotChildren (.nodes nodes) = nodes := rfl

@[simp] theorem slotChildren_leaf
    (leaf : Leaf) :
    slotChildren (.leaf leaf) = [] := rfl

@[simp] theorem slotChildren_leaves
    (leaves : List Leaf) :
    slotChildren (.leaves leaves) = [] := rfl

/- The nodes below a form are counted slot by slot. -/
private theorem childSize_eq_sum
    (form : ExprForm Expr) :
    form.childSize =
      (((exprSlots form).flatMap fun slot =>
        slotChildren slot.2).map Node.size).sum := by
  cases form <;>
    simp [ExprForm.childSize, exprSlots, Node.size,
      Function.comp_def, Expr.sizeAll_eq_sum,
      Expr.sizeOption_eq_sum, Expr.sizeEntries_eq_sum,
      Expr.sizeComparisons_eq_sum, Expr.sizeKeywords_eq_sum,
      Expr.sizeParams_eq_sum, Nat.add_assoc]

/- The nodes below a statement are counted slot by slot. -/
private theorem stmtChildSize_eq_sum
    (form : StmtForm Stmt) :
    form.childSize =
      (((stmtSlots form).flatMap fun slot =>
        slotChildren slot.2).map Node.size).sum := by
  cases form <;>
    simp [StmtForm.childSize, stmtSlots, Node.size,
      Function.comp_def, Expr.sizeAll_eq_sum,
      Expr.sizeOption_eq_sum, Expr.sizeParams_eq_sum,
      Stmt.sizeAll_eq_sum, Nat.add_assoc]

/- A node is one more than all of its children together. -/
theorem size_eq_sum
    (node : Node) :
    node.size = 1 + (node.children.map Node.size).sum := by
  cases node with
  | program root =>
      simp [Node.size, Program.size, children, slots,
        Stmt.sizeAll_eq_sum, Function.comp_def]
  | stmt inner =>
      obtain ⟨span, form⟩ := inner
      simp only [Node.size, Stmt.size, children, slots,
        Stmt.form_mk]
      rw [stmtChildSize_eq_sum]
  | expr inner =>
      obtain ⟨span, form⟩ := inner
      simp only [Node.size, Expr.size, children, slots,
        Expr.form_mk]
      rw [childSize_eq_sum]
  | keyword inner => rfl
  | param inner =>
      simp [Node.size, children, slots,
        Expr.sizeOption_eq_sum, Function.comp_def]
  | imported inner => rfl

theorem size_lt_of_mem_children
    {node child : Node}
    (hChild : child ∈ node.children) :
    child.size < node.size := by
  have hLe :
      child.size ≤ (node.children.map Node.size).sum :=
    List.single_le_sum (fun _ _ => Nat.zero_le _) _
      (List.mem_map_of_mem hChild)
  rw [size_eq_sum node]
  omega

------------------------------------------------------------
-- Kinds Determine Forms
------------------------------------------------------------

/- The kinds of expressions, in the order of their forms. -/
def exprKinds : List String :=
  ["Int", "Float", "Str", "Bool", "None", "List", "Tuple", "Set", "Dict",
    "Name", "Attribute", "Subscript", "Slice", "Call", "Starred", "BinOp",
    "UnaryOp", "BoolOp", "Compare", "IfExp", "Lambda"]

/- The kinds of statements, in the order of their forms. -/
def stmtKinds : List String :=
  ["Expr", "Assign", "AugAssign", "FunctionDef", "ClassDef", "Return", "If",
    "While", "For", "Import", "ImportFrom", "Raise", "Assert", "Pass",
    "Break", "Continue"]

/- The number of a form is the place of its kind. -/
theorem exprForm_ctorIdx
    {form : ExprForm Expr}
    {kind : String}
    (hKind : exprKind form = kind) :
    form.ctorIdx = exprKinds.idxOf kind := by
  subst hKind
  cases form <;> rfl

theorem stmtForm_ctorIdx
    {form : StmtForm Stmt}
    {kind : String}
    (hKind : stmtKind form = kind) :
    form.ctorIdx = stmtKinds.idxOf kind := by
  subst hKind
  cases form <;> rfl

theorem exprKind_mem
    (form : ExprForm Expr) :
    exprKind form ∈ exprKinds := by
  cases form <;> exact of_decide_eq_true rfl

/- The kind of a node tells what sort of node it is. -/
theorem stmtKind_not_mem
    (form : StmtForm Stmt) :
    stmtKind form ∉ "Module" :: "Keyword" :: "Param" :: "Alias" :: exprKinds := by
  cases form <;> exact of_decide_eq_false rfl

theorem exists_expr_of_kind
    {node : Node}
    (hKind : node.kind ∈ exprKinds) :
    ∃ expr, node = .expr expr := by
  cases node with
  | expr inner => exact ⟨inner, rfl⟩
  | stmt inner =>
      refine absurd ?_ (stmtKind_not_mem inner.form)
      iterate 4 refine List.mem_cons_of_mem _ ?_
      exact hKind
  | _ => exact absurd hKind (of_decide_eq_false rfl)

------------------------------------------------------------
-- Kinds Determine Slot Names
------------------------------------------------------------

/- The names of the slots of every kind. -/
def kindSlotNames : List (String × List String) :=
  [("Module", ["body"]),
   ("Expr", ["value"]),
   ("Assign", ["targets", "value"]),
   ("AugAssign", ["target", "op", "value"]),
   ("FunctionDef", ["name", "params", "body"]),
   ("ClassDef", ["name", "bases", "body"]),
   ("Return", ["value"]),
   ("If", ["test", "body", "orelse"]),
   ("While", ["test", "body", "orelse"]),
   ("For", ["target", "iter", "body", "orelse"]),
   ("Import", ["names"]),
   ("ImportFrom", ["module", "names"]),
   ("Raise", ["exc"]),
   ("Assert", ["test", "msg"]),
   ("Int", ["value"]),
   ("Float", ["value"]),
   ("Str", ["value"]),
   ("Bool", ["value"]),
   ("None", ["value"]),
   ("List", ["elts"]),
   ("Tuple", ["elts"]),
   ("Set", ["elts"]),
   ("Dict", ["keys", "values"]),
   ("Name", ["id"]),
   ("Attribute", ["value", "attr"]),
   ("Subscript", ["value", "slice"]),
   ("Slice", ["lower", "upper", "step"]),
   ("Call", ["func", "args", "keywords"]),
   ("Starred", ["value"]),
   ("BinOp", ["left", "op", "right"]),
   ("UnaryOp", ["op", "operand"]),
   ("BoolOp", ["op", "values"]),
   ("Compare", ["left", "ops", "comparators"]),
   ("IfExp", ["test", "body", "orelse"]),
   ("Lambda", ["params", "body"]),
   ("Keyword", ["arg", "value"]),
   ("Param", ["name", "kind", "default"]),
   ("Alias", ["name", "asname"])]

theorem slotNames_eq_lookup
    (node : Node) :
    node.slots.map (·.1) =
      (kindSlotNames.lookup node.kind).getD [] := by
  cases node with
  | stmt inner =>
      obtain ⟨span, form⟩ := inner
      cases form <;> rfl
  | expr inner =>
      obtain ⟨span, form⟩ := inner
      cases form <;> rfl
  | _ => rfl

theorem slotNames_eq_of_kind_eq
    {left right : Node}
    (hKind : left.kind = right.kind) :
    left.slots.map (·.1) = right.slots.map (·.1) := by
  rw [slotNames_eq_lookup, slotNames_eq_lookup, hKind]

end Node

end SnippetGrader
