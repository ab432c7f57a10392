import SnippetGrader.Tree.Size

/-
  A uniform view of trees.

  Every node, whatever its type, has a kind and a fixed list of
  named slots. Two nodes of one kind have the same slot names in
  the same order, so that a walk need not know the kinds.

  Key definitions include:
    * `Node`, `Leaf`, `Slot`
    * `Node.kind`, `Node.slots`
    * `Node.preorder`
-/

namespace SnippetGrader

------------------------------------------------------------
-- Nodes, Leaves and Slots
------------------------------------------------------------

/- Any node of a tree. -/
inductive Node where
  | program (program : Program)
  | stmt (stmt : Stmt)
  | expr (expr : Expr)
  | keyword (keyword : KeywordArg Expr)
  | param (param : Param Expr)
  | imported (name : Alias)
  deriving Inhabited

/- A value that a node holds itself. -/
inductive Leaf where
  | int (value : Int)
  | float (value : Float)
  | str (value : String)
  | bool (value : Bool)
  | none
  | ident (name : String)
  | symbol (text : String)
  deriving Repr, Inhabited

/- Equality of leaves. Leaves of different sorts differ. -/
def Leaf.beq : Leaf → Leaf → Bool
  | .int a, .int b => a == b
  | .float a, .float b => a == b
  | .str a, .str b => a == b
  | .bool a, .bool b => a == b
  | .none, .none => true
  | .ident a, .ident b => a == b
  | .symbol a, .symbol b => a == b
  | _, _ => false

instance : BEq Leaf := ⟨Leaf.beq⟩

/- The content of a slot. -/
inductive Slot where
  | node (node : Node)
  | optional (node : Option Node)
  | nodes (nodes : List Node)
  | leaf (leaf : Leaf)
  | leaves (leaves : List Leaf)
  deriving Inhabited

namespace Node

------------------------------------------------------------
-- Kinds and Positions
------------------------------------------------------------

/- The kind of a statement. -/
def stmtKind : StmtForm Stmt → String
  | .expr _ => "Expr"
  | .assign _ _ => "Assign"
  | .augAssign _ _ _ => "AugAssign"
  | .functionDef _ _ _ => "FunctionDef"
  | .classDef _ _ _ => "ClassDef"
  | .ret _ => "Return"
  | .branch _ _ _ => "If"
  | .whileLoop _ _ _ => "While"
  | .forLoop _ _ _ _ => "For"
  | .importModules _ => "Import"
  | .importFrom _ _ => "ImportFrom"
  | .raise _ => "Raise"
  | .assert _ _ => "Assert"
  | .pass => "Pass"
  | .breakLoop => "Break"
  | .continueLoop => "Continue"

/- The kind of an expression. -/
def exprKind : ExprForm Expr → String
  | .int _ => "Int"
  | .float _ => "Float"
  | .str _ => "Str"
  | .bool _ => "Bool"
  | .none => "None"
  | .list _ => "List"
  | .tuple _ => "Tuple"
  | .set _ => "Set"
  | .dict _ => "Dict"
  | .name _ => "Name"
  | .attribute _ _ => "Attribute"
  | .subscript _ _ => "Subscript"
  | .slice _ _ _ => "Slice"
  | .call _ _ _ => "Call"
  | .starred _ => "Starred"
  | .binary _ _ _ => "BinOp"
  | .unary _ _ => "UnaryOp"
  | .boolean _ _ => "BoolOp"
  | .compare _ _ => "Compare"
  | .conditional _ _ _ => "IfExp"
  | .lambda _ _ => "Lambda"

/- The kind of a node, the same for all nodes of one shape. -/
def kind : Node → String
  | .program _ => "Module"
  | .stmt inner => stmtKind inner.form
  | .expr inner => exprKind inner.form
  | .keyword _ => "Keyword"
  | .param _ => "Param"
  | .imported _ => "Alias"

/- Where a node stands. -/
def span : Node → Span
  | .program root => root.span
  | .stmt inner => inner.span
  | .expr inner => inner.span
  | .keyword inner => inner.span
  | .param inner => inner.span
  | .imported inner => inner.span

/- The line that a node starts on. Programs and synthetic nodes have none. -/
def line? : Node → Option Nat
  | .program _ => none
  | node => if node.span.isSynthetic then none else some node.span.startLine

------------------------------------------------------------
-- Slots
------------------------------------------------------------

/- A slot that holds one expression. -/
def exprSlot (expr : Expr) : Slot :=
  .node (.expr expr)

/- A slot that may hold an expression. -/
def optionSlot (expr : Option Expr) : Slot :=
  .optional (expr.map .expr)

/- A slot that holds a list of expressions. -/
def exprsSlot (exprs : List Expr) : Slot :=
  .nodes (exprs.map .expr)

/- A slot that holds a block. -/
def stmtsSlot (stmts : List Stmt) : Slot :=
  .nodes (stmts.map .stmt)

/- A slot that holds a name. -/
def identSlot (name : String) : Slot :=
  .leaf (.ident name)

/- A slot that holds a symbol. -/
def symbolSlot (text : String) : Slot :=
  .leaf (.symbol text)

/- A slot that may hold a name. -/
def optionIdentSlot (name : Option Ident) : Slot :=
  .leaf (match name with
    | some ident => .ident ident.name
    | none => .none)

/- The slots of a statement. -/
def stmtSlots : StmtForm Stmt → List (String × Slot)
  | .expr value => [("value", exprSlot value)]
  | .assign targets value =>
      [("targets", exprsSlot targets), ("value", exprSlot value)]
  | .augAssign target op value =>
      [("target", exprSlot target), ("op", symbolSlot op.symbol),
       ("value", exprSlot value)]
  | .functionDef name params body =>
      [("name", identSlot name.name), ("params", .nodes (params.map .param)),
       ("body", stmtsSlot body)]
  | .classDef name bases body =>
      [("name", identSlot name.name), ("bases", exprsSlot bases),
       ("body", stmtsSlot body)]
  | .ret value => [("value", optionSlot value)]
  | .branch test body orelse | .whileLoop test body orelse =>
      [("test", exprSlot test), ("body", stmtsSlot body),
       ("orelse", stmtsSlot orelse)]
  | .forLoop target items body orelse =>
      [("target", exprSlot target), ("iter", exprSlot items),
       ("body", stmtsSlot body), ("orelse", stmtsSlot orelse)]
  | .importModules names => [("names", .nodes (names.map .imported))]
  | .importFrom source names =>
      [("module", identSlot source), ("names", .nodes (names.map .imported))]
  | .raise exception => [("exc", optionSlot exception)]
  | .assert test message =>
      [("test", exprSlot test), ("msg", optionSlot message)]
  | .pass | .breakLoop | .continueLoop => []

/- The slots of an expression. -/
def exprSlots : ExprForm Expr → List (String × Slot)
  | .int value => [("value", .leaf (.int value))]
  | .float value => [("value", .leaf (.float value))]
  | .str value => [("value", .leaf (.str value))]
  | .bool value => [("value", .leaf (.bool value))]
  | .none => [("value", .leaf .none)]
  | .list items | .tuple items | .set items => [("elts", exprsSlot items)]
  | .dict entries =>
      [("keys", exprsSlot (entries.map (·.1))),
       ("values", exprsSlot (entries.map (·.2)))]
  | .name id => [("id", identSlot id)]
  | .attribute object attr =>
      [("value", exprSlot object), ("attr", identSlot attr.name)]
  | .subscript object index =>
      [("value", exprSlot object), ("slice", exprSlot index)]
  | .slice lower upper step =>
      [("lower", optionSlot lower), ("upper", optionSlot upper),
       ("step", optionSlot step)]
  | .call callee args keywords =>
      [("func", exprSlot callee), ("args", exprsSlot args),
       ("keywords", .nodes (keywords.map .keyword))]
  | .starred value => [("value", exprSlot value)]
  | .binary left op right =>
      [("left", exprSlot left), ("op", symbolSlot op.symbol),
       ("right", exprSlot right)]
  | .unary op operand =>
      [("op", symbolSlot op.symbol), ("operand", exprSlot operand)]
  | .boolean op values =>
      [("op", symbolSlot op.symbol), ("values", exprsSlot values)]
  | .compare left rest =>
      [("left", exprSlot left),
       ("ops", .leaves (rest.map fun item => .symbol item.1.symbol)),
       ("comparators", exprsSlot (rest.map (·.2)))]
  | .conditional test body orelse =>
      [("test", exprSlot test), ("body", exprSlot body),
       ("orelse", exprSlot orelse)]
  | .lambda params body =>
      [("params", .nodes (params.map .param)), ("body", exprSlot body)]

/- The named slots of a node, in a fixed order. -/
def slots : Node → List (String × Slot)
  | .program root => [("body", stmtsSlot root.body)]
  | .stmt inner => stmtSlots inner.form
  | .expr inner => exprSlots inner.form
  | .keyword inner =>
      [("arg", optionIdentSlot inner.name), ("value", exprSlot inner.value)]
  | .param inner =>
      [("name", identSlot inner.name.name), ("kind", symbolSlot inner.kind.text),
       ("default", optionSlot inner.default)]
  | .imported inner =>
      [("name", identSlot inner.name), ("asname", optionIdentSlot inner.asName)]

------------------------------------------------------------
-- Walks
------------------------------------------------------------

/- The nodes in a slot. -/
def slotChildren : Slot → List Node
  | .node node => [node]
  | .optional node => node.toList
  | .nodes nodes => nodes
  | .leaf _ | .leaves _ => []

/- The children of a node, slot by slot. -/
def children (node : Node) : List Node :=
  node.slots.flatMap fun slot => slotChildren slot.2

/- The number of nodes below and including a node. -/
def size : Node → Nat
  | .program root => root.size
  | .stmt inner => inner.size
  | .expr inner => inner.size
  | .keyword inner => 1 + inner.value.size
  | .param inner => 1 + Expr.sizeOption inner.default
  | .imported _ => 1

/- The nodes of a tree down to a given depth, each before its children. -/
def preorderTo : (depth : Nat) → Node → List Node
  | 0, _ => []
  | depth + 1, node => node :: node.children.flatMap (preorderTo depth)

/- The nodes of a tree, each before its children. -/
def preorder (node : Node) : List Node :=
  preorderTo node.size node

end Node

end SnippetGrader
