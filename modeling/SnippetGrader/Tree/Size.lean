import SnippetGrader.Tree.Basic

/-
  The number of nodes in a tree.

  Keyword arguments, parameters and aliases count as nodes of
  their own. The size bounds every walk over a tree.

  Key definitions include:
    * `Expr.size`
    * `Stmt.size`
    * `Program.size`
-/

namespace SnippetGrader

mutual

/- The number of nodes of an expression. -/
def Expr.size : Expr → Nat
  | .mk _ form => 1 + ExprForm.childSize form

/- The number of nodes below a form. -/
def ExprForm.childSize : ExprForm Expr → Nat
  | .int _ | .float _ | .str _ | .bool _ | .none | .name _ => 0
  | .list items | .tuple items | .set items => Expr.sizeAll items
  | .dict entries => Expr.sizeEntries entries
  | .attribute object _ => object.size
  | .subscript object index => object.size + index.size
  | .slice lower upper step =>
      Expr.sizeOption lower + Expr.sizeOption upper + Expr.sizeOption step
  | .call callee args keywords =>
      callee.size + Expr.sizeAll args + Expr.sizeKeywords keywords
  | .starred value => value.size
  | .binary left _ right => left.size + right.size
  | .unary _ operand => operand.size
  | .boolean _ values => Expr.sizeAll values
  | .compare left rest => left.size + Expr.sizeComparisons rest
  | .conditional test body orelse => test.size + body.size + orelse.size
  | .lambda params body => Expr.sizeParams params + body.size

/- The number of nodes of a list of expressions. -/
def Expr.sizeAll : List Expr → Nat
  | [] => 0
  | expr :: rest => expr.size + Expr.sizeAll rest

/- The number of nodes of an optional expression. -/
def Expr.sizeOption : Option Expr → Nat
  | none => 0
  | some expr => expr.size

/- The number of nodes of the entries of a dictionary. -/
def Expr.sizeEntries : List (Expr × Expr) → Nat
  | [] => 0
  | (key, value) :: rest => key.size + value.size + Expr.sizeEntries rest

/- The number of nodes of the later operands of a comparison. -/
def Expr.sizeComparisons : List (CompareOp × Expr) → Nat
  | [] => 0
  | (_, operand) :: rest => operand.size + Expr.sizeComparisons rest

/- The number of nodes of keyword arguments. -/
def Expr.sizeKeywords : List (KeywordArg Expr) → Nat
  | [] => 0
  | ⟨_, value, _⟩ :: rest => 1 + value.size + Expr.sizeKeywords rest

/- The number of nodes of parameters. -/
def Expr.sizeParams : List (Param Expr) → Nat
  | [] => 0
  | ⟨_, _, default, _⟩ :: rest =>
      1 + Expr.sizeOption default + Expr.sizeParams rest

end

mutual

/- The number of nodes of a statement. -/
def Stmt.size : Stmt → Nat
  | .mk _ form => 1 + StmtForm.childSize form

/- The number of nodes below a form. -/
def StmtForm.childSize : StmtForm Stmt → Nat
  | .expr value => value.size
  | .assign targets value => Expr.sizeAll targets + value.size
  | .augAssign target _ value => target.size + value.size
  | .functionDef _ params body => Expr.sizeParams params + Stmt.sizeAll body
  | .classDef _ bases body => Expr.sizeAll bases + Stmt.sizeAll body
  | .ret value => Expr.sizeOption value
  | .branch test body orelse | .whileLoop test body orelse =>
      test.size + Stmt.sizeAll body + Stmt.sizeAll orelse
  | .forLoop target items body orelse =>
      target.size + items.size + Stmt.sizeAll body + Stmt.sizeAll orelse
  | .importModules names | .importFrom _ names => names.length
  | .raise exception => Expr.sizeOption exception
  | .assert test message => test.size + Expr.sizeOption message
  | .pass | .breakLoop | .continueLoop => 0

/- The number of nodes of a block. -/
def Stmt.sizeAll : List Stmt → Nat
  | [] => 0
  | stmt :: rest => stmt.size + Stmt.sizeAll rest

end

/- The number of nodes of a program, itself included. -/
def Program.size (program : Program) : Nat :=
  1 + Stmt.sizeAll program.body

theorem Expr.size_pos (expr : Expr) : 0 < expr.size := by
  cases expr
  simp only [Expr.size]
  omega

end SnippetGrader
