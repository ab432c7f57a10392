import SnippetGrader.Parsing.Cursor
import SnippetGrader.Proofs.Number.Notation
import SnippetGrader.Proofs.Tree.Grammar
import SnippetGrader.Tree.Text

/-
  Expressions whose text can be read back.

  Stars and slices stand only where the grammar has a place for
  them, and what a node holds itself is what its text is read
  as. How deeply the text nests is counted in the way in which
  reading it counts: parentheses, operands of prefix operators
  and whole expressions inside others lie one level deeper.

  Key definitions include:
    * `Expr.Legible`
    * `Expr.nestingAt`, `Expr.nesting`

  Key theorems include:
    * `Expr.legible_mk_iff`
-/

namespace SnippetGrader

------------------------------------------------------------
-- Names
------------------------------------------------------------

/- A name is recognised by its characters. -/
instance (text : String) : Decidable (IsName text) :=
  decidable_of_iff
    (TokenKind.ofWord? text = none ∧
      text.toList.head?.any Text.startsWord = true ∧
        text.toList.tail.all Text.continuesWord = true)
    (by
      unfold IsName
      cases text.toList <;> simp)

------------------------------------------------------------
-- Places
------------------------------------------------------------

namespace Expr

/- Whether an expression is an integer literal. -/
def isInt (expr : Expr) : Bool :=
  match expr.form with
  | .int _ => true
  | _ => false

/- What may stand wherever an expression may. -/
structure IsPlain (expr : Expr) : Prop where
  unstarred : expr.isStarred = false
  complete : expr.isIndexOnly = false

/- What may stand in a display, and as an argument: a star is allowed. -/
def IsItem (expr : Expr) : Prop :=
  expr.isIndexOnly = false

/- What may stand between the commas of an index: a slice is allowed. -/
def IsIndexItem (expr : Expr) : Prop :=
  expr.isSlice = true ∨ expr.IsPlain

/-
  What may stand between the brackets of a subscript. A tuple of
  one item may not, as it is written like the item.
-/
def IsIndex (expr : Expr) : Prop :=
  match expr.form with
  | .tuple items =>
      items.length ≠ 1 ∧ ∀ item ∈ items, item.IsIndexItem
  | _ => expr.IsIndexItem

end Expr

------------------------------------------------------------
-- Legible Expressions
------------------------------------------------------------

/- The arguments of a call: they have names, and no two the same one. -/
structure KeywordsWellFormed (keywords : List (KeywordArg Expr)) : Prop where
  named :
    ∀ keyword ∈ keywords,
      ∀ ident ∈ keyword.name, IsName ident.name
  distinct :
    (keywords.filterMap fun keyword => keyword.name.map (·.name)).Nodup

namespace ExprForm

/- The expressions that a form is built from. -/
def operands : ExprForm Expr → List Expr
  | .int _ | .float _ | .str _ | .bool _ | .none | .name _ => []
  | .list items | .tuple items | .set items => items
  | .dict entries => entries.flatMap fun entry => [entry.1, entry.2]
  | .attribute object _ => [object]
  | .subscript object index => [object, index]
  | .slice lower upper step =>
      lower.toList ++ upper.toList ++ step.toList
  | .call callee args keywords =>
      callee :: args ++ keywords.map (·.value)
  | .starred value => [value]
  | .binary left _ right => [left, right]
  | .unary _ operand => [operand]
  | .boolean _ values => values
  | .compare left rest => left :: rest.map (·.2)
  | .conditional test body orelse => [test, body, orelse]
  | .lambda params body => params.filterMap (·.default) ++ [body]

/- What a form asks of what it holds and of its operands. -/
def IsWritten : ExprForm Expr → Prop
  | .int value => 0 ≤ value ∧ Number.inWord value = true
  | .float value => Number.Finite value
  | .str _ | .bool _ | .none => True
  | .name id => IsName id
  | .list items => ∀ item ∈ items, item.IsItem
  | .tuple items => ∀ item ∈ items, item.isSlice = true ∨ item.IsItem
  | .set items => items ≠ [] ∧ ∀ item ∈ items, item.IsItem
  | .dict entries =>
      ∀ entry ∈ entries, entry.1.IsPlain ∧ entry.2.IsPlain
  | .attribute object attr =>
      object.IsPlain ∧ object.isInt = false ∧ IsName attr.name
  | .subscript object index => object.IsPlain ∧ index.IsIndex
  | .slice lower upper step =>
      ∀ bound ∈ lower.toList ++ upper.toList ++ step.toList,
        bound.IsPlain
  | .call callee args keywords =>
      callee.IsPlain ∧
        (∀ arg ∈ args, arg.IsItem) ∧
          (∀ keyword ∈ keywords, keyword.value.IsPlain) ∧
            KeywordsWellFormed keywords
  | .starred value => value.IsPlain
  | .binary left _ right => left.IsPlain ∧ right.IsPlain
  | .unary _ operand => operand.IsPlain
  | .boolean _ values =>
      2 ≤ values.length ∧ ∀ value ∈ values, value.IsPlain
  | .compare left rest =>
      rest ≠ [] ∧ left.IsPlain ∧ ∀ step ∈ rest, step.2.IsPlain
  | .conditional test body orelse =>
      test.IsPlain ∧ body.IsPlain ∧ orelse.IsPlain
  | .lambda params body =>
      ParamsWellFormed params ∧
        (∀ param ∈ params,
          IsName param.name.name ∧
            ∀ default ∈ param.default, default.IsPlain) ∧
          body.IsPlain

end ExprForm

/- Every form of the expression is written as it is read. -/
inductive Expr.Legible : Expr → Prop
  | intro
      {span : Span}
      {form : ExprForm Expr}
      (here : form.IsWritten)
      (below : ∀ operand ∈ form.operands, operand.Legible) :
      Legible (.mk span form)

theorem Expr.legible_mk_iff
    {span : Span}
    {form : ExprForm Expr} :
    (Expr.mk span form).Legible ↔
      form.IsWritten ∧ ∀ operand ∈ form.operands, operand.Legible := by
  constructor
  · rintro ⟨hWritten, hOperands⟩
    exact ⟨hWritten, hOperands⟩
  · rintro ⟨hWritten, hOperands⟩
    exact ⟨hWritten, hOperands⟩

------------------------------------------------------------
-- Nesting
------------------------------------------------------------

namespace ExprForm

/- An item is an expression of its own, unless it has a star or colons. -/
def itemDepth : ExprForm Expr → Nat
  | .starred _ | .slice _ _ _ => 0
  | _ => 1

/- The items of an index lie no deeper than an index of one item. -/
def indexDepth : ExprForm Expr → Nat
  | .slice _ _ _ | .tuple (_ :: _) => 0
  | _ => 1

end ExprForm

mutual

/- How deeply an expression nests in a place that needs a strength. -/
def Expr.nestingAt (strength : Nat) : Expr → Nat
  | .mk _ form =>
      (if form.strength < strength then 1 else 0) + ExprForm.nesting form

/- How deeply the operands of a form nest. -/
def ExprForm.nesting : ExprForm Expr → Nat
  | .int _ | .float _ | .str _ | .bool _ | .none | .name _ => 0
  | .list items | .tuple items | .set items => Expr.itemsNesting items
  | .dict entries => Expr.entriesNesting entries
  | .attribute object _ => object.nestingAt Strength.primary
  | .subscript object index =>
      max (object.nestingAt Strength.primary) (Expr.indexNesting index)
  | .slice lower upper step =>
      max (Expr.optionNesting lower)
        (max (Expr.optionNesting upper) (Expr.optionNesting step))
  | .call callee args keywords =>
      max (callee.nestingAt Strength.primary)
        (max (Expr.itemsNesting args) (Expr.keywordsNesting keywords))
  | .starred value => value.nestingAt Strength.bitOr
  | .binary left .pow right =>
      max (left.nestingAt Strength.primary)
        (1 + right.nestingAt Strength.unary)
  | .binary left op right =>
      max (left.nestingAt op.strength) (right.nestingAt (op.strength + 1))
  | .unary .not operand => 1 + operand.nestingAt Strength.not
  | .unary _ operand => 1 + operand.nestingAt Strength.unary
  | .boolean op values => Expr.valuesNesting (op.strength + 1) values
  | .compare left rest =>
      max (left.nestingAt Strength.bitOr) (Expr.stepsNesting rest)
  | .conditional test body orelse =>
      max (max (body.nestingAt Strength.or) (test.nestingAt Strength.or))
        (1 + orelse.nestingAt Strength.conditional)
  | .lambda params body =>
      max (Expr.paramsNesting params) (1 + body.nestingAt 0)

/- How deeply the items of a display or the arguments of a call nest. -/
def Expr.itemsNesting : List Expr → Nat
  | [] => 0
  | .mk _ form :: rest =>
      max (form.itemDepth + ExprForm.nesting form) (Expr.itemsNesting rest)

/- How deeply an index nests. -/
def Expr.indexNesting : Expr → Nat
  | .mk _ form => form.indexDepth + ExprForm.nesting form

/- How deeply an optional expression nests. -/
def Expr.optionNesting : Option Expr → Nat
  | none => 0
  | some expr => 1 + expr.nestingAt 0

/- How deeply the entries of a dictionary nest. -/
def Expr.entriesNesting : List (Expr × Expr) → Nat
  | [] => 0
  | (key, value) :: rest =>
      max (max (1 + key.nestingAt 0) (1 + value.nestingAt 0))
        (Expr.entriesNesting rest)

/- How deeply keyword arguments nest. -/
def Expr.keywordsNesting : List (KeywordArg Expr) → Nat
  | [] => 0
  | ⟨_, value, _⟩ :: rest =>
      max (1 + value.nestingAt 0) (Expr.keywordsNesting rest)

/- How deeply expressions nest in places that need a strength. -/
def Expr.valuesNesting (strength : Nat) : List Expr → Nat
  | [] => 0
  | value :: rest =>
      max (value.nestingAt strength) (Expr.valuesNesting strength rest)

/- How deeply the later operands of a comparison nest. -/
def Expr.stepsNesting : List (CompareOp × Expr) → Nat
  | [] => 0
  | (_, operand) :: rest =>
      max (operand.nestingAt Strength.bitOr) (Expr.stepsNesting rest)

/- How deeply the defaults of parameters nest. -/
def Expr.paramsNesting : List (Param Expr) → Nat
  | [] => 0
  | ⟨_, _, default, _⟩ :: rest =>
      max (Expr.optionNesting default) (Expr.paramsNesting rest)

end

/- How deeply the text of an expression nests. -/
def Expr.nesting (expr : Expr) : Nat :=
  1 + expr.nestingAt 0

end SnippetGrader
