import SnippetGrader.Proofs.Tree.Erasure
import SnippetGrader.Tree.Text

/-
  The text of a tree without positions.

  How an expression is written does not depend on where it
  stands: erasing positions leaves its text as it is.

  Key theorems include:
    * `Expr.textAt_erased`
    * `Expr.source_erased`
-/

namespace SnippetGrader

@[simp] theorem ExprForm.strength_erased
    (form : ExprForm Expr) :
    form.erased.strength = form.strength := by
  cases form with
  | unary op operand => cases op <;> rfl
  | _ => rfl

@[simp] theorem keywordText_erased
    (name : Option Ident)
    (value : String) :
    keywordText (name.map Ident.erased) value =
      keywordText name value := by
  cases name <;> rfl

mutual

/- An expression is written alike wherever it stands. -/
theorem Expr.textAt_erased
    (strength : Nat) :
    (expr : Expr) →
    expr.erased.textAt strength = expr.textAt strength
  | .mk _ form => by
      rw [Expr.erased, Expr.synthetic, Expr.textAt, Expr.textAt,
        ExprForm.strength_erased, ExprForm.text_erased form]

theorem ExprForm.text_erased :
    (form : ExprForm Expr) →
    form.erased.text = form.text
  | .int _ | .float _ | .str _ | .bool _ | .none | .name _ => rfl
  | .list items | .set items => by
      rw [ExprForm.erased, ExprForm.text, ExprForm.text,
        Expr.textsAt_erased 0 items]
  | .tuple [] => rfl
  | .tuple [item] => by
      rw [ExprForm.erased, Expr.erasedAll, Expr.erasedAll,
        ExprForm.text, ExprForm.text, Expr.textAt_erased 0 item]
  | .tuple (first :: second :: later) => by
      have hTexts := Expr.textsAt_erased 0 (first :: second :: later)
      simp only [Expr.erasedAll] at hTexts
      simp only [ExprForm.erased, Expr.erasedAll, ExprForm.text, hTexts]
  | .dict entries => by
      rw [ExprForm.erased, ExprForm.text, ExprForm.text,
        Expr.entryTexts_erased entries]
  | .attribute object attr => by
      rw [ExprForm.erased, ExprForm.text, ExprForm.text,
        Expr.textAt_erased _ object, Ident.name_erased]
  | .subscript object index => by
      rw [ExprForm.erased, ExprForm.text, ExprForm.text,
        Expr.textAt_erased _ object, Expr.indexText_erased index]
  | .slice lower upper step => by
      have hStep :
          (Expr.erasedOption step).isSome = step.isSome := by
        cases step <;> rfl
      rw [ExprForm.erased, ExprForm.text, ExprForm.text, hStep,
        Expr.optionText_erased lower, Expr.optionText_erased upper,
        Expr.optionText_erased step]
  | .call callee args keywords => by
      rw [ExprForm.erased, ExprForm.text, ExprForm.text,
        Expr.textAt_erased _ callee, Expr.textsAt_erased 0 args,
        Expr.keywordTexts_erased keywords]
  | .starred value => by
      rw [ExprForm.erased, ExprForm.text, ExprForm.text,
        Expr.textAt_erased _ value]
  | .binary left op right => by
      rw [ExprForm.erased, ExprForm.text, ExprForm.text,
        Expr.textAt_erased _ left, Expr.textAt_erased _ right]
  | .unary .not operand | .unary .pos operand | .unary .neg operand
  | .unary .invert operand => by
      simp only [ExprForm.erased, ExprForm.text,
        Expr.textAt_erased _ operand]
  | .boolean op values => by
      rw [ExprForm.erased, ExprForm.text, ExprForm.text,
        Expr.textsAt_erased _ values]
  | .compare left rest => by
      rw [ExprForm.erased, ExprForm.text, ExprForm.text,
        Expr.textAt_erased _ left, Expr.comparisonText_erased rest]
  | .conditional test body orelse => by
      rw [ExprForm.erased, ExprForm.text, ExprForm.text,
        Expr.textAt_erased _ test, Expr.textAt_erased _ body,
        Expr.textAt_erased _ orelse]
  | .lambda [] body => by
      rw [ExprForm.erased, Expr.erasedParams, ExprForm.text,
        ExprForm.text, Expr.textAt_erased 0 body]
  | .lambda (param :: params) body => by
      have hTexts := Expr.paramTexts_erased (param :: params)
      simp only [Expr.erasedParams] at hTexts
      simp only [ExprForm.erased, Expr.erasedParams, ExprForm.text,
        hTexts, Expr.textAt_erased 0 body]

theorem Expr.textsAt_erased
    (strength : Nat) :
    (items : List Expr) →
    Expr.textsAt strength (Expr.erasedAll items) =
      Expr.textsAt strength items
  | [] => rfl
  | item :: rest => by
      rw [Expr.erasedAll, Expr.textsAt, Expr.textsAt,
        Expr.textAt_erased strength item,
        Expr.textsAt_erased strength rest]

theorem Expr.optionText_erased :
    (optional : Option Expr) →
    Expr.optionText (Expr.erasedOption optional) =
      Expr.optionText optional
  | none => rfl
  | some expr => Expr.textAt_erased 0 expr

theorem Expr.entryTexts_erased :
    (entries : List (Expr × Expr)) →
    Expr.entryTexts (Expr.erasedEntries entries) =
      Expr.entryTexts entries
  | [] => rfl
  | (key, value) :: rest => by
      rw [Expr.erasedEntries, Expr.entryTexts, Expr.entryTexts,
        Expr.textAt_erased 0 key, Expr.textAt_erased 0 value,
        Expr.entryTexts_erased rest]

theorem Expr.comparisonText_erased :
    (steps : List (CompareOp × Expr)) →
    Expr.comparisonText (Expr.erasedSteps steps) =
      Expr.comparisonText steps
  | [] => rfl
  | (op, operand) :: rest => by
      rw [Expr.erasedSteps, Expr.comparisonText, Expr.comparisonText,
        Expr.textAt_erased _ operand, Expr.comparisonText_erased rest]

theorem Expr.indexText_erased :
    (index : Expr) →
    Expr.indexText index.erased = Expr.indexText index
  | .mk _ (.tuple []) => rfl
  | .mk _ (.tuple (first :: later)) => by
      have hTexts := Expr.textsAt_erased 0 (first :: later)
      simp only [Expr.erasedAll] at hTexts
      simp only [Expr.erased, Expr.synthetic, ExprForm.erased,
        Expr.erasedAll, Expr.indexText, hTexts]
  | .mk _ (.int _) | .mk _ (.float _) | .mk _ (.str _)
  | .mk _ (.bool _) | .mk _ .none | .mk _ (.list _) | .mk _ (.set _)
  | .mk _ (.dict _) | .mk _ (.name _) | .mk _ (.attribute _ _)
  | .mk _ (.subscript _ _) | .mk _ (.slice _ _ _)
  | .mk _ (.call _ _ _) | .mk _ (.starred _) | .mk _ (.binary _ _ _)
  | .mk _ (.unary _ _) | .mk _ (.boolean _ _) | .mk _ (.compare _ _)
  | .mk _ (.conditional _ _ _) | .mk _ (.lambda _ _) => by
      exact ExprForm.text_erased _

theorem Expr.keywordTexts_erased :
    (keywords : List (KeywordArg Expr)) →
    Expr.keywordTexts (Expr.erasedKeywords keywords) =
      Expr.keywordTexts keywords
  | [] => rfl
  | ⟨name, value, _⟩ :: rest => by
      rw [Expr.erasedKeywords, Expr.keywordTexts, Expr.keywordTexts,
        keywordText_erased, Expr.textAt_erased 0 value,
        Expr.keywordTexts_erased rest]

theorem Expr.paramTexts_erased :
    (params : List (Param Expr)) →
    Expr.paramTexts (Expr.erasedParams params) =
      Expr.paramTexts params
  | [] => rfl
  | ⟨name, kind, none, _⟩ :: rest => by
      rw [Expr.erasedParams, Expr.erasedOption, Expr.paramTexts,
        Expr.paramTexts, Ident.name_erased, Expr.paramTexts_erased rest]
  | ⟨name, kind, some default, _⟩ :: rest => by
      rw [Expr.erasedParams, Expr.erasedOption, Expr.paramTexts,
        Expr.paramTexts, Ident.name_erased,
        Expr.textAt_erased 0 default, Expr.paramTexts_erased rest]

end

/- Expressions that differ only in their positions have one text. -/
theorem Expr.source_erased
    (expr : Expr) :
    expr.erased.source = expr.source :=
  Expr.textAt_erased 0 expr

end SnippetGrader
