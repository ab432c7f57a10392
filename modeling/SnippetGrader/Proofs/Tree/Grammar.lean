import SnippetGrader.Number.Binary64
import SnippetGrader.Proofs.Signature.WellFormed
import SnippetGrader.Proofs.Tree.Children
import SnippetGrader.Token.Basic

/-
  Trees that are written in source text.

  A tree is grammatical if each of its nodes could have been
  read from a text.

  Key definitions include:
    * `Node.Everywhere`
    * `IsName`, `ParamsWellFormed`
    * `Node.Grammatical`
-/

namespace SnippetGrader

------------------------------------------------------------
-- Properties of All Nodes
------------------------------------------------------------

/- A property of a node and of all nodes below it. -/
inductive Node.Everywhere (holds : Node → Prop) : Node → Prop
  | intro
      {node : Node}
      (here : holds node)
      (below : ∀ child ∈ node.children, Everywhere holds child) :
      Everywhere holds node

namespace Node.Everywhere

variable {holds : Node → Prop}
variable {node child : Node}

theorem atNode
    (hNode : Everywhere holds node) :
    holds node := by
  cases hNode
  assumption

theorem atChild
    (hNode : Everywhere holds node)
    (hChild : child ∈ node.children) :
    Everywhere holds child := by
  cases hNode with
  | intro _ hBelow => exact hBelow child hChild

/- Below a node without children there is nothing to show. -/
theorem of_leaf
    (hHere : holds node)
    (hLeaf : node.children = []) :
    Everywhere holds node := by
  refine ⟨hHere, ?_⟩
  rw [hLeaf]
  exact List.forall_mem_nil _

end Node.Everywhere

------------------------------------------------------------
-- Names
------------------------------------------------------------

namespace Text

/- Characters that a word may start with. All beyond ASCII are such. -/
def startsWord (c : Char) : Bool :=
  c.isAlpha || c == '_' || c.toNat ≥ 0x80

/- Characters that a word may continue with. -/
def continuesWord (c : Char) : Bool :=
  startsWord c || c.isDigit

end Text

/- A text that is read as a name: a word that is not reserved. -/
def IsName (text : String) : Prop :=
  TokenKind.ofWord? text = none ∧
    ∃ first rest,
      text.toList = first :: rest ∧
        Text.startsWord first = true ∧
          ∀ c ∈ rest, Text.continuesWord c = true

------------------------------------------------------------
-- Parameter Lists
------------------------------------------------------------

/- A list of parameters as a function may declare it. -/
structure ParamsWellFormed (params : List (Param Expr)) : Prop where
  distinct : (params.map (·.name.name)).Nodup
  ordered : (params.map (·.kind)).Pairwise ParamKind.MayPrecede
  bare :
    ∀ param ∈ params,
      param.kind.isVariadic = true → param.default = none
  defaultsLast :
    params.Pairwise fun first second =>
      first.kind.isPositional = true →
        second.kind.isPositional = true →
          first.default.isSome = true →
            second.default.isSome = true

------------------------------------------------------------
-- Grammatical Nodes
------------------------------------------------------------

namespace Expr

/- Whether an expression is a slice. -/
def isSlice (expr : Expr) : Bool :=
  match expr.form with
  | .slice _ _ _ => true
  | _ => false

/- Whether an expression can only stand as an index. -/
def isIndexOnly (expr : Expr) : Bool :=
  match expr.form with
  | .slice _ _ _ => true
  | .tuple items => items.any isSlice
  | _ => false

end Expr

namespace Node

/- Whether an expression that is only an index may stand below a node. -/
def MayIndex (index : Expr) : Node → Prop
  | .expr (.mk _ (.subscript _ inner)) => inner = index
  | .expr (.mk _ (.tuple _)) => index.isSlice = true
  | _ => False

/- What a node that is read from text holds itself. -/
def ReadsBack : Node → Prop
  | .expr (.mk _ (.int value)) => 0 ≤ value
  | .expr (.mk _ (.float value)) =>
      value.isNaN = false ∧ Number.isNegative value = false
  | .expr (.mk _ (.name id)) => IsName id
  | .expr (.mk _ (.attribute _ attr)) => IsName attr.name
  | .expr (.mk _ (.subscript object _)) => object.isIndexOnly = false
  | .expr (.mk _ (.set items)) => items ≠ []
  | .expr (.mk _ (.boolean _ values)) => 2 ≤ values.length
  | .expr (.mk _ (.compare _ rest)) => rest ≠ []
  | .expr (.mk _ (.call _ _ keywords)) =>
      (keywords.filterMap fun keyword =>
        keyword.name.map (·.name)).Nodup
  | .expr (.mk _ (.lambda params _)) => ParamsWellFormed params
  | .keyword argument =>
      ∀ ident, argument.name = some ident → IsName ident.name
  | .param declared => IsName declared.name.name
  | .stmt (.mk _ (.functionDef _ params _)) => ParamsWellFormed params
  | .stmt (.mk _ (.assign targets _)) => targets ≠ []
  | _ => True

/- A node that could have been read from a text. -/
structure Grammatical (node : Node) : Prop where
  readsBack : node.ReadsBack
  indices :
    ∀ index, .expr index ∈ node.children →
      index.isIndexOnly = true → node.MayIndex index

theorem grammatical_of_leaf
    {node : Node}
    (hReads : node.ReadsBack)
    (hLeaf : node.children = []) :
    node.Everywhere Grammatical := by
  refine .of_leaf ⟨hReads, ?_⟩ hLeaf
  rw [hLeaf]
  nofun

end Node

end SnippetGrader
