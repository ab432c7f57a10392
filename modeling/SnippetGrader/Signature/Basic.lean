import SnippetGrader.Tree.Basic

/-
  Signatures: the parameters that a callable declares.

  Key definitions include:
    * `Parameter`, `Signature`
    * `Signature.ofParams`
    * `Signature.withoutReceiver`
-/

namespace SnippetGrader

/- A parameter as callers see it. -/
structure Parameter where
  name : String
  kind : ParamKind
  default : Option Expr := none
  deriving Repr, Inhabited

/- An ordered list of parameters. -/
structure Signature where
  params : List Parameter := []
  deriving Repr, Inhabited

/- Whether a positional argument may reach a parameter of this kind. -/
def ParamKind.isPositional : ParamKind → Bool
  | .positionalOnly | .positionalOrKeyword => true
  | _ => false

/- Whether a parameter of this kind collects any number of arguments. -/
def ParamKind.isVariadic : ParamKind → Bool
  | .varPositional | .varKeyword => true
  | _ => false

namespace Signature

/- The signature without parameters. -/
def empty : Signature := {}

/- Whether a signature has no parameters. -/
def isEmpty (signature : Signature) : Bool :=
  signature.params.isEmpty

/- The signature of a function with the given declared parameters. -/
def ofParams (params : List (Param Expr)) : Signature :=
  ⟨params.map fun param => ⟨param.name.name, param.kind, param.default⟩⟩

/-
  The signature of a method whose receiver is already given: a
  positional first parameter is dropped.
-/
def withoutReceiver (signature : Signature) : Signature :=
  match signature.params with
  | first :: rest => if first.kind.isPositional then ⟨rest⟩ else signature
  | [] => signature

/- Whether some parameter collects leftover keyword arguments. -/
def hasVarKeyword (signature : Signature) : Bool :=
  signature.params.any fun param => param.kind == .varKeyword

end Signature

end SnippetGrader
