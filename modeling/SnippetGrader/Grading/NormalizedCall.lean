import SnippetGrader.Grading.Resolver
import SnippetGrader.Signature.Binding

/-
  Calls with one value for each parameter.

  Once the arguments of a call are bound to the signature of its
  callee, it no longer shows whether an argument was passed by
  position or by name, or left to its default.

  Key definitions include:
    * `NormalizedParam`, `NormalizedCall`
    * `NormalizeError`
    * `normalize`
-/

namespace SnippetGrader

------------------------------------------------------------
-- Normalized Calls
------------------------------------------------------------

/- A parameter with its value, and whether that is its default. -/
structure NormalizedParam where
  name : String
  value : Expr
  fromDefault : Bool
  deriving Repr, Inhabited

/- A parameter as a keyword argument. -/
def NormalizedParam.text (param : NormalizedParam) : String :=
  param.name ++ "=" ++ param.value.source

/- A callee as it is written, and its parameters in declared order. -/
structure NormalizedCall where
  callee : String
  params : List NormalizedParam
  deriving Repr, Inhabited

namespace NormalizedCall

/- Whether a call has no parameters. -/
def isEmpty (call : NormalizedCall) : Bool :=
  call.params.isEmpty

/- A call with all its arguments passed by name. -/
def text (call : NormalizedCall) : String :=
  call.callee ++ "(" ++ commaJoined (call.params.map NormalizedParam.text) ++ ")"

/- The parameters of bound arguments. -/
def paramsOf (bound : BoundArguments Expr) : List NormalizedParam :=
  bound.entries.filterMap fun (param, binding) =>
    let isDefault :=
      match binding with
      | .default => true
      | _ => false
    (BoundArguments.bindingExpr? param binding).map fun value =>
      ⟨param.name, value, isDefault⟩

end NormalizedCall

------------------------------------------------------------
-- Normalization
------------------------------------------------------------

/- Why a call has no normal form. -/
inductive NormalizeError where
  | notResolvable (callee : String)
  | binding (fault : BindError)
  | environment (detail : String)
  deriving DecidableEq, Repr, Inhabited

namespace NormalizeError

/- The wording of an error. -/
def message : NormalizeError → String
  | notResolvable callee => callee
  | binding fault => fault.message
  | environment detail => detail

/- An error of the resolver as an error of normalization. -/
def ofResolve : ResolveError → NormalizeError
  | .notResolvable callee => notResolvable callee
  | .environment detail => environment detail

end NormalizeError

/- The keyword arguments that have a name. -/
def namedKeywords (keywords : List (KeywordArg Expr)) : Keywords Expr :=
  keywords.filterMap fun keyword =>
    keyword.name.map fun ident => (ident.name, keyword.value)

/- Binds the arguments of a call to a known signature. -/
def normalizeWith
    (signature : Signature)
    (callee : Expr)
    (args : List Expr)
    (keywords : List (KeywordArg Expr)) :
    Except BindError NormalizedCall :=
  match signature.bind args (namedKeywords keywords) with
  | .ok bound =>
      .ok ⟨callee.source, NormalizedCall.paramsOf bound.withDefaults⟩
  | .error fault => .error fault

/-
  Binds the arguments of a call to the signature that a resolver
  finds. A call that unpacks its arguments is left as it is, and
  the resolver is not asked.
-/
def normalize
    {σ : Type}
    (resolver : Resolver σ)
    (callee : Expr)
    (args : List Expr)
    (keywords : List (KeywordArg Expr))
    (state : σ) :
    Except NormalizeError NormalizedCall × σ :=
  if hasUnpacking args keywords then
    (.error (.notResolvable callee.source), state)
  else
    match resolver callee state with
    | (.error fault, after) => (.error (.ofResolve fault), after)
    | (.ok signature, after) =>
        match normalizeWith signature callee args keywords with
        | .ok call => (.ok call, after)
        | .error fault => (.error (.binding fault), after)

end SnippetGrader
