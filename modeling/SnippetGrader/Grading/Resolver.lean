import SnippetGrader.Evaluation.Session
import SnippetGrader.Tree.Text

/-
  Finding the signature of a callee.

  A resolver answers one callee after another, and may change
  its state while it does. A table of signatures has nothing to
  change. A live resolver runs a snippet once and evaluates
  callees among the names that it bound.

  Key definitions include:
    * `ResolveError`
    * `Resolver`
    * `Resolver.ofTable`
    * `Environment`, `Environment.build`
    * `Resolver.live`
-/

namespace SnippetGrader

------------------------------------------------------------
-- Resolvers
------------------------------------------------------------

/-
  Why a callee has no signature: it is not known or declares
  none, or the snippet around it cannot be run.
-/
inductive ResolveError where
  | notResolvable (callee : String)
  | environment (detail : String)
  deriving DecidableEq, Repr, Inhabited

/- The wording of an error. -/
def ResolveError.message : ResolveError → String
  | notResolvable callee => "`" ++ callee ++ "` cannot be resolved"
  | environment detail => detail

/- An answer for every callee, given and giving a state of type `σ`. -/
def Resolver (σ : Type) :=
  Expr → σ → Except ResolveError Signature × σ

------------------------------------------------------------
-- Tables
------------------------------------------------------------

/-
  What is known of callees, by their source text: a signature,
  or why the snippet around them cannot be run.
-/
abbrev SignatureTable := List (String × Except String Signature)

/- The resolver that knows the callees of a table. -/
def Resolver.ofTable (table : SignatureTable) : Resolver Unit := fun callee state =>
  match table.lookup callee.source with
  | some (.ok signature) => (.ok signature, state)
  | some (.error detail) => (.error (.environment detail), state)
  | none => (.error (.notResolvable callee.source), state)

------------------------------------------------------------
-- Live Resolvers
------------------------------------------------------------

namespace EvalError

/- Whether something was merely not found. -/
def isLookupError : EvalError → Bool
  | .attribute _ _ => true
  | fault => fault.isNameError

/-
  Whether the names bound before a failure keep their meaning: a
  call whose arguments do not fit is reported on its own, and a
  name that is never defined is no fault of the others.
-/
def isTolerated : EvalError → Bool
  | .binding _ _ => true
  | fault => fault.isNameError

end EvalError

/- An interpreter after running a snippet, and why the run stopped early. -/
structure Environment where
  interpreter : Interpreter
  failure : Option EvalError
  deriving Inhabited

namespace Environment

/- Runs a snippet up to the first statement that fails. -/
def build (limits : Limits) (program : Program) : Environment :=
  let (failure, interpreter) := (Interpreter.fresh limits {}).execPartial program
  ⟨interpreter, failure⟩

/- The failure that leaves nothing to resolve, if there is one. -/
def fatalFailure (environment : Environment) : Option EvalError :=
  environment.failure.filter fun fault => !fault.isTolerated

/- Finds the signature of a callee, with a full supply of gas. -/
def resolve (environment : Environment) (callee : Expr) :
    Except ResolveError Signature × Environment :=
  match environment.fatalFailure with
  | some fault => (.error (.environment fault.message), environment)
  | none =>
      let (result, interpreter) := environment.interpreter.refuel.evalExpr callee
      let after := { environment with interpreter }
      match result with
      | .ok value =>
          match interpreter.heap.signature? value with
          | some signature => (.ok signature, after)
          | none => (.error (.notResolvable callee.source), after)
      | .error fault =>
          if fault.isLookupError then
            (.error (.notResolvable callee.source), after)
          else (.error (.environment fault.message), after)

end Environment

/- The resolver whose snippet is run when the first callee asks for it. -/
def Resolver.live : Resolver (Thunk Environment) := fun callee state =>
  let (answer, after) := state.get.resolve callee
  (answer, .pure after)

/- The state of a live resolver that was asked nothing yet. -/
def Resolver.unasked (limits : Limits) (program : Program) : Thunk Environment :=
  Thunk.mk fun _ => .build limits program

end SnippetGrader
