import SnippetGrader.Signature.Binding
import SnippetGrader.Tree.Text

/-
  The first difference between a submission and a solution.

  Key definitions include:
    * `MismatchKind`
    * `Rendered`
    * `Mismatch`
-/

namespace SnippetGrader

/- How two snippets differ. -/
inductive MismatchKind where
  | missing
  | unexpected
  | wrongValue
  | wrongType
  | malformedCall (fault : BindError)
  deriving DecidableEq, Repr, Inhabited

/- A piece of code as a message shows it. -/
structure Rendered where
  kind : String
  description : String
  text : String
  deriving DecidableEq, Repr, Inhabited

namespace Rendered

/- A node as a message shows it. -/
def ofNode (node : Node) : Rendered :=
  ⟨node.kind, node.description, node.text⟩

/- A keyword argument that no single node stands for. -/
def ofKeyword (text : String) : Rendered :=
  ⟨"Keyword", "a keyword argument", text⟩

/-
  How two pieces of code that are not the same differ: by type
  if they are described differently, and otherwise by value.
-/
def difference (submission solution : Rendered) : MismatchKind :=
  if submission.description == solution.description then .wrongValue
  else .wrongType

end Rendered

/-
  A difference: what each side has, the line on each side, and
  the call around the submission's side.
-/
structure Mismatch where
  kind : MismatchKind
  submission : Option Rendered
  solution : Option Rendered
  line : Option Nat
  solutionLine : Option Nat
  parent : Option String
  deriving DecidableEq, Repr, Inhabited

namespace Mismatch

/- The text of the submission's side, if it has one. -/
def submissionText (mismatch : Mismatch) : String :=
  (mismatch.submission.map Rendered.text).getD ""

/- The text of the solution's side, if it has one. -/
def solutionText (mismatch : Mismatch) : String :=
  (mismatch.solution.map Rendered.text).getD ""

end Mismatch

end SnippetGrader
