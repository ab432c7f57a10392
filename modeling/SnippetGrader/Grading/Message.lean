import SnippetGrader.Grading.Mismatch
import SnippetGrader.Source.Diagnostic
import SnippetGrader.Text.Blank

/-
  Sentences for learners.

  Key definitions include:
    * `Mismatch.message`
    * `Message.ofDiagnostic`
-/

namespace SnippetGrader

------------------------------------------------------------
-- Mismatches
------------------------------------------------------------

/- Code in a sentence. -/
def Message.code (text : String) : String :=
  "`" ++ text ++ "`"

/- What a learner may have done to get a binding error. -/
def BindErrorKind.hint : BindErrorKind → String
  | .missing =>
      "You may have misspelled an argument name, or left out an important argument."
  | .unexpected =>
      "You may have included an unnecessary argument, or misspelled an important argument name."
  | .surplus => "You may have passed more arguments than the function accepts."
  | .duplicate =>
      "You passed multiple values for the same argument; remove one of them."

namespace Mismatch

open Message

/- Where a mismatch is, if that is known. -/
def lineClause (mismatch : Mismatch) : String :=
  match mismatch.line with
  | some line => " at line " ++ toString line
  | none => ""

/- The call around a mismatch, if that shows more than the mismatch. -/
def parentClause (mismatch : Mismatch) : String :=
  match mismatch.parent with
  | some parent =>
      if parent.isEmpty || parent == mismatch.submissionText then ""
      else ", in " ++ code parent
  | none => ""

/- The description of a side, if it has one. -/
def descriptionOf (side : Option Rendered) : String :=
  (side.map Rendered.description).getD ""

/- One sentence that explains a mismatch. -/
def message (mismatch : Mismatch) : String :=
  let got := code mismatch.submissionText
  let expected := code mismatch.solutionText
  let place := mismatch.lineClause
  match mismatch.kind with
  | .wrongValue =>
      "I expected " ++ expected ++ ", but you wrote " ++ got ++ place
        ++ mismatch.parentClause ++ "."
  | .wrongType =>
      "I expected " ++ descriptionOf mismatch.solution ++ " " ++ expected
        ++ ", but what you wrote was interpreted as "
        ++ descriptionOf mismatch.submission ++ " " ++ got ++ place
        ++ mismatch.parentClause ++ "."
  | .missing => "I expected " ++ expected ++ place ++ "."
  | .unexpected => "I did not expect " ++ got ++ place ++ "."
  | .malformedCall fault =>
      "I expected " ++ expected ++ ", but " ++ got ++ place
        ++ " can't be evaluated: " ++ fault.message ++ ". " ++ fault.kind.hint

end Mismatch

------------------------------------------------------------
-- Other Sentences
------------------------------------------------------------

/- The snippet that something is about. -/
inductive Side where
  | submission
  | solution
  deriving DecidableEq, Repr, Inhabited

namespace Message

/- There is no submission. -/
def emptySubmission : String :=
  "I didn't receive your code. Did you write any?"

/- There is no solution. -/
def emptySolution : String :=
  "No solution is provided for this exercise."

/- A snippet could not be read. -/
def ofDiagnostic (side : Side) (fault : Diagnostic) : String :=
  match fault.code == .repeatedKeyword, fault.subject with
  | true, some name =>
      (match side with
        | .submission => "You passed"
        | .solution => "The solution passes")
        ++ " multiple arguments named " ++ code name ++ " at line "
        ++ toString fault.line ++ ", which will cause an error. "
        ++ "Check your spelling, or remove one of the arguments."
  | _, _ =>
      "I couldn't parse "
        ++ (match side with
          | .submission => "your code"
          | .solution => "the solution code")
        ++ ": "
        ++ String.ofList (Text.dropEndWhile (· == '.') fault.message.toList)
        ++ " at line " ++ toString fault.line ++ "."

/- A snippet could not be graded. -/
def failure (detail : String) : String :=
  "There was a problem checking your code: " ++ detail

end Message

end SnippetGrader
