import SnippetGrader.Grading.Message

/-
  The outcome of comparing a submission with a solution.

  Key definitions include:
    * `GradeOutcome`
    * `GradeOutcome.message?`
-/

namespace SnippetGrader

/- What came of comparing two snippets. -/
inductive GradeOutcome where
  | correct
  | mismatch (mismatch : Mismatch)
  | emptySubmission
  | emptySolution
  | invalidSource (side : Side) (fault : Diagnostic)
  | failure (detail : String)
  deriving DecidableEq, Repr, Inhabited

namespace GradeOutcome

/- What a learner is told. A correct submission needs no words. -/
def message? : GradeOutcome → Option String
  | correct => none
  | mismatch difference => some difference.message
  | emptySubmission => some Message.emptySubmission
  | emptySolution => some Message.emptySolution
  | invalidSource side fault => some (Message.ofDiagnostic side fault)
  | failure detail => some (Message.failure detail)

/- Whether a submission is equivalent to the solution. -/
def isCorrect : GradeOutcome → Bool
  | correct => true
  | _ => false

end GradeOutcome

end SnippetGrader
