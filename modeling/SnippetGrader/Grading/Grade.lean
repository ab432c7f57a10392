import SnippetGrader.Grading.Comparison
import SnippetGrader.Grading.Condition
import SnippetGrader.Grading.Options
import SnippetGrader.Grading.Outcome

/-
  Grading a submission.

  The code of a submission is compared with that of a solution,
  and its value is then held against conditions. Whatever the
  learner writes, there is an answer.

  Key definitions include:
    * `gradeCode`
    * `Feedback`
    * `grade`
-/

namespace SnippetGrader

------------------------------------------------------------
-- Code
------------------------------------------------------------

/- The name that a side has in reports. -/
def Side.fileName : Side → String
  | .submission => "submission.py"
  | .solution => "solution.py"

/- Reads the snippet of a side. -/
def parseSide (side : Side) (text : String) : Except GradeOutcome Program :=
  match parseSource side.fileName text with
  | .ok program => .ok program
  | .error faults =>
      match faults.first? with
      | some fault => .error (.invalidSource side fault)
      | none => .error (.failure (side.fileName ++ " could not be parsed"))

/-
  Reads both snippets. A snippet that is blank, or that holds no
  statement, is empty.
-/
def parsePair (submission solution : String) :
    Except GradeOutcome (Program × Program) := do
  if Text.isBlankText submission then
    throw .emptySubmission
  if Text.isBlankText solution then
    throw .emptySolution
  let left ← parseSide .submission submission
  let right ← parseSide .solution solution
  if left.body.isEmpty then
    throw .emptySubmission
  if right.body.isEmpty then
    throw .emptySolution
  return (left, right)

/-
  Compares two programs by the callees that each of them
  defines. Programs that do not differ must also run.
-/
def comparePrograms (limits : Limits) (submission solution : Program) : GradeOutcome :=
  let states := (Resolver.unasked limits submission, Resolver.unasked limits solution)
  match Comparison.run ⟨.live, .live⟩ submission solution states with
  | (.ok none, (left, right)) =>
      match left.get.fatalFailure.or right.get.fatalFailure with
      | some fault => .failure fault.message
      | none => .correct
  | (.ok (some difference), _) => .mismatch difference
  | (.error error, _) => .failure error.message

/- Compares the code of a submission with that of a solution. -/
def gradeCode (submission solution : String) (options : GradeOptions) : GradeOutcome :=
  match parsePair submission solution with
  | .ok (left, right) => comparePrograms options.limits left right
  | .error outcome => outcome

------------------------------------------------------------
-- Feedback
------------------------------------------------------------

/- How feedback is presented. -/
inductive FeedbackKind where
  | success
  | error
  | warning
  | info
  deriving DecidableEq, Repr, Inhabited

/- The name of a kind. -/
def FeedbackKind.text : FeedbackKind → String
  | success => "success"
  | error => "error"
  | warning => "warning"
  | info => "info"

/- What a learner is shown. -/
structure Feedback where
  message : String
  correct : Bool
  kind : FeedbackKind
  deriving DecidableEq, Repr, Inhabited

/- Why the value of a submission cannot be graded. -/
inductive CheckError where
  | notParsed
  | evaluation (fault : EvalError)
  | conditions (fault : ConditionError)
  deriving DecidableEq, Repr, Inhabited

/- The wording of an error. -/
def CheckError.message : CheckError → String
  | notParsed => "the submission could not be parsed"
  | evaluation fault => fault.message
  | conditions fault => fault.message

/- The value at the end of a submission, with the objects it refers to. -/
def finalValue (store : Store) (submission : String) (options : GradeOptions) :
    Except CheckError (Value × Heap) :=
  match parseSource Side.submission.fileName submission with
  | .error _ => .error .notParsed
  | .ok program =>
      match (Interpreter.fresh options.limits store).lastValue program with
      | (.ok value, after) => .ok (value.getD .none, after.heap)
      | (.error fault, _) => .error (.evaluation fault)

/- The feedback for a verdict. -/
def Verdict.feedback (options : GradeOptions) (verdict : Verdict) : Feedback :=
  let opening := if verdict.correct then options.praise else options.encourage
  let message :=
    match verdict.message with
    | some message => opening ++ " " ++ message
    | none => opening
  { message := Text.trim message
    correct := verdict.correct
    kind := if verdict.correct then .success else .error }

/- Holds the value of a submission against conditions. -/
def checkValue
    (store : Store)
    (conditions : List Condition)
    (submission : String)
    (options : GradeOptions) :
    Except CheckError Feedback :=
  match finalValue store submission options with
  | .error error => .error error
  | .ok (value, heap) =>
      match gradeResult heap.strictlyEqual conditions value with
      | .ok verdict => .ok (verdict.feedback options)
      | .error fault => .error (.conditions fault)

/-
  Grades a submission: first its code, and if that is right its
  value. Without conditions the code alone decides. The store
  holds the objects that the conditions refer to.
-/
def grade
    (store : Store)
    (conditions : List Condition)
    (submission solution : String)
    (options : GradeOptions) :
    Feedback :=
  match gradeCode submission solution options with
  | .correct =>
      if conditions.isEmpty then ⟨options.praise, true, .success⟩
      else
        match checkValue store conditions submission options with
        | .ok feedback => feedback
        | .error error =>
            ⟨"Error occurred while checking the submission: " ++ error.message,
              false, .warning⟩
  | .emptySolution => ⟨Message.emptySolution, true, .info⟩
  | outcome => ⟨outcome.message?.getD "", false, .error⟩

end SnippetGrader
