import SnippetGrader.Grading.Outcome
import SnippetGrader.Json.Record

/-
  Mismatches and outcomes as JSON.

  What is written is read back. Reading takes the fields of a
  report as they are and derives none of them from another.

  Key definitions include:
    * `Mismatch.toJson`, `Mismatch.ofJson?`
    * `GradeOutcome.toJson`, `GradeOutcome.ofJson?`
-/

namespace SnippetGrader

------------------------------------------------------------
-- Fields
------------------------------------------------------------

namespace Json

/- A natural number. -/
def ofNat (value : Nat) : Json :=
  .int value

/- A value, or null if there is none. -/
def ofOption {α : Type} (write : α → Json) : Option α → Json
  | some value => write value
  | none => .null

/- A member that is left out if it has no value. -/
def memberOf {α : Type} (name : String) (write : α → Json) :
    Option α → List (String × Json)
  | some value => [(name, write value)]
  | none => []

/- Reads a field that must be there. -/
def required? {α : Type} (read : Json → Option α) (field : Option Json) : Option α :=
  field.bind read

/- Reads a field that may be left out or null. -/
def optional? {α : Type} (read : Json → Option α) : Option Json → Option (Option α)
  | some json => nullable? read json
  | none => some none

/- A line or column. -/
def position? : Json → Option Nat :=
  natBelow? (Nat.pow 2 32)

end Json

------------------------------------------------------------
-- Binding Errors
------------------------------------------------------------

namespace BindError

/- The name of a kind of error in reports. -/
def caseText : BindError → String
  | missing _ => "missing_argument"
  | unexpected _ => "unexpected_argument"
  | positionalOnly _ => "positional_only_argument"
  | surplus => "surplus_argument"
  | duplicate _ => "duplicate_argument"

/- An error as JSON. -/
def toJson (fault : BindError) : Json :=
  .obj (("kind", .str fault.caseText) :: Json.memberOf "name" .str fault.name?)

/- The error with a given kind and name. -/
def ofCase? (kind : String) (name : Option Json) : Option BindError :=
  match kind with
  | "missing_argument" => (Json.required? Json.str? name).map missing
  | "unexpected_argument" => (Json.required? Json.str? name).map unexpected
  | "positional_only_argument" => (Json.required? Json.str? name).map positionalOnly
  | "duplicate_argument" => (Json.required? Json.str? name).map duplicate
  | "surplus_argument" =>
      match name with
      | none | some .null => some surplus
      | _ => none
  | _ => none

/- The error that a JSON value holds. -/
def ofJson? (json : Json) : Option BindError := do
  match ← Json.fields? ["kind", "name"] json with
  | [kind, name] => ofCase? (← Json.required? Json.caseName? kind) name
  | _ => none

end BindError

------------------------------------------------------------
-- Mismatches
------------------------------------------------------------

namespace Rendered

/- A piece of code as JSON. -/
def toJson (piece : Rendered) : Json :=
  .obj
    [("kind", .str piece.kind),
     ("description", .str piece.description),
     ("text", .str piece.text)]

/- The piece of code that a JSON value holds. -/
def ofJson? (json : Json) : Option Rendered := do
  match ← Json.fields? ["kind", "description", "text"] json with
  | [kind, description, text] =>
      return {
        kind := ← Json.required? Json.str? kind
        description := ← Json.required? Json.str? description
        text := ← Json.required? Json.str? text }
  | _ => none

end Rendered

namespace MismatchKind

/- The names of the kinds, in order. -/
def caseTexts : List String :=
  ["missing", "unexpected", "wrong_value", "wrong_type", "malformed_call"]

/- The name of a kind. -/
def caseText : MismatchKind → String
  | missing => "missing"
  | unexpected => "unexpected"
  | wrongValue => "wrong_value"
  | wrongType => "wrong_type"
  | malformedCall _ => "malformed_call"

/- The binding error of a kind that has one. -/
def fault? : MismatchKind → Option BindError
  | malformedCall fault => some fault
  | _ => none

/- The name of a kind, given as it is or by its place in the order. -/
def caseTextOf? : Json → Option String
  | .str name => some name
  | .int index => if 0 ≤ index then caseTexts[index.toNat]? else none
  | _ => none

/- The kind with a given name and binding error. -/
def ofCase? (kind : String) (error : Option Json) : Option MismatchKind :=
  match kind with
  | "missing" => some missing
  | "unexpected" => some unexpected
  | "wrong_value" => some wrongValue
  | "wrong_type" => some wrongType
  | "malformed_call" => (Json.required? BindError.ofJson? error).map malformedCall
  | _ => none

end MismatchKind

namespace Mismatch

/- A mismatch as JSON. -/
def toJson (mismatch : Mismatch) : Json :=
  .obj
    ([("kind", .str mismatch.kind.caseText)]
      ++ Json.memberOf "error" BindError.toJson mismatch.kind.fault?
      ++ [("submission", Json.ofOption Rendered.toJson mismatch.submission),
          ("solution", Json.ofOption Rendered.toJson mismatch.solution),
          ("line", Json.ofOption Json.ofNat mismatch.line),
          ("solution_line", Json.ofOption Json.ofNat mismatch.solutionLine)]
      ++ Json.memberOf "parent" .str mismatch.parent)

/- The mismatch that the members of an object hold. -/
def ofMembers? (members : List (String × Json)) : Option Mismatch := do
  let kind ← MismatchKind.caseTextOf? (← (← Json.member? "kind" members))
  return {
    kind := ← MismatchKind.ofCase? kind (← Json.member? "error" members)
    submission :=
      ← Json.optional? Rendered.ofJson? (← Json.member? "submission" members)
    solution := ← Json.optional? Rendered.ofJson? (← Json.member? "solution" members)
    line := ← Json.optional? Json.position? (← Json.member? "line" members)
    solutionLine :=
      ← Json.optional? Json.position? (← Json.member? "solution_line" members)
    parent := ← Json.optional? Json.str? (← Json.member? "parent" members) }

/- The mismatch that a JSON value holds. -/
def ofJson? : Json → Option Mismatch
  | .obj members => ofMembers? members
  | _ => none

end Mismatch

------------------------------------------------------------
-- Diagnostics
------------------------------------------------------------

namespace Span

/- A span as JSON. -/
def toJson (span : Span) : Json :=
  .obj
    [("start_line", .ofNat span.startLine), ("start_col", .ofNat span.startCol),
     ("end_line", .ofNat span.endLine), ("end_col", .ofNat span.endCol)]

/- The span that a JSON value holds. -/
def ofJson? (json : Json) : Option Span := do
  match ← Json.fields? ["start_line", "start_col", "end_line", "end_col"] json with
  | [startLine, startCol, endLine, endCol] =>
      return {
        startLine := ← Json.required? Json.position? startLine
        startCol := ← Json.required? Json.position? startCol
        endLine := ← Json.required? Json.position? endLine
        endCol := ← Json.required? Json.position? endCol }
  | _ => none

end Span

namespace Diagnostic

/- A diagnostic as JSON. -/
def toJson (fault : Diagnostic) : Json :=
  .obj
    ([("file", .str fault.file),
      ("code", .ofNat fault.code.number),
      ("category", .str fault.category.text),
      ("message", .str fault.message),
      ("span", fault.span.toJson),
      ("source_line", .str fault.sourceLine)]
      ++ Json.memberOf "subject" .str fault.subject)

/- The names of the fields, in order. -/
def fieldNames : List String :=
  ["file", "code", "category", "message", "span", "source_line", "subject"]

/- The diagnostic that a JSON value holds. -/
def ofJson? (json : Json) : Option Diagnostic := do
  match ← Json.fields? fieldNames json with
  | [file, code, category, message, span, sourceLine, subject] =>
      let category ← Json.required? Json.caseName? category
      return {
        file := ← Json.required? Json.str? file
        code := ⟨← Json.required? (Json.natBelow? (Nat.pow 2 16)) code⟩
        category := ← ErrorCategory.ofText? category
        message := ← Json.required? Json.str? message
        span := ← Json.required? Span.ofJson? span
        sourceLine := ← Json.required? Json.str? sourceLine
        subject := ← Json.optional? Json.str? subject }
  | _ => none

end Diagnostic

------------------------------------------------------------
-- Outcomes
------------------------------------------------------------

namespace Side

/- The name of a side. -/
def text : Side → String
  | submission => "submission"
  | solution => "solution"

/- The side with a given name. -/
def ofText? (text : String) : Option Side :=
  [submission, solution].find? fun side => side.text == text

end Side

namespace GradeOutcome

/- The members of an outcome besides its status. -/
def contentMembers : GradeOutcome → List (String × Json)
  | correct | emptySubmission | emptySolution => []
  | mismatch difference => [("mismatch", difference.toJson)]
  | invalidSource side fault => [("side", .str side.text), ("error", fault.toJson)]
  | failure detail => [("detail", .str detail)]

/- The status of an outcome. -/
def status : GradeOutcome → String
  | correct => "correct"
  | mismatch _ => "mismatch"
  | emptySubmission => "empty_submission"
  | emptySolution => "empty_solution"
  | invalidSource _ _ => "syntax_error"
  | failure _ => "failure"

/- An outcome as JSON. -/
def toJson (outcome : GradeOutcome) : Json :=
  .obj (("status", .str outcome.status) :: outcome.contentMembers)

/- The outcome with a given status and content. -/
def ofContent? (status : String) (content : Json) : Option GradeOutcome := do
  match status with
  | "correct" => if content.isBare then some correct else none
  | "empty_submission" => if content.isBare then some emptySubmission else none
  | "empty_solution" => if content.isBare then some emptySolution else none
  | "mismatch" =>
      match ← Json.fields? ["mismatch"] content with
      | [difference] => return .mismatch (← Json.required? Mismatch.ofJson? difference)
      | _ => none
  | "syntax_error" =>
      match ← Json.fields? ["side", "error"] content with
      | [side, fault] =>
          let side ← Side.ofText? (← Json.required? Json.caseName? side)
          return .invalidSource side (← Json.required? Diagnostic.ofJson? fault)
      | _ => none
  | "failure" =>
      match ← Json.fields? ["detail"] content with
      | [detail] => return .failure (← Json.required? Json.str? detail)
      | _ => none
  | _ => none

/- The outcome that a JSON value holds. -/
def ofJson? (json : Json) : Option GradeOutcome := do
  let (status, content) ← Json.tagged? "status" json
  ofContent? status content

end GradeOutcome

end SnippetGrader
