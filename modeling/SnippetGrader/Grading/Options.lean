import SnippetGrader.Evaluation.Interpreter
import SnippetGrader.Json.Reader
import SnippetGrader.Json.Record

/-
  What can be set for a grading.

  Key definitions include:
    * `GradeOptions`
    * `GradeOptions.parse?`
-/

namespace SnippetGrader

/- How much a run may use, and how feedback starts. -/
structure GradeOptions where
  gasLimit : Nat := 200000
  maxCallDepth : Nat := 64
  praise : String := "Great work!"
  encourage : String := "Please try again."
  deriving DecidableEq, Repr, Inhabited

namespace GradeOptions

/- The limits of a run. -/
def limits (options : GradeOptions) : Limits :=
  ⟨options.gasLimit, options.maxCallDepth⟩

/- The names of the options, in order. -/
def fieldNames : List String :=
  ["gas_limit", "max_call_depth", "praise", "encourage"]

/- Reads a field that may be left out. -/
def fieldOr {α : Type} (otherwise : α) (read : Json → Option α) : Option Json → Option α
  | none => some otherwise
  | some json => read json

/- The options that a JSON value holds. Those left out have defaults. -/
def ofJson? (json : Json) : Option GradeOptions := do
  let fields ← Json.defaultedFields? fieldNames json
  match fields with
  | [gasLimit, maxCallDepth, praise, encourage] =>
      let usual : GradeOptions := {}
      return {
        gasLimit := ← fieldOr usual.gasLimit (Json.natBelow? (Nat.pow 2 64)) gasLimit
        maxCallDepth :=
          ← fieldOr usual.maxCallDepth (Json.natBelow? (Nat.pow 2 32)) maxCallDepth
        praise := ← fieldOr usual.praise Json.str? praise
        encourage := ← fieldOr usual.encourage Json.str? encourage }
  | _ => none

/- The options that a JSON text holds. -/
def parse? (text : String) : Option GradeOptions :=
  (Json.parse? text).bind ofJson?

end GradeOptions

end SnippetGrader
