import SnippetGrader.Evaluation.Equality

/-
  Conditions on the value of a snippet.

  A condition names a value, and says whether a snippet with
  that value is right. Values are compared strictly, with equal
  types all the way down, or loosely.

  Key definitions include:
    * `Heap.strictlyEqual`
    * `Condition`
    * `gradeResult`
-/

namespace SnippetGrader

------------------------------------------------------------
-- Strict Equality
------------------------------------------------------------

namespace Heap

/-
  Whether two values are strictly equal, given how the contents
  of lists, tuples and dicts are compared.
-/
def strictlyEqualBy (heap : Heap) (contents : Option Relation) : Relation := fun left right =>
  heap.typeName left == heap.typeName right
    && match left, right with
      | .list a, .list b =>
          a == b || contents.any fun related =>
            sameItems related (heap.list a) (heap.list b)
      | .tuple a, .tuple b =>
          a == b || contents.any fun related =>
            sameItems related (heap.tuple a) (heap.tuple b)
      | .dict a, .dict b =>
          a == b || contents.any fun related =>
            sameEntries related (heap.dict a) (heap.dict b)
      | _, _ => heap.equal left right

/- Whether two values are strictly equal down to a depth. -/
def strictlyEqualTo (heap : Heap) : (depth : Nat) → Relation
  | 0 => heap.strictlyEqualBy none
  | depth + 1 => heap.strictlyEqualBy (some (heap.strictlyEqualTo depth))

/- Whether two values are strictly equal. -/
def strictlyEqual (heap : Heap) : Relation :=
  heap.strictlyEqualTo maxNesting

end Heap

------------------------------------------------------------
-- Conditions
------------------------------------------------------------

/- An expected value, and whether it is the right one. -/
structure Condition where
  expected : Value
  message : Option String
  correct : Bool
  deriving Inhabited

namespace Condition

/- A message, unless it is empty. -/
def nonEmpty? (message : String) : Option String :=
  if message.isEmpty then none else some message

/- A value that is right. -/
def passIf (expected : Value) (message : String) : Condition :=
  ⟨expected, nonEmpty? message, true⟩

/- A value that is known to be wrong. -/
def failIf (expected : Value) (message : String) : Condition :=
  ⟨expected, nonEmpty? message, false⟩

end Condition

/- The verdict on a value. -/
structure Verdict where
  correct : Bool
  message : Option String
  deriving DecidableEq, Repr, Inhabited

/- What is wrong with a list of conditions. -/
inductive ConditionError where
  | empty
  deriving DecidableEq, Repr, Inhabited

/- The wording of an error. -/
def ConditionError.message : ConditionError → String
  | empty => "At least one condition object must be provided"

/- The first condition of a kind that a value meets. -/
def firstMet?
    (related : Value → Value → Bool)
    (value : Value)
    (correct : Bool)
    (conditions : List Condition) :
    Option Condition :=
  conditions.find? fun condition =>
    condition.correct == correct && related value condition.expected

/-
  The verdict of conditions on a value. The first condition for
  a right value that is met decides, then the first for a wrong
  one. A value that meets none is right only if no condition
  says which values are.
-/
def gradeResult
    (related : Value → Value → Bool)
    (conditions : List Condition)
    (value : Value) :
    Except ConditionError Verdict :=
  if conditions.isEmpty then .error .empty
  else
    match (firstMet? related value true conditions).or
        (firstMet? related value false conditions) with
    | some met => .ok ⟨met.correct, met.message⟩
    | none => .ok ⟨!conditions.any (·.correct), none⟩

end SnippetGrader
