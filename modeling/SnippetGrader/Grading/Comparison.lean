import SnippetGrader.Grading.Mismatch
import SnippetGrader.Grading.NormalizedCall

/-
  Comparing two snippets.

  Nodes are paired slot by slot and item by item, strictly by
  position, up to the first difference. Calls are normalized
  before their arguments are paired, so that it does not matter
  how an argument was passed.

  The rules for lists, slots and calls compare inner nodes by a
  rule that they are given. A comparison to some depth gives
  them the comparison to the depth below. The size of the
  submission is depth enough, because every pair of inner nodes
  has a smaller one on the side of the submission.

  Key definitions include:
    * `CompareError`
    * `Place`
    * `Comparison.node`, `Comparison.call`
    * `Comparison.toDepth`
    * `Comparison.run`
-/

namespace SnippetGrader

------------------------------------------------------------
-- Results
------------------------------------------------------------

/- Why a comparison gives no answer. -/
inductive CompareError where
  | environment (detail : String)
  | solutionCall (call : String) (fault : BindError)
  | unfinished
  deriving DecidableEq, Repr, Inhabited

/- The wording of an error. -/
def CompareError.message : CompareError → String
  | environment detail => detail
  | solutionCall call fault =>
      "the solution call `" ++ call ++ "` can't be evaluated: " ++ fault.message
  | unfinished => "the comparison did not finish"

/- Why a comparison ends early. -/
inductive Divergence where
  | mismatch (mismatch : Mismatch)
  | failure (error : CompareError)
  deriving DecidableEq, Repr, Inhabited

/- A comparison that asks resolvers with states of types `σ` and `τ`. -/
abbrev Comparing (σ τ α : Type) := EStateM Divergence (σ × τ) α

/- The resolvers of the two sides. -/
structure Resolvers (σ τ : Type) where
  submission : Resolver σ
  solution : Resolver τ

------------------------------------------------------------
-- Places
------------------------------------------------------------

/- The last line seen on each side, and the nearest call around. -/
structure Place where
  line : Option Nat := none
  solutionLine : Option Nat := none
  parent : Option String := none
  deriving DecidableEq, Repr, Inhabited

namespace Place

/- The line of a node, or another line if it has none. -/
def lineOf (node : Option Node) (otherwise : Option Nat) : Option Nat :=
  (node.bind Node.line?).or otherwise

/- The place of a pair of nodes. -/
def enter (place : Place) (left right : Option Node) : Place :=
  { place with
    line := lineOf left place.line
    solutionLine := lineOf right place.solutionLine }

/- The place inside a call. -/
def inside (place : Place) (call : String) : Place :=
  { place with parent := some call }

/-
  The place of a pair of parameters. A default stands where the
  callee is declared, and so it does not move the place.
-/
def atParams (place : Place) (left right : Option NormalizedParam) : Place :=
  let written (param : Option NormalizedParam) : Option Node :=
    (param.filter fun param => !param.fromDefault).map fun param =>
      .expr param.value
  place.enter (written left) (written right)

/- The difference at a place. -/
def mismatch
    (place : Place)
    (kind : MismatchKind)
    (submission solution : Option Rendered) :
    Divergence :=
  .mismatch
    { kind, submission, solution
      line := place.line
      solutionLine := place.solutionLine
      parent := place.parent }

/- The difference between two nodes. -/
def difference (place : Place) (left right : Node) : Divergence :=
  let submission := Rendered.ofNode left
  let solution := Rendered.ofNode right
  place.mismatch (submission.difference solution) (some submission) (some solution)

end Place

------------------------------------------------------------
-- Pairs by Position
------------------------------------------------------------

/- Pairs two lists by position, to the end of the longer one. -/
def pairUp {α : Type} : List α → List α → List (Option α × Option α)
  | [], rights => rights.map fun right => (none, some right)
  | left :: lefts, [] => (left :: lefts).map fun left => (some left, none)
  | left :: lefts, right :: rights => (some left, some right) :: pairUp lefts rights

namespace Comparison

variable {σ τ : Type}

/- How two nodes are compared at a place, either of which may be absent. -/
abbrev Rule (σ τ : Type) :=
  Option Node → Option Node → Place → Comparing σ τ Unit

/-
  Compares items that stand at the same positions. The lines of
  a pair are carried on to the next.
-/
def items (inner : Rule σ τ) :
    List (Option Node × Option Node) → Place → Comparing σ τ Unit
  | [], _ => return ()
  | (left, right) :: rest, place => do
      inner left right place
      items inner rest (place.enter left right)

/-
  Compares the contents of two slots. A leaf that differs is
  shown as the node that holds it.
-/
def slot (inner : Rule σ τ) (left right : Node) (place : Place) :
    Slot → Slot → Comparing σ τ Unit
  | .node a, .node b => inner (some a) (some b) place
  | .optional a, .optional b => inner a b place
  | .nodes a, .nodes b => items inner (pairUp a b) place
  | .leaf a, .leaf b =>
      if a == b then return () else throw (place.difference left right)
  | .leaves a, .leaves b =>
      if a == b then return () else throw (place.difference left right)
  | _, _ => throw (place.difference left right)

/- Compares named slots that stand at the same positions. -/
def slots (inner : Rule σ τ) (left right : Node) (place : Place) :
    List ((String × Slot) × (String × Slot)) → Comparing σ τ Unit
  | [] => return ()
  | ((leftName, leftSlot), (rightName, rightSlot)) :: rest =>
      if leftName == rightName then do
        slot inner left right place leftSlot rightSlot
        slots inner left right place rest
      else throw (place.difference left right)

/- Compares two nodes slot by slot. -/
def bySlots (inner : Rule σ τ) (left right : Node) (place : Place) :
    Comparing σ τ Unit :=
  slots inner left right place (left.slots.zip right.slots)

------------------------------------------------------------
-- Calls
------------------------------------------------------------

/- The parts of a call. -/
structure CallParts where
  callee : Expr
  args : List Expr
  keywords : List (KeywordArg Expr)
  deriving Inhabited

/- The parts of a node that is a call. -/
def callParts? : Node → Option CallParts
  | .expr (.mk _ (.call callee args keywords)) => some ⟨callee, args, keywords⟩
  | _ => none

/- Normalizes a call on each side, the submission first. -/
def normalizeBoth
    (resolvers : Resolvers σ τ)
    (left right : CallParts) :
    Comparing σ τ
      (Except NormalizeError NormalizedCall × Except NormalizeError NormalizedCall) :=
  fun (first, second) =>
    let (submission, first) :=
      normalize resolvers.submission left.callee left.args left.keywords first
    let (solution, second) :=
      normalize resolvers.solution right.callee right.args right.keywords second
    .ok (submission, solution) (first, second)

/-
  Compares two parameters. Values with the same text are the
  same, and a default is not looked into, because it stands
  where the callee is declared.
-/
def param (inner : Rule σ τ) (place : Place) :
    Option NormalizedParam → Option NormalizedParam → Comparing σ τ Unit
  | none, none => return ()
  | some left, none =>
      throw
        ((place.atParams left none).mismatch .unexpected
          (some (.ofKeyword left.text)) none)
  | none, some right =>
      throw
        ((place.atParams none right).mismatch .missing
          none (some (.ofKeyword right.text)))
  | some left, some right =>
      if left.name != right.name then
        throw
          ((place.atParams left right).mismatch .wrongValue
            (some (.ofKeyword left.text)) (some (.ofKeyword right.text)))
      else if left.value.source == right.value.source then return ()
      else if left.fromDefault || right.fromDefault then
        throw
          ((place.atParams left right).difference
            (.expr left.value) (.expr right.value))
      else inner (some (.expr left.value)) (some (.expr right.value)) place

/- Compares parameters that stand at the same positions. -/
def params (inner : Rule σ τ) (place : Place) :
    List (Option NormalizedParam × Option NormalizedParam) → Comparing σ τ Unit
  | [] => return ()
  | (left, right) :: rest => do
      param inner place left right
      params inner place rest

/- Compares the callees of two calls, and then their parameters. -/
def boundCall
    (inner : Rule σ τ)
    (leftCallee rightCallee : Expr)
    (left right : NormalizedCall)
    (place : Place) :
    Comparing σ τ Unit := do
  let place := place.inside left.text
  inner (some (.expr leftCallee)) (some (.expr rightCallee)) place
  params inner place (pairUp left.params right.params)

/- Compares two calls, given their parts and their normal forms. -/
def normalizedCall
    (inner : Rule σ τ)
    (left right : Node)
    (leftParts rightParts : CallParts)
    (place : Place) :
    Except NormalizeError NormalizedCall →
    Except NormalizeError NormalizedCall →
    Comparing σ τ Unit
  | .error (.binding fault), solution =>
      let expected :=
        match solution with
        | .ok call => call.text
        | .error _ => right.text
      throw
        ({ place with parent := none }.mismatch (.malformedCall fault)
          (some (.ofNode left))
          (some ⟨"Call", right.description, expected⟩))
  | .error (.environment detail), _ => throw (.failure (.environment detail))
  | _, .error (.environment detail) => throw (.failure (.environment detail))
  | _, .error (.binding fault) =>
      throw (.failure (.solutionCall right.text fault))
  | .ok leftCall, .ok rightCall =>
      if leftCall.isEmpty && rightCall.isEmpty then
        bySlots inner left right (place.inside left.text)
      else
        boundCall inner leftParts.callee rightParts.callee leftCall rightCall place
  | _, _ => bySlots inner left right (place.inside left.text)

/- Compares two calls, by parameters if both can be normalized. -/
def call
    (resolvers : Resolvers σ τ)
    (inner : Rule σ τ)
    (left right : Node)
    (leftParts rightParts : CallParts)
    (place : Place) :
    Comparing σ τ Unit := do
  let (submission, solution) ← normalizeBoth resolvers leftParts rightParts
  normalizedCall inner left right leftParts rightParts place submission solution

------------------------------------------------------------
-- Nodes
------------------------------------------------------------

/- Compares two nodes at their own place. -/
def bothNodes
    (resolvers : Resolvers σ τ)
    (inner : Rule σ τ)
    (left right : Node)
    (place : Place) :
    Comparing σ τ Unit :=
  if left.kind == right.kind then
    match callParts? left, callParts? right with
    | some leftParts, some rightParts =>
        call resolvers inner left right leftParts rightParts place
    | _, _ => bySlots inner left right place
  else throw (place.difference left right)

/- Compares two nodes, either of which may be absent. -/
def node (resolvers : Resolvers σ τ) (inner : Rule σ τ) : Rule σ τ
  | none, none, _ => return ()
  | none, some right, place =>
      throw
        ((place.enter none right).mismatch .missing
          none (some (.ofNode right)))
  | some left, none, place =>
      throw
        ((place.enter left none).mismatch .unexpected
          (some (.ofNode left)) none)
  | some left, some right, place =>
      bothNodes resolvers inner left right (place.enter left right)

/- Compares two nodes down to a depth. -/
def toDepth (resolvers : Resolvers σ τ) : (depth : Nat) → Rule σ τ
  | 0, _, _, _ => throw (.failure .unfinished)
  | depth + 1, left, right, place =>
      node resolvers (toDepth resolvers depth) left right place

------------------------------------------------------------
-- Programs
------------------------------------------------------------

/-
  Compares two programs. The answer is their first difference,
  or none if they are equivalent. The states of the resolvers
  after the comparison come with it.
-/
def run
    (resolvers : Resolvers σ τ)
    (submission solution : Program)
    (states : σ × τ) :
    Except CompareError (Option Mismatch) × (σ × τ) :=
  match
    toDepth resolvers (submission.size + 1)
      (some (.program submission)) (some (.program solution)) {} states
  with
  | .ok _ after => (.ok none, after)
  | .error (.mismatch difference) after => (.ok (some difference), after)
  | .error (.failure error) after => (.error error, after)

end Comparison

end SnippetGrader
