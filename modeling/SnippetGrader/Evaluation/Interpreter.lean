import SnippetGrader.Evaluation.Error
import SnippetGrader.Evaluation.Value

/-
  The state of a run, and the steps on it.

  Each step of a run costs gas, and calls may nest only so
  deeply, so that a snippet that would run forever is stopped.
  A failed run keeps its state: what was bound or printed before
  the failure stays.

  Key definitions include:
    * `Limits`, `Interpreter`, `Eval`
    * `Eval.charge`
    * `Eval.inScope`, `Eval.inCall`
-/

namespace SnippetGrader

/- How much a run may use. -/
structure Limits where
  gasLimit : Nat := 200000
  maxCallDepth : Nat := 64
  deriving DecidableEq, Repr, Inhabited

/-
  The state of a run: its objects and scopes, the scopes of the
  routines and of the snippet, the innermost scope of the code
  that runs, what was used so far, and what was printed.
-/
structure Interpreter where
  limits : Limits
  store : Store
  builtins : Nat
  globals : Nat
  scope : Nat
  gas : Nat := 0
  depth : Nat := 0
  output : String := ""
  deriving Inhabited

/- A step of a run. -/
abbrev Eval (α : Type) := EStateM EvalError Interpreter α

namespace Eval

variable {α : Type}

------------------------------------------------------------
-- Failures
------------------------------------------------------------

/- Fails if a pure computation failed. -/
def ofExcept : Except EvalError α → Eval α
  | .ok value => pure value
  | .error fault => throw fault

/- Fails because of a value of the wrong type. -/
def typeFault (fault : TypeFault) : Eval α :=
  throw (.type fault)

/- Fails because of a value out of range. -/
def valueFault (fault : ValueFault) : Eval α :=
  throw (.value fault)

------------------------------------------------------------
-- Limits
------------------------------------------------------------

/- The greatest amount of gas that is counted. -/
def maxGas : Nat := 18446744073709551615

/- Uses gas, and stops the run if more was used than is allowed. -/
def charge (units : Nat) : Eval Unit := fun interpreter =>
  let gas := min (interpreter.gas + units) maxGas
  let limit := interpreter.limits.gasLimit
  if gas > limit then .error (.gasExhausted limit) { interpreter with gas }
  else .ok () { interpreter with gas }

/- Uses gas for one step. -/
def tick : Eval Unit :=
  charge 1

/- Runs code in another scope, and comes back however it ends. -/
def inScope (scope : Nat) (action : Eval α) : Eval α := fun interpreter =>
  let outer := interpreter.scope
  match action { interpreter with scope } with
  | .ok value after => .ok value { after with scope := outer }
  | .error fault after => .error fault { after with scope := outer }

/-
  Runs the body of a call in its scope, unless calls are nested
  too deeply, and comes back however it ends.
-/
def inCall (scope : Nat) (action : Eval α) : Eval α := fun interpreter =>
  let outer := interpreter.depth
  let limit := interpreter.limits.maxCallDepth
  if outer ≥ limit then .error (.recursionLimit limit) interpreter
  else
    match inScope scope action { interpreter with depth := outer + 1 } with
    | .ok value after => .ok value { after with depth := outer }
    | .error fault after => .error fault { after with depth := outer }

------------------------------------------------------------
-- Scopes and Output
------------------------------------------------------------

/- Changes the scopes. -/
def withScopes (change : Scopes Value → α × Scopes Value) : Eval α :=
  modifyGet fun interpreter =>
    let (result, scopes) := change interpreter.store.scopes
    (result, { interpreter with store.scopes := scopes })

/- The value of a name where the code runs. -/
def lookupName (name : String) : Eval Value := do
  let interpreter ← get
  match interpreter.store.scopes.get? interpreter.scope name with
  | some value => return value
  | none => throw (.unboundName name)

/- Binds a name in the innermost scope. -/
def define (name : String) (value : Value) : Eval Unit :=
  modify fun interpreter =>
    { interpreter with
      store.scopes :=
        interpreter.store.scopes.define interpreter.scope name value }

/- Opens a scope inside a given one, with names bound in it. -/
def openScope (parent : Nat) (bindings : Bindings Value) : Eval Nat :=
  withScopes fun scopes => scopes.add { bindings, parent := some parent }

/- The names that a scope itself binds. -/
def localsOf (scope : Nat) : Eval (Bindings Value) :=
  return (← get).store.scopes.locals scope

/- Prints a text. -/
def write (text : String) : Eval Unit :=
  modify fun interpreter =>
    { interpreter with output := interpreter.output ++ text }

------------------------------------------------------------
-- Objects
------------------------------------------------------------

/- Reads something off the heap. -/
def onHeap (read : Heap → α) : Eval α :=
  return read (← get).store.heap

/- Changes the heap. -/
def withHeap (change : Heap → α × Heap) : Eval α :=
  modifyGet fun interpreter =>
    let (result, heap) := change interpreter.store.heap
    (result, { interpreter with store.heap := heap })

/- Changes the heap without a result. -/
def updateHeap (change : Heap → Heap) : Eval Unit :=
  modify fun interpreter =>
    { interpreter with store.heap := change interpreter.store.heap }

/- A new list. -/
def newList (items : Array Value) : Eval Value :=
  withHeap (·.addList items)

/- A new tuple. -/
def newTuple (items : Array Value) : Eval Value :=
  withHeap (·.addTuple items)

/- A new dict. -/
def newDict (entries : Array (Value × Value)) : Eval Value :=
  withHeap (·.addDict entries)

/- The name of a value's type. -/
def typeName (value : Value) : Eval String :=
  onHeap (·.typeName value)

/- Whether a value counts as true. -/
def isTruthy (value : Value) : Eval Bool :=
  onHeap (·.isTruthy value)

/- The items of a value that can be gone through. -/
def iterate (value : Value) : Eval (Array Value) := do
  match value with
  | .list address => onHeap (·.list address)
  | .tuple address => onHeap (·.tuple address)
  | .set address => onHeap (·.set address)
  | .dict address => onHeap fun heap => (heap.dict address).map (·.1)
  | .str text =>
      return (text.toList.map fun c => Value.str (String.singleton c)).toArray
  | other => typeFault (.notIterable (← typeName other))

end Eval

end SnippetGrader
