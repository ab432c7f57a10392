import SnippetGrader.Evaluation.Evaluator
import SnippetGrader.Parsing.Program

/-
  Running snippets.

  A session goes on after a failure: an interpreter is used for
  one piece of code after another, and keeps what each has
  bound.

  Key definitions include:
    * `Interpreter.fresh`
    * `Interpreter.execPartial`, `Interpreter.lastValue`
    * `Interpreter.execSource`
    * `Interpreter.evalExpr`, `Interpreter.call`
    * `Interpreter.refuel`
-/

namespace SnippetGrader

------------------------------------------------------------
-- The Scope of Routines
------------------------------------------------------------

/- The classes of exceptions that inherit from the most general one. -/
def exceptionNames : List String :=
  ["ValueError", "TypeError", "KeyError", "IndexError", "ZeroDivisionError",
   "RuntimeError", "NameError", "AttributeError", "AssertionError"]

/- Adds the classes of exceptions, with the names that they get. -/
def addExceptions (heap : Heap) : Bindings Value × Heap :=
  let (base, heap) :=
    heap.addClass "Exception" [] [("__init__", .builtin .exceptionInit)]
  let (bindings, heap) :=
    exceptionNames.foldl
      (fun (bindings, heap) name =>
        let (address, heap) := heap.addClass name [base] []
        (bindings ++ [(name, Value.type address)], heap))
      (([] : Bindings Value), heap)
  (bindings ++ [("Exception", .type base)], heap)

namespace Interpreter

variable {α : Type}

/- A new interpreter that keeps its objects and scopes in a given store. -/
def fresh (limits : Limits) (store : Store) : Interpreter :=
  let (exceptions, heap) := addExceptions store.heap
  let routines : Bindings Value :=
    Builtin.globals.map fun routine => (routine.name, .builtin routine)
  let (builtins, scopes) := store.scopes.add { bindings := routines ++ exceptions }
  let (globals, scopes) := scopes.child builtins
  { limits, store := { heap, scopes }, builtins, globals, scope := globals }

------------------------------------------------------------
-- Running Code
------------------------------------------------------------

/-
  More levels of inner code than the gas of a run allows. Every
  expression and every statement costs gas, and between two of
  them a run calls at most a constructor of each class, twice.
-/
def levelCount (interpreter : Interpreter) : Nat :=
  let limit := interpreter.limits.gasLimit
  let classes := interpreter.store.heap.classes.size + limit
  (limit + 2) * (2 * classes + 8)

/- Runs code, and gives its result and the state after it. -/
def run (interpreter : Interpreter) (action : Evaluator → Eval α) :
    Except EvalError α × Interpreter :=
  match action (.levels interpreter.levelCount) interpreter with
  | .ok value after => (.ok value, after)
  | .error fault after => (.error fault, after)

/- Runs a statement that is inside no function and no loop. -/
def execTopLevel (evaluator : Evaluator) (stmt : Stmt) : Eval Unit := do
  match ← evaluator.stmt stmt with
  | .next => return ()
  | .ret _ => throw (.unsupported .returnOutsideFunction)
  | .breakLoop | .continueLoop => throw (.unsupported .jumpOutsideLoop)

/- Runs statements up to the first that fails. -/
def execStatements (evaluator : Evaluator) : List Stmt → Eval Unit
  | [] => return ()
  | stmt :: rest => do
      execTopLevel evaluator stmt
      execStatements evaluator rest

/-
  Runs statements, and gives the value of the last one if it is
  an expression.
-/
def evalStatements (evaluator : Evaluator) : List Stmt → Eval (Option Value)
  | [] => return none
  | [.mk _ (.expr value)] => do
      Eval.tick
      return some (← evaluator.expr value)
  | stmt :: rest => do
      execTopLevel evaluator stmt
      evalStatements evaluator rest

/- Runs a program up to the first statement that fails. -/
def execPartial (interpreter : Interpreter) (program : Program) :
    Option EvalError × Interpreter :=
  match interpreter.run (execStatements · program.body) with
  | (.ok _, after) => (none, after)
  | (.error fault, after) => (some fault, after)

/- Runs a program, and gives the value of the expression at its end. -/
def lastValue (interpreter : Interpreter) (program : Program) :
    Except EvalError (Option Value) × Interpreter :=
  interpreter.run (evalStatements · program.body)

/- Reads and runs a text. -/
def execSource (interpreter : Interpreter) (text : String) :
    Except EvalError Unit × Interpreter :=
  match parseSource "<string>" text with
  | .ok program => interpreter.run (execStatements · program.body)
  | .error faults =>
      (.error (.invalidSource ((faults.first?.map (·.message)).getD "")), interpreter)

/- Evaluates an expression in the current scope. -/
def evalExpr (interpreter : Interpreter) (expr : Expr) :
    Except EvalError Value × Interpreter :=
  interpreter.run fun evaluator => evaluator.expr expr

/- Calls a value. -/
def call
    (interpreter : Interpreter)
    (callee : Value)
    (args : List Value)
    (keywords : Keywords Value) :
    Except EvalError Value × Interpreter :=
  interpreter.run fun evaluator => evaluator.call callee args keywords

/- An attribute of a value. -/
def getAttr (interpreter : Interpreter) (object : Value) (name : String) :
    Except EvalError Value × Interpreter :=
  interpreter.run fun _ => Eval.getAttr object name

/- The value of a name as the snippet sees it. -/
def lookup (interpreter : Interpreter) (name : String) : Option Value :=
  interpreter.store.scopes.get? interpreter.globals name

/- Forgets the gas used so far, and keeps all else. -/
def refuel (interpreter : Interpreter) : Interpreter :=
  { interpreter with gas := 0 }

/- The objects of an interpreter. -/
def heap (interpreter : Interpreter) : Heap :=
  interpreter.store.heap

end Interpreter

end SnippetGrader
