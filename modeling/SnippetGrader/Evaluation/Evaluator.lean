import SnippetGrader.Evaluation.Library.Routines

/-
  Evaluation of expressions and statements.

  The rules are written over the rules for inner code. Every
  expression and every statement costs gas, so code runs only
  to a depth that its gas allows; the number of levels is chosen
  far beyond that.

  Key definitions include:
    * `Flow`, `Evaluator`
    * `Evaluator.evalExpr`, `Evaluator.execStmt`, `Evaluator.callValue`
    * `Evaluator.levels`
-/

namespace SnippetGrader

/- How a statement ends. -/
inductive Flow where
  | next
  | ret (value : Value)
  | breakLoop
  | continueLoop
  deriving Inhabited

/- The result of the statements of a function. -/
def Flow.result : Flow → Value
  | .ret value => value
  | _ => .none

/- The rules for inner expressions, statements and calls. -/
structure Evaluator where
  expr : Expr → Eval Value
  stmt : Stmt → Eval Flow
  call : Caller

namespace Evaluator

open Eval

------------------------------------------------------------
-- Parts of Expressions
------------------------------------------------------------

/- The values of items, with starred ones unpacked. -/
def elements (inner : Evaluator) (found : Array Value) : List Expr → Eval (Array Value)
  | [] => return found
  | .mk _ (.starred items) :: rest => do
      let values ← iterate (← inner.expr items)
      inner.elements (found ++ values) rest
  | item :: rest => do
      let value ← inner.expr item
      inner.elements (found.push value) rest

/- The entries of a dict display. -/
def entries
    (inner : Evaluator)
    (found : Array (Value × Value)) :
    List (Expr × Expr) → Eval (Array (Value × Value))
  | [] => return found
  | (key, value) :: rest => do
      let key ← inner.expr key
      let value ← inner.expr value
      inner.entries (← addEntry found key value) rest

/- Values after each other, up to the first that decides. -/
def decided (inner : Evaluator) (op : BoolOp) (last : Value) : List Expr → Eval Value
  | [] => return last
  | expr :: rest => do
      let value ← inner.expr expr
      let truth ← isTruthy value
      match op, truth with
      | .and, false => return value
      | .or, true => return value
      | _, _ => inner.decided op value rest

/- A chain of comparisons, up to the first that does not hold. -/
def chain (inner : Evaluator) (left : Value) : List (CompareOp × Expr) → Eval Value
  | [] => return .bool true
  | (op, right) :: rest => do
      let right ← inner.expr right
      if ← compareBy op left right then inner.chain right rest
      else return .bool false

/- A bound of a slice. -/
def sliceBound (inner : Evaluator) : Option Expr → Eval (Option Int)
  | none => return none
  | some expr => do
      match ← inner.expr expr with
      | .none => return none
      | .int n => return some n
      | .bool value => return some (if value then 1 else 0)
      | other => typeFault (.sliceBound (← typeName other))

/- The part of a value between bounds. -/
def slice (inner : Evaluator) (object : Value) (lower upper step : Option Expr) : Eval Value := do
  let lower ← inner.sliceBound lower
  let upper ← inner.sliceBound upper
  let step := (← inner.sliceBound step).getD 1
  if step == 0 then valueFault .zeroSliceStep
  else getSlice object lower upper step

/- The value of a subscript. -/
def subscript (inner : Evaluator) (object : Value) : Expr → Eval Value
  | .mk _ (.slice lower upper step) => inner.slice object lower upper step
  | index => do getItem object (← inner.expr index)

/- The keyword arguments in the entries of a mapping. -/
def unpackedKeywords : List (Value × Value) → Eval (Keywords Value)
  | [] => return []
  | (.str key, value) :: rest => return (key, value) :: (← unpackedKeywords rest)
  | _ :: _ => typeFault .keywordNotString

/- The keyword arguments of a call. -/
def keywordValues
    (inner : Evaluator)
    (found : Keywords Value) :
    List (KeywordArg Expr) → Eval (Keywords Value)
  | [] => return found
  | keyword :: rest => do
      let value ← inner.expr keyword.value
      match keyword.name, value with
      | some name, value => inner.keywordValues (found ++ [(name.name, value)]) rest
      | none, .dict address =>
          let unpacked ← unpackedKeywords (← onHeap fun heap => (heap.dict address).toList)
          inner.keywordValues (found ++ unpacked) rest
      | none, other => typeFault (.notMapping (← typeName other))

/- The values of the defaults of parameters. -/
def defaults
    (inner : Evaluator)
    (found : Bindings Value) :
    List (Param Expr) → Eval (Bindings Value)
  | [] => return found
  | param :: rest => do
      match param.default with
      | some default =>
          let value ← inner.expr default
          inner.defaults (found.insert param.name.name value) rest
      | none => inner.defaults found rest

/- A new function that remembers the scope it is defined in. -/
def makeFunction
    (inner : Evaluator)
    (name : String)
    (params : List (Param Expr))
    (body : FunctionBody) :
    Eval Value := do
  let defaults ← inner.defaults [] params
  let scope := (← get).scope
  withHeap (·.addFunction ⟨name, .ofParams params, defaults, body, scope⟩)

------------------------------------------------------------
-- Expressions
------------------------------------------------------------

/- The value of a form of expression. -/
def evalForm (inner : Evaluator) : ExprForm Expr → Eval Value
  | .int value => return .int value
  | .float value => return .float value
  | .str value => return .str value
  | .bool value => return .bool value
  | .none => return .none
  | .list items => do newList (← inner.elements #[] items)
  | .tuple items => do newTuple (← inner.elements #[] items)
  | .set items => do newSet (← inner.elements #[] items)
  | .dict entries => do newDict (← inner.entries #[] entries)
  | .name id => lookupName id
  | .attribute object attr => do getAttr (← inner.expr object) attr.name
  | .subscript object index => do inner.subscript (← inner.expr object) index
  | .slice _ _ _ => throw (.unsupported .looseSlice)
  | .call callee args keywords => do
      let callee ← inner.expr callee
      let args ← inner.elements #[] args
      let keywords ← inner.keywordValues [] keywords
      inner.call callee args.toList keywords
  | .starred _ => throw (.unsupported .looseStar)
  | .binary left op right => do
      let left ← inner.expr left
      let right ← inner.expr right
      Eval.binary op left right
  | .unary op operand => do Eval.unary op (← inner.expr operand)
  | .boolean op values => inner.decided op .none values
  | .compare left rest => do inner.chain (← inner.expr left) rest
  | .conditional test body orelse => do
      if ← isTruthy (← inner.expr test) then inner.expr body
      else inner.expr orelse
  | .lambda params body => inner.makeFunction "<lambda>" params (.expr body)

/- The value of an expression. It costs gas. -/
def evalExpr (inner : Evaluator) (expr : Expr) : Eval Value := do
  tick
  inner.evalForm expr.form

------------------------------------------------------------
-- Assignment
------------------------------------------------------------

/-
  The values that targets get from items: one each, and the
  starred target, if there is one, a list of all that the others
  leave.
-/
def distribute (star : Option Nat) (targets : Nat) (items : List Value) : Eval (List Value) := do
  match star with
  | none =>
      if items.length > targets then valueFault (.tooManyToUnpack targets)
      else if items.length < targets then
        valueFault (.tooFewToUnpack targets items.length)
      else return items
  | some before =>
      let others := targets - 1
      if items.length < others then
        valueFault (.tooFewToUnpackStarred others items.length)
      else
        let taken := items.length - others
        let middle ← newList ((items.drop before).take taken).toArray
        return items.take before ++ middle :: items.drop (before + taken)

mutual

/- Assigns a value to a target. -/
def assign (inner : Evaluator) : Expr → Value → Eval Unit
  | .mk _ (.name id), value => define id value
  | .mk _ (.attribute object attr), value => do
      setAttr (← inner.expr object) attr.name value
  | .mk _ (.subscript object index), value => do
      let object ← inner.expr object
      let index ← inner.expr index
      setItem object index value
  | .mk _ (.tuple targets), value => do
      let star := targets.findIdx? Expr.isStarred
      let items ← iterate value
      inner.assignEach star targets (← distribute star targets.length items.toList)
  | .mk _ (.list targets), value => do
      let star := targets.findIdx? Expr.isStarred
      let items ← iterate value
      inner.assignEach star targets (← distribute star targets.length items.toList)
  | .mk _ _, _ => throw (.unsupported .assignmentTarget)

/- Assigns values to targets from left to right. One may be starred. -/
def assignEach (inner : Evaluator) : (star : Option Nat) → List Expr → List Value → Eval Unit
  | some 0, .mk _ (.starred target) :: targets, value :: values => do
      inner.assign target value
      inner.assignEach none targets values
  | star, target :: targets, value :: values => do
      inner.assign target value
      inner.assignEach (star.map (· - 1)) targets values
  | _, _, _ => return ()

end

/- The value of an augmented assignment. A list is extended in place. -/
def augmented (op : BinaryOp) (current operand : Value) : Eval Value := do
  match op, current with
  | .add, .list address =>
      extendList address (← iterate operand)
      return current
  | _, _ => Eval.binary op current operand

/- Runs an augmented assignment. -/
def augAssign (inner : Evaluator) (op : BinaryOp) (operand : Expr) : Expr → Eval Unit
  | .mk _ (.name id) => do
      let current ← lookupName id
      let operand ← inner.expr operand
      define id (← augmented op current operand)
  | .mk _ (.attribute object attr) => do
      let object ← inner.expr object
      let current ← getAttr object attr.name
      let operand ← inner.expr operand
      setAttr object attr.name (← augmented op current operand)
  | .mk _ (.subscript object index) => do
      let object ← inner.expr object
      let index ← inner.expr index
      let current ← getItem object index
      let operand ← inner.expr operand
      setItem object index (← augmented op current operand)
  | .mk _ _ => throw (.unsupported .augmentedTarget)

------------------------------------------------------------
-- Imports and Exceptions
------------------------------------------------------------

/- The first name of a dotted one. -/
def topName (name : String) : String :=
  String.ofList (name.toList.takeWhile (· != '.'))

/- Binds imported modules. Without another name, the top one is bound. -/
def importModules : List Alias → Eval Unit
  | [] => return ()
  | entry :: rest => do
      match entry.asName with
      | some asName => define asName.name (← importModule entry.name)
      | none =>
          let top := topName entry.name
          define top (← importModule top)
      importModules rest

/- Binds names imported from a module. -/
def importNames (sourceName : String) (source : Value) : List Alias → Eval Unit
  | [] => return ()
  | entry :: rest => do
      match ← onHeap (attr? · source entry.name) with
      | some value =>
          define ((entry.asName.map (·.name)).getD entry.name) value
          importNames sourceName source rest
      | none =>
          throw (.raised
            ("ImportError: cannot import name '" ++ entry.name ++ "' from '"
              ++ sourceName ++ "'"))

/-
  What is reported of a raised value: the name of a class, and
  what an exception was made with.
-/
def raisedText (heap : Heap) : Value → String
  | .type address => (heap.classAt address).name
  | .object address =>
      let name := (heap.classOf address).name
      match (heap.instanceAt address).attrs.get? "args" with
      | some (.tuple given) =>
          match (heap.tuple given).toList with
          | [] => name
          | [item] => name ++ ": " ++ heap.display item
          | _ => name ++ ": " ++ heap.repr (.tuple given)
      | _ => name
  | other => heap.display other

------------------------------------------------------------
-- Statements
------------------------------------------------------------

/- Runs statements until one leaves the block. -/
def block (inner : Evaluator) : List Stmt → Eval Flow
  | [] => return .next
  | stmt :: rest => do
      match ← inner.stmt stmt with
      | .next => inner.block rest
      | flow => return flow

/- Runs a loop with a condition, at most `fuel` times. -/
def whileLoop
    (inner : Evaluator)
    (test : Expr)
    (body orelse : List Stmt) :
    (fuel : Nat) → Eval Flow
  | 0 => throw .unfinished
  | fuel + 1 => do
      if ← isTruthy (← inner.expr test) then
        match ← inner.block body with
        | .breakLoop => return .next
        | .ret value => return .ret value
        | .next | .continueLoop => inner.whileLoop test body orelse fuel
      else inner.block orelse

/- Runs a loop over items. -/
def forLoop
    (inner : Evaluator)
    (target : Expr)
    (body orelse : List Stmt) :
    List Value → Eval Flow
  | [] => inner.block orelse
  | item :: rest => do
      inner.assign target item
      match ← inner.block body with
      | .breakLoop => return .next
      | .ret value => return .ret value
      | .next | .continueLoop => inner.forLoop target body orelse rest

/- The classes that a class inherits from. -/
def baseClasses (inner : Evaluator) : List Expr → Eval (List Nat)
  | [] => return []
  | base :: rest => do
      match ← inner.expr base with
      | .type address => return address :: (← inner.baseClasses rest)
      | other => typeFault (.notInheritable (← typeName other))

/- Defines a class. Its attributes are the names that its body binds. -/
def classDef (inner : Evaluator) (name : String) (bases : List Expr) (body : List Stmt) :
    Eval Unit := do
  let bases ← inner.baseClasses bases
  let scope ← openScope (← get).scope []
  discard (inScope scope (inner.block body))
  let attrs ← localsOf scope
  let address ← withHeap (·.addClass name bases attrs)
  define name (.type address)

/- Runs a form of statement. Loops make at most `fuel` rounds. -/
def execForm (inner : Evaluator) (fuel : Nat) : StmtForm Stmt → Eval Flow
  | .expr value => do
      discard (inner.expr value)
      return .next
  | .assign targets value => do
      let value ← inner.expr value
      targets.forM fun target => inner.assign target value
      return .next
  | .augAssign target op value => do
      inner.augAssign op value target
      return .next
  | .functionDef name params body => do
      define name.name (← inner.makeFunction name.name params (.block body))
      return .next
  | .classDef name bases body => do
      inner.classDef name.name bases body
      return .next
  | .ret none => return .ret .none
  | .ret (some value) => return .ret (← inner.expr value)
  | .branch test body orelse => do
      if ← isTruthy (← inner.expr test) then inner.block body
      else inner.block orelse
  | .whileLoop test body orelse => inner.whileLoop test body orelse fuel
  | .forLoop target items body orelse => do
      let items ← iterate (← inner.expr items)
      inner.forLoop target body orelse items.toList
  | .importModules names => do
      importModules names
      return .next
  | .importFrom source names => do
      importNames source (← importModule source) names
      return .next
  | .raise none =>
      throw (.raised "RuntimeError: No active exception to reraise")
  | .raise (some exception) => do
      let value ← inner.expr exception
      throw (.raised (← onHeap (raisedText · value)))
  | .assert test message => do
      if ← isTruthy (← inner.expr test) then return .next
      match message with
      | some text =>
          let value ← inner.expr text
          throw (.assertion (← onHeap (·.display value)))
      | none => throw (.assertion "")
  | .pass => return .next
  | .breakLoop => return .breakLoop
  | .continueLoop => return .continueLoop

/- Runs a statement. It costs gas. -/
def execStmt (inner : Evaluator) (fuel : Nat) (stmt : Stmt) : Eval Flow := do
  tick
  inner.execForm fuel stmt.form

------------------------------------------------------------
-- Calls
------------------------------------------------------------

/- A dict of keyword arguments. -/
def keywordDict (keywords : Keywords Value) : Eval Value :=
  newDict (keywords.map fun (key, value) => (Value.str key, value)).toArray

/- The value that a parameter is bound to, given the value of its default. -/
def boundValue (default : Eval Value) : Binding Value → Eval Value
  | .value value => return value
  | .default => default
  | .varPositional items => newTuple items.toArray
  | .varKeyword pairs => keywordDict pairs

/- Binds the arguments of a call, with defaults for those left out. -/
def bindArguments
    (callee : String)
    (signature : Signature)
    (args : List Value)
    (keywords : Keywords Value) :
    Eval (List (Parameter × Binding Value)) :=
  match signature.bind args keywords with
  | .ok bound => return bound.withDefaults.entries
  | .error fault => throw (.binding callee fault)

/- Calls a function of the snippet. -/
def callFunction
    (inner : Evaluator)
    (function : FunctionObject)
    (args : List Value)
    (keywords : Keywords Value) :
    Eval Value := do
  let bound ← bindArguments function.name function.signature args keywords
  let bindings ← bound.mapM fun (param, binding) => do
    let value ←
      boundValue (return (function.defaults.get? param.name).getD .none) binding
    return (param.name, value)
  let scope ← openScope function.closure
    (bindings.foldl (fun known (name, value) => Bindings.insert name value known) [])
  inCall scope do
    match function.body with
    | .block body => return (← inner.block body).result
    | .expr body => inner.expr body

/- Calls a routine. The defaults of its signature are evaluated. -/
def callBuiltin
    (inner : Evaluator)
    (routine : Builtin)
    (args : List Value)
    (keywords : Keywords Value) :
    Eval Value := do
  match routine.signature? with
  | none => runBuiltin inner.call routine args keywords
  | some signature =>
      let bound ← bindArguments routine.name signature args keywords
      let values ← bound.mapM fun (param, binding) =>
        boundValue
          (match param.default with
            | some default => inner.expr default
            | none => return .none)
          binding
      runBuiltin inner.call routine values []

/- Makes an instance of a class and runs its constructor on it. -/
def instantiate
    (inner : Evaluator)
    (classAddress : Nat)
    (args : List Value)
    (keywords : Keywords Value) :
    Eval Value := do
  let address ← withHeap (·.addInstance classAddress)
  match ← onHeap (·.classAttr? classAddress "__init__") with
  | some init =>
      match ← inner.call init (.object address :: args) keywords with
      | .none => return .object address
      | other => typeFault (.initResult (← typeName other))
  | none =>
      if args.isEmpty && keywords.isEmpty then return .object address
      else
        typeFault (.takesNoArguments (← onHeap fun heap => (heap.classAt classAddress).name))

/- Calls a value. -/
def callValue (inner : Evaluator) : Caller := fun callee args keywords => do
  match callee with
  | .function address =>
      inner.callFunction (← onHeap (·.function address)) args keywords
  | .builtin routine => inner.callBuiltin routine args keywords
  | .method receiver (.function address) =>
      inner.callFunction (← onHeap (·.function address)) (receiver :: args) keywords
  | .method receiver (.builtin routine) =>
      inner.callBuiltin routine (receiver :: args) keywords
  | .type address => inner.instantiate address args keywords
  | .placeholder path => return .placeholder (path ++ "()")
  | other => typeFault (.notCallable (← typeName other))

------------------------------------------------------------
-- Levels
------------------------------------------------------------

/- The rules with a number of levels of inner code. -/
def levels : Nat → Evaluator
  | 0 =>
      { expr := fun _ => throw .unfinished
        stmt := fun _ => throw .unfinished
        call := fun _ _ _ => throw .unfinished }
  | n + 1 =>
      let inner : Evaluator :=
        { expr := fun expr interpreter => (levels n).expr expr interpreter
          stmt := fun stmt interpreter => (levels n).stmt stmt interpreter
          call := fun callee args keywords interpreter =>
            (levels n).call callee args keywords interpreter }
      { expr := inner.evalExpr
        stmt := inner.execStmt (n + 1)
        call := inner.callValue }

end Evaluator

end SnippetGrader
