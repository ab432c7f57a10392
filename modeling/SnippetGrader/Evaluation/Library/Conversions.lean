import SnippetGrader.Evaluation.Library.Arguments
import SnippetGrader.Number.Reader
import SnippetGrader.Text.Blank

/-
  Routines that make values of one type from values of another.

  Key definitions include:
    * `Eval.toInt`, `Eval.toFloat`
    * `Eval.toDict`
    * `Eval.isInstance`
    * `Eval.typeOf`
-/

namespace SnippetGrader.Eval

------------------------------------------------------------
-- Numbers
------------------------------------------------------------

/- Fails because a text is no integer. -/
def badInteger (text : String) (base : Int) : Eval Value :=
  valueFault (.integerLiteral base (Text.quoted text))

/- The integer that a text shows in a base. -/
def integerInBase (value baseValue : Value) : Eval Value := do
  let base ← asInt "base" baseValue
  match value with
  | .str text =>
      if base < 2 || base > 36 then valueFault .integerBase
      else
        match Number.readWord? base.toNat (Text.trim text).toList with
        | some n => return .int n
        | none => badInteger text base
  | _ => typeFault .baseOfNonString

/- The integer that a value stands for. -/
def integerOf (value : Value) : Eval Value := do
  match value with
  | .int n => return .int n
  | .bool b => return .int (if b then 1 else 0)
  | .float x => return .int (← ofExcept (Arithmetic.floatToInt (Number.truncate x)))
  | .str text =>
      match Number.readWord? 10 ((Text.trim text).toList.filter (· != '_')) with
      | some n => return .int n
      | none => badInteger text 10
  | other => typeFault (.noIntegerValue (← typeName other))

/- Makes an integer. -/
def toInt (args : List Value) : Eval Value := do
  checkCount "int" 0 2 args
  match args with
  | value :: base :: _ => integerInBase value base
  | [value] => integerOf value
  | [] => return .int 0

/- Makes a float. -/
def toFloat (args : List Value) : Eval Value := do
  checkCount "float" 0 1 args
  match args with
  | .str text :: _ =>
      match Number.readFloat? (Text.trim text).toList with
      | some x => return .float x
      | none => valueFault (.floatLiteral (Text.quoted text))
  | value :: _ => return .float (← asFloat value)
  | [] => return .float 0.0

/- Makes a truth value. -/
def toBool (args : List Value) : Eval Value := do
  checkCount "bool" 0 1 args
  match args with
  | value :: _ => return .bool (← isTruthy value)
  | [] => return .bool false

------------------------------------------------------------
-- Texts and Containers
------------------------------------------------------------

/- Makes a string. -/
def toStr (args : List Value) : Eval Value := do
  checkCount "str" 0 1 args
  match args with
  | value :: _ => return .str (← onHeap (·.display value))
  | [] => return .str ""

/- The items of the only argument, or none without one. -/
def itemsOrNone (callee : String) (args : List Value) : Eval (Array Value) := do
  checkCount callee 0 1 args
  match args with
  | value :: _ => iterate value
  | [] => return #[]

/- A new set of the items that differ from each other. -/
def newSet (items : Array Value) : Eval Value :=
  withHeap fun heap => heap.addSet (heap.distinct items)

/- Adds an entry to those of a dict. -/
def addEntry (entries : Array (Value × Value)) (key value : Value) :
    Eval (Array (Value × Value)) :=
  onHeap (·.insertEntry entries key value)

/- Adds an entry that is given as an iterable of two items. -/
def addPair (entries : Array (Value × Value)) (item : Value) :
    Eval (Array (Value × Value)) := do
  match (← iterate item).toList with
  | [key, value] => addEntry entries key value
  | other => valueFault (.entryLength other.length)

/- Makes a dict from a dict or from pairs, and from keyword arguments. -/
def toDict (args : List Value) (keywords : Keywords Value) : Eval Value := do
  checkCount "dict" 0 1 args
  let entries ←
    match args with
    | .dict address :: _ => onHeap (·.dict address)
    | value :: _ => (← iterate value).toList.foldlM addPair #[]
    | [] => pure #[]
  let entries ←
    keywords.foldlM (fun entries (key, value) => addEntry entries (.str key) value)
      entries
  newDict entries

------------------------------------------------------------
-- Types
------------------------------------------------------------

/- Whether a value is of a built-in type, if a routine stands for one. -/
def isOfBuiltin? (routine : Builtin) (value : Value) : Option Bool :=
  match routine, value with
  | .int, .int _ | .int, .bool _ | .bool, .bool _ | .float, .float _ => some true
  | .str, .str _ | .list, .list _ | .tuple, .tuple _ => some true
  | .dict, .dict _ | .set, .set _ => some true
  | .int, _ | .bool, _ | .float, _ | .str, _ | .list, _ | .tuple, _ => some false
  | .dict, _ | .set, _ => some false
  | _, _ => none

/- Whether one of several tests holds, asked from left to right. -/
def anyM (test : Value → Except EvalError Bool) : List Value → Except EvalError Bool
  | [] => .ok false
  | value :: rest =>
      match test value with
      | .ok true => .ok true
      | .ok false => anyM test rest
      | .error fault => .error fault

/-
  Whether a value is of a type or of one of a tuple of types. A
  tuple holds only tuples that were there before it, so there
  are no more levels than tuples.
-/
def isInstance (heap : Heap) (object : Value) :
    (levels : Nat) → Value → Except EvalError Bool
  | levels + 1, .tuple address =>
      anyM (isInstance heap object levels) (heap.tuple address).toList
  | _, .type address =>
      match object with
      | .object own => .ok (heap.isSubclass (heap.instanceAt own).classAddress address)
      | _ => .ok false
  | _, .builtin routine =>
      match isOfBuiltin? routine object with
      | some answer => .ok answer
      | none => .error (.type .notAType)
  | _, _ => .error (.type .notAType)

/- Whether a value is of a type or of one of a tuple of types. -/
def isInstanceOf (object types : Value) : Eval Value := do
  .bool <$> ofExcept
    (← onHeap fun heap => isInstance heap object (heap.tuples.size + 1) types)

/-
  The type of a value: its class, or what the name of its type
  stands for among the routines.
-/
def typeOf (args : List Value) : Eval Value := do
  checkCount "type" 1 1 args
  match argument args 0 with
  | .object address => onHeap fun heap => .type (heap.instanceAt address).classAddress
  | other =>
      let name ← typeName other
      let interpreter ← get
      return (interpreter.store.scopes.get? interpreter.builtins name).getD
        (.placeholder name)

end SnippetGrader.Eval
