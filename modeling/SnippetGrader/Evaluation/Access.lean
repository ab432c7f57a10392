import SnippetGrader.Evaluation.Operators
import SnippetGrader.Evaluation.ValueText

/-
  Items, slices and attributes of values, and imported modules.

  Key definitions include:
    * `position?`, `slicePositions`
    * `Eval.getItem`, `Eval.setItem`, `Eval.getSlice`
    * `Eval.getAttr`, `Eval.setAttr`
    * `Eval.importModule`
-/

namespace SnippetGrader

------------------------------------------------------------
-- Positions
------------------------------------------------------------

/- The position that an index means. A negative one counts from the end. -/
def position? (index : Int) (length : Nat) : Option Nat :=
  let shifted := if index < 0 then index + length else index
  if 0 ≤ shifted && shifted < length then some shifted.toNat else none

/-
  Positions from a start by a step, as long as they are before
  the stop. What no word holds is beyond every stop.
-/
def positionsFrom (stop step : Int) : (rounds : Nat) → (start : Int) → List Nat
  | 0, _ => []
  | rounds + 1, start =>
      if (0 < step && start < stop) || (step < 0 && stop < start) then
        start.toNat ::
          match Number.fitWord? (start + step) with
          | some next => positionsFrom stop step rounds next
          | none => []
      else []

/- A length as a word. -/
def wordLength (length : Nat) : Int :=
  min (length : Int) Number.wordMax

/- An index from the start. A negative one counts from the end. -/
def fromStart (length index : Int) : Int :=
  if index < 0 then Number.wrapWord (index + length) else index

/-
  A bound of a slice, or another if it is not given, moved to the
  nearest end if it is outside. Backward, the ends are one less.
-/
def boundPosition (length step : Int) (given : Option Int) (otherwise : Int) : Int :=
  let least := if 0 < step then 0 else -1
  let most := if 0 < step then length else length - 1
  max least (min most ((given.map (fromStart length)).getD otherwise))

/- Where a slice starts. -/
def sliceStart (length : Int) (lower : Option Int) (step : Int) : Int :=
  boundPosition length step lower (if 0 < step then 0 else length - 1)

/- Where a slice stops. What is there is not in it. -/
def sliceStop (length : Int) (upper : Option Int) (step : Int) : Int :=
  boundPosition length step upper (if 0 < step then length else -1)

/-
  The positions that a slice picks. There are at most as many of
  them as items.
-/
def slicePositions
    (length : Nat)
    (lower upper : Option Int)
    (step : Int) :
    List Nat :=
  let size := wordLength length
  positionsFrom (sliceStop size upper step) step length
    (sliceStart size lower step)

/- The items at given positions. -/
def pick {α : Type} (items : Array α) (positions : List Nat) : List α :=
  positions.filterMap fun position => items[position]?

namespace Eval

------------------------------------------------------------
-- Items
------------------------------------------------------------

/- An index as an integer. -/
def intIndex (container : String) : Value → Eval Int
  | .int n => return n
  | .bool value => return if value then 1 else 0
  | other => do typeFault (.indexType container (← typeName other))

/- The item of a sequence at an index. -/
def itemAt {α : Type} (container : String) (items : Array α) (index : Value) : Eval α := do
  let n ← intIndex container index
  match (position? n items.size).bind (items[·]?) with
  | some item => return item
  | none => throw (.index (.read container))

/- The value of a subscript. -/
def getItem (object index : Value) : Eval Value := do
  match object with
  | .list address => itemAt "list" (← onHeap (·.list address)) index
  | .tuple address => itemAt "tuple" (← onHeap (·.tuple address)) index
  | .str text =>
      return .str (String.singleton (← itemAt "string" text.toList.toArray index))
  | .dict address =>
      match ← onHeap fun heap => heap.entry? (heap.dict address) index with
      | some value => return value
      | none => throw (.key (← onHeap (·.repr index)))
  | other => typeFault (.notSubscriptable (← typeName other))

/- Assigns to a subscript. -/
def setItem (object index value : Value) : Eval Unit := do
  match object with
  | .list address =>
      let n ← intIndex "list" index
      match position? n (← onHeap fun heap => (heap.list address).size) with
      | some position =>
          updateHeap (·.updateList address fun items => items.setIfInBounds position value)
      | none => throw (.index .assignment)
  | .dict address =>
      updateHeap fun heap =>
        heap.setDict address (heap.insertEntry (heap.dict address) index value)
  | other => typeFault (.noItemAssignment (← typeName other))

/- The items of a value that a slice picks. -/
def getSlice (object : Value) (lower upper : Option Int) (step : Int) : Eval Value := do
  match object with
  | .list address =>
      let items ← onHeap (·.list address)
      newList (pick items (slicePositions items.size lower upper step)).toArray
  | .tuple address =>
      let items ← onHeap (·.tuple address)
      newTuple (pick items (slicePositions items.size lower upper step)).toArray
  | .str text =>
      let chars := text.toList.toArray
      return .str
        (String.ofList (pick chars (slicePositions chars.size lower upper step)))
  | other => typeFault (.notSubscriptable (← typeName other))

------------------------------------------------------------
-- Attributes
------------------------------------------------------------

/- A function that is reached through a value becomes a method of it. -/
def bindTo (receiver : Value) : Value → Value
  | .function address => .method receiver (.function address)
  | .builtin routine => .method receiver (.builtin routine)
  | other => other

/- The attribute of the module `math` with a given name. -/
def mathAttr? (name : String) : Option Value :=
  match MathFunction.all.find? fun function => function.name == name with
  | some function => some (.builtin (.math function))
  | none =>
      if name == "pi" then some (.float 3.141592653589793)
      else if name == "e" then some (.float 2.718281828459045)
      else none

/- The method of a built-in type with a given name. -/
def builtinMethod? (receiver : Value) (name : String) : Option Builtin :=
  match receiver with
  | .str _ =>
      (StrMethod.all.find? fun method => method.name == name).map .strMethod
  | .list _ =>
      (ListMethod.all.find? fun method => method.name == name).map .listMethod
  | .dict _ =>
      (DictMethod.all.find? fun method => method.name == name).map .dictMethod
  | _ => none

/- The attribute of a value, if it has one of that name. -/
def attr? (heap : Heap) (object : Value) (name : String) : Option Value :=
  match object with
  | .object address =>
      let found := heap.instanceAt address
      (found.attrs.get? name).or
        ((heap.classAttr? found.classAddress name).map (bindTo object))
  | .type address => heap.classAttr? address name
  | .mathModule _ => mathAttr? name
  | .placeholder path => some (.placeholder (path ++ "." ++ name))
  | _ =>
      (builtinMethod? object name).map fun routine =>
        .method object (.builtin routine)

/- How a report names what an attribute was asked of. -/
def ownerOf (heap : Heap) : Value → AttributeOwner
  | .mathModule _ => .library "math"
  | .type address => .type (heap.classAt address).name
  | other => .value (heap.typeName other)

/- Fails because a value has no attribute of that name. -/
def noAttr {α : Type} (object : Value) (name : String) : Eval α := do
  throw (.attribute (← onHeap (ownerOf · object)) name)

/- The attribute of a value. -/
def getAttr (object : Value) (name : String) : Eval Value := do
  match ← onHeap (attr? · object name) with
  | some value => return value
  | none => noAttr object name

/- Assigns to an attribute. -/
def setAttr (object : Value) (name : String) (value : Value) : Eval Unit := do
  match object with
  | .object address => updateHeap (·.setInstanceAttr address name value)
  | .type address => updateHeap (·.setClassAttr address name value)
  | other => noAttr other name

------------------------------------------------------------
-- Modules
------------------------------------------------------------

/- The module with a given name. Only `math` is provided. -/
def importModule (name : String) : Eval Value :=
  if name == "math" then withHeap (·.addMathModule)
  else return .placeholder name

end Eval

end SnippetGrader
