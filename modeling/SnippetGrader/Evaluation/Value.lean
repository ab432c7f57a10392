import SnippetGrader.Evaluation.Builtin
import SnippetGrader.Evaluation.Scope

/-
  Values of snippets, and the objects that they refer to.

  A value that has an identity is an address, and the heap says
  what is there. Objects are never given up, so an address stays
  valid for good. Lists, dicts, sets, classes and instances may
  change; tuples and functions do not.

  Key definitions include:
    * `Value`
    * `FunctionObject`, `ClassObject`, `InstanceObject`
    * `Heap`, `Store`
-/

namespace SnippetGrader

------------------------------------------------------------
-- Values
------------------------------------------------------------

/- What a method runs on its receiver. -/
inductive Callee where
  | function (address : Nat)
  | builtin (routine : Builtin)
  deriving DecidableEq, Repr, Inhabited

/-
  A value. A placeholder stands for whatever is reached through
  a module that is not provided, and is known by its path.
-/
inductive Value where
  | none
  | bool (value : Bool)
  | int (value : Int)
  | float (value : Float)
  | str (value : String)
  | list (address : Nat)
  | tuple (address : Nat)
  | dict (address : Nat)
  | set (address : Nat)
  | function (address : Nat)
  | builtin (routine : Builtin)
  | method (receiver : Value) (callee : Callee)
  | type (address : Nat)
  | object (address : Nat)
  | mathModule (serial : Nat)
  | placeholder (path : String)
  deriving Repr

instance : Inhabited Value := ⟨.none⟩

/- Whether a value is the value without content. -/
def Value.isNone : Value → Bool
  | .none => true
  | _ => false

/- A method's callee as a value of its own. -/
def Callee.value : Callee → Value
  | .function address => .function address
  | .builtin routine => .builtin routine

------------------------------------------------------------
-- Objects
------------------------------------------------------------

/- What a function runs. -/
inductive FunctionBody where
  | block (body : List Stmt)
  | expr (body : Expr)
  deriving Inhabited

/-
  A function of a snippet, with the values of its defaults and
  the scope it was defined in.
-/
structure FunctionObject where
  name : String
  signature : Signature
  defaults : Bindings Value
  body : FunctionBody
  closure : Nat
  deriving Inhabited

/-
  A class. Its ancestors are the classes that its attributes may
  come from after itself, in the order in which they are asked.
-/
structure ClassObject where
  name : String
  ancestors : List Nat := []
  attrs : Bindings Value := []
  deriving Inhabited

/- An instance of a class. -/
structure InstanceObject where
  classAddress : Nat
  attrs : Bindings Value := []
  deriving Inhabited

------------------------------------------------------------
-- Heaps
------------------------------------------------------------

/- The objects of a run, by kind, and the number of imported modules. -/
structure Heap where
  lists : Array (Array Value) := #[]
  tuples : Array (Array Value) := #[]
  dicts : Array (Array (Value × Value)) := #[]
  sets : Array (Array Value) := #[]
  functions : Array FunctionObject := #[]
  classes : Array ClassObject := #[]
  instances : Array InstanceObject := #[]
  mathModules : Nat := 0
  deriving Inhabited

namespace Heap

/- The items of a list. -/
def list (heap : Heap) (address : Nat) : Array Value :=
  heap.lists[address]?.getD #[]

/- The items of a tuple. -/
def tuple (heap : Heap) (address : Nat) : Array Value :=
  heap.tuples[address]?.getD #[]

/- The entries of a dict. -/
def dict (heap : Heap) (address : Nat) : Array (Value × Value) :=
  heap.dicts[address]?.getD #[]

/- The items of a set. -/
def set (heap : Heap) (address : Nat) : Array Value :=
  heap.sets[address]?.getD #[]

/- A function. -/
def function (heap : Heap) (address : Nat) : FunctionObject :=
  heap.functions[address]?.getD default

/- A class. -/
def classAt (heap : Heap) (address : Nat) : ClassObject :=
  heap.classes[address]?.getD default

/- An instance. -/
def instanceAt (heap : Heap) (address : Nat) : InstanceObject :=
  heap.instances[address]?.getD default

/- The class of an instance. -/
def classOf (heap : Heap) (address : Nat) : ClassObject :=
  heap.classAt (heap.instanceAt address).classAddress

/- Adds a list. -/
def addList (heap : Heap) (items : Array Value) : Value × Heap :=
  (.list heap.lists.size, { heap with lists := heap.lists.push items })

/- Adds a tuple. -/
def addTuple (heap : Heap) (items : Array Value) : Value × Heap :=
  (.tuple heap.tuples.size, { heap with tuples := heap.tuples.push items })

/- Adds a dict. -/
def addDict (heap : Heap) (entries : Array (Value × Value)) : Value × Heap :=
  (.dict heap.dicts.size, { heap with dicts := heap.dicts.push entries })

/- Adds a set whose items are already distinct. -/
def addSet (heap : Heap) (items : Array Value) : Value × Heap :=
  (.set heap.sets.size, { heap with sets := heap.sets.push items })

/- Adds a function. -/
def addFunction (heap : Heap) (function : FunctionObject) : Value × Heap :=
  (.function heap.functions.size,
    { heap with functions := heap.functions.push function })

/- Keeps the first of equal numbers. -/
def firstOfEach : List Nat → List Nat :=
  List.foldl (fun kept n => if kept.contains n then kept else kept ++ [n]) []

/-
  Adds a class. Its bases are asked from left to right, each
  with its own ancestors after it. To ask a class again would
  not help, so each is kept only where it comes first.
-/
def addClass
    (heap : Heap)
    (name : String)
    (bases : List Nat)
    (attrs : Bindings Value) :
    Nat × Heap :=
  let ancestors :=
    firstOfEach (bases.flatMap fun base => base :: (heap.classAt base).ancestors)
  (heap.classes.size,
    { heap with classes := heap.classes.push ⟨name, ancestors, attrs⟩ })

/- Adds an instance of a class. -/
def addInstance (heap : Heap) (classAddress : Nat) : Nat × Heap :=
  (heap.instances.size,
    { heap with instances := heap.instances.push { classAddress } })

/- Adds a module. -/
def addMathModule (heap : Heap) : Value × Heap :=
  (.mathModule heap.mathModules, { heap with mathModules := heap.mathModules + 1 })

/- Changes the items of a list. -/
def updateList (heap : Heap) (address : Nat) (change : Array Value → Array Value) : Heap :=
  { heap with lists := heap.lists.modify address change }

/- Replaces the entries of a dict. -/
def setDict (heap : Heap) (address : Nat) (entries : Array (Value × Value)) : Heap :=
  { heap with dicts := heap.dicts.modify address fun _ => entries }

/- Gives a class an attribute. -/
def setClassAttr (heap : Heap) (address : Nat) (name : String) (value : Value) : Heap :=
  { heap with
    classes := heap.classes.modify address fun found =>
      { found with attrs := found.attrs.insert name value } }

/- Gives an instance an attribute. -/
def setInstanceAttr (heap : Heap) (address : Nat) (name : String) (value : Value) : Heap :=
  { heap with
    instances := heap.instances.modify address fun found =>
      { found with attrs := found.attrs.insert name value } }

------------------------------------------------------------
-- Facts about Values
------------------------------------------------------------

/- An attribute of a class or of the first ancestor that has it. -/
def classAttr? (heap : Heap) (address : Nat) (name : String) : Option Value :=
  (address :: (heap.classAt address).ancestors).findSome? fun asked =>
    (heap.classAt asked).attrs.get? name

/- Whether a class is another or inherits from it. -/
def isSubclass (heap : Heap) (address other : Nat) : Bool :=
  (address :: (heap.classAt address).ancestors).contains other

/- The name of a value's type. -/
def typeName (heap : Heap) : Value → String
  | .none => "NoneType"
  | .bool _ => "bool"
  | .int _ => "int"
  | .float _ => "float"
  | .str _ => "str"
  | .list _ => "list"
  | .tuple _ => "tuple"
  | .dict _ => "dict"
  | .set _ => "set"
  | .function _ => "function"
  | .builtin _ => "builtin_function_or_method"
  | .method _ _ => "method"
  | .type _ => "type"
  | .object address => (heap.classOf address).name
  | .mathModule _ => "module"
  | .placeholder _ => "object"

/- Whether a value counts as true. -/
def isTruthy (heap : Heap) : Value → Bool
  | .none => false
  | .bool value => value
  | .int value => value != 0
  | .float value => value != 0.0
  | .str value => !value.isEmpty
  | .list address => !(heap.list address).isEmpty
  | .tuple address => !(heap.tuple address).isEmpty
  | .dict address => !(heap.dict address).isEmpty
  | .set address => !(heap.set address).isEmpty
  | _ => true

/- The signature of what a method runs. -/
def calleeSignature? (heap : Heap) : Callee → Option Signature
  | .function address => some (heap.function address).signature
  | .builtin routine => routine.signature?

/-
  The parameters that a caller sees. A class has those of its
  constructor without the receiver; a constructor may be a class
  again, and a chain of more classes than there are has no end
  and no signature.
-/
def signatureIn (heap : Heap) : (classes : Nat) → Value → Option Signature
  | _, .function address => some (heap.function address).signature
  | _, .builtin routine => routine.signature?
  | _, .method _ callee =>
      (heap.calleeSignature? callee).map Signature.withoutReceiver
  | 0, .type _ => none
  | classes + 1, .type address =>
      match heap.classAttr? address "__init__" with
      | some init =>
          (heap.signatureIn classes init).map Signature.withoutReceiver
      | none => some .empty
  | _, _ => none

/- The parameters that a caller of a value sees, if it shows any. -/
def signature? (heap : Heap) (value : Value) : Option Signature :=
  heap.signatureIn heap.classes.size value

end Heap

------------------------------------------------------------
-- Stores
------------------------------------------------------------

/- The objects and the scopes of a run. -/
structure Store where
  heap : Heap := {}
  scopes : Scopes Value := {}
  deriving Inhabited

end SnippetGrader
