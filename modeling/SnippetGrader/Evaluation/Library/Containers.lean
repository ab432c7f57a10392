import SnippetGrader.Evaluation.Library.Sorting

/-
  The methods of lists and dicts.

  Key definitions include:
    * `Eval.runList`
    * `Eval.runDict`
-/

namespace SnippetGrader.Eval

------------------------------------------------------------
-- Lists
------------------------------------------------------------

/- The number of items of a list. -/
def listSize (address : Nat) : Eval Nat :=
  onHeap fun heap => (heap.list address).size

/- Adds items at the end of a list. -/
def extendList (address : Nat) (items : Array Value) : Eval Unit := do
  checkLength ((← listSize address) + items.size)
  updateHeap (·.updateList address (· ++ items))

/- Adds an item at the end of a list. -/
def appendItem (address : Nat) (item : Value) : Eval Unit := do
  checkLength ((← listSize address) + 1)
  updateHeap (·.updateList address (·.push item))

/- Takes an item out of a list. -/
def popItem (address : Nat) (index : Value) : Eval Value := do
  let size ← listSize address
  if size = 0 then throw (.index .popEmpty)
  else
    let n ← asInt "index" index
    let position := position? n size
    match ← onHeap fun heap => position.bind fun place => (heap.list address)[place]? with
    | some item =>
        updateHeap (·.updateList address (·.eraseIdxIfInBounds (position.getD 0)))
        return item
    | none => throw (.index .pop)

/- Puts an item into a list, before the one at an index. -/
def insertItem (address : Nat) (index item : Value) : Eval Unit := do
  let size ← listSize address
  checkLength (size + 1)
  let n ← asInt "index" index
  let position := min (if n < 0 then n + size else n).toNat size
  updateHeap (·.updateList address (·.insertIdxIfInBounds position item))

/- The first index of an item from a start on. -/
def itemIndex (args : List Value) : Eval Value := do
  checkCount "index" 2 3 args
  let target := argument args 1
  let start ←
    match args[2]? with
    | some value => Int.toNat <$> asInt "start" value
    | none => pure 0
  let address ← receiverList args
  let found ← onHeap fun heap =>
    ((heap.list address).toList.drop start).findIdx? (heap.equal · target)
  match found with
  | some offset => return .int (start + offset : Nat)
  | none => valueFault (.notInList (← onHeap (·.repr target)))

/- Runs a method of lists. -/
def runList
    (call : Caller)
    (method : ListMethod)
    (args : List Value)
    (keywords : Keywords Value) :
    Eval Value := do
  match method with
  | .append =>
      appendItem (← receiverList args) (argument args 1)
      return .none
  | .extend =>
      let items ← iterate (argument args 1)
      extendList (← receiverList args) items
      return .none
  | .pop => popItem (← receiverList args) (argument args 1)
  | .insert =>
      insertItem (← receiverList args) (argument args 1) (argument args 2)
      return .none
  | .count =>
      let address ← receiverList args
      onHeap fun heap =>
        .int ((heap.list address).countP (heap.equal · (argument args 1)))
  | .index =>
      noKeywords "index" keywords
      itemIndex args
  | .sort =>
      let address ← receiverList args
      let items ← onHeap (·.list address)
      let reverse ← isTruthy (argument args 2)
      let sorted ← sortValues call items (argument args 1) reverse
      updateHeap (·.updateList address fun _ => sorted)
      return .none
  | .reverse =>
      let address ← receiverList args
      updateHeap (·.updateList address (·.reverse))
      return .none

------------------------------------------------------------
-- Dicts
------------------------------------------------------------

/- The entries of the dict that is the only argument. -/
def onlyDict (method : DictMethod) (args : List Value) (keywords : Keywords Value) :
    Eval (Array (Value × Value)) := do
  noKeywords method.name keywords
  checkCount method.name 1 1 args
  let address ← receiverDict args
  onHeap (·.dict address)

/- Runs a method of dicts. -/
def runDict (method : DictMethod) (args : List Value) (keywords : Keywords Value) :
    Eval Value := do
  match method with
  | .get =>
      let address ← receiverDict args
      let found ← onHeap fun heap => heap.entry? (heap.dict address) (argument args 1)
      return found.getD (argument args 2)
  | .keys => newList ((← onlyDict method args keywords).map (·.1))
  | .values => newList ((← onlyDict method args keywords).map (·.2))
  | .items =>
      let pairs ← (← onlyDict method args keywords).toList.mapM fun (key, value) =>
        newTuple #[key, value]
      newList pairs.toArray

end SnippetGrader.Eval
