import SnippetGrader.Evaluation.Library.Sorting

/-
  Routines that go through items, and printing.

  Key definitions include:
    * `rangeLength`, `rangeItem`, `Eval.range`
    * `Eval.extremum`
    * `Eval.print`
-/

namespace SnippetGrader

/-
  The number of steps from a start before a stop is reached. It
  is counted in wide words: the distance is rounded up to whole
  steps by a division that truncates.
-/
def rangeLength (start stop step : Int) : Nat :=
  let distance := Number.wrapWide (stop - start)
  if (0 < step && 0 < distance) || (step < 0 && distance < 0) then
    let raised := Number.wrapWide (Number.wrapWide (distance + step) - step.sign)
    (raised.tdiv step).toNat
  else 0

/- The integer a number of steps from a start, counted in wide words and made a word. -/
def rangeItem (start step : Int) (index : Nat) : Int :=
  Number.wrapWord (Number.wrapWide (start + Number.wrapWide (index * step)))

/- The rows of columns, as many as the shortest column has. -/
def rows (columns : List (Array Value)) : List (Array Value) :=
  match (columns.map (·.size)).min? with
  | none => []
  | some count =>
      (List.range count).map fun row =>
        (columns.filterMap fun column => column[row]?).toArray

namespace Eval

/- The number of items of a value. -/
def length (value : Value) : Eval Value := do
  match value with
  | .str text => return .int text.length
  | .list address => onHeap fun heap => .int (heap.list address).size
  | .set address => onHeap fun heap => .int (heap.set address).size
  | .tuple address => onHeap fun heap => .int (heap.tuple address).size
  | .dict address => onHeap fun heap => .int (heap.dict address).size
  | other => typeFault (.noLength (← typeName other))

/- The sum of items and a start. -/
def sum (items start : Value) : Eval Value := do
  match start with
  | .str _ => typeFault .sumOfStrings
  | _ => (← iterate items).toList.foldlM (binary .add) start

/- A sorted list of items. -/
def sorted (call : Caller) (items key reverse : Value) : Eval Value := do
  let items ← iterate items
  let reverse ← isTruthy reverse
  newList (← sortValues call items key reverse)

/- Pairs of a number and an item, for items from a number on. -/
def numbered (number : Int) (pairs : Array Value) : List Value → Eval (Array Value)
  | [] => return pairs
  | item :: rest => do
      let index ← ofExcept (Arithmetic.fit number)
      let pair ← newTuple #[index, item]
      numbered (number + 1) (pairs.push pair) rest

/- A list of items with their numbers. -/
def enumerate (items start : Value) : Eval Value := do
  let first ← asInt "start" start
  newList (← numbered first #[] (← iterate items).toList)

/- A list of rows of several iterables. -/
def zip (args : List Value) : Eval Value := do
  let columns ← args.mapM iterate
  newList (← (rows columns).mapM newTuple).toArray

/- A list of numbers by a step. Each number costs gas. -/
def range (args : List Value) : Eval Value := do
  checkCount "range" 1 3 args
  let (start, stop, step) ←
    match ← args.mapM (asInt "range() argument") with
    | [stop] => pure (0, stop, 1)
    | [start, stop] => pure (start, stop, 1)
    | start :: stop :: step :: _ => pure (start, stop, step)
    | [] => pure (0, 0, 1)
  if step == 0 then valueFault .zeroRangeStep
  else
    let count := rangeLength start stop step
    charge (min count maxGas)
    newList
      ((List.range count).map fun index => Value.int (rangeItem start step index)).toArray

/- What is printed between or after texts: a string, or the usual. -/
def printOption (usual : String) : Option Value → Eval String
  | none | some .none => return usual
  | some (.str text) => return text
  | some other => do typeFault (.printOption (← typeName other))

/- Prints values on a line. -/
def print (args : List Value) (keywords : Keywords Value) : Eval Value := do
  let (separator, keywords) := takeKeyword keywords "sep"
  let separator ← printOption " " separator
  let (ending, keywords) := takeKeyword keywords "end"
  let ending ← printOption "\n" ending
  noOtherKeywords "print" keywords
  let texts ← args.mapM fun value => onHeap (·.display value)
  write (separator.intercalate texts)
  write ending
  return .none

/- The first item whose key is best. -/
def best
    (call : Caller)
    (symbol : String)
    (wanted : Ordering)
    (key : Value)
    (soFar : Option Keyed) :
    List Value → Eval (Option Keyed)
  | [] => return soFar
  | item :: rest => do
      let new ← keyed call key item
      match soFar with
      | none => best call symbol wanted key (some new) rest
      | some old =>
          let isBetter := (← order symbol new.key old.key) == wanted
          best call symbol wanted key (if isBetter then some new else soFar) rest

/-
  The greatest or least of items, or of the arguments if there
  are several.
-/
def extremum
    (call : Caller)
    (callee symbol : String)
    (wanted : Ordering)
    (args : List Value)
    (keywords : Keywords Value) :
    Eval Value := do
  let (key, keywords) := takeKeyword keywords "key"
  let (default, keywords) := takeKeyword keywords "default"
  noOtherKeywords callee keywords
  let items ←
    match args with
    | [] => typeFault (.tooFewArguments callee 1 0)
    | [value] => pure (← iterate value).toList
    | several => pure several
  match ← best call symbol wanted (key.getD .none) none items, default with
  | some found, _ => return found.item
  | none, some value => return value
  | none, none => valueFault (.emptySequence callee)

end Eval

end SnippetGrader
