import SnippetGrader.Evaluation.Arithmetic
import SnippetGrader.Evaluation.Interpreter
import SnippetGrader.Text.Search

/-
  Operators on values.

  Numbers are added and multiplied, and so are strings and
  sequences, up to a greatest length.

  Key definitions include:
    * `Eval.binary`, `Eval.unary`
    * `Eval.compareBy`
    * `Eval.contains`
-/

namespace SnippetGrader

/- The greatest length of a string in bytes, and of a sequence in items. -/
def maxSequenceLength : Nat := 1048576

/- A text repeated. -/
def repeated (text : String) (count : Nat) : String :=
  String.join (List.replicate count text)

/- Items repeated. -/
def repeatedItems (items : Array Value) (count : Nat) : Array Value :=
  if items.isEmpty then #[]
  else (List.replicate count items).foldl (· ++ ·) #[]

namespace Eval

/- Fails if a string or a sequence would be too long. -/
def checkLength (length : Nat) : Eval Unit :=
  if length > maxSequenceLength then throw (.overflow .sequenceLength)
  else pure ()

------------------------------------------------------------
-- Binary and Unary Operators
------------------------------------------------------------

/- A string repeated. A negative count gives the empty string. -/
def repeatString (text : String) (count : Int) : Eval Value := do
  checkLength (text.utf8ByteSize * count.toNat)
  return .str (if text.isEmpty then "" else repeated text count.toNat)

/- The items of a sequence repeated. -/
def repeatSequence (items : Array Value) (count : Int) : Eval (Array Value) := do
  checkLength (items.size * count.toNat)
  return repeatedItems items count.toNat

/- The items of two sequences after each other. -/
def joinSequences (left right : Array Value) : Eval (Array Value) := do
  checkLength (left.size + right.size)
  return left ++ right

/- An operation on two numbers, or a report that there is none. -/
def onNumbers (op : BinaryOp) (left right : Value) : Eval Value := do
  let leftType ← typeName left
  let rightType ← typeName right
  match Numeral.of? left, Numeral.of? right with
  | some a, some b => ofExcept (Arithmetic.onNumerals op a b leftType rightType)
  | _, _ => typeFault (.operands op.symbol leftType rightType)

/- The value of a binary operator. -/
def binary (op : BinaryOp) (left right : Value) : Eval Value := do
  match op, left, right with
  | .add, .str a, .str b =>
      checkLength (a.utf8ByteSize + b.utf8ByteSize)
      return .str (a ++ b)
  | .add, .list a, .list b =>
      newList (← joinSequences (← onHeap (·.list a)) (← onHeap (·.list b)))
  | .add, .tuple a, .tuple b =>
      newTuple (← joinSequences (← onHeap (·.tuple a)) (← onHeap (·.tuple b)))
  | .mul, .str text, .int count => repeatString text count
  | .mul, .int count, .str text => repeatString text count
  | .mul, .list a, .int count =>
      newList (← repeatSequence (← onHeap (·.list a)) count)
  | .mul, .int count, .list a =>
      newList (← repeatSequence (← onHeap (·.list a)) count)
  | .mul, .tuple a, .int count =>
      newTuple (← repeatSequence (← onHeap (·.tuple a)) count)
  | .mul, .int count, .tuple a =>
      newTuple (← repeatSequence (← onHeap (·.tuple a)) count)
  | .mod, .str _, _ => throw (.unsupported .stringFormatting)
  | _, _, _ => onNumbers op left right

/- The value of a unary operator. -/
def unary (op : UnaryOp) (operand : Value) : Eval Value := do
  if op == .not then return .bool (!(← isTruthy operand))
  match (Numeral.of? operand).bind (Arithmetic.onNumeral? op) with
  | some result => ofExcept result
  | none => typeFault (.unaryOperand op.symbol (← typeName operand))

------------------------------------------------------------
-- Comparison
------------------------------------------------------------

/- Whether a container holds an item, or a string a part. -/
def contains (container item : Value) : Eval Bool := do
  match container, item with
  | .str text, .str part =>
      return Text.contains part.toList text.toList
  | .str _, other => typeFault (.partOfString (← typeName other))
  | .list address, _ =>
      onHeap fun heap => (heap.list address).any (heap.equal · item)
  | .set address, _ =>
      onHeap fun heap => (heap.set address).any (heap.equal · item)
  | .tuple address, _ =>
      onHeap fun heap => (heap.tuple address).any (heap.equal · item)
  | .dict address, _ =>
      onHeap fun heap => (heap.dict address).any fun entry => heap.equal entry.1 item
  | other, _ => typeFault (.notContainer (← typeName other))

/- The order of two values. -/
def order (symbol : String) (left right : Value) : Eval Ordering := do
  ofExcept (← onHeap (·.order symbol left right))

/-
  Whether two values are ordered as expected. A number and one
  that is not a number have no order.
-/
def ordered
    (symbol : String)
    (expected : Ordering → Bool)
    (left right : Value) :
    Eval Bool := do
  match Numeral.of? left, Numeral.of? right with
  | some a, some b => return (a.order? b).any expected
  | _, _ => return expected (← order symbol left right)

/- Whether a comparison holds. -/
def compareBy (op : CompareOp) (left right : Value) : Eval Bool := do
  match op with
  | .eq => onHeap (·.equal left right)
  | .notEq => return !(← onHeap (·.equal left right))
  | .same => return left.isIdentical right
  | .notSame => return !left.isIdentical right
  | .member => contains right left
  | .notMember => return !(← contains right left)
  | .less => ordered op.symbol (·.isLT) left right
  | .lessEq => ordered op.symbol (·.isLE) left right
  | .greater => ordered op.symbol (·.isGT) left right
  | .greaterEq => ordered op.symbol (·.isGE) left right

end Eval

end SnippetGrader
