import SnippetGrader.Signature.Binding

/-
  Why an evaluation fails.

  Every error is given by its cause, and its wording is a
  function of the cause. Types of values are given by their
  names.

  Key definitions include:
    * `EvalError`
    * `EvalError.message`
    * `EvalError.isNameError`, `EvalError.isLimit`
-/

namespace SnippetGrader

------------------------------------------------------------
-- Values of the Wrong Type
------------------------------------------------------------

/- A value of a type that an operation does not take. -/
inductive TypeFault where
  | operands (symbol left right : String)
  | unaryOperand (symbol operand : String)
  | incomparable (symbol left right : String)
  | partOfString (item : String)
  | notContainer (container : String)
  | notIterable (value : String)
  | notInheritable (base : String)
  | notSubscriptable (value : String)
  | noItemAssignment (value : String)
  | indexType (container index : String)
  | sliceBound (bound : String)
  | notCallable (value : String)
  | keywordNotString
  | notMapping (value : String)
  | initResult (result : String)
  | takesNoArguments (callee : String)
  | tooFewArguments (callee : String) (least given : Nat)
  | tooManyArguments (callee : String) (most given : Nat)
  | takesNoKeywords (callee : String)
  | unknownKeyword (keyword callee : String)
  | notInteger (what value : String)
  | notReal (value : String)
  | notString (what value : String)
  | noLength (value : String)
  | sumOfStrings
  | absOperand (value : String)
  | notRoundable (value : String)
  | notAType
  | printOption (value : String)
  | baseOfNonString
  | noIntegerValue (value : String)
  | receiver (expected : String)
  | joinedItem (index : Nat) (item : String)
  deriving DecidableEq, Repr, Inhabited

namespace TypeFault

/- The word for a number of arguments. -/
def argumentWord (count : Nat) : String :=
  if count = 1 then "argument" else "arguments"

/- The wording of a fault. -/
def message : TypeFault → String
  | operands symbol left right =>
      "unsupported operand type(s) for " ++ symbol ++ ": '" ++ left ++ "' and '"
        ++ right ++ "'"
  | unaryOperand symbol operand =>
      "bad operand type for unary " ++ symbol ++ ": '" ++ operand ++ "'"
  | incomparable symbol left right =>
      "'" ++ symbol ++ "' not supported between instances of '" ++ left
        ++ "' and '" ++ right ++ "'"
  | partOfString item =>
      "'in <string>' requires string as left operand, not " ++ item
  | notContainer container =>
      "argument of type '" ++ container ++ "' is not iterable"
  | notIterable value => "'" ++ value ++ "' object is not iterable"
  | notInheritable base => "cannot inherit from '" ++ base ++ "'"
  | notSubscriptable value => "'" ++ value ++ "' object is not subscriptable"
  | noItemAssignment value =>
      "'" ++ value ++ "' object does not support item assignment"
  | indexType container index =>
      container ++ " indices must be integers or slices, not " ++ index
  | sliceBound bound =>
      "slice indices must be integers or None, not " ++ bound
  | notCallable value => "'" ++ value ++ "' object is not callable"
  | keywordNotString => "keywords must be strings"
  | notMapping value => "argument after ** must be a mapping, not " ++ value
  | initResult result =>
      "__init__() should return None, not '" ++ result ++ "'"
  | takesNoArguments callee => callee ++ "() takes no arguments"
  | tooFewArguments callee least given =>
      callee ++ " expected at least " ++ toString least ++ " "
        ++ argumentWord least ++ ", got " ++ toString given
  | tooManyArguments callee most given =>
      callee ++ " expected at most " ++ toString most ++ " "
        ++ argumentWord most ++ ", got " ++ toString given
  | takesNoKeywords callee => callee ++ "() takes no keyword arguments"
  | unknownKeyword keyword callee =>
      "'" ++ keyword ++ "' is an invalid keyword argument for " ++ callee ++ "()"
  | notInteger what value =>
      what ++ " must be an integer, not '" ++ value ++ "'"
  | notReal value => "must be real number, not " ++ value
  | notString what value => what ++ " must be str, not " ++ value
  | noLength value => "object of type '" ++ value ++ "' has no len()"
  | sumOfStrings => "sum() can't sum strings [use ''.join(seq) instead]"
  | absOperand value => "bad operand type for abs(): '" ++ value ++ "'"
  | notRoundable value =>
      "type " ++ value ++ " doesn't define __round__ method"
  | notAType =>
      "isinstance() arg 2 must be a type, a tuple of types, or a union"
  | printOption value =>
      "print() argument must be str or None, not " ++ value
  | baseOfNonString => "int() can't convert non-string with explicit base"
  | noIntegerValue value =>
      "int() argument must be a string or a real number, not '" ++ value ++ "'"
  | receiver expected => "descriptor requires a '" ++ expected ++ "' object"
  | joinedItem index item =>
      "sequence item " ++ toString index ++ ": expected str instance, " ++ item
        ++ " found"

end TypeFault

------------------------------------------------------------
-- Values out of Range
------------------------------------------------------------

/- A value of the right type that an operation does not take. -/
inductive ValueFault where
  | negativeShift
  | tooManyToUnpack (expected : Nat)
  | tooFewToUnpack (expected given : Nat)
  | tooFewToUnpackStarred (least given : Nat)
  | zeroSliceStep
  | zeroRangeStep
  | nanToInteger
  | zeroModulus
  | negativeModularExponent
  | emptySequence (callee : String)
  | integerBase
  | integerLiteral (base : Int) (literal : String)
  | floatLiteral (literal : String)
  | entryLength (length : Nat)
  | mathDomain
  | emptySeparator
  | notInList (item : String)
  deriving DecidableEq, Repr, Inhabited

/- The wording of a fault. -/
def ValueFault.message : ValueFault → String
  | negativeShift => "negative shift count"
  | tooManyToUnpack expected =>
      "too many values to unpack (expected " ++ toString expected ++ ")"
  | tooFewToUnpack expected given =>
      "not enough values to unpack (expected " ++ toString expected ++ ", got "
        ++ toString given ++ ")"
  | tooFewToUnpackStarred least given =>
      "not enough values to unpack (expected at least " ++ toString least
        ++ ", got " ++ toString given ++ ")"
  | zeroSliceStep => "slice step cannot be zero"
  | zeroRangeStep => "range() arg 3 must not be zero"
  | nanToInteger => "cannot convert float NaN to integer"
  | zeroModulus => "pow() 3rd argument cannot be 0"
  | negativeModularExponent =>
      "pow() negative exponent with modulus is not supported"
  | emptySequence callee => callee ++ "() arg is an empty sequence"
  | integerBase => "int() base must be >= 2 and <= 36"
  | integerLiteral base literal =>
      "invalid literal for int() with base " ++ toString base ++ ": " ++ literal
  | floatLiteral literal =>
      "could not convert string to float: " ++ literal
  | entryLength length =>
      "dictionary update sequence element has length " ++ toString length
        ++ "; 2 is required"
  | mathDomain => "math domain error"
  | emptySeparator => "empty separator"
  | notInList item => item ++ " is not in list"

/- A division without a result. -/
inductive DivisionFault where
  | quotient
  | integer
  | floatQuotient
  | floatFloor
  | floatRemainder
  | negativePower
  deriving DecidableEq, Repr, Inhabited

/- The wording of a fault. -/
def DivisionFault.message : DivisionFault → String
  | quotient => "division by zero"
  | integer => "integer division or modulo by zero"
  | floatQuotient => "float division by zero"
  | floatFloor => "float floor division by zero"
  | floatRemainder => "float modulo"
  | negativePower => "0.0 cannot be raised to a negative power"

/- A position outside a sequence. -/
inductive IndexFault where
  | read (container : String)
  | assignment
  | popEmpty
  | pop
  deriving DecidableEq, Repr, Inhabited

/- The wording of a fault. -/
def IndexFault.message : IndexFault → String
  | read container => container ++ " index out of range"
  | assignment => "list assignment index out of range"
  | popEmpty => "pop from empty list"
  | pop => "pop index out of range"

/- A result that is too large. -/
inductive OverflowFault where
  | integer
  | sequenceLength
  | floatToInteger
  | mathRange
  deriving DecidableEq, Repr, Inhabited

/- The wording of a fault. -/
def OverflowFault.message : OverflowFault → String
  | integer => "integer result too large"
  | sequenceLength => "sequence is too long"
  | floatToInteger => "cannot convert float infinity to integer"
  | mathRange => "math range error"

------------------------------------------------------------
-- Other Causes
------------------------------------------------------------

/- What an attribute was asked of. -/
inductive AttributeOwner where
  | library (name : String)
  | type (name : String)
  | value (typeName : String)
  deriving DecidableEq, Repr, Inhabited

/- How an owner is named. -/
def AttributeOwner.text : AttributeOwner → String
  | library name => "module '" ++ name ++ "'"
  | type name => "type object '" ++ name ++ "'"
  | value typeName => "'" ++ typeName ++ "' object"

/- Code that can be read and is not run. -/
inductive UnsupportedForm where
  | stringFormatting
  | returnOutsideFunction
  | jumpOutsideLoop
  | assignmentTarget
  | augmentedTarget
  | looseSlice
  | looseStar
  deriving DecidableEq, Repr, Inhabited

/- The wording of a form. -/
def UnsupportedForm.message : UnsupportedForm → String
  | stringFormatting => "'%' string formatting"
  | returnOutsideFunction => "'return' outside function"
  | jumpOutsideLoop => "'break' or 'continue' outside loop"
  | assignmentTarget => "cannot assign to expression"
  | augmentedTarget => "illegal expression for augmented assignment"
  | looseSlice => "slice outside a subscript"
  | looseStar => "starred expression in this position"

------------------------------------------------------------
-- Evaluation Errors
------------------------------------------------------------

/-
  Why an evaluation fails. The last two cases are no answers of
  an evaluation: one says that the items of a sort fit no order,
  so that nothing can be said of the result, and the other that
  an evaluator was given too few steps.
-/
inductive EvalError where
  | unboundName (name : String)
  | type (fault : TypeFault)
  | attribute (owner : AttributeOwner) (name : String)
  | zeroDivision (fault : DivisionFault)
  | index (fault : IndexFault)
  | key (shown : String)
  | value (fault : ValueFault)
  | overflow (fault : OverflowFault)
  | binding (callee : String) (fault : BindError)
  | raised (message : String)
  | assertion (message : String)
  | gasExhausted (limit : Nat)
  | recursionLimit (limit : Nat)
  | comparisonDepth
  | unsupported (form : UnsupportedForm)
  | invalidSource (message : String)
  | contradictoryOrder
  | unfinished
  deriving DecidableEq, Repr, Inhabited

namespace EvalError

/- The wording of an error. -/
def message : EvalError → String
  | unboundName name => "NameError: name '" ++ name ++ "' is not defined"
  | type fault => "TypeError: " ++ fault.message
  | .attribute owner name =>
      "AttributeError: " ++ owner.text ++ " has no attribute '" ++ name ++ "'"
  | zeroDivision fault => "ZeroDivisionError: " ++ fault.message
  | index fault => "IndexError: " ++ fault.message
  | key shown => "KeyError: " ++ shown
  | value fault => "ValueError: " ++ fault.message
  | overflow fault => "OverflowError: " ++ fault.message
  | binding callee fault => "TypeError: " ++ callee ++ "() " ++ fault.message
  | raised message => message
  | assertion message =>
      if message.isEmpty then "AssertionError"
      else "AssertionError: " ++ message
  | gasExhausted limit => "execution stopped after " ++ toString limit ++ " steps"
  | recursionLimit limit =>
      "RecursionError: maximum call depth of " ++ toString limit ++ " exceeded"
  | comparisonDepth =>
      "RecursionError: maximum recursion depth exceeded in comparison"
  | unsupported form => "unsupported: " ++ form.message
  | invalidSource message => "SyntaxError: " ++ message
  | contradictoryOrder => "the items of a sort fit no order"
  | unfinished => "evaluation did not finish"

/- Whether a name was not found. -/
def isNameError : EvalError → Bool
  | unboundName _ => true
  | _ => false

/- Whether an error is no answer of an evaluation. -/
def isBreakdown : EvalError → Bool
  | contradictoryOrder | unfinished => true
  | _ => false

/- Whether an evaluation was stopped for using too much. -/
def isLimit : EvalError → Bool
  | gasExhausted _ | recursionLimit _ => true
  | _ => false

end EvalError

end SnippetGrader
