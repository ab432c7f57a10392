import SnippetGrader.Evaluation.Library.Containers
import SnippetGrader.Evaluation.Library.Conversions
import SnippetGrader.Evaluation.Library.Iteration
import SnippetGrader.Evaluation.Library.Numbers
import SnippetGrader.Evaluation.Library.Strings

/-
  Running the routines.

  Key definitions include:
    * `Eval.runBuiltin`
-/

namespace SnippetGrader.Eval

/- An exception keeps the arguments that it was made with. -/
def initException (args : List Value) (keywords : Keywords Value) : Eval Value := do
  noKeywords "Exception" keywords
  match args with
  | .object address :: rest =>
      let given ← newTuple rest.toArray
      updateHeap (·.setInstanceAttr address "args" given)
      return .none
  | _ => return .none

/- Runs a routine on arguments that fit its signature, if it has one. -/
def runBuiltin
    (call : Caller)
    (routine : Builtin)
    (args : List Value)
    (keywords : Keywords Value) :
    Eval Value := do
  let first := argument args 0
  let second := argument args 1
  let third := argument args 2
  match routine with
  | .len => length first
  | .sum => sum first second
  | .abs => abs first
  | .round => round first second
  | .sorted => sorted call first second third
  | .enumerate => enumerate first second
  | .pow => pow first second third
  | .divmod => divmod first second
  | .repr => return .str (← onHeap (·.repr first))
  | .isinstance => isInstanceOf first second
  | .print => print args keywords
  | .max => extremum call "max" ">" .gt args keywords
  | .min => extremum call "min" "<" .lt args keywords
  | .dict => toDict args keywords
  | .exceptionInit => initException args keywords
  | .math function => runMath function args keywords
  | .strMethod method => runStr method args keywords
  | .listMethod method => runList call method args keywords
  | .dictMethod method => runDict method args keywords
  | .range => noKeywords "range" keywords; range args
  | .zip => noKeywords "zip" keywords; zip args
  | .str => noKeywords "str" keywords; toStr args
  | .int => noKeywords "int" keywords; toInt args
  | .float => noKeywords "float" keywords; toFloat args
  | .bool => noKeywords "bool" keywords; toBool args
  | .list => noKeywords "list" keywords; newList (← itemsOrNone "list" args)
  | .tuple => noKeywords "tuple" keywords; newTuple (← itemsOrNone "tuple" args)
  | .set => noKeywords "set" keywords; newSet (← itemsOrNone "set" args)
  | .type => noKeywords "type" keywords; typeOf args

end SnippetGrader.Eval
