import SnippetGrader.Evaluation.Library.Arguments
import SnippetGrader.Text.Blank
import SnippetGrader.Text.Case

/-
  The methods of strings.

  Key definitions include:
    * `Eval.split`, `Eval.join`, `Eval.replace`
    * `Eval.runStr`
-/

namespace SnippetGrader.Eval

/- A new list of strings. -/
def newStringList (parts : List (List Char)) : Eval Value :=
  newList (parts.map fun part => Value.str (String.ofList part)).toArray

/- A text without the given characters at its ends, or without white space. -/
def strip (text : String) (chars : Value) : Eval Value := do
  match chars with
  | .none => return .str (Text.trim text)
  | other =>
      let set := (← asString "strip arg" other).toList
      return .str (String.ofList (Text.trimWhile set.contains text.toList))

/- A limit on a number of parts. A negative one is none. -/
def limit? (n : Int) : Option Nat :=
  if n < 0 then none else some n.toNat

/- The parts of a text between separators, or its words. -/
def split (text : String) (separator most : Value) : Eval Value := do
  let limit := limit? (← asInt "maxsplit" most)
  let chars := text.toList
  match separator with
  | .none => newStringList (Text.words Text.isBlank limit chars)
  | other =>
      let mark := (← asString "sep" other).toList
      if mark.isEmpty then valueFault .emptySeparator
      else
        newStringList (Text.pieces mark (limit.getD (Text.everywhere chars)) chars)

/- The texts of items that must all be strings. -/
def joinedTexts (index : Nat) : List Value → Eval (List String)
  | [] => return []
  | .str text :: rest => do return text :: (← joinedTexts (index + 1) rest)
  | other :: _ => do typeFault (.joinedItem index (← typeName other))

/- The items of an iterable with a text between them. -/
def join (separator : String) (items : Value) : Eval Value := do
  let texts ← joinedTexts 0 (← iterate items).toList
  checkLength
    (separator.utf8ByteSize * (texts.length - 1)
      + texts.foldl (fun size text => size + text.utf8ByteSize) 0)
  return .str (separator.intercalate texts)

/- A text with occurrences of a part replaced. -/
def replace (text : String) (old new count : Value) : Eval Value := do
  let old ← asString "replace() argument 1" old
  let new ← asString "replace() argument 2" new
  let count ← asInt "count" count
  let chars := text.toList
  let limit := (limit? count).getD (Text.everywhere chars)
  let found := Text.countUpTo limit old.toList chars
  checkLength (text.utf8ByteSize + found * new.utf8ByteSize)
  return .str (String.ofList (Text.replace limit old.toList new.toList chars))

/- Whether one of several candidates passes a test, asked in order. -/
def anyCandidate (what : String) (test : String → Bool) : List Value → Eval Value
  | [] => return .bool false
  | candidate :: rest => do
      if test (← asString what candidate) then return .bool true
      else anyCandidate what test rest

/- Whether a text starts or ends with a candidate or with one of a tuple. -/
def affix
    (method : StrMethod)
    (test : List Char → List Char → Bool)
    (args : List Value)
    (keywords : Keywords Value) :
    Eval Value := do
  noKeywords method.name keywords
  checkCount method.name 2 2 args
  let text ← receiverString args
  let candidates ←
    match argument args 1 with
    | .tuple address => onHeap fun heap => (heap.tuple address).toList
    | other => pure [other]
  anyCandidate (method.name ++ " first arg")
    (fun part => test part.toList text.toList) candidates

/- Runs a method of strings. -/
def runStr (method : StrMethod) (args : List Value) (keywords : Keywords Value) :
    Eval Value := do
  match method with
  | .upper => return .str (Text.upperText (← receiverString args))
  | .lower => return .str (Text.lowerText (← receiverString args))
  | .strip => strip (← receiverString args) (argument args 1)
  | .split => split (← receiverString args) (argument args 1) (argument args 2)
  | .join => join (← receiverString args) (argument args 1)
  | .replace =>
      replace (← receiverString args) (argument args 1) (argument args 2)
        (argument args 3)
  | .startsWith => affix method List.isPrefixOf args keywords
  | .endsWith => affix method List.isSuffixOf args keywords

end SnippetGrader.Eval
