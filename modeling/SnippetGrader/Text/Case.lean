import SnippetGrader.Text.Blank
import SnippetGrader.Text.CaseTables

/-
  Upper and lower case of texts.

  A character may become several. The Greek capital sigma has
  two lower forms: one at the end of a word, and one elsewhere.

  Key definitions include:
    * `upperText`
    * `lowerText`
-/

namespace SnippetGrader.Text

/- The character that a run makes of one in it. -/
def CaseRun.image? (run : CaseRun) (code : Nat) : Option Nat :=
  if run.first ≤ code && code ≤ run.last && (code - run.first) % run.stride == 0 then
    some ((code : Int) + run.offset).toNat
  else none

/- What the first run that holds a character makes of it. -/
def applyRuns (runs : List CaseRun) (c : Char) : Char :=
  match runs.findSome? (·.image? c.toNat) with
  | some code => Char.ofNat code
  | none => c

/- A character in upper case. -/
def upperChar (c : Char) : List Char :=
  if c.toNat < 128 then [c.toUpper]
  else
    match upperExpansions.lookup c.toNat with
    | some codes => codes.map Char.ofNat
    | none => [applyRuns upperRuns c]

/- A text in upper case. -/
def upperText (text : String) : String :=
  String.ofList (text.toList.flatMap upperChar)

/- The Greek capital sigma. -/
def capitalSigma : Char := Char.ofNat 0x3A3

/- The lower form of sigma at the end of a word. -/
def finalSigma : Char := Char.ofNat 0x3C2

/- The letter I with a dot, which keeps its dot in lower case. -/
def dottedI : Char := Char.ofNat 0x130

/- A character in lower case, wherever it stands. -/
def lowerChar (c : Char) : List Char :=
  if c.toNat < 128 then [c.toLower]
  else if c = dottedI then ['i', Char.ofNat 0x307]
  else [applyRuns lowerRuns c]

/- Whether the first character that is not skipped has case. -/
def startsCased (chars : List Char) : Bool :=
  match chars.dropWhile fun c => inRanges caseIgnorableRanges c.toNat with
  | c :: _ => inRanges casedRanges c.toNat
  | [] => false

/-
  Characters in lower case, given those before them from the
  last to the first.
-/
def lowerChars : (before : List Char) → List Char → List Char
  | _, [] => []
  | before, c :: rest =>
      let lower :=
        if c = capitalSigma && startsCased before && !startsCased rest then
          [finalSigma]
        else lowerChar c
      lower ++ lowerChars (c :: before) rest

/- A text in lower case. -/
def lowerText (text : String) : String :=
  String.ofList (lowerChars [] text.toList)

end SnippetGrader.Text
