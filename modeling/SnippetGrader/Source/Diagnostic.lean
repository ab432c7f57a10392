import SnippetGrader.Source.File
import SnippetGrader.Source.Span

/-
  Faults found while reading a text, and capped lists of them.

  A list stores its first twenty faults and only counts the
  rest, so that a broken text yields a report of bounded size.

  Key definitions include:
    * `ErrorCode`, `ErrorCategory`
    * `Diagnostic`
    * `Diagnostics`
-/

namespace SnippetGrader

------------------------------------------------------------
-- Codes and Categories
------------------------------------------------------------

/- The four families of faults. -/
inductive ErrorCategory where
  | lexical
  | grammar
  | indentation
  | limit
  deriving DecidableEq, Repr, Inhabited

/- The name of a family in reports. -/
def ErrorCategory.text : ErrorCategory → String
  | .lexical => "lexical"
  | .grammar => "syntax"
  | .indentation => "indentation"
  | .limit => "limit"

/- The family with a given name. -/
def ErrorCategory.ofText? (text : String) : Option ErrorCategory :=
  [lexical, grammar, indentation, limit].find? fun category =>
    category.text == text

/- A numbered kind of fault. The hundreds give its family. -/
structure ErrorCode where
  number : Nat
  deriving DecidableEq, Repr, Inhabited

namespace ErrorCode

def unexpectedCharacter : ErrorCode := ⟨100⟩
def unterminatedString : ErrorCode := ⟨101⟩
def invalidNumber : ErrorCode := ⟨102⟩

def unexpectedToken : ErrorCode := ⟨200⟩
def unclosedBracket : ErrorCode := ⟨201⟩
def repeatedKeyword : ErrorCode := ⟨202⟩
def invalidTarget : ErrorCode := ⟨203⟩
def unsupportedForm : ErrorCode := ⟨204⟩
def positionalAfterKeyword : ErrorCode := ⟨205⟩
def invalidParameters : ErrorCode := ⟨206⟩

def unexpectedIndent : ErrorCode := ⟨300⟩
def expectedIndent : ErrorCode := ⟨301⟩
def inconsistentDedent : ErrorCode := ⟨302⟩

def nestingLimit : ErrorCode := ⟨400⟩

/- The family of a code. Codes outside every range are grammatical. -/
def category (code : ErrorCode) : ErrorCategory :=
  match code.number / 100 with
  | 1 => .lexical
  | 3 => .indentation
  | 4 => .limit
  | _ => .grammar

/- A code is shown as the letter E and its number. -/
def text (code : ErrorCode) : String :=
  "E" ++ toString code.number

end ErrorCode

------------------------------------------------------------
-- Diagnostics
------------------------------------------------------------

/-
  One fault: what it is, where it is, and the line it is on.
  The subject is the name that the fault is about, if any.
-/
structure Diagnostic where
  file : String
  code : ErrorCode
  category : ErrorCategory
  message : String
  span : Span
  sourceLine : String
  subject : Option String := none
  deriving DecidableEq, Repr, Inhabited

namespace Diagnostic

/- The fault with a given code at a span of a file. -/
def make
    (file : SourceFile)
    (code : ErrorCode)
    (message : String)
    (span : Span) :
    Diagnostic :=
  { file := file.name
    code := code
    category := code.category
    message := message
    span := span
    sourceLine := (file.line? span.startLine).getD "" }

/- The line that a fault starts on. -/
def line (fault : Diagnostic) : Nat :=
  fault.span.startLine

/- The one-line form of a fault. -/
def text (fault : Diagnostic) : String :=
  fault.span.text ++ ": " ++ fault.code.text ++ " ["
    ++ fault.category.text ++ "] " ++ fault.message

/- Faults are ordered by where they start. -/
def startsNoLater (left right : Diagnostic) : Bool :=
  left.span.startsNoLater right.span

end Diagnostic

------------------------------------------------------------
-- Capped Lists
------------------------------------------------------------

/- The number of faults that a list stores. -/
def maxErrors : Nat := 20

/- The first faults of a run, and the number of all of them. -/
structure Diagnostics where
  stored : List Diagnostic := []
  total : Nat := 0
  deriving DecidableEq, Repr, Inhabited

namespace Diagnostics

/- The list without faults. -/
def empty : Diagnostics := {}

/- Whether any fault was found. -/
def hasErrors (faults : Diagnostics) : Bool :=
  faults.total > 0

/- Whether as many faults were found as are stored. -/
def isFull (faults : Diagnostics) : Bool :=
  faults.total ≥ maxErrors

/- Adds a fault at the end, storing it only below the cap. -/
def push (faults : Diagnostics) (fault : Diagnostic) : Diagnostics :=
  { stored :=
      if faults.stored.length < maxErrors then
        faults.stored ++ [fault]
      else
        faults.stored
    total := faults.total + 1 }

/- Adds all faults of a second list, counting those it no longer stores. -/
def append (faults others : Diagnostics) : Diagnostics :=
  let joined := others.stored.foldl push faults
  { joined with
    total := joined.total + (others.total - others.stored.length) }

/- The fault that starts first; of several, the one found first. -/
def first? (faults : Diagnostics) : Option Diagnostic :=
  faults.stored.foldl
    (fun best fault =>
      match best with
      | none => some fault
      | some earliest =>
          if earliest.startsNoLater fault then some earliest
          else some fault)
    none

/- The stored faults in the order in which they start. -/
def sorted (faults : Diagnostics) : Diagnostics :=
  { faults with
    stored := faults.stored.mergeSort Diagnostic.startsNoLater }

end Diagnostics

end SnippetGrader
