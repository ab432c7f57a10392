/-
  Regions of source text.

  Lines and columns are counted from one, and columns count
  characters. A span that starts on line zero belongs to no
  text: it marks nodes that were made up while binding
  arguments.

  Key definitions include:
    * `Span`
    * `Span.merge`
-/

namespace SnippetGrader

/- A region of source text, both ends included. -/
structure Span where
  startLine : Nat
  startCol : Nat
  endLine : Nat
  endCol : Nat
  deriving DecidableEq, Repr, Inhabited

namespace Span

/- The span of a single position. -/
def point (line col : Nat) : Span :=
  ⟨line, col, line, col⟩

/- The span of a node that appears in no text. -/
def synthetic : Span :=
  ⟨0, 0, 0, 0⟩

/- A span belongs to no text iff it starts on line zero. -/
def isSynthetic (span : Span) : Bool :=
  span.startLine == 0

/- Positions are ordered by line and then by column. -/
def positionLe (line col line' col' : Nat) : Bool :=
  line < line' || (line == line' && col ≤ col')

/-
  The smallest span that covers both spans. A synthetic span
  covers nothing.
-/
def merge (left right : Span) : Span :=
  if left.isSynthetic then right
  else if right.isSynthetic then left
  else
    let leftStarts :=
      positionLe left.startLine left.startCol
        right.startLine right.startCol
    let rightEnds :=
      positionLe left.endLine left.endCol
        right.endLine right.endCol
    { startLine := if leftStarts then left.startLine else right.startLine
      startCol := if leftStarts then left.startCol else right.startCol
      endLine := if rightEnds then right.endLine else left.endLine
      endCol := if rightEnds then right.endCol else left.endCol }

/- A span is shown by the position of its first character. -/
def text (span : Span) : String :=
  toString span.startLine ++ ":" ++ toString span.startCol

/- The order in which two spans start. -/
def startsNoLater (left right : Span) : Bool :=
  positionLe left.startLine left.startCol right.startLine right.startCol

end Span

end SnippetGrader
