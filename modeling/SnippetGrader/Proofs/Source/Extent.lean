import Mathlib
import SnippetGrader.Source.Span

/-
  Where spans start and end.

  Positions are ordered by their lines, and on one line by their
  columns. A span covers another one that starts no earlier and
  ends no later.

  Key definitions include:
    * `Span.first`, `Span.last`
    * `Span.Covers`, `Span.Precedes`

  Key theorems include:
    * `Span.merge_eq`
-/

namespace SnippetGrader

namespace Span

------------------------------------------------------------
-- Ends of Spans
------------------------------------------------------------

/- The position of the first character of a span. -/
def first (span : Span) : ℕ ×ₗ ℕ :=
  toLex (span.startLine, span.startCol)

/- The position of the last character of a span. -/
def last (span : Span) : ℕ ×ₗ ℕ :=
  toLex (span.endLine, span.endCol)

/- A span that reaches at least from the start of another to its end. -/
structure Covers (outer inner : Span) : Prop where
  first : outer.first ≤ inner.first
  last : inner.last ≤ outer.last

/- A span that starts before another, and ends no later than it starts. -/
structure Precedes (span other : Span) : Prop where
  first : span.first < other.first
  last : span.last ≤ other.first

theorem Covers.refl
    (span : Span) :
    span.Covers span :=
  ⟨le_rfl, le_rfl⟩

theorem Covers.trans
    {outer middle inner : Span}
    (hOuter : outer.Covers middle)
    (hInner : middle.Covers inner) :
    outer.Covers inner :=
  ⟨hOuter.first.trans hInner.first, hInner.last.trans hOuter.last⟩

------------------------------------------------------------
-- Merged Spans
------------------------------------------------------------

theorem positionLe_iff
    {line col line' col' : Nat} :
    positionLe line col line' col' = true ↔
      toLex (line, col) ≤ toLex (line', col') := by
  rw [Prod.Lex.toLex_le_toLex, positionLe, Bool.or_eq_true,
    Bool.and_eq_true, decide_eq_true_eq, decide_eq_true_eq, beq_iff_eq]

/-
  Two spans of which neither starts or ends before the other one
  merge into the span from the start of the first to the end of
  the second.
-/
theorem merge_eq
    {left right : Span}
    (hLeft : left.isSynthetic = false)
    (hRight : right.isSynthetic = false)
    (hFirst : left.first ≤ right.first)
    (hLast : left.last ≤ right.last) :
    left.merge right =
      ⟨left.startLine, left.startCol, right.endLine, right.endCol⟩ := by
  have hStarts :
      positionLe left.startLine left.startCol right.startLine
        right.startCol = true :=
    positionLe_iff.mpr hFirst
  have hEnds :
      positionLe left.endLine left.endCol right.endLine
        right.endCol = true :=
    positionLe_iff.mpr hLast
  simp only [merge, hLeft, hRight, hStarts, hEnds, if_true,
    Bool.false_eq_true, if_false]

end Span

end SnippetGrader
