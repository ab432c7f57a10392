import SnippetGrader.Source.Span

/-
  A place in the bytes of a text.

  Key definitions include:
    * `Position`, `Position.after`
    * `Scanner`
-/

namespace SnippetGrader

------------------------------------------------------------
-- Positions
------------------------------------------------------------

/- A line and a column, both counted from one. -/
structure Position where
  line : Nat := 1
  col : Nat := 1
  deriving DecidableEq, Repr, Inhabited

namespace Position

/-
  The position after a byte. A line feed starts a new line, and
  a byte that continues a character keeps its column.
-/
def after (position : Position) (b : UInt8) : Position :=
  if b == 10 then ⟨position.line + 1, 1⟩
  else if b &&& 0xC0 == 0x80 then position
  else ⟨position.line, position.col + 1⟩

/- The position after several bytes. -/
def afterAll (position : Position) (bytes : List UInt8) : Position :=
  bytes.foldl after position

/- The span of a single position. -/
def point (position : Position) : Span :=
  .point position.line position.col

/- The span from a first position up to the character before a second one. -/
def spanTo (first last : Position) : Span :=
  ⟨first.line, first.col, last.line, max (last.col - 1) 1⟩

end Position

------------------------------------------------------------
-- Scanners
------------------------------------------------------------

/- The bytes still to be read, and the position of the first of them. -/
structure Scanner where
  rest : List UInt8
  position : Position := {}
  deriving DecidableEq, Repr, Inhabited

namespace Scanner

/- The next byte. -/
def peek? (scanner : Scanner) : Option UInt8 :=
  scanner.rest.head?

/- Reads a number of bytes. -/
def skip (scanner : Scanner) (count : Nat) : Scanner :=
  { rest := scanner.rest.drop count
    position := scanner.position.afterAll (scanner.rest.take count) }

/- Reads bytes as long as they satisfy a test. -/
def skipWhile (scanner : Scanner) (test : UInt8 → Bool) : Scanner :=
  { rest := scanner.rest.dropWhile test
    position := scanner.position.afterAll (scanner.rest.takeWhile test) }

/- Reads up to a suffix of the bytes still to be read. -/
def skipTo (scanner : Scanner) (suffix : List UInt8) : Scanner :=
  scanner.skip (scanner.rest.length - suffix.length)

/- The bytes between two scanners, the second of which has read further. -/
def read (first last : Scanner) : List UInt8 :=
  first.rest.take (first.rest.length - last.rest.length)

/- Reads a byte if it is the next one. -/
def eat? (scanner : Scanner) (b : UInt8) : Option Scanner :=
  if scanner.peek? == some b then some (scanner.skip 1) else none

end Scanner

end SnippetGrader
