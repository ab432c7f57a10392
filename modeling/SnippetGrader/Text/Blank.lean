/-
  White space and trimming.

  A character is blank iff it has the Unicode property
  `White_Space`, which holds of twenty-five code points.

  Key definitions include:
    * `Text.isBlank`
    * `Text.trim`
-/

namespace SnippetGrader.Text

/- The ranges of code points with the property `White_Space`. -/
def blankRanges : List (Nat × Nat) :=
  [(0x09, 0x0D), (0x20, 0x20), (0x85, 0x85), (0xA0, 0xA0),
   (0x1680, 0x1680), (0x2000, 0x200A), (0x2028, 0x2029),
   (0x202F, 0x202F), (0x205F, 0x205F), (0x3000, 0x3000)]

/- Membership of a code point in a list of closed ranges. -/
def inRanges (ranges : List (Nat × Nat)) (code : Nat) : Bool :=
  ranges.any fun range => range.1 ≤ code && code ≤ range.2

/- Whether a character is white space. -/
def isBlank (c : Char) : Bool :=
  inRanges blankRanges c.toNat

/- Removes the characters that satisfy `drop` from the end. -/
def dropEndWhile (drop : Char → Bool) (chars : List Char) : List Char :=
  (chars.reverse.dropWhile drop).reverse

/- Removes the characters that satisfy `drop` from both ends. -/
def trimWhile (drop : Char → Bool) (chars : List Char) : List Char :=
  dropEndWhile drop (chars.dropWhile drop)

/- Removes white space from both ends. -/
def trim (text : String) : String :=
  String.ofList (trimWhile isBlank text.toList)

/- A text is blank iff it holds nothing but white space. -/
def isBlankText (text : String) : Bool :=
  text.toList.all isBlank

example : (blankRanges.map fun range => range.2 - range.1 + 1).sum = 25 := by
  decide

end SnippetGrader.Text
