import SnippetGrader.Text.Blank
import SnippetGrader.Text.HiddenTables

/-
  Text in which every character can be seen.

  A character that shows no glyph of its own is spelled out by
  its code point.

  Key definitions include:
    * `Text.isHidden`
    * `Text.spelledOut`
-/

namespace SnippetGrader.Text

/- Whether a character shows no glyph of its own. -/
def isHidden (c : Char) : Bool :=
  inRanges hiddenRanges c.toNat

/- The characters that spell out one character. -/
def spelled (c : Char) : List Char :=
  if c = '"' then ['\\', '"']
  else if c = '\\' then ['\\', '\\']
  else if c = '\n' then ['\\', 'n']
  else if c = '\r' then ['\\', 'r']
  else if c = '\t' then ['\\', 't']
  else if c.toNat = 0 then ['\\', '0']
  else if isHidden c then
    ['\\', 'u', '\x7b'] ++ Nat.toDigits 16 c.toNat ++ ['\x7d']
  else [c]

/-
  A text between double marks, in which every hidden character
  is given by its code point.
-/
def spelledOut (text : String) : String :=
  String.ofList ('"' :: text.toList.flatMap spelled ++ ['"'])

end SnippetGrader.Text
