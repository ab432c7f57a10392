/-
  Quoted forms of text.

  A quoted text stands between two marks. Inside it a backslash
  introduces an escape: the backslash itself, the mark, and the
  three control characters with an escape of their own.

  Key definitions include:
    * `Text.quotedWith`
    * `Text.quoted`, `Text.doubleQuoted`
-/

namespace SnippetGrader.Text

/- The characters written for one character between marks. -/
def escaped (mark c : Char) : List Char :=
  if c = '\\' then ['\\', '\\']
  else if c = '\n' then ['\\', 'n']
  else if c = '\t' then ['\\', 't']
  else if c = '\r' then ['\\', 'r']
  else if c = mark then ['\\', mark]
  else [c]

/- A text between two marks. -/
def quotedWith (mark : Char) (text : String) : String :=
  String.ofList (mark :: text.toList.flatMap (escaped mark) ++ [mark])

/- Quoted with double marks, as literals are shown in messages. -/
def doubleQuoted (text : String) : String :=
  quotedWith '"' text

/-
  Quoted as a value is shown: single marks, unless the text
  holds a single mark and no double one.
-/
def quoted (text : String) : String :=
  let chars := text.toList
  if chars.contains '\'' && !chars.contains '"' then
    quotedWith '"' text
  else
    quotedWith '\'' text

end SnippetGrader.Text
