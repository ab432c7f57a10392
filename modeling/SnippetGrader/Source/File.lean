import SnippetGrader.Text.Blank

/-
  Named source texts and their lines.

  Key definitions include:
    * `SourceFile`
    * `SourceFile.line?`
-/

namespace SnippetGrader

/- A text together with the name it is reported under. -/
structure SourceFile where
  name : String
  text : String
  deriving DecidableEq, Repr, Inhabited

/-
  The lines of a text, without the line feeds between them.
  There is one line more than there are line feeds.
-/
def splitLines : List Char → List (List Char)
  | [] => [[]]
  | c :: rest =>
      if c = '\n' then [] :: splitLines rest
      else
        match splitLines rest with
        | [] => [[c]]
        | line :: lines => (c :: line) :: lines

namespace SourceFile

/- The lines of a file, each with its line ending removed. -/
def lines (file : SourceFile) : List String :=
  (splitLines file.text.toList).map fun line =>
    String.ofList (Text.dropEndWhile (· == '\r') line)

/- The line with the given number, counted from one. -/
def line? (file : SourceFile) : Nat → Option String
  | 0 => none
  | number + 1 => file.lines[number]?

/- The number of lines, at least one. -/
def lineCount (file : SourceFile) : Nat :=
  (splitLines file.text.toList).length

/- Whether a file holds nothing but white space. -/
def isBlank (file : SourceFile) : Bool :=
  Text.isBlankText file.text

end SourceFile

end SnippetGrader
