import SnippetGrader.Number.Notation
import SnippetGrader.Source.Span

/-
  Tokens.

  Reserved words that no statement uses are tokens of their own,
  so that they can never serve as names.

  Key definitions include:
    * `Keyword`, `Mark`
    * `TokenKind`, `Token`
    * `TokenKind.ofWord?`
-/

namespace SnippetGrader

------------------------------------------------------------
-- Keywords
------------------------------------------------------------

/- The words with a meaning in the grammar. -/
inductive Keyword where
  | falseWord
  | noneWord
  | trueWord
  | andWord
  | asWord
  | assertWord
  | breakWord
  | classWord
  | continueWord
  | defWord
  | elifWord
  | elseWord
  | forWord
  | fromWord
  | ifWord
  | importWord
  | inWord
  | isWord
  | lambdaWord
  | notWord
  | orWord
  | passWord
  | raiseWord
  | returnWord
  | whileWord
  deriving DecidableEq, Repr, Inhabited

namespace Keyword

/- All keywords, in alphabetical order. -/
def all : List Keyword :=
  [falseWord, noneWord, trueWord, andWord, asWord, assertWord,
   breakWord, classWord, continueWord, defWord, elifWord, elseWord,
   forWord, fromWord, ifWord, importWord, inWord, isWord,
   lambdaWord, notWord, orWord, passWord, raiseWord, returnWord,
   whileWord]

/- The spelling of a keyword. -/
def text : Keyword → String
  | falseWord => "False"
  | noneWord => "None"
  | trueWord => "True"
  | andWord => "and"
  | asWord => "as"
  | assertWord => "assert"
  | breakWord => "break"
  | classWord => "class"
  | continueWord => "continue"
  | defWord => "def"
  | elifWord => "elif"
  | elseWord => "else"
  | forWord => "for"
  | fromWord => "from"
  | ifWord => "if"
  | importWord => "import"
  | inWord => "in"
  | isWord => "is"
  | lambdaWord => "lambda"
  | notWord => "not"
  | orWord => "or"
  | passWord => "pass"
  | raiseWord => "raise"
  | returnWord => "return"
  | whileWord => "while"

/- The keyword with a given spelling. -/
def ofText? (text : String) : Option Keyword :=
  all.find? fun keyword => keyword.text == text

end Keyword

/- The reserved words that no statement uses. -/
def reservedWords : List String :=
  ["async", "await", "del", "except", "finally", "global", "nonlocal", "try",
   "with", "yield"]

------------------------------------------------------------
-- Marks
------------------------------------------------------------

/- Operators and punctuation. -/
inductive Mark where
  | plus
  | minus
  | star
  | doubleStar
  | slash
  | doubleSlash
  | percent
  | atSign
  | shiftLeft
  | shiftRight
  | ampersand
  | pipe
  | caret
  | tilde
  | less
  | greater
  | lessEq
  | greaterEq
  | equal
  | notEqual
  | assign
  | plusAssign
  | minusAssign
  | starAssign
  | slashAssign
  | doubleSlashAssign
  | percentAssign
  | doubleStarAssign
  | arrow
  | openParen
  | closeParen
  | openBracket
  | closeBracket
  | openBrace
  | closeBrace
  | comma
  | colon
  | dot
  | semicolon
  deriving DecidableEq, Repr, Inhabited

/- The spelling of a mark. -/
def Mark.text : Mark → String
  | plus => "+"
  | minus => "-"
  | star => "*"
  | doubleStar => "**"
  | slash => "/"
  | doubleSlash => "//"
  | percent => "%"
  | atSign => "@"
  | shiftLeft => "<<"
  | shiftRight => ">>"
  | ampersand => "&"
  | pipe => "|"
  | caret => "^"
  | tilde => "~"
  | less => "<"
  | greater => ">"
  | lessEq => "<="
  | greaterEq => ">="
  | equal => "=="
  | notEqual => "!="
  | assign => "="
  | plusAssign => "+="
  | minusAssign => "-="
  | starAssign => "*="
  | slashAssign => "/="
  | doubleSlashAssign => "//="
  | percentAssign => "%="
  | doubleStarAssign => "**="
  | arrow => "->"
  | openParen => "("
  | closeParen => ")"
  | openBracket => "["
  | closeBracket => "]"
  | openBrace => "\x7b"
  | closeBrace => "\x7d"
  | comma => ","
  | colon => ":"
  | dot => "."
  | semicolon => ";"

------------------------------------------------------------
-- Tokens
------------------------------------------------------------

/-
  What a token is. The text of a string has its escapes decoded
  and its letters before the quote dropped.
-/
inductive TokenKind where
  | int (value : Int)
  | float (value : Float)
  | str (value : String)
  | name (id : String)
  | keyword (word : Keyword)
  | reserved (word : String)
  | mark (mark : Mark)
  | newline
  | indent
  | dedent
  | endOfFile
  deriving BEq, Repr, Inhabited

namespace TokenKind

/- The token that a word stands for, unless it is a name. -/
def ofWord? (word : String) : Option TokenKind :=
  match Keyword.ofText? word with
  | some found => some (.keyword found)
  | none =>
      if reservedWords.contains word then some (.reserved word) else none

/- How a token is shown in a report. -/
def text : TokenKind → String
  | .int value => toString value
  | .float value => Number.literalText value
  | .str value => "\"" ++ value ++ "\""
  | .name id => id
  | .keyword word => word.text
  | .reserved word => word
  | .mark symbol => symbol.text
  | .newline => "newline"
  | .indent => "indent"
  | .dedent => "dedent"
  | .endOfFile => "end of file"

/- Whether a token is shown as one of the reserved words. -/
def looksReserved (kind : TokenKind) : Bool :=
  (Keyword.all.map Keyword.text ++ reservedWords).contains kind.text

end TokenKind

/- A token and where it stands. -/
structure Token where
  kind : TokenKind
  span : Span
  deriving Repr, Inhabited

end SnippetGrader
