import SnippetGrader.Parsing.Statement
import SnippetGrader.Token.Lexer

/-
  Reading of whole texts.

  Key definitions include:
    * `parseTokens`
    * `parseSource`
-/

namespace SnippetGrader

open SnippetGrader.Parser

/- Reads statements to the end of the tokens. -/
def program : Parser Program := do
  let start ← currentSpan
  let body ←
    StmtGrammar.top.statementsUntil (· == .endOfFile)
      (fun kind => kind == .newline || kind == .dedent)
  match body.head?, body.getLast? with
  | some first, some last => return ⟨body, first.span.merge last.span⟩
  | _, _ => return ⟨body, start⟩

/- The statements that could be read, and all faults. -/
structure Parsed where
  program : Program
  errors : Diagnostics
  deriving Inhabited

/- Reads the tokens of a file. -/
def parseTokens (file : SourceFile) (tokens : Array Token) : Parsed :=
  match program { file := file, tokens := tokens } with
  | .ok result cursor => ⟨result, cursor.errors⟩
  | .error _ cursor => ⟨⟨[], .point 1 1⟩, cursor.errors⟩

/-
  Reads a text. It is rejected if the tokens or the statements
  have a fault, with the faults in the order of the text.
-/
def parseSource (name text : String) : Except Diagnostics Program :=
  let file : SourceFile := ⟨name, text⟩
  let lexed := lex file
  let parsed := parseTokens file lexed.tokens
  let errors := lexed.errors.append parsed.errors
  if errors.hasErrors then .error errors.sorted
  else .ok parsed.program

end SnippetGrader
