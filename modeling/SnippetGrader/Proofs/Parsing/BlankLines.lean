import SnippetGrader.Proofs.Parsing.StatementAgreement
import SnippetGrader.Proofs.Token.BlankLines

/-
  Texts read with blank lines and comments in between.

  Wherever a run over a text is to enter a line, a line of white
  space and a comment can be put before it: the tokens and the
  faults among them are the same, and so is the program. What
  changes is only where they stand.

  Key theorems include:
    * `parse_blankLine`
-/

namespace SnippetGrader

/-
  A blank line where a line is entered leaves the kinds of the
  tokens and the codes of their faults as they are, and with
  them the program and whether the text is read at all.
-/
theorem parse_blankLine
    (name before line rest : String)
    (hBefore : before = "" ∨ before.toList.getLast? = some '\n')
    (hStarts : SourceFile.StartsLine ⟨name, before ++ rest⟩ rest)
    (hLine : BlankLine line.toList) :
    let file : SourceFile := ⟨name, before ++ rest⟩
    let spaced : SourceFile := ⟨name, before ++ line ++ rest⟩
    (lex spaced).tokens.toList.map (·.kind) =
        (lex file).tokens.toList.map (·.kind) ∧
      (lex spaced).errors.codes = (lex file).errors.codes ∧
      (lex spaced).errors.total = (lex file).errors.total ∧
      (parseTokens spaced (lex spaced).tokens).program.erased =
        (parseTokens file (lex file).tokens).program.erased ∧
      (parseSource name spaced.text).toOption.map Program.erased =
        (parseSource name file.text).toOption.map Program.erased := by
  intro file spaced
  have hLexed :
      (lex spaced).tokens.toList.map (·.kind) =
          (lex file).tokens.toList.map (·.kind) ∧
        (lex spaced).errors.codes = (lex file).errors.codes ∧
        (lex spaced).errors.total = (lex file).errors.total :=
    lex_blankLine name before line rest hBefore hStarts hLine
  obtain ⟨hKinds, hCodes, hTotal⟩ := hLexed
  have hErrors :
      (lex spaced).errors.hasErrors = (lex file).errors.hasErrors := by
    rw [Diagnostics.hasErrors, Diagnostics.hasErrors, hTotal]
  exact
    ⟨hKinds, hCodes, hTotal, (parseTokens_alike spaced file hKinds).1,
      parseSource_alike hErrors hKinds⟩

/- A comment between the header of a block and its body. -/
theorem parse_blankLine_in_block :
    "if a:\n".toList.getLast? = some '\n' ∧
      SourceFile.StartsLine ⟨"a.py", "if a:\n" ++ "  b\nc"⟩ "  b\nc" ∧
      BlankLine " \t# c (\n".toList ∧
      (parseSource "a.py" ("if a:\n" ++ "  b\nc")).toOption.isSome = true ∧
      (parseSource "a.py"
          ("if a:\n" ++ " \t# c (\n" ++ "  b\nc")).toOption.map
            Program.erased =
        (parseSource "a.py" ("if a:\n" ++ "  b\nc")).toOption.map
          Program.erased := by
  have hBefore : "if a:\n".toList.getLast? = some '\n' := by decide
  have hStarts :
      SourceFile.StartsLine ⟨"a.py", "if a:\n" ++ "  b\nc"⟩ "  b\nc" :=
    ⟨5, by decide +kernel, by decide +kernel⟩
  have hComment : '\n' ∉ " c (".toList := by decide
  have hLine : BlankLine " \t# c (\n".toList :=
    .space (.tab (.comment hComment))
  exact
    ⟨hBefore, hStarts, hLine, by decide +kernel,
      (parse_blankLine "a.py" "if a:\n" " \t# c (\n" "  b\nc" (.inr hBefore)
        hStarts hLine).2.2.2.2⟩

end SnippetGrader
