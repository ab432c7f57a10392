import SnippetGrader.Proofs.Parsing.StatementAgreement
import SnippetGrader.Proofs.Token.LineEndings

/-
  Texts read with either line ending.

  A text without carriage returns is read as the same program if
  each of its lines ends with a carriage return as well. Strings
  that go over a line feed are the exception: a backslash joins
  two lines of a string only if nothing stands between it and
  the line feed.

  Key theorems include:
    * `parse_withReturns`
    * `joined_string_withReturns`
-/

namespace SnippetGrader

/-
  With a carriage return before each line feed, a text has the
  same tokens and is read as the same program. What is left out
  is only where they stand.
-/
theorem parse_withReturns
    (name text : String)
    (hReturns : '\r' ∉ text.toList)
    (hPlain : (lex ⟨name, text⟩).Plain) :
    (lex ⟨name, Text.withReturns text⟩).errors.hasErrors = false ∧
      (lex ⟨name, Text.withReturns text⟩).tokens.toList.map (·.kind) =
        (lex ⟨name, text⟩).tokens.toList.map (·.kind) ∧
      (parseSource name (Text.withReturns text)).toOption.map
          Program.erased =
        (parseSource name text).toOption.map Program.erased := by
  have hLexed :
      (lex ⟨name, Text.withReturns text⟩).errors.hasErrors = false ∧
        (lex ⟨name, Text.withReturns text⟩).tokens.toList.map (·.kind) =
          (lex ⟨name, text⟩).tokens.toList.map (·.kind) :=
    lex_withReturns ⟨name, text⟩ hReturns hPlain
  obtain ⟨hErrors, hKinds⟩ := hLexed
  refine ⟨hErrors, hKinds, ?_⟩
  exact parseSource_alike (hErrors.trans hPlain.errors.symm) hKinds

/- A block, a comment, a blank line, brackets and a joined line. -/
theorem parse_withReturns_block :
    '\r' ∉ "if a:\n  # c\n\n  f(b,\nc) + \\\n 'd'\n".toList ∧
      (lex ⟨"a.py", "if a:\n  # c\n\n  f(b,\nc) + \\\n 'd'\n"⟩).Plain ∧
      (parseSource "a.py"
          "if a:\n  # c\n\n  f(b,\nc) + \\\n 'd'\n").toOption.isSome =
        true ∧
      (parseSource "a.py" (Text.withReturns
          "if a:\n  # c\n\n  f(b,\nc) + \\\n 'd'\n")).toOption.map
            Program.erased =
        (parseSource "a.py"
          "if a:\n  # c\n\n  f(b,\nc) + \\\n 'd'\n").toOption.map
            Program.erased := by
  have hReturns :
      '\r' ∉ "if a:\n  # c\n\n  f(b,\nc) + \\\n 'd'\n".toList := by
    decide
  have hLexed :
      (lex ⟨"a.py",
          "if a:\n  # c\n\n  f(b,\nc) + \\\n 'd'\n"⟩).errors.hasErrors = false ∧
        ∀ token ∈
            (lex ⟨"a.py", "if a:\n  # c\n\n  f(b,\nc) + \\\n 'd'\n"⟩).tokens,
          token.span.startLine = token.span.endLine := by
    decide +kernel
  have hPlain :
      (lex ⟨"a.py", "if a:\n  # c\n\n  f(b,\nc) + \\\n 'd'\n"⟩).Plain :=
    ⟨hLexed.1, fun token hMem _ _ => hLexed.2 token hMem⟩
  exact ⟨hReturns, hPlain, by decide +kernel,
    (parse_withReturns _ _ hReturns hPlain).2.2⟩

/-
  A backslash joins the lines of a string that has no triple
  quotes, but not if a carriage return stands behind it.
-/
theorem joined_string_withReturns :
    '\r' ∉ "x = \"a\\\nb\"\n".toList ∧
      (∀ quote ∈ [Byte.of '"', 39],
        ¬ [quote, quote, quote] <:+: Text.encodeUtf8 "x = \"a\\\nb\"\n") ∧
      (lex ⟨"a.py", "x = \"a\\\nb\"\n"⟩).errors.hasErrors = false ∧
      (lex ⟨"a.py",
        Text.withReturns "x = \"a\\\nb\"\n"⟩).errors.hasErrors = true := by
  decide +kernel

end SnippetGrader
