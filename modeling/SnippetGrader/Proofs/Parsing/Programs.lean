import SnippetGrader.Parsing.Program
import SnippetGrader.Proofs.Parsing.Statements
import SnippetGrader.Proofs.Token.Lexing

/-
  Programs that are read from texts.

  A text without faults is read as a program all of whose nodes
  are grammatical, and as the same program whatever the name of
  its file is.

  Key theorems include:
    * `grammatical_of_parseSource`
    * `parseSource_renamed`
-/

namespace SnippetGrader

open SnippetGrader.Parser

/- A result from which a value can be taken is that value. -/
theorem ok_of_toOption
    {ε α : Type}
    {result : Except ε α}
    {value : α}
    (hResult : result.toOption = some value) :
    result = .ok value := by
  cases result with
  | error _ => cases hResult
  | ok _ =>
      cases hResult
      rfl

------------------------------------------------------------
-- Programs
------------------------------------------------------------

/- A program is plain if its statements are. -/
theorem Program.plain_of_body
    {program : Program}
    (hBody : ∀ stmt ∈ program.body, stmt.Plain) :
    (Node.program program).Plain := by
  refine Node.plain_of_children trivial
    (fun _ hExpr => nomatch hExpr) ?_
  simpa [Node.children, Node.slots] using hBody

theorem yields_program :
    Yields program fun result => (Node.program result).Plain := by
  unfold program
  refine yields_currentSpan.bind fun start => ?_
  refine
    (StmtGrammar.yields_statementsUntil StmtGrammar.sound_top
      _ _).bind fun body => ?_
  split
  · exact .pure fun hBody _ => Program.plain_of_body hBody
  · exact .pure fun hBody _ => Program.plain_of_body hBody

/- The place before the first token of a file. -/
def startOf (file : SourceFile) (tokens : Array Token) : Cursor :=
  { file := file, tokens := tokens }

theorem plain_parseTokens
    {file : SourceFile}
    {tokens : Array Token}
    (hTokens : ∀ token ∈ tokens, token.kind.ReadsBack)
    (hFaultless : (parseTokens file tokens).errors.total = 0) :
    (Node.program (parseTokens file tokens).program).Plain := by
  have hKept := yields_program.keeps (startOf file tokens) hTokens
  unfold parseTokens at hFaultless ⊢
  unfold startOf at hKept
  cases hResult : program { file := file, tokens := tokens } with
  | ok result cursor =>
      rw [hResult] at hKept hFaultless
      exact hKept.2 hFaultless
  | error failure cursor =>
      refine Program.plain_of_body ?_
      intro stmt hMem
      cases hMem

theorem parseTokens_renamed
    (name : String)
    (file : SourceFile)
    (tokens : Array Token) :
    parseTokens (file.renamed name) tokens =
      ⟨(parseTokens file tokens).program,
        (parseTokens file tokens).errors.inFile name⟩ := by
  have hRenamed := yields_program.inFile name (startOf file tokens)
  have hStart :
      (startOf file tokens).inFile name =
        startOf (file.renamed name) tokens := rfl
  rw [hStart] at hRenamed
  unfold startOf at hRenamed
  unfold parseTokens
  rw [hRenamed]
  cases program { file := file, tokens := tokens } with
  | ok result cursor => rfl
  | error failure cursor => rfl

------------------------------------------------------------
-- Texts
------------------------------------------------------------

namespace Diagnostics

theorem total_foldl_push
    (faults : Diagnostics)
    (others : List Diagnostic) :
    (others.foldl push faults).total = faults.total + others.length := by
  induction others generalizing faults with
  | nil => rfl
  | cons fault rest ih =>
      rw [List.foldl_cons, ih, List.length_cons]
      simp only [push]
      omega

/- Two lists have no fault together iff neither has one. -/
theorem hasErrors_append_eq_false_iff
    (faults others : Diagnostics) :
    (faults.append others).hasErrors = false ↔
      faults.total = 0 ∧
        others.stored.length = 0 ∧ others.total = 0 := by
  simp only [hasErrors, append, total_foldl_push, gt_iff_lt,
    decide_eq_false_iff_not]
  omega

end Diagnostics

/- A text is read without faults iff neither stage finds one. -/
theorem parseSource_eq_ok_iff
    (name text : String)
    (result : Program) :
    parseSource name text = .ok result ↔
      ((lex ⟨name, text⟩).errors.append
          (parseTokens ⟨name, text⟩
            (lex ⟨name, text⟩).tokens).errors).hasErrors = false ∧
        (parseTokens ⟨name, text⟩
          (lex ⟨name, text⟩).tokens).program = result := by
  unfold parseSource
  dsimp only
  cases ((lex ⟨name, text⟩).errors.append
      (parseTokens ⟨name, text⟩
        (lex ⟨name, text⟩).tokens).errors).hasErrors with
  | true => simp
  | false => simp

/- All nodes of a program that was read are grammatical. -/
theorem grammatical_of_parseSource
    {name text : String}
    {result : Program}
    (hRead : parseSource name text = .ok result) :
    (Node.program result).Everywhere Node.Grammatical := by
  obtain ⟨hFaults, rfl⟩ := (parseSource_eq_ok_iff ..).mp hRead
  rw [Diagnostics.hasErrors_append_eq_false_iff] at hFaults
  exact (plain_parseTokens (readsBack_lex _) hFaults.2.2).everywhere

/- A text is read as the same program under any name. -/
theorem parseSource_renamed
    {name text : String}
    {result : Program}
    (hRead : parseSource name text = .ok result)
    (other : String) :
    parseSource other text = .ok result := by
  have hFile :
      (⟨other, text⟩ : SourceFile) =
        (⟨name, text⟩ : SourceFile).renamed other := rfl
  rw [parseSource_eq_ok_iff] at hRead ⊢
  rw [hFile, lex_renamed, parseTokens_renamed]
  rw [Diagnostics.hasErrors_append_eq_false_iff] at hRead ⊢
  simp only [Diagnostics.total_inFile,
    Diagnostics.length_stored_inFile]
  exact hRead

end SnippetGrader
