import Mathlib
import SnippetGrader.Source.File

/-
  The lines of a text.

  A line has as many line feeds before it as lines, the last of
  them right before it, and it goes on to the next one or to the
  end of the text. The carriage returns at its end do not belong
  to it.

  Key definitions include:
    * `SourceFile.LineAt`

  Key theorems include:
    * `splitLines_split`
    * `SourceFile.lineAt_of_line?`, `SourceFile.exists_line?`
-/

namespace SnippetGrader

/- The start of a text, or what ends with a line feed. -/
def WholeLinesBefore (before : List Char) : Prop :=
  before = [] ∨ ∃ lines, before = lines ++ ['\n']

/- The end of a text, or what starts with a line feed. -/
def LineEndAfter (after : List Char) : Prop :=
  after = [] ∨ ∃ rest, after = '\n' :: rest

/- The line of a file with a number, counted from one, without its ending. -/
structure SourceFile.LineAt
    (file : SourceFile)
    (number : Nat)
    (line : String) : Prop where
  split :
    ∃ before returns after,
      file.text.toList = before ++ (line.toList ++ (returns ++ after)) ∧
        before.count '\n' + 1 = number ∧
        WholeLinesBefore before ∧
        (∀ c ∈ returns, c = '\r') ∧
        LineEndAfter after
  feed : '\n' ∉ line.toList
  ended : ∀ c ∈ line.toList.getLast?, c ≠ '\r'

theorem WholeLinesBefore.eq_nil
    {before : List Char}
    (hBefore : WholeLinesBefore before)
    (hCount : before.count '\n' = 0) :
    before = [] := by
  rcases hBefore with hNone | ⟨lines, rfl⟩
  · exact hNone
  · simp at hCount

theorem splitLines_ne_nil
    (chars : List Char) :
    splitLines chars ≠ [] := by
  cases chars with
  | nil => exact List.cons_ne_nil _ _
  | cons c chars =>
      rw [splitLines]
      split
      · exact List.cons_ne_nil _ _
      · split <;> exact List.cons_ne_nil _ _

/- A line of a text stands between two line feeds, or at an end of the text. -/
theorem splitLines_split
    {chars line : List Char}
    {index : Nat}
    (hLine : (splitLines chars)[index]? = some line) :
    ∃ before after,
      chars = before ++ (line ++ after) ∧
        before.count '\n' = index ∧
        WholeLinesBefore before ∧
        '\n' ∉ line ∧
        LineEndAfter after := by
  induction chars generalizing index line with
  | nil =>
      obtain ⟨rfl, rfl⟩ : 0 = index ∧ [] = line := by
        simpa [splitLines, List.getElem?_singleton, eq_comm] using hLine
      exact ⟨[], [], rfl, rfl, .inl rfl, List.not_mem_nil, .inl rfl⟩
  | cons c chars ih =>
      rw [splitLines] at hLine
      split at hLine
      · rename_i hFeed
        subst hFeed
        cases index with
        | zero =>
            cases hLine
            exact ⟨[], '\n' :: chars, rfl, rfl, .inl rfl,
              List.not_mem_nil, .inr ⟨chars, rfl⟩⟩
        | succ index =>
            obtain ⟨before, after, rfl, hCount, hBefore, hParts⟩ := ih hLine
            refine ⟨'\n' :: before, after, rfl, by simp [hCount],
              .inr ?_, hParts⟩
            rcases hBefore with rfl | ⟨lines, rfl⟩
            · exact ⟨[], rfl⟩
            · exact ⟨'\n' :: lines, rfl⟩
      · rename_i hFeed
        split at hLine
        · rename_i hNone
          exact absurd hNone (splitLines_ne_nil chars)
        · rename_i first rest hLines
          cases index with
          | zero =>
              cases hLine
              have hFirst : (splitLines chars)[0]? = some first := by
                rw [hLines]
                rfl
              obtain ⟨before, after, rfl, hCount, hBefore, hNone, hAfter⟩ :=
                ih hFirst
              obtain rfl := hBefore.eq_nil hCount
              exact ⟨[], after, rfl, rfl, .inl rfl,
                List.not_mem_cons_of_ne_of_not_mem (Ne.symm hFeed) hNone,
                hAfter⟩
          | succ index =>
              have hLater : (splitLines chars)[index + 1]? = some line := by
                rw [hLines]
                exact hLine
              obtain ⟨before, after, rfl, hCount, hBefore, hParts⟩ :=
                ih hLater
              refine ⟨c :: before, after, rfl,
                by rw [List.count_cons_of_ne hFeed, hCount], ?_, hParts⟩
              rcases hBefore with rfl | ⟨lines, rfl⟩
              · cases hCount
              · exact .inr ⟨c :: lines, rfl⟩

/- What is removed satisfies the test, and the last of the rest does not. -/
theorem Text.dropEndWhile_split
    (drop : Char → Bool)
    (chars : List Char) :
    ∃ removed,
      chars = dropEndWhile drop chars ++ removed ∧
        (∀ c ∈ removed, drop c = true) ∧
        ∀ c ∈ (dropEndWhile drop chars).getLast?, drop c = false := by
  refine ⟨(chars.reverse.takeWhile drop).reverse, ?_, ?_, ?_⟩
  · rw [dropEndWhile, ← List.reverse_append,
      List.takeWhile_append_dropWhile, List.reverse_reverse]
  · intro c hMem
    exact List.mem_takeWhile_imp (List.mem_reverse.mp hMem)
  · intro c hLast
    rw [dropEndWhile, List.getLast?_reverse] at hLast
    have hStop := List.head?_dropWhile_not drop chars.reverse
    rw [hLast] at hStop
    exact hStop

namespace SourceFile

variable {file : SourceFile}
variable {number : Nat}
variable {line : String}

/- The line that is found for a number has that number. -/
theorem lineAt_of_line?
    (hLine : file.line? number = some line) :
    file.LineAt number line := by
  cases number with
  | zero => cases hLine
  | succ number =>
      rw [line?, lines, List.getElem?_map, Option.map_eq_some_iff] at hLine
      obtain ⟨chars, hChars, rfl⟩ := hLine
      obtain ⟨before, after, hText, hCount, hBefore, hFeed, hAfter⟩ :=
        splitLines_split hChars
      obtain ⟨returns, hSplit, hReturns, hLast⟩ :=
        Text.dropEndWhile_split (· == '\r') chars
      refine ⟨⟨before, returns, after, ?_, by rw [hCount], hBefore, ?_,
        hAfter⟩, ?_, ?_⟩
      · rw [String.toList_ofList, ← List.append_assoc _ returns, ← hSplit]
        exact hText
      · simpa using hReturns
      · rw [String.toList_ofList]
        intro hMem
        rw [hSplit] at hFeed
        exact hFeed (List.mem_append_left _ hMem)
      · rw [String.toList_ofList]
        simpa using hLast

/- The lines of a file have the numbers up to their count. -/
theorem exists_line?
    (hFirst : 1 ≤ number)
    (hLast : number ≤ file.lineCount) :
    ∃ line, file.line? number = some line := by
  cases number with
  | zero => omega
  | succ number =>
      refine ⟨_, List.getElem?_eq_getElem ?_⟩
      rw [lines, List.length_map]
      exact hLast

end SourceFile

end SnippetGrader
