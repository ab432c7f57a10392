import SnippetGrader.Grading.Grade
import SnippetGrader.Proofs.Parsing.FaultPlaces

/-
  The fault that a learner is shown.

  A text that is rejected is reported with the first of the
  faults that are kept. Those are all faults among its characters
  and, up to the cap, the first of those among its tokens. Up to
  the cap no fault is dropped, so that none starts earlier than
  the one that is shown. Beyond it one may: faults among tokens
  are dropped even if they start before all others.

  Key definitions include:
    * `SourceFile.keptFaults`

  Key theorems include:
    * `earliest_fault`
    * `dropped_fault_starts_first`
-/

namespace SnippetGrader

/- The faults of a file that are kept when there are more than the cap. -/
def SourceFile.keptFaults (file : SourceFile) : List Diagnostic :=
  file.charFaults.stored ++
    file.tokenFaults.stored.take
      (maxErrors - file.charFaults.stored.length)

namespace SourceFile

variable {file : SourceFile}

/- Faults among characters are all stored, those among tokens up to the cap. -/
theorem stored_faults
    (file : SourceFile) :
    file.charFaults.stored.length = file.charFaults.total ∧
      file.charFaults.total ≤ maxErrors ∧
      file.tokenFaults.stored.length =
        min file.tokenFaults.total maxErrors :=
  ⟨(lex_errors_stored file).1, (lex_errors_stored file).2,
    (placed_tokenFaults file).capped⟩

theorem total_faults
    (file : SourceFile) :
    (file.charFaults.append file.tokenFaults).total =
      file.charFaults.total + file.tokenFaults.total :=
  Diagnostics.total_append (placed_parseTokens file).capped

/- No fault is dropped below the cap. -/
theorem keptFaults_eq
    (hFew :
      file.charFaults.total + file.tokenFaults.total ≤ maxErrors) :
    file.keptFaults =
      file.charFaults.stored ++ file.tokenFaults.stored := by
  obtain ⟨hChars, -, hTokens⟩ := file.stored_faults
  rw [keptFaults, List.take_of_length_le]
  omega

/- A fault is kept if there is any. -/
theorem keptFaults_ne_nil
    (hFound :
      (file.charFaults.append file.tokenFaults).hasErrors = true) :
    file.keptFaults ≠ [] := by
  obtain ⟨hChars, -, hTokens⟩ := file.stored_faults
  rw [Diagnostics.hasErrors, decide_eq_true_eq, total_faults] at hFound
  refine List.ne_nil_of_length_pos ?_
  rw [keptFaults, List.length_append, List.length_take]
  simp only [maxErrors] at hTokens ⊢
  omega

end SourceFile

/- The grader reports the first of the faults that a text is rejected with. -/
theorem parseSide_of_first?
    {side : Side}
    {text : String}
    {errors : Diagnostics}
    {first : Diagnostic}
    (hErrors : parseSource side.fileName text = .error errors)
    (hFirst : errors.first? = some first) :
    parseSide side text = .error (.invalidSource side first) := by
  unfold parseSide
  generalize parseSource side.fileName text = result at hErrors ⊢
  subst hErrors
  dsimp only
  rw [hFirst]

/-
  A text that is rejected has all of its faults counted. The
  fault at the head of the list is the one that starts first
  among those that are kept, and it is the one that the grader
  reports. If all faults together are no more than the cap, it
  starts first among all of them.
-/
theorem earliest_fault
    {file : SourceFile}
    {errors : Diagnostics}
    (hErrors : parseSource file.name file.text = .error errors) :
    (∃ first ∈ file.keptFaults,
      errors.stored.head? = some first ∧
        errors.first? = some first ∧
        (∀ fault ∈ file.keptFaults, first.span.first ≤ fault.span.first) ∧
        (file.charFaults.total + file.tokenFaults.total ≤ maxErrors →
          ∀ fault ∈ file.charFaults.stored ++ file.tokenFaults.stored,
            first.span.first ≤ fault.span.first) ∧
        ∀ side : Side,
          side.fileName = file.name →
            parseSide side file.text =
              .error (.invalidSource side first)) ∧
    errors.stored.Perm file.keptFaults ∧
    errors.total = file.charFaults.total + file.tokenFaults.total ∧
    file.charFaults.stored.length = file.charFaults.total ∧
    file.tokenFaults.stored.length =
      min file.tokenFaults.total maxErrors := by
  obtain ⟨hFound, rfl⟩ := parseSource_eq_error.mp hErrors
  obtain ⟨hChars, -, hTokens⟩ := file.stored_faults
  have hStored :
      (file.charFaults.append file.tokenFaults).stored =
        file.keptFaults :=
    Diagnostics.stored_append _ _
  have hSome := SourceFile.keptFaults_ne_nil hFound
  rw [← hStored] at hSome
  obtain ⟨first, hMem, hFirst⟩ := Diagnostics.exists_first? hSome
  rw [hStored] at hMem
  have hLeast :
      ∀ fault ∈ file.keptFaults, first.span.first ≤ fault.span.first := by
    intro fault hFault
    rw [← hStored] at hFault
    exact Diagnostics.first_le hFirst hFault
  refine ⟨⟨first, hMem, ?_⟩, ?_, ?_, hChars, hTokens⟩
  · refine ⟨?_, ?_, hLeast, ?_, ?_⟩
    · rw [Diagnostics.head?_sorted, hFirst]
    · rw [Diagnostics.first?_sorted, hFirst]
    · intro hFew
      rw [← SourceFile.keptFaults_eq hFew]
      exact hLeast
    · intro side hSide
      rw [← hSide] at hErrors
      refine parseSide_of_first? hErrors ?_
      rw [Diagnostics.first?_sorted, hFirst]
  · rw [← hStored]
    exact List.mergeSort_perm _ _
  · rw [Diagnostics.sorted]
    exact file.total_faults

/-
  A repeated keyword is a fault of the tokens, and marks after
  it are faults of the characters. The keyword comes first unless
  there are so many marks that it is dropped.
-/
private theorem faults_of_repeated :
    let few : SourceFile := ⟨"submission.py", "f(a=1, a=2)\n?"⟩
    let many : SourceFile :=
      ⟨"submission.py", "f(a=1, a=2)\n????????????????????"⟩
    ((few.charFaults.append few.tokenFaults).hasErrors = true ∧
      few.charFaults.total + few.tokenFaults.total ≤ maxErrors ∧
        (few.charFaults.append few.tokenFaults).first?.map (·.span) =
          some ⟨1, 8, 1, 8⟩) ∧
      (many.charFaults.append many.tokenFaults).hasErrors = true ∧
        (many.charFaults.append many.tokenFaults).first?.map (·.span) =
          some ⟨2, 1, 2, 1⟩ ∧
        many.tokenFaults.stored.any (·.span == ⟨1, 8, 1, 8⟩) = true := by
  decide +kernel

/- A keyword that is repeated before a character that no token starts with. -/
theorem earliest_fault_repeated :
    let file : SourceFile := ⟨"submission.py", "f(a=1, a=2)\n?"⟩
    ∃ errors first,
      parseSource file.name file.text = .error errors ∧
        errors.stored.head? = some first ∧
        first.span = ⟨1, 8, 1, 8⟩ ∧
        (∀ fault ∈ file.charFaults.stored ++ file.tokenFaults.stored,
          first.span.first ≤ fault.span.first) ∧
        parseSide .submission file.text =
          .error (.invalidSource .submission first) := by
  intro file
  obtain ⟨⟨hFound, hFew, hSpan⟩, -⟩ := faults_of_repeated
  have hErrors := parseSource_eq_error.mpr ⟨hFound, rfl⟩
  obtain ⟨⟨first, -, hHead, hFirst, -, hLeast, hShown⟩, -⟩ :=
    earliest_fault hErrors
  rw [Diagnostics.first?_sorted] at hFirst
  rw [hFirst] at hSpan
  exact ⟨_, first, hErrors, hHead, Option.some.inj hSpan, hLeast hFew,
    hShown .submission rfl⟩

/-
  After twenty faults among characters, one among tokens is
  dropped, although it starts before all of them.
-/
theorem dropped_fault_starts_first :
    ¬∀ (file : SourceFile) (errors : Diagnostics),
      parseSource file.name file.text = .error errors →
        ∃ first,
          errors.stored.head? = some first ∧
            errors.first? = some first ∧
            ∀ fault ∈ file.charFaults.stored ++ file.tokenFaults.stored,
              first.span.first ≤ fault.span.first := by
  intro hClaim
  let file : SourceFile :=
    ⟨"submission.py", "f(a=1, a=2)\n????????????????????"⟩
  obtain ⟨-, hFound, hShown, hDropped⟩ := faults_of_repeated
  obtain ⟨first, -, hFirst, hLeast⟩ :=
    hClaim file _ (parseSource_eq_error.mpr ⟨hFound, rfl⟩)
  rw [Diagnostics.first?_sorted] at hFirst
  rw [hFirst] at hShown
  obtain ⟨fault, hMem, hSpan⟩ := List.any_eq_true.mp hDropped
  have hFirstSpan : first.span = ⟨2, 1, 2, 1⟩ := Option.some.inj hShown
  have hOrder := hLeast fault (List.mem_append_right _ hMem)
  rw [hFirstSpan, beq_iff_eq.mp hSpan] at hOrder
  revert hOrder
  decide

end SnippetGrader
