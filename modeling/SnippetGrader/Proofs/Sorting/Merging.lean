import SnippetGrader.Proofs.Sorting.Stability

/-
  Insertion and merging are stable.

  An item is inserted behind those of its own rank, and of two
  items of one rank a merge takes the left one first, whether it
  starts at the front or at the back. Either way an item only
  ever passes items of other ranks.

  Key theorems include:
    * `Sorting.insertionSort_stable`
    * `Sorting.merge_stable`
-/

namespace SnippetGrader.Sorting

variable {α κ σ : Type}
variable [LinearOrder κ]
variable {less : Less σ α}
variable {rank : α → κ}
variable {known : α → Prop}

------------------------------------------------------------
-- Insertion
------------------------------------------------------------

section Insertion

variable (hLess : Answers less rank known)

include hLess

/- The sorted items are given from the last to the first. -/
theorem insertFromRight_stable
    {new : α}
    {sorted : List α}
    (hNew : known new)
    (hKnown : ∀ item ∈ sorted, known item)
    (hFalling : Falling rank sorted) :
    Gives (insertFromRight less new sorted) fun result =>
      Falling rank result ∧ SameTies rank result (new :: sorted) := by
  induction sorted with
  | nil =>
      rw [insertFromRight]
      exact .pure ⟨List.pairwise_singleton .., .refl _⟩
  | cons last before ih =>
      obtain ⟨hLast, hBefore⟩ := falling_cons.mp hFalling
      rw [insertFromRight]
      refine .choose hLess hNew (hKnown last List.mem_cons_self)
        (fun hPast => ?_) fun hBehind => ?_
      · refine (ih (fun item hMem => hKnown item (List.mem_cons_of_mem _ hMem))
          hBefore).bind ?_
        rintro rest ⟨hRest, hTies⟩
        refine .pure ⟨falling_cons.mpr ⟨fun item hMem => ?_, hRest⟩, ?_⟩
        · rcases List.mem_cons.mp (hTies.mem_iff.mp hMem) with rfl | hMem
          · exact hPast.le
          · exact hLast item hMem
        · have hSwap : SameTies rank ([last] ++ [new]) ([new] ++ [last]) :=
            .comm (by simpa using hPast.ne')
          exact (hTies.cons last).trans (hSwap.append (.refl before))
      · refine .pure ⟨falling_cons.mpr ⟨?_, hFalling⟩, .refl _⟩
        intro item hMem
        rcases List.mem_cons.mp hMem with rfl | hMem
        · exact hBehind
        · exact (hLast item hMem).trans hBehind

theorem insertAll_stable
    {sorted items : List α}
    (hSorted : ∀ item ∈ sorted, known item)
    (hItems : ∀ item ∈ items, known item)
    (hFalling : Falling rank sorted) :
    Gives (insertAll less sorted items) fun result =>
      StablySorted rank (sorted.reverse ++ items) result.reverse := by
  induction items generalizing sorted with
  | nil =>
      rw [insertAll, List.append_nil]
      exact .pure (.of_rising (rising_reverse.mpr hFalling))
  | cons new rest ih =>
      have hNew := hItems new List.mem_cons_self
      rw [insertAll]
      refine (insertFromRight_stable hLess hNew hSorted hFalling).bind ?_
      rintro inserted ⟨hInserted, hTies⟩
      have hKnown : ∀ item ∈ inserted, known item := by
        intro item hMem
        rcases List.mem_cons.mp (hTies.mem_iff.mp hMem) with rfl | hMem
        · exact hNew
        · exact hSorted item hMem
      refine (ih hKnown
        (fun item hMem => hItems item (List.mem_cons_of_mem _ hMem))
        hInserted).imp fun result hResult => hResult.of_ties ?_
      have hFront := hTies.reverse.append (.refl rest)
      simpa using hFront

theorem insertionSort_stable
    {items : List α}
    (hItems : ∀ item ∈ items, known item) :
    Gives (insertionSort less items) (StablySorted rank items) := by
  have hAll :
      Gives (insertAll less [] items) fun result =>
        StablySorted rank items result.reverse :=
    insertAll_stable hLess nofun hItems .nil
  obtain ⟨result, hEq, hResult⟩ := hAll
  rw [insertionSort, hEq, map_pure]
  exact .pure hResult

end Insertion

------------------------------------------------------------
-- Merging
------------------------------------------------------------

section Merging

variable (hLess : Answers less rank known)
variable {left right : List α}

include hLess

theorem mergeForward_stable
    (taken : List α)
    (hLeft : Rising rank left)
    (hRight : Rising rank right)
    (hKnown : ∀ item ∈ left ++ right, known item) :
    Gives (mergeForward less taken left right) fun result =>
      ∃ merged,
        result = taken.reverse ++ merged ∧
          StablySorted rank (left ++ right) merged := by
  fun_induction mergeForward less taken left right with
  | case1 taken right => exact .pure ⟨right, rfl, .of_rising hRight⟩
  | case2 taken left =>
      rw [List.append_nil]
      exact .pure ⟨left, rfl, .of_rising hLeft⟩
  | case3 taken l left r right ihRight ihLeft =>
      have hLeft' := (rising_cons.mp hLeft).2
      have hRight' := (rising_cons.mp hRight).2
      refine .choose hLess (hKnown r (by simp)) (hKnown l (by simp))
        (fun hBefore => ?_) fun hLe => ?_
      · have hRest : ∀ item ∈ (l :: left) ++ right, known item :=
          fun item hMem =>
            hKnown item
              (((List.sublist_cons_self r right).append_left _).subset hMem)
        refine (ihRight hLeft hRight' hRest).imp ?_
        rintro result ⟨merged, rfl, hMerged⟩
        have hCut : Cut rank [] (l :: left) [r] right :=
          Cut.start.pass_right hLeft hBefore
        exact ⟨r :: merged, by simp,
          .of_cut hCut hLeft hRight (.single r) hMerged⟩
      · have hRest : ∀ item ∈ left ++ r :: right, known item :=
          fun item hMem => hKnown item (List.mem_cons_of_mem _ hMem)
        refine (ihLeft hLeft' hRight hRest).imp ?_
        rintro result ⟨merged, rfl, hMerged⟩
        have hCut : Cut rank [l] left [] (r :: right) :=
          Cut.start.pass_left hRight hLe
        exact ⟨l :: merged, by simp,
          .of_cut hCut hLeft hRight (.single l) hMerged⟩

/- Both lists are given from the last item to the first. -/
theorem mergeBackward_stable
    (taken : List α)
    (hLeft : Falling rank left)
    (hRight : Falling rank right)
    (hKnown : ∀ item ∈ left ++ right, known item) :
    Gives (mergeBackward less taken left right) fun result =>
      ∃ merged,
        result = merged ++ taken ∧
          StablySorted rank (left.reverse ++ right.reverse) merged := by
  fun_induction mergeBackward less taken left right with
  | case1 taken right =>
      exact .pure ⟨_, rfl, .of_rising (rising_reverse.mpr hRight)⟩
  | case2 taken left =>
      rw [List.reverse_nil, List.append_nil]
      exact .pure ⟨_, rfl, .of_rising (rising_reverse.mpr hLeft)⟩
  | case3 taken l left r right ihLeft ihRight =>
      have hLeft' := (falling_cons.mp hLeft).2
      have hRight' := (falling_cons.mp hRight).2
      have hRising := rising_reverse.mpr hLeft
      have hRising' := rising_reverse.mpr hRight
      rw [List.reverse_cons] at hRising hRising'
      refine .choose hLess (hKnown r (by simp)) (hKnown l (by simp))
        (fun hBefore => ?_) fun hLe => ?_
      · have hRest : ∀ item ∈ left ++ r :: right, known item :=
          fun item hMem => hKnown item (List.mem_cons_of_mem _ hMem)
        refine (ihLeft hLeft' hRight hRest).imp ?_
        rintro result ⟨merged, rfl, hMerged⟩
        have hCut : Cut rank left.reverse [l] (right.reverse ++ [r]) [] :=
          Cut.finish.pass_left_back hRising' hBefore
        refine ⟨merged ++ [l], by simp, ?_⟩
        rw [List.reverse_cons] at hMerged
        have hBoth :=
          hMerged.of_cut hCut hRising
            ((List.append_nil _).symm ▸ hRising') (.single l)
        simpa using hBoth
      · have hRest : ∀ item ∈ (l :: left) ++ right, known item :=
          fun item hMem =>
            hKnown item
              (((List.sublist_cons_self r right).append_left _).subset hMem)
        refine (ihRight hLeft hRight' hRest).imp ?_
        rintro result ⟨merged, rfl, hMerged⟩
        have hCut : Cut rank (left.reverse ++ [l]) [] right.reverse [r] :=
          Cut.finish.pass_right_back hRising hLe
        refine ⟨merged ++ [r], by simp, ?_⟩
        rw [List.reverse_cons] at hMerged
        have hBoth :=
          hMerged.of_cut hCut ((List.append_nil _).symm ▸ hRising)
            hRising' (.single r)
        simpa using hBoth

theorem merge_stable
    (hLeft : Rising rank left)
    (hRight : Rising rank right)
    (hKnown : ∀ item ∈ left ++ right, known item) :
    Gives (merge less left right) (StablySorted rank (left ++ right)) := by
  rw [merge]
  split
  · refine (mergeForward_stable hLess [] hLeft hRight hKnown).imp ?_
    rintro _ ⟨merged, rfl, hMerged⟩
    exact hMerged
  · refine (mergeBackward_stable hLess [] (falling_reverse.mpr hLeft)
      (falling_reverse.mpr hRight)
      fun item hMem => hKnown item (by simpa using hMem)).imp ?_
    rintro _ ⟨merged, rfl, hMerged⟩
    simpa using hMerged

end Merging

end SnippetGrader.Sorting
