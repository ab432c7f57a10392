import SnippetGrader.Proofs.Signature.Phases

/-
  The keywords that a parameter collects.

  A call names no keyword twice. What a parameter collects are
  keywords of the call, in their order, so it names none twice
  either.

  Key definitions include:
    * `Signature.CollectsFrom`

  Key theorems include:
    * `Signature.bindKeywords_sublist`
    * `Signature.nodup_of_varKeyword`
-/

namespace SnippetGrader

namespace Signature

variable {α : Type}
variable {keywords left : Keywords α}
variable {slots bound : List (BoundSlot α)}

/- Slots in which only keywords of a call are collected, in their order. -/
def CollectsFrom
    (keywords : Keywords α)
    (slots : List (BoundSlot α)) :
    Prop :=
  ∀ slot ∈ slots, ∀ pairs, slot.2 = some (.varKeyword pairs) →
    pairs.Sublist keywords

theorem collectsFrom_unbound
    (keywords : Keywords α)
    (params : List Parameter) :
    CollectsFrom keywords (unbound params) := by
  intro slot hMem pairs hPairs
  obtain ⟨param, -, rfl⟩ := List.mem_map.mp hMem
  cases hPairs

theorem collectsFrom_cons
    {slot : BoundSlot α} :
    CollectsFrom keywords (slot :: slots) ↔
      (∀ pairs, slot.2 = some (.varKeyword pairs) → pairs.Sublist keywords) ∧
        CollectsFrom keywords slots :=
  List.forall_mem_cons

/- Positional arguments are no keywords. -/
theorem collectsFrom_bindPositional
    {params : List Parameter}
    {args surplus : List α}
    (hBound : bindPositional keywords params args = .ok (slots, surplus)) :
    CollectsFrom keywords slots := by
  fun_induction bindPositional keywords params args generalizing slots with
  | case1 =>
      cases hBound
      exact fun _ hMem => absurd hMem List.not_mem_nil
  | case2 =>
      cases hBound
      exact collectsFrom_cons.mpr
        ⟨by rintro _ ⟨⟩, collectsFrom_unbound keywords _⟩
  | case3 | case4 | case5 | case9 =>
      cases hBound
      exact collectsFrom_unbound keywords _
  | case6 | case8 | case10 | case12 => cases hBound
  | case7 _ _ _ _ _ _ _ _ hRest ih | case11 _ _ _ _ _ _ _ _ hRest ih =>
      cases hBound
      exact collectsFrom_cons.mpr ⟨by rintro _ ⟨⟩, ih hRest⟩

/- A slot is filled with one argument, and not with keywords. -/
theorem varKeyword_of_fill
    {slot : BoundSlot α}
    {pairs : Keywords α}
    (hFilled : (fill keywords slot).2 = some (.varKeyword pairs)) :
    slot.2 = some (.varKeyword pairs) := by
  rcases slot with ⟨param, _ | binding⟩
  · simp only [fill] at hFilled
    split at hFilled
    · obtain ⟨argument, -, hArgument⟩ := Option.map_eq_some_iff.mp hFilled
      cases hArgument
    · exact hFilled
  · exact hFilled

/- A slot is filled with some of the keywords, and the others remain. -/
theorem exists_of_bindKeywords_cons
    {absorbs : Bool}
    {slot : BoundSlot α}
    (hDistinct : (keywords.map Prod.fst).Nodup)
    (hBound : bindKeywords absorbs (slot :: slots) keywords = .ok (bound, left)) :
    ∃ rest remaining,
      bound = fill keywords slot :: rest ∧
        remaining.Sublist keywords ∧
        bindKeywords absorbs slots remaining = .ok (rest, left) := by
  by_cases hFillable : Fillable absorbs keywords slot
  · rw [bindKeywords_cons_of_fillable hDistinct hFillable] at hBound
    cases hOthers :
      bindKeywords absorbs slots (keywords.without (awaited [slot])) with
    | error fault =>
        rw [hOthers] at hBound
        cases hBound
    | ok found =>
        rw [hOthers] at hBound
        cases hBound
        exact ⟨found.1, _, rfl, List.filter_sublist, hOthers⟩
  · obtain ⟨fault, hFault⟩ :=
      bindKeywords_cons_of_not_fillable hFillable slots
    rw [hFault] at hBound
    cases hBound

/- The keywords that remain are some of those of the call. -/
theorem bindKeywords_sublist
    {absorbs : Bool}
    (hDistinct : (keywords.map Prod.fst).Nodup)
    (hBound : bindKeywords absorbs slots keywords = .ok (bound, left)) :
    left.Sublist keywords := by
  induction slots generalizing keywords bound with
  | nil =>
      cases hBound
      exact .refl _
  | cons slot slots ih =>
      obtain ⟨rest, remaining, -, hRemaining, hRest⟩ :=
        exists_of_bindKeywords_cons hDistinct hBound
      have hLater := hDistinct.sublist (hRemaining.map Prod.fst)
      exact (ih hLater hRest).trans hRemaining

theorem collectsFrom_bindKeywords
    {absorbs : Bool}
    {given : Keywords α}
    (hSlots : CollectsFrom given slots)
    (hDistinct : (keywords.map Prod.fst).Nodup)
    (hBound : bindKeywords absorbs slots keywords = .ok (bound, left)) :
    CollectsFrom given bound := by
  induction slots generalizing keywords bound with
  | nil =>
      cases hBound
      exact hSlots
  | cons slot slots ih =>
      obtain ⟨rest, remaining, rfl, hRemaining, hRest⟩ :=
        exists_of_bindKeywords_cons hDistinct hBound
      have hLater := hDistinct.sublist (hRemaining.map Prod.fst)
      rw [collectsFrom_cons] at hSlots ⊢
      exact ⟨fun pairs hPairs => hSlots.1 pairs (varKeyword_of_fill hPairs),
        ih hSlots.2 hLater hRest⟩

theorem collectsFrom_bindVarKeyword
    (hSlots : CollectsFrom keywords slots)
    (hLeft : left.Sublist keywords) :
    CollectsFrom keywords (bindVarKeyword left slots) := by
  induction slots with
  | nil => exact hSlots
  | cons slot slots ih =>
      rw [collectsFrom_cons] at hSlots
      unfold bindVarKeyword
      split
      · refine collectsFrom_cons.mpr ⟨?_, hSlots.2⟩
        rintro _ ⟨⟩
        exact hLeft
      · exact collectsFrom_cons.mpr ⟨hSlots.1, ih hSlots.2⟩

theorem collectsFrom_bind
    {signature : Signature}
    {positional : List α}
    {result : BoundArguments α}
    (hBind : signature.bind positional keywords = .ok result) :
    CollectsFrom keywords result.slots ∧ (keywords.map Prod.fst).Nodup := by
  unfold bind at hBind
  split at hBind
  · cases hBind
  rename_i hRepeated
  have hDistinct : (keywords.map Prod.fst).Nodup :=
    ((Keywords.repeated?_eq_none_iff [] keywords).mp hRepeated).1
  refine ⟨?_, hDistinct⟩
  split at hBind
  · cases hBind
  · cases hBind
  rename_i hPositional
  have hSlots := collectsFrom_bindPositional hPositional
  split at hBind
  · cases hBind
  · rename_i hKeywords
    cases hBind
    exact collectsFrom_bindKeywords hSlots hDistinct hKeywords
  · rename_i hKeywords
    split at hBind
    · cases hBind
      exact collectsFrom_bindVarKeyword
        (collectsFrom_bindKeywords hSlots hDistinct hKeywords)
        (bindKeywords_sublist hDistinct hKeywords)
    · cases hBind

/- No parameter collects two keywords of one name. -/
theorem nodup_of_varKeyword
    {signature : Signature}
    {positional : List α}
    {result : BoundArguments α}
    (hBind : signature.bind positional keywords = .ok result)
    {param : Parameter}
    {pairs : Keywords α}
    (hMem : (param, .varKeyword pairs) ∈ result.withDefaults.entries) :
    (pairs.map Prod.fst).Nodup := by
  obtain ⟨hSlots, hDistinct⟩ := collectsFrom_bind hBind
  obtain ⟨⟨_, content⟩, hSlot, hContent⟩ := List.mem_filterMap.mp hMem
  obtain ⟨binding, rfl, hBinding⟩ := Option.map_eq_some_iff.mp hContent
  cases hBinding
  obtain ⟨⟨param, given⟩, hFound, hSettled⟩ := List.mem_map.mp hSlot
  have hContent := congrArg Prod.snd hSettled
  cases given with
  | some binding =>
      have hSublist := hSlots _ hFound pairs hContent
      exact hDistinct.sublist (hSublist.map Prod.fst)
  | none =>
      -- What no keyword is left for collects nothing.
      have hDefault :
          BoundArguments.defaultBinding param = some (.varKeyword pairs) :=
        hContent
      unfold BoundArguments.defaultBinding at hDefault
      split at hDefault
      · cases hDefault
      · cases hDefault
        exact List.nodup_nil
      · split at hDefault <;> cases hDefault

end Signature

end SnippetGrader
