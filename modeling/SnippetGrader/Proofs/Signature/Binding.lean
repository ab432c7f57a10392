import SnippetGrader.Proofs.Signature.Phases

/-
  Which calls can be bound, and to what.

  Binding accepts a call iff every argument has exactly one
  parameter to go to and every parameter that needs an argument
  gets one.

  Key definitions include:
    * `Signature.Accepts`
    * `Signature.settledEntries`

  Key theorems include:
    * `Signature.bind_eq_ok_iff`
    * `Signature.entries_withDefaults_of_bind`
-/

namespace SnippetGrader

namespace Signature

variable {α : Type}

------------------------------------------------------------
-- Accepted Calls
------------------------------------------------------------

/- The arguments of a call that fits a signature. -/
structure Accepts
    (signature : Signature)
    (positional : List α)
    (keywords : Keywords α) :
    Prop where
  distinct : (keywords.map (·.1)).Nodup
  room :
    positional.length ≤ (positionalOf signature.params).length ∨
      ∃ param ∈ signature.params, param.kind = .varPositional
  once :
    ∀ param ∈ reachedBy positional.length signature.params,
      param.kind = .positionalOrKeyword →
        param.name ∉ keywords.map (·.1)
  complete :
    ∀ param ∈ beyond positional.length signature.params,
      param.default = none →
        param.kind.isVariadic = true ∨
          param.kind.isNamed = true ∧
            param.name ∈ keywords.map (·.1)
  known :
    ∀ name ∈ keywords.map (·.1),
      (∃ param ∈ beyond positional.length signature.params,
          param.kind.isNamed = true ∧ param.name = name) ∨
        ∃ param ∈ signature.params, param.kind = .varKeyword

/- The names of the parameters that wait for a keyword argument. -/
def namedBeyond (count : Nat) (params : List Parameter) : List String :=
  ((beyond count params).filter fun param => param.kind.isNamed).map
    (·.name)

/- The keyword arguments that no parameter waits for. -/
def unclaimed
    (signature : Signature)
    (positional : List α)
    (keywords : Keywords α) :
    Keywords α :=
  keywords.without (namedBeyond positional.length signature.params)

section Slots

variable {params : List Parameter}
variable {args : List α}
variable {keywords : Keywords α}

theorem map_fst_reachedEntries
    (params : List Parameter)
    (args : List α) :
    (reachedEntries params args).map (·.1) =
      reachedBy args.length params := by
  simp only [reachedEntries, reachedBy, List.map_zipWith]
  induction positionalOf params generalizing args with
  | nil => simp
  | cons param rest ih =>
      cases args with
      | nil => simp
      | cons arg args => simpa using ih args

theorem of_mem_reachedEntries
    {entry : Parameter × Binding α}
    (hEntry : entry ∈ reachedEntries params args) :
    entry.1.kind.isPositional = true ∧
      ∃ arg, entry.2 = .value arg := by
  rw [reachedEntries, List.mem_iff_getElem] at hEntry
  obtain ⟨position, hPosition, rfl⟩ := hEntry
  rw [List.length_zipWith] at hPosition
  have hMem :
      (positionalOf params)[position] ∈ positionalOf params :=
    List.getElem_mem (by omega)
  simp only [positionalOf, List.mem_filter] at hMem
  rw [List.getElem_zipWith]
  exact ⟨hMem.2, _, rfl⟩

theorem of_mem_reachedSlots
    {slot : BoundSlot α}
    (hSlot : slot ∈ reachedSlots params args) :
    slot.1.kind.isPositional = true ∧
      ∃ arg, slot.2 = some (.value arg) := by
  rw [reachedSlots, List.mem_map] at hSlot
  obtain ⟨entry, hEntry, rfl⟩ := hSlot
  obtain ⟨hKind, arg, hArg⟩ := of_mem_reachedEntries hEntry
  exact ⟨hKind, arg, congrArg some hArg⟩

theorem map_fst_positionalSlots
    (hOrdered :
      (params.map (·.kind)).Pairwise ParamKind.MayPrecede)
    (args : List α) :
    (positionalSlots params args).map (·.1) = params := by
  have hReached :
      (reachedSlots params args).map (·.1) =
        reachedBy args.length params := by
    rw [reachedSlots, List.map_map, ← map_fst_reachedEntries]
    rfl
  rw [positionalSlots, List.map_append, hReached, List.map_map]
  simpa [Function.comp_def] using
    reachedBy_append_beyond args.length hOrdered

/- Only what gathers arguments can be bound beyond the reached. -/
theorem gathered_eq_none
    {param : Parameter}
    {room : Nat}
    (hKind : param.kind ≠ .varPositional) :
    gathered room args param = none := by
  simp [gathered, hKind]

theorem awaited_positionalSlots
    (params : List Parameter)
    (args : List α) :
    awaited (positionalSlots params args) =
      namedBeyond args.length params := by
  have hReached :
      (reachedSlots params args).filter awaits = [] := by
    rw [List.filter_eq_nil_iff]
    intro slot hSlot
    obtain ⟨-, arg, hArg⟩ := of_mem_reachedSlots hSlot
    rcases slot with ⟨param, binding⟩
    simp only at hArg
    simp [hArg, awaits]
  have hBeyond (param : Parameter) :
      awaits
          (param, gathered (positionalOf params).length args param) =
        param.kind.isNamed := by
    by_cases hKind : param.kind = .varPositional
    · simp only [hKind, ParamKind.isNamed, gathered, true_and]
      split <;> simp [awaits, hKind, ParamKind.isNamed]
    · rw [gathered_eq_none hKind]
      rfl
  simp only [awaited, namedBeyond, positionalSlots,
    List.filter_append, hReached, List.nil_append, List.filter_map,
    List.map_map, Function.comp_def, hBeyond]

theorem fillable_positionalSlots_iff
    (absorbs : Bool)
    (keywords : Keywords α)
    (params : List Parameter)
    (args : List α) :
    (∀ slot ∈ positionalSlots params args,
        Fillable absorbs keywords slot) ↔
      ∀ param ∈ beyond args.length params,
        Fillable absorbs keywords (param, none) := by
  have hReached :
      ∀ slot ∈ reachedSlots params args,
        Fillable absorbs keywords slot := by
    intro slot hSlot
    obtain ⟨-, arg, hArg⟩ := of_mem_reachedSlots hSlot
    rcases slot with ⟨param, binding⟩
    simp only at hArg
    simp [hArg, Fillable]
  have hBeyond (param : Parameter) :
      Fillable absorbs keywords
          (param, gathered (positionalOf params).length args param) ↔
        Fillable absorbs keywords (param, none) := by
    by_cases hKind : param.kind = .varPositional
    · cases gathered (positionalOf params).length args param <;>
        simp [Fillable, hKind]
    · rw [gathered_eq_none hKind]
  simp only [positionalSlots, List.forall_mem_append,
    List.forall_mem_map, hBeyond, and_iff_right hReached]

theorem surplus_eq_nil_iff
    (params : List Parameter)
    (args : List α) :
    surplus params args = [] ↔
      args.length ≤ (positionalOf params).length ∨
        ∃ param ∈ params, param.kind = .varPositional := by
  by_cases hGathers :
      ∃ param ∈ params, param.kind = .varPositional
  · simp [surplus, hGathers]
  · simp [surplus, hGathers]

end Slots

------------------------------------------------------------
-- Binding Accepted Calls
------------------------------------------------------------

/- The slots of a call that is accepted, before defaults are filled in. -/
def boundSlots
    (signature : Signature)
    (positional : List α)
    (keywords : Keywords α) :
    List (BoundSlot α) :=
  let slots :=
    (positionalSlots signature.params positional).map (fill keywords)
  match signature.unclaimed positional keywords with
  | [] => slots
  | entry :: rest => bindVarKeyword (entry :: rest) slots

theorem fillable_none_iff
    (absorbs : Bool)
    (keywords : Keywords α)
    (param : Parameter) :
    Fillable absorbs keywords (param, none) ↔
      (param.default = none →
          param.kind.isVariadic = true ∨
            param.kind.isNamed = true ∧
              param.name ∈ keywords.map (·.1)) ∧
        (param.kind = .positionalOnly →
          param.name ∈ keywords.map (·.1) → absorbs = true) := by
  rw [← Keywords.has_iff]
  cases hKind : param.kind <;>
    simp only [Fillable, hKind, ParamKind.isVariadic,
      ParamKind.isNamed] <;>
    grind

theorem hasVarKeyword_iff
    (signature : Signature) :
    signature.hasVarKeyword = true ↔
      ∃ param ∈ signature.params, param.kind = .varKeyword := by
  simp [hasVarKeyword]

theorem unclaimed_eq_nil_iff
    (signature : Signature)
    (positional : List α)
    (keywords : Keywords α) :
    signature.unclaimed positional keywords = [] ↔
      ∀ name ∈ keywords.map (·.1),
        ∃ param ∈ beyond positional.length signature.params,
          param.kind.isNamed = true ∧ param.name = name := by
  simp [unclaimed, Keywords.without, namedBeyond, and_assoc]

/- What is asked of keywords, given what becomes of the last ones. -/
theorem known_iff
    (signature : Signature)
    (positional : List α)
    (keywords : Keywords α) :
    (signature.unclaimed positional keywords = [] ∨
        signature.hasVarKeyword = true) ↔
      ∀ name ∈ keywords.map (·.1),
        (∃ param ∈ beyond positional.length signature.params,
            param.kind.isNamed = true ∧ param.name = name) ∨
          ∃ param ∈ signature.params, param.kind = .varKeyword := by
  rw [unclaimed_eq_nil_iff, ← hasVarKeyword_iff]
  by_cases hAbsorbs : signature.hasVarKeyword = true
  · simp [hAbsorbs]
  · simp [hAbsorbs]

/-
  What is asked of parameters, said of slots. A keyword that
  names what only positions reach is not waited for, since names
  differ, and so it must be absorbed anyway.
-/
theorem fillable_iff_complete
    {signature : Signature}
    {positional : List α}
    {keywords : Keywords α}
    (hWell : signature.WellFormed)
    (hKnown :
      signature.unclaimed positional keywords = [] ∨
        signature.hasVarKeyword = true) :
    (∀ param ∈ beyond positional.length signature.params,
        Fillable signature.hasVarKeyword keywords (param, none)) ↔
      ∀ param ∈ beyond positional.length signature.params,
        param.default = none →
          param.kind.isVariadic = true ∨
            param.kind.isNamed = true ∧
              param.name ∈ keywords.map (·.1) := by
  refine forall₂_congr fun param hParam => ?_
  rw [fillable_none_iff, and_iff_left]
  intro hKind hName
  rcases hKnown with hClaimed | hAbsorbs
  · rw [unclaimed_eq_nil_iff] at hClaimed
    obtain ⟨other, hOther, hNamed, hSame⟩ :=
      hClaimed param.name hName
    have hAll :
        ∀ each ∈ beyond positional.length signature.params,
          each ∈ signature.params := by
      intro each hEach
      rw [← reachedBy_append_beyond positional.length hWell.ordered]
      exact List.mem_append_right _ hEach
    have hEqual : other = param :=
      List.inj_on_of_nodup_map hWell.distinct
        (hAll other hOther) (hAll param hParam) hSame
    rw [hEqual, hKind] at hNamed
    cases hNamed
  · exact hAbsorbs

/- What is accepted, in the order in which binding looks at it. -/
theorem accepts_iff
    {signature : Signature}
    (hWell : signature.WellFormed)
    (positional : List α)
    (keywords : Keywords α) :
    signature.Accepts positional keywords ↔
      Keywords.repeated? [] keywords = none ∧
        Unclashing keywords signature.params positional.length ∧
          surplus signature.params positional = [] ∧
            (∀ slot ∈ positionalSlots signature.params positional,
              Fillable signature.hasVarKeyword keywords slot) ∧
              (signature.unclaimed positional keywords = [] ∨
                signature.hasVarKeyword = true) := by
  have hUnclashing :
      Unclashing keywords signature.params positional.length ↔
        ∀ param ∈ reachedBy positional.length signature.params,
          param.kind = .positionalOrKeyword →
            param.name ∉ keywords.map (·.1) := by
    simp only [Unclashing, ← Bool.not_eq_true, Keywords.has_iff]
  have hRepeated :
      Keywords.repeated? [] keywords = none ↔
        (keywords.map (·.1)).Nodup := by
    simp [Keywords.repeated?_eq_none_iff]
  rw [hRepeated, hUnclashing, surplus_eq_nil_iff,
    fillable_positionalSlots_iff]
  constructor
  · rintro ⟨hDistinct, hRoom, hOnce, hComplete, hKnown⟩
    rw [← known_iff] at hKnown
    exact ⟨hDistinct, hOnce, hRoom,
      (fillable_iff_complete hWell hKnown).mpr hComplete, hKnown⟩
  · rintro ⟨hDistinct, hOnce, hRoom, hFillable, hKnown⟩
    exact ⟨hDistinct, hRoom, hOnce,
      (fillable_iff_complete hWell hKnown).mp hFillable,
      (known_iff signature positional keywords).mp hKnown⟩

/- Binding succeeds on accepted calls, and on no others. -/
theorem bind_eq_ok_iff
    {signature : Signature}
    (hWell : signature.WellFormed)
    (positional : List α)
    (keywords : Keywords α)
    (bound : BoundArguments α) :
    signature.bind positional keywords = .ok bound ↔
      signature.Accepts positional keywords ∧
        ⟨signature.boundSlots positional keywords⟩ = bound := by
  rw [accepts_iff hWell]
  have hPositional :=
    bindPositional_eq_ok_iff hWell.ordered keywords positional
  cases hRepeated : Keywords.repeated? [] keywords with
  | some name => simp [bind, hRepeated]
  | none =>
      have hDistinct : (keywords.map (·.1)).Nodup :=
        ((Keywords.repeated?_eq_none_iff [] keywords).mp hRepeated).1
      have hNames :
          (positionalSlots signature.params positional).map
              (·.1.name) =
            signature.params.map (·.name) := by
        rw [← congrArg (List.map Parameter.name)
          (map_fst_positionalSlots hWell.ordered positional),
          List.map_map]
        rfl
      have hKeywords :=
        bindKeywords_eq_ok_iff signature.hasVarKeyword
          (hNames ▸ hWell.distinct) hDistinct
      rw [awaited_positionalSlots] at hKeywords
      simp only [bind, hRepeated, true_and]
      cases hFirst :
        bindPositional keywords signature.params positional with
      | error fault =>
          have hClash :
              ¬ Unclashing keywords signature.params
                positional.length := by
            intro hOnce
            rw [(hPositional _).mpr ⟨hOnce, rfl⟩] at hFirst
            cases hFirst
          simp [hClash]
      | ok found =>
          obtain ⟨hOnce, rfl⟩ := (hPositional found).mp hFirst
          cases hSurplus : surplus signature.params positional with
          | cons arg rest => simp
          | nil =>
              simp only [hOnce, true_and]
              cases hSecond :
                bindKeywords signature.hasVarKeyword
                  (positionalSlots signature.params positional)
                  keywords with
              | error fault =>
                  have hUnfilled :
                      ¬ ∀ slot ∈
                          positionalSlots signature.params positional,
                        Fillable signature.hasVarKeyword keywords
                          slot := by
                    intro hFillable
                    rw [(hKeywords _).mpr ⟨hFillable, rfl⟩] at hSecond
                    cases hSecond
                  simp only [reduceCtorEq, hUnfilled, false_and]
              | ok found =>
                  obtain ⟨hFillable, rfl⟩ := (hKeywords found).mp hSecond
                  rw [and_iff_right hFillable]
                  simp only [boundSlots, unclaimed]
                  cases hLeft :
                    keywords.without
                      (namedBeyond positional.length
                        signature.params) with
                  | nil => simp
                  | cons entry rest =>
                      by_cases hAbsorbs :
                          signature.hasVarKeyword = true
                      · simp [hAbsorbs]
                      · simp [hAbsorbs]

------------------------------------------------------------
-- Bindings after Defaults
------------------------------------------------------------

/-
  The binding of a parameter that no position reaches, once
  defaults are filled in.
-/
def settled
    (signature : Signature)
    (positional : List α)
    (keywords : Keywords α)
    (param : Parameter) :
    Binding α :=
  match param.kind with
  | .varPositional =>
      .varPositional
        (positional.drop (positionalOf signature.params).length)
  | .varKeyword => .varKeyword (signature.unclaimed positional keywords)
  | .positionalOnly => .default
  | .positionalOrKeyword | .keywordOnly =>
      ((keywords.get? param.name).map .value).getD .default

/- Every parameter with its binding, once defaults are filled in. -/
def settledEntries
    (signature : Signature)
    (positional : List α)
    (keywords : Keywords α) :
    List (Parameter × Binding α) :=
  reachedEntries signature.params positional ++
    (beyond positional.length signature.params).map fun param =>
      (param, signature.settled positional keywords param)

/- A slot that takes all leftover keywords if it collects them. -/
def absorb (left : Keywords α) (slot : BoundSlot α) : BoundSlot α :=
  if slot.1.kind = .varKeyword then
    (slot.1, some (.varKeyword left))
  else slot

/- Only the last parameter collects keywords. -/
theorem bindVarKeyword_eq_map
    {slots : List (BoundSlot α)}
    (hOrdered :
      (slots.map (·.1.kind)).Pairwise ParamKind.MayPrecede)
    (left : Keywords α) :
    bindVarKeyword left slots = slots.map (absorb left) := by
  induction slots with
  | nil => rfl
  | cons slot slots ih =>
      simp only [List.map_cons, List.pairwise_cons] at hOrdered
      have hLater := ih hOrdered.2
      by_cases hKind : slot.1.kind = .varKeyword
      · have hLast : slots = [] := by
          cases slots with
          | nil => rfl
          | cons other rest =>
              have hPrecede := hOrdered.1 other.1.kind (by simp)
              rw [hKind] at hPrecede
              exact absurd hPrecede
                (ParamKind.not_varKeyword_mayPrecede other.1.kind)
        simp [bindVarKeyword, absorb, hKind, hLast]
      · simp [bindVarKeyword, absorb, hKind, hLater]

/- A slot with the default that it falls back to. -/
def withFallback (slot : BoundSlot α) : BoundSlot α :=
  (slot.1, slot.2.or (BoundArguments.defaultBinding slot.1))

@[simp] theorem fst_fill
    (keywords : Keywords α)
    (slot : BoundSlot α) :
    (fill keywords slot).1 = slot.1 := by
  rcases slot with ⟨param, _ | binding⟩
  · simp only [fill]
    split <;> rfl
  · rfl

/- Positional arguments do not reach what collects keywords. -/
theorem snd_eq_none_of_varKeyword
    {params : List Parameter}
    {args : List α}
    {slot : BoundSlot α}
    (hSlot : slot ∈ positionalSlots params args)
    (hKind : slot.1.kind = .varKeyword) :
    slot.2 = none := by
  rcases List.mem_append.mp hSlot with hReached | hBeyond
  · have hPositional := (of_mem_reachedSlots hReached).1
    rw [hKind] at hPositional
    cases hPositional
  · obtain ⟨param, -, rfl⟩ := List.mem_map.mp hBeyond
    simp only at hKind
    exact gathered_eq_none (by simp [hKind])

/- Leftover keywords are absorbed, even if there are none. -/
theorem map_withFallback_boundSlots
    {signature : Signature}
    (hWell : signature.WellFormed)
    (positional : List α)
    (keywords : Keywords α) :
    (signature.boundSlots positional keywords).map withFallback =
      (positionalSlots signature.params positional).map fun slot =>
        withFallback
          (absorb (signature.unclaimed positional keywords)
            (fill keywords slot)) := by
  have hParams := map_fst_positionalSlots hWell.ordered positional
  simp only [boundSlots]
  split
  · rename_i hNone
    rw [hNone, List.map_map]
    apply List.map_congr_left
    intro slot hSlot
    by_cases hKind : slot.1.kind = .varKeyword
    · have hUnbound := snd_eq_none_of_varKeyword hSlot hKind
      rcases slot with ⟨param, binding⟩
      simp only at hKind hUnbound
      simp [hUnbound, fill, hKind, ParamKind.isNamed, absorb,
        withFallback, BoundArguments.defaultBinding]
    · simp [absorb, hKind]
  · rename_i entry rest hLeft
    have hOrdered :
        (((positionalSlots signature.params positional).map
            (fill keywords)).map (·.1.kind)).Pairwise
          ParamKind.MayPrecede := by
      have hKinds := hWell.ordered
      rw [← hParams, List.map_map] at hKinds
      simpa [Function.comp_def] using hKinds
    rw [hLeft, bindVarKeyword_eq_map hOrdered, List.map_map,
      List.map_map]
    rfl

/- A parameter that no position reaches is bound in the end. -/
theorem withFallback_beyond
    {signature : Signature}
    {positional : List α}
    {keywords : Keywords α}
    {param : Parameter}
    (hAccepts : signature.Accepts positional keywords)
    (hParam : param ∈ beyond positional.length signature.params) :
    withFallback
        (absorb (signature.unclaimed positional keywords)
          (fill keywords
            (param,
              gathered (positionalOf signature.params).length
                positional param))) =
      (param, some (signature.settled positional keywords param)) := by
  have hComplete := hAccepts.complete param hParam
  cases hKind : param.kind with
  | varPositional =>
      have hGathered :
          (gathered (positionalOf signature.params).length positional
              param).or
            (some (.varPositional [])) =
          some
            (.varPositional
              (positional.drop
                (positionalOf signature.params).length)) := by
        simp only [gathered, hKind, true_and]
        split
        · rfl
        · rename_i hFew
          rw [List.drop_eq_nil_of_le (by omega)]
          rfl
      cases hFound :
        gathered (positionalOf signature.params).length positional
          param <;>
      simp_all [fill, absorb, withFallback, settled,
        BoundArguments.defaultBinding, ParamKind.isNamed]
  | varKeyword =>
      simp [absorb, withFallback, settled, hKind]
  | positionalOnly =>
      have hDefault : param.default.isSome = true := by
        simpa [hKind, ParamKind.isVariadic, ParamKind.isNamed,
          Option.isSome_iff_ne_none] using hComplete
      rw [gathered_eq_none (by simp [hKind])]
      simp [fill, absorb, withFallback, settled, hKind, hDefault,
        BoundArguments.defaultBinding, ParamKind.isNamed]
  | positionalOrKeyword | keywordOnly =>
      rw [gathered_eq_none (by simp [hKind])]
      cases hGet : keywords.get? param.name with
      | some arg =>
          simp [fill, absorb, withFallback, settled, hKind, hGet,
            ParamKind.isNamed]
      | none =>
          have hDefault : param.default.isSome = true := by
            rw [← Keywords.has_iff, ← Keywords.isSome_get?,
              hGet] at hComplete
            simpa [hKind, ParamKind.isVariadic,
              Option.isSome_iff_ne_none] using hComplete
          simp [fill, absorb, withFallback, settled, hKind, hGet,
            hDefault, BoundArguments.defaultBinding,
            ParamKind.isNamed]

/- So is a parameter that a position reaches. -/
theorem withFallback_reached
    {params : List Parameter}
    {args : List α}
    {slot : BoundSlot α}
    (hSlot : slot ∈ reachedSlots params args)
    (left keywords : Keywords α) :
    withFallback (absorb left (fill keywords slot)) = slot := by
  obtain ⟨hKind, arg, hArg⟩ := of_mem_reachedSlots hSlot
  rcases slot with ⟨param, binding⟩
  simp only at hKind hArg
  have hOther : param.kind ≠ .varKeyword := by
    intro hSame
    rw [hSame] at hKind
    cases hKind
  simp [hArg, fill, absorb, withFallback, hOther]

/- Every parameter of an accepted call is bound. -/
theorem entries_withDefaults_of_bind
    {signature : Signature}
    {positional : List α}
    {keywords : Keywords α}
    {bound : BoundArguments α}
    (hWell : signature.WellFormed)
    (hBind : signature.bind positional keywords = .ok bound) :
    bound.withDefaults.entries =
      signature.settledEntries positional keywords := by
  obtain ⟨hAccepts, rfl⟩ :=
    (bind_eq_ok_iff hWell positional keywords bound).mp hBind
  have hSlots :
      (signature.boundSlots positional keywords).map withFallback =
        (signature.settledEntries positional keywords).map
          fun entry => (entry.1, some entry.2) := by
    rw [map_withFallback_boundSlots hWell, positionalSlots,
      settledEntries, List.map_append, List.map_append,
      List.map_map, List.map_map]
    congr 1
    · calc
        (reachedSlots signature.params positional).map _ =
            (reachedSlots signature.params positional).map id :=
          List.map_congr_left fun slot hSlot =>
            withFallback_reached hSlot _ keywords
        _ = reachedSlots signature.params positional :=
          List.map_id _
    · exact List.map_congr_left fun param hParam =>
        withFallback_beyond hAccepts hParam
  change
    ((signature.boundSlots positional keywords).map
        withFallback).filterMap
      (fun slot => slot.2.map fun content => (slot.1, content)) =
      signature.settledEntries positional keywords
  rw [hSlots, List.filterMap_map]
  exact List.filterMap_some

end Signature

end SnippetGrader
