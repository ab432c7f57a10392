import SnippetGrader.Proofs.Signature.Binding

/-
  Binding loses nothing.

  Every parameter of an accepted call has one binding, and the
  arguments of the call can be read off the bindings.

  Key definitions include:
    * `Binding.Fits`
    * `Signature.Distributes`

  Key theorems include:
    * `Signature.distributes_settledEntries`
    * `Signature.bind_accepts_and_distributes`
-/

namespace SnippetGrader

------------------------------------------------------------
-- Arguments Read off Bindings
------------------------------------------------------------

namespace Binding

variable {α : Type}

/- The one argument of a binding. -/
def single? : Binding α → Option α
  | .value argument => some argument
  | _ => none

/- The positional arguments that a binding collects. -/
def collected : Binding α → List α
  | .varPositional arguments => arguments
  | _ => []

/- The keyword arguments that a binding collects. -/
def absorbed : Binding α → Keywords α
  | .varKeyword arguments => arguments
  | _ => []

/- A binding that a parameter may have. -/
def Fits (param : Parameter) : Binding α → Prop
  | .value _ => param.kind.isVariadic = false
  | .default => param.kind.isVariadic = false ∧ param.default ≠ none
  | .varPositional _ => param.kind = .varPositional
  | .varKeyword _ => param.kind = .varKeyword

end Binding

namespace Signature

variable {α : Type}

/-
  Bindings that hold every parameter and every argument of a
  call once. The first parameters have the positional arguments
  and the rest of these is collected. The keyword arguments are
  those of later parameters and those that are absorbed.
-/
structure Distributes
    (signature : Signature)
    (positional : List α)
    (keywords : Keywords α)
    (entries : List (Parameter × Binding α)) :
    Prop where
  params : entries.map (·.1) = signature.params
  fits : ∀ entry ∈ entries, entry.2.Fits entry.1
  byPosition :
    ((entries.take
          (reachedBy positional.length signature.params).length).filterMap
        fun entry => entry.2.single?) ++
      (entries.flatMap fun entry => entry.2.collected) =
    positional
  byName :
    (((entries.drop
            (reachedBy positional.length signature.params).length).filterMap
          fun entry =>
            entry.2.single?.map fun argument =>
              (entry.1.name, argument)) ++
        entries.flatMap fun entry => entry.2.absorbed).Perm
      keywords
  absorbed :
    (entries.flatMap fun entry => entry.2.absorbed).Sublist keywords

section Arguments

variable {params : List Parameter}

/- At most one parameter has a given variadic kind. -/
theorem flatMap_variadic
    {β : Type}
    {kind : ParamKind}
    (hKind : kind.isVariadic = true)
    (hOrdered :
      (params.map (·.kind)).Pairwise ParamKind.MayPrecede)
    (content : List β) :
    (params.flatMap fun param =>
        if param.kind = kind then content else []) =
      if ∃ param ∈ params, param.kind = kind then content else [] := by
  induction params with
  | nil => simp
  | cons param params ih =>
      simp only [List.map_cons, List.pairwise_cons] at hOrdered
      have hLater := ih hOrdered.2
      by_cases hHere : param.kind = kind
      · have hOthers : ¬ ∃ other ∈ params, other.kind = kind := by
          rintro ⟨other, hMem, hSame⟩
          have hPrecede :=
            hOrdered.1 other.kind (List.mem_map_of_mem hMem)
          rw [hHere, hSame] at hPrecede
          rcases hPrecede with hLess | ⟨-, hSingle⟩
          · omega
          · simp [hKind] at hSingle
        rw [if_neg hOthers] at hLater
        simp [hHere, hLater]
      · simp [hHere, hLater]

theorem ordered_beyond
    (hOrdered :
      (params.map (·.kind)).Pairwise ParamKind.MayPrecede)
    (count : Nat) :
    ((beyond count params).map (·.kind)).Pairwise
      ParamKind.MayPrecede := by
  rw [← reachedBy_append_beyond count hOrdered,
    List.map_append] at hOrdered
  exact (List.pairwise_append.mp hOrdered).2.1

/- What is collected is found beyond the reached parameters. -/
theorem exists_variadic_beyond_iff
    {kind : ParamKind}
    (hKind : kind.isVariadic = true)
    (hOrdered :
      (params.map (·.kind)).Pairwise ParamKind.MayPrecede)
    (count : Nat) :
    (∃ param ∈ beyond count params, param.kind = kind) ↔
      ∃ param ∈ params, param.kind = kind := by
  have hNotPositional : kind.isPositional = false := by
    revert hKind
    cases kind <;> decide
  constructor
  · rintro ⟨param, hParam, hSame⟩
    refine ⟨param, ?_, hSame⟩
    rw [← reachedBy_append_beyond count hOrdered]
    exact List.mem_append_right _ hParam
  · rintro ⟨param, hParam, hSame⟩
    refine ⟨param, ?_, hSame⟩
    apply List.mem_append_right
    simp [hParam, hSame, hNotPositional]

theorem filterMap_single?_reachedEntries
    (params : List Parameter)
    (args : List α) :
    (reachedEntries params args).filterMap (·.2.single?) =
      args.take (positionalOf params).length := by
  simp only [reachedEntries]
  induction positionalOf params generalizing args with
  | nil => simp
  | cons param rest ih =>
      cases args with
      | nil => simp
      | cons arg args => simpa [Binding.single?] using ih args

end Arguments

------------------------------------------------------------
-- Settled Entries
------------------------------------------------------------

section Settled

variable {signature : Signature}
variable {positional : List α}
variable {keywords : Keywords α}

theorem fits_settled
    {param : Parameter}
    (hAccepts : signature.Accepts positional keywords)
    (hParam : param ∈ beyond positional.length signature.params) :
    (signature.settled positional keywords param).Fits param := by
  have hComplete := hAccepts.complete param hParam
  cases hKind : param.kind with
  | varPositional => simp [settled, hKind, Binding.Fits]
  | varKeyword => simp [settled, hKind, Binding.Fits]
  | positionalOnly =>
      simpa [settled, hKind, Binding.Fits, ParamKind.isVariadic,
        ParamKind.isNamed] using hComplete
  | positionalOrKeyword | keywordOnly =>
      rw [← Keywords.has_iff, ← Keywords.isSome_get?] at hComplete
      cases hGet : keywords.get? param.name with
      | some arg =>
          simp [settled, hKind, hGet, Binding.Fits,
            ParamKind.isVariadic]
      | none =>
          simpa [settled, hKind, hGet, Binding.Fits,
            ParamKind.isVariadic] using hComplete

theorem collected_settled
    (param : Parameter) :
    (signature.settled positional keywords param).collected =
      if param.kind = .varPositional then
        positional.drop (positionalOf signature.params).length
      else [] := by
  cases hKind : param.kind <;>
    cases hGet : keywords.get? param.name <;>
      simp [settled, hKind, hGet, Binding.collected]

theorem absorbed_settled
    (param : Parameter) :
    (signature.settled positional keywords param).absorbed =
      if param.kind = .varKeyword then
        signature.unclaimed positional keywords
      else [] := by
  cases hKind : param.kind <;>
    cases hGet : keywords.get? param.name <;>
      simp [settled, hKind, hGet, Binding.absorbed]

theorem single?_settled
    (param : Parameter) :
    (signature.settled positional keywords param).single? =
      if param.kind.isNamed = true then keywords.get? param.name
      else none := by
  cases hKind : param.kind <;>
    cases hGet : keywords.get? param.name <;>
      simp [settled, hKind, hGet, Binding.single?,
        ParamKind.isNamed]

/- Nothing is collected where positions reach. -/
theorem flatMap_reachedEntries
    {β : Type}
    {content : Binding α → List β}
    (hValue : ∀ arg, content (.value arg) = [])
    (params : List Parameter)
    (args : List α) :
    ((reachedEntries params args).flatMap fun entry =>
      content entry.2) = [] := by
  rw [List.flatMap_eq_nil_iff]
  intro entry hEntry
  obtain ⟨-, arg, hArg⟩ := of_mem_reachedEntries hEntry
  rw [hArg, hValue]

theorem flatMap_collected_settledEntries
    (hWell : signature.WellFormed)
    (hAccepts : signature.Accepts positional keywords) :
    ((signature.settledEntries positional keywords).flatMap
        fun entry => entry.2.collected) =
      positional.drop (positionalOf signature.params).length := by
  have hReached :
      ((reachedEntries signature.params positional).flatMap
        fun entry => entry.2.collected) = [] :=
    flatMap_reachedEntries (fun _ => rfl) _ _
  rw [settledEntries, List.flatMap_append, hReached,
    List.nil_append, List.flatMap_map]
  simp only [collected_settled]
  rw [flatMap_variadic rfl
    (ordered_beyond hWell.ordered positional.length)]
  split
  · rfl
  · rename_i hNone
    rw [exists_variadic_beyond_iff rfl hWell.ordered] at hNone
    have hRoom := hAccepts.room.resolve_right hNone
    exact (List.drop_eq_nil_of_le hRoom).symm

theorem flatMap_absorbed_settledEntries
    (hWell : signature.WellFormed)
    (hAccepts : signature.Accepts positional keywords) :
    ((signature.settledEntries positional keywords).flatMap
        fun entry => entry.2.absorbed) =
      signature.unclaimed positional keywords := by
  have hReached :
      ((reachedEntries signature.params positional).flatMap
        fun entry => entry.2.absorbed) = [] :=
    flatMap_reachedEntries (fun _ => rfl) _ _
  rw [settledEntries, List.flatMap_append, hReached,
    List.nil_append, List.flatMap_map]
  simp only [absorbed_settled]
  rw [flatMap_variadic rfl
    (ordered_beyond hWell.ordered positional.length)]
  split
  · rfl
  · rename_i hNone
    rw [exists_variadic_beyond_iff rfl hWell.ordered,
      ← hasVarKeyword_iff] at hNone
    have hKnown :=
      (known_iff signature positional keywords).mpr hAccepts.known
    exact (hKnown.resolve_right hNone).symm

/- The keyword arguments that parameters wait for are theirs. -/
theorem claimed_perm
    (hWell : signature.WellFormed)
    (hDistinct : (keywords.map (·.1)).Nodup) :
    ((beyond positional.length signature.params).filterMap
        fun param =>
          (signature.settled positional keywords param).single?.map
            fun argument => (param.name, argument)).Perm
      (keywords.filter fun entry =>
        (namedBeyond positional.length signature.params).contains
          entry.1) := by
  have hNames :
      (beyond positional.length signature.params).Pairwise
        fun first second => first.name ≠ second.name := by
    have hAll := hWell.distinct
    rw [← reachedBy_append_beyond positional.length hWell.ordered,
      List.map_append] at hAll
    exact List.pairwise_map.mp (List.nodup_append.mp hAll).2.1
  have hLeft :
      ((beyond positional.length signature.params).filterMap
        fun param =>
          (signature.settled positional keywords param).single?.map
            fun argument => (param.name, argument)).Nodup := by
    refine List.pairwise_filterMap.mpr (hNames.imp ?_)
    intro first second hNe found hFound other hOther hSame
    simp only [Option.map_eq_some_iff] at hFound hOther
    obtain ⟨_, _, rfl⟩ := hFound
    obtain ⟨_, _, rfl⟩ := hOther
    exact hNe (congrArg Prod.fst hSame)
  have hRight := (hDistinct.of_map _).filter fun entry =>
    (namedBeyond positional.length signature.params).contains entry.1
  rw [List.perm_ext_iff_of_nodup hLeft hRight]
  rintro ⟨name, argument⟩
  simp only [List.mem_filterMap, single?_settled,
    Option.map_eq_some_iff, List.mem_filter, namedBeyond,
    List.contains_eq_mem, List.mem_map, decide_eq_true_eq]
  constructor
  · rintro ⟨param, hParam, found, hFound, hSame⟩
    cases hSame
    split at hFound
    · rename_i hNamed
      exact ⟨(Keywords.get?_eq_some_iff hDistinct).mp hFound,
        param, ⟨hParam, hNamed⟩, rfl⟩
    · cases hFound
  · rintro ⟨hMem, param, ⟨hParam, hNamed⟩, rfl⟩
    refine ⟨param, hParam, argument, ?_, rfl⟩
    rw [if_pos hNamed]
    exact (Keywords.get?_eq_some_iff hDistinct).mpr hMem

theorem distributes_settledEntries
    (hWell : signature.WellFormed)
    (hAccepts : signature.Accepts positional keywords) :
    signature.Distributes positional keywords
      (signature.settledEntries positional keywords) := by
  have hLength :
      (reachedEntries signature.params positional).length =
        (reachedBy positional.length signature.params).length := by
    rw [← map_fst_reachedEntries, List.length_map]
  constructor
  case params =>
    rw [settledEntries, List.map_append, map_fst_reachedEntries,
      List.map_map]
    simpa [Function.comp_def] using
      reachedBy_append_beyond positional.length hWell.ordered
  case fits =>
    intro entry hEntry
    rcases List.mem_append.mp hEntry with hReached | hBeyond
    · obtain ⟨hKind, arg, hArg⟩ := of_mem_reachedEntries hReached
      rw [hArg]
      revert hKind
      simp only [Binding.Fits]
      cases entry.1.kind <;> decide
    · obtain ⟨param, hParam, rfl⟩ := List.mem_map.mp hBeyond
      exact fits_settled hAccepts hParam
  case byPosition =>
    rw [flatMap_collected_settledEntries hWell hAccepts,
      settledEntries, List.take_left' hLength,
      filterMap_single?_reachedEntries, List.take_append_drop]
  case byName =>
    rw [flatMap_absorbed_settledEntries hWell hAccepts,
      settledEntries, List.drop_left' hLength, List.filterMap_map]
    refine ((claimed_perm hWell hAccepts.distinct).append_right
      _).trans ?_
    exact List.filter_append_perm _ keywords
  case absorbed =>
    rw [flatMap_absorbed_settledEntries hWell hAccepts]
    exact List.filter_sublist

end Settled

/-
  Binding succeeds on exactly the calls that are accepted. Then
  every parameter has one binding, and no argument is lost.
-/
theorem bind_accepts_and_distributes
    (signature : Signature)
    (hWell : signature.WellFormed)
    (positional : List α)
    (keywords : Keywords α) :
    ((∃ bound, signature.bind positional keywords = .ok bound) ↔
        signature.Accepts positional keywords) ∧
      ∀ bound, signature.bind positional keywords = .ok bound →
        signature.Distributes positional keywords
          bound.withDefaults.entries := by
  constructor
  · constructor
    · rintro ⟨bound, hBind⟩
      exact ((bind_eq_ok_iff hWell _ _ bound).mp hBind).1
    · intro hAccepts
      exact ⟨_, (bind_eq_ok_iff hWell _ _ _).mpr ⟨hAccepts, rfl⟩⟩
  · intro bound hBind
    rw [entries_withDefaults_of_bind hWell hBind]
    exact distributes_settledEntries hWell
      ((bind_eq_ok_iff hWell _ _ bound).mp hBind).1

/-
  A keyword may have the name of a parameter that only positions
  reach. It is then collected with the other keywords.
-/
theorem distributes_reused_name :
    let signature : Signature :=
      ⟨[⟨"first", .positionalOnly, none⟩,
        ⟨"second", .positionalOrKeyword, some default⟩,
        ⟨"others", .varPositional, none⟩,
        ⟨"last", .keywordOnly, none⟩,
        ⟨"options", .varKeyword, none⟩]⟩
    let positional := [1, 2, 3]
    let keywords := [("first", 4), ("last", 5)]
    signature.WellFormed ∧
      ∃ bound,
        signature.bind positional keywords = .ok bound ∧
          signature.Distributes positional keywords
            bound.withDefaults.entries := by
  intro signature positional keywords
  have hWell : signature.WellFormed := by decide
  refine ⟨hWell, _, rfl, ?_⟩
  exact
    (bind_accepts_and_distributes signature hWell positional
      keywords).2 _ rfl

end Signature

end SnippetGrader
