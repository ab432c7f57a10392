import SnippetGrader.Proofs.Signature.WellFormed
import SnippetGrader.Signature.Binding

/-
  The phases of binding.

  Positional arguments are bound first, then keyword arguments.
  Each phase is described by the arguments that it accepts and by
  what it makes of the slots.

  Key definitions include:
    * `Keywords.get?`, `Keywords.without`
    * `Signature.reachedSlots`, `Signature.gathered`
    * `Signature.Fillable`, `Signature.fill`

  Key theorems include:
    * `Signature.bindPositional_eq_ok_iff`
    * `Signature.bindKeywords_eq_ok_iff`
-/

namespace SnippetGrader

------------------------------------------------------------
-- Keyword Arguments
------------------------------------------------------------

namespace Keywords

variable {α : Type}

/- The first argument with a given name. -/
def get? (keywords : Keywords α) (name : String) : Option α :=
  (keywords.find? fun entry => entry.1 == name).map (·.2)

/- The arguments that have none of the given names. -/
def without (names : List String) (keywords : Keywords α) : Keywords α :=
  keywords.filter fun entry => !names.contains entry.1

theorem repeated?_eq_none_iff
    (seen : List String)
    (keywords : Keywords α) :
    repeated? seen keywords = none ↔
      (keywords.map (·.1)).Nodup ∧
        ∀ name ∈ keywords.map (·.1), name ∉ seen := by
  induction keywords generalizing seen with
  | nil => simp [repeated?]
  | cons entry rest ih =>
      by_cases hSeen : entry.1 ∈ seen
      · simp [repeated?, hSeen]
      · simp only [repeated?, List.contains_eq_mem, hSeen,
          decide_false, Bool.false_eq_true, if_false, ih,
          List.map_cons, List.nodup_cons, List.mem_cons,
          forall_eq_or_imp, not_false_eq_true, true_and]
        constructor
        · rintro ⟨hRest, hNames⟩
          refine ⟨⟨?_, hRest⟩, ?_⟩
          · intro hMem
            exact hNames entry.1 hMem (Or.inl rfl)
          · intro name hMem hOld
            exact hNames name hMem (Or.inr hOld)
        · rintro ⟨⟨hNew, hRest⟩, hNames⟩
          refine ⟨hRest, ?_⟩
          rintro name hMem (rfl | hOld)
          · exact hNew hMem
          · exact hNames name hMem hOld

theorem has_iff
    {keywords : Keywords α}
    {name : String} :
    keywords.has name = true ↔ name ∈ keywords.map (·.1) := by
  simp [has]

theorem isSome_get?
    (keywords : Keywords α)
    (name : String) :
    (keywords.get? name).isSome = keywords.has name := by
  rw [Bool.eq_iff_iff]
  simp [get?, has]

theorem get?_eq_some_iff
    {keywords : Keywords α}
    {name : String}
    {argument : α}
    (hDistinct : (keywords.map (·.1)).Nodup) :
    keywords.get? name = some argument ↔
      (name, argument) ∈ keywords := by
  induction keywords with
  | nil => simp [get?]
  | cons entry rest ih =>
      simp only [List.map_cons, List.nodup_cons] at hDistinct
      have hRest := ih hDistinct.2
      by_cases hHere : entry.1 = name
      · have hFresh : (name, argument) ∉ rest := by
          intro hMem
          exact hDistinct.1 (hHere ▸ List.mem_map_of_mem hMem)
        subst hHere
        simp [get?, hFresh, Prod.ext_iff, eq_comm]
      · have hOther : (name, argument) ≠ entry := by
          rintro rfl
          exact hHere rfl
        simpa [get?, hHere, hOther] using hRest

theorem take?_eq
    (keywords : Keywords α)
    (name : String) :
    keywords.take? name =
      (keywords.get? name).map fun argument =>
        (argument, keywords.eraseP fun entry => entry.1 == name) := by
  simp only [take?, get?, Option.map_map]
  rfl

/- As names differ, taking the first argument of a name takes all. -/
theorem eraseP_eq_without
    {keywords : Keywords α}
    (hDistinct : (keywords.map (·.1)).Nodup)
    (name : String) :
    (keywords.eraseP fun entry => entry.1 == name) =
      keywords.without [name] := by
  induction keywords with
  | nil => rfl
  | cons entry rest ih =>
      simp only [List.map_cons, List.nodup_cons] at hDistinct
      by_cases hName : entry.1 = name
      · have hRest : without [name] rest = rest := by
          simp only [without, List.filter_eq_self]
          intro later hLater
          have hOther : later.1 ≠ name := by
            rintro rfl
            exact hDistinct.1
              (hName ▸ List.mem_map_of_mem hLater)
          simp [hOther]
        have hHere : without [name] (entry :: rest) =
            without [name] rest := by
          simp [without, hName]
        rw [List.eraseP_cons_of_pos (by simp [hName]), hHere, hRest]
      · have hRest := ih hDistinct.2
        rw [List.eraseP_cons_of_neg (by simp [hName]), hRest]
        simp [without, hName]

@[simp] theorem without_nil
    (keywords : Keywords α) :
    keywords.without [] = keywords := by
  simp [without]

theorem without_without
    (first second : List String)
    (keywords : Keywords α) :
    (keywords.without first).without second =
      keywords.without (first ++ second) := by
  simp only [without, List.filter_filter]
  congr 1
  funext entry
  simp [Bool.and_comm]

theorem get?_without
    {names : List String}
    {name : String}
    (keywords : Keywords α)
    (hName : name ∉ names) :
    (keywords.without names).get? name = keywords.get? name := by
  induction keywords with
  | nil => rfl
  | cons entry rest ih =>
      simp only [get?, without, List.find?_filter] at ih ⊢
      by_cases hHere : entry.1 = name
      · subst hHere
        simp [hName]
      · simpa [hHere] using ih

theorem has_without
    {names : List String}
    {name : String}
    (keywords : Keywords α)
    (hName : name ∉ names) :
    (keywords.without names).has name = keywords.has name := by
  rw [← isSome_get?, ← isSome_get?, get?_without keywords hName]

theorem nodup_without
    {keywords : Keywords α}
    (hDistinct : (keywords.map (·.1)).Nodup)
    (names : List String) :
    ((keywords.without names).map (·.1)).Nodup :=
  hDistinct.sublist (List.filter_sublist.map _)

end Keywords

------------------------------------------------------------
-- Positional Arguments
------------------------------------------------------------

namespace Signature

variable {α : Type}

/- A parameter with its binding, if it has one. -/
abbrev BoundSlot (α : Type) := Parameter × Option (Binding α)

/- The parameters that positional arguments reach, with these. -/
def reachedEntries (params : List Parameter) (args : List α) :
    List (Parameter × Binding α) :=
  List.zipWith (fun param arg => (param, .value arg))
    (positionalOf params) args

/- These parameters as slots. -/
def reachedSlots (params : List Parameter) (args : List α) : List (BoundSlot α) :=
  (reachedEntries params args).map fun (param, binding) =>
    (param, some binding)

/-
  What a parameter gathers, given how many of the positional
  arguments go to other parameters. If there are fewer of them,
  it is not looked at.
-/
def gathered (room : Nat) (args : List α) (param : Parameter) : Option (Binding α) :=
  if param.kind = .varPositional ∧ room ≤ args.length then
    some (.varPositional (args.drop room))
  else none

/- The positional arguments that no parameter takes. -/
def surplus (params : List Parameter) (args : List α) : List α :=
  if params.any fun param => param.kind == .varPositional then []
  else args.drop (positionalOf params).length

theorem map_gathered_eq_unbound
    {params : List Parameter}
    {room : Nat}
    {args : List α}
    (hNone :
      ∀ param ∈ params,
        param.kind = .varPositional → args.length < room) :
    params.map (fun param => (param, gathered room args param)) =
      unbound params := by
  apply List.map_congr_left
  intro param hParam
  have hOut : ¬ (param.kind = .varPositional ∧ room ≤ args.length) := by
    rintro ⟨hKind, hRoom⟩
    have hFew := hNone param hParam hKind
    omega
  simp [gathered, hOut]

theorem not_gathering_of_ordered
    {param : Parameter}
    {params : List Parameter}
    (hOrdered :
      ((param :: params).map (·.kind)).Pairwise
        ParamKind.MayPrecede)
    (hKind : param.kind.isPositional = false) :
    ∀ later ∈ params, later.kind ≠ .varPositional := by
  intro later hLater hSame
  have hPrecede :=
    (List.pairwise_cons.mp hOrdered).1 later.kind
      (List.mem_map_of_mem hLater)
  simp only [hSame] at hPrecede
  revert hPrecede hKind
  generalize param.kind = kind
  cases kind <;> decide

theorem bindPositional_of_gathers
    {param : Parameter}
    (hKind : param.kind = .varPositional)
    (keywords : Keywords α)
    (params : List Parameter)
    (args : List α) :
    bindPositional keywords (param :: params) args =
      .ok ((param, some (.varPositional args)) :: unbound params, []) := by
  obtain ⟨name, kind, default⟩ := param
  obtain rfl : kind = .varPositional := hKind
  rfl

theorem bindPositional_of_passes
    {param : Parameter}
    (hKind : param.kind = .keywordOnly ∨ param.kind = .varKeyword)
    (keywords : Keywords α)
    (params : List Parameter)
    (args : List α) :
    bindPositional keywords (param :: params) args =
      .ok (unbound (param :: params), args) := by
  obtain ⟨name, kind, default⟩ := param
  obtain rfl | rfl : kind = .keywordOnly ∨ kind = .varKeyword := hKind <;>
    rfl

/- Where positions end, the arguments are gathered or remain. -/
theorem bindPositional_of_not_positional
    {params : List Parameter}
    (hOrdered :
      (params.map (·.kind)).Pairwise ParamKind.MayPrecede)
    (hKinds :
      ∀ param ∈ params, param.kind.isPositional = false)
    (keywords : Keywords α)
    (args : List α) :
    bindPositional keywords params args =
      .ok
        (params.map fun param => (param, gathered 0 args param),
          surplus params args) := by
  cases params with
  | nil => rfl
  | cons param params =>
      have hKind := hKinds param (by simp)
      have hLater := not_gathering_of_ordered hOrdered hKind
      have hUnbound :
          params.map (fun param => (param, gathered 0 args param)) =
            unbound params :=
        map_gathered_eq_unbound fun later hMem hSame =>
          absurd hSame (hLater later hMem)
      have hAny :
          (params.any fun param => param.kind == .varPositional) =
            false := by
        simpa using hLater
      have hNil :
          positionalOf (param :: params) = [] :=
        positionalOf_eq_nil hKinds
      rw [List.map_cons, hUnbound]
      cases hCase : param.kind with
      | positionalOnly => simp [hCase, ParamKind.isPositional] at hKind
      | positionalOrKeyword =>
          simp [hCase, ParamKind.isPositional] at hKind
      | varPositional =>
          rw [bindPositional_of_gathers hCase]
          simp [hCase, gathered, surplus]
      | keywordOnly =>
          rw [bindPositional_of_passes (Or.inl hCase)]
          simp [hCase, gathered, surplus, hAny, hNil, unbound]
      | varKeyword =>
          rw [bindPositional_of_passes (Or.inr hCase)]
          simp [hCase, gathered, surplus, hAny, hNil, unbound]

/- Positional arguments of which none is named by a keyword as well. -/
def Unclashing
    (keywords : Keywords α)
    (params : List Parameter)
    (count : Nat) :
    Prop :=
  ∀ param ∈ reachedBy count params,
    param.kind = .positionalOrKeyword → keywords.has param.name = false

theorem unclashing_cons_iff
    {keywords : Keywords α}
    {param : Parameter}
    {params : List Parameter}
    {count : Nat}
    (hKind : param.kind.isPositional = true) :
    Unclashing keywords (param :: params) (count + 1) ↔
      (param.kind = .positionalOrKeyword →
          keywords.has param.name = false) ∧
        Unclashing keywords params count := by
  simp [Unclashing, reachedBy, hKind]

/- The parameters after the positional arguments are bound. -/
def positionalSlots (params : List Parameter) (args : List α) : List (BoundSlot α) :=
  reachedSlots params args ++
    (beyond args.length params).map fun param =>
      (param, gathered (positionalOf params).length args param)

theorem positionalSlots_nil
    {params : List Parameter}
    (hOrdered :
      (params.map (·.kind)).Pairwise ParamKind.MayPrecede)
    (hSome : positionalOf params ≠ []) :
    positionalSlots params ([] : List α) = unbound params := by
  have hLength : 0 < (positionalOf params).length :=
    List.length_pos_iff.mpr hSome
  have hAll := reachedBy_append_beyond 0 hOrdered
  simp only [reachedBy, List.take_zero, List.nil_append] at hAll
  rw [positionalSlots, List.length_nil, hAll,
    map_gathered_eq_unbound fun _ _ _ => hLength]
  simp [reachedSlots, reachedEntries]

theorem positionalSlots_cons
    {param : Parameter}
    (hKind : param.kind.isPositional = true)
    (params : List Parameter)
    (arg : α)
    (args : List α) :
    positionalSlots (param :: params) (arg :: args) =
      (param, some (.value arg)) :: positionalSlots params args := by
  have hGathered (later : Parameter) :
      gathered ((positionalOf params).length + 1) (arg :: args) later =
        gathered (positionalOf params).length args later := by
    simp [gathered]
  simp [positionalSlots, reachedSlots, reachedEntries, hKind,
    beyond_cons_positional, hGathered]

theorem bindPositional_nil
    {param : Parameter}
    (hKind : param.kind.isPositional = true)
    (keywords : Keywords α)
    (params : List Parameter) :
    bindPositional keywords (param :: params) [] =
      .ok (unbound (param :: params), []) := by
  obtain ⟨name, kind, default⟩ := param
  cases kind with
  | positionalOnly | positionalOrKeyword => rfl
  | _ => cases hKind

theorem bindPositional_cons
    {param : Parameter}
    (hKind : param.kind.isPositional = true)
    (keywords : Keywords α)
    (params : List Parameter)
    (arg : α)
    (args : List α) :
    bindPositional keywords (param :: params) (arg :: args) =
      if param.kind == .positionalOrKeyword
          && keywords.has param.name then
        .error (.duplicate param.name)
      else
        (bindPositional keywords params args).map fun (slots, left) =>
          ((param, some (.value arg)) :: slots, left) := by
  obtain ⟨name, kind, default⟩ := param
  cases kind with
  | positionalOnly | positionalOrKeyword =>
      rw [bindPositional]
      cases bindPositional keywords params args <;> rfl
  | _ => cases hKind

/-
  Positional arguments are bound as long as no keyword names what
  they reach.
-/
theorem bindPositional_eq_ok_iff
    {params : List Parameter}
    (hOrdered :
      (params.map (·.kind)).Pairwise ParamKind.MayPrecede)
    (keywords : Keywords α)
    (args : List α)
    (result : List (BoundSlot α) × List α) :
    bindPositional keywords params args = .ok result ↔
      Unclashing keywords params args.length ∧
        (positionalSlots params args, surplus params args) =
          result := by
  induction params generalizing args result with
  | nil =>
      change Except.ok ([], args) = Except.ok result ↔ _
      simp [Unclashing, reachedBy, reachedSlots, reachedEntries, beyond,
        positionalOf, surplus, positionalSlots]
  | cons param params ih =>
      by_cases hKind : param.kind.isPositional = true
      · have hRest := (List.pairwise_cons.mp hOrdered).2
        cases args with
        | nil =>
            rw [bindPositional_nil hKind,
              positionalSlots_nil hOrdered (by simp [hKind])]
            simp [Unclashing, reachedBy, surplus]
        | cons arg args =>
            have hSurplus :
                surplus (param :: params) (arg :: args) =
                  surplus params args := by
              have hOther : param.kind ≠ .varPositional := by
                intro hSame
                simp [hSame, ParamKind.isPositional] at hKind
              simp [surplus, hKind, hOther]
            rw [bindPositional_cons hKind, List.length_cons,
              unclashing_cons_iff hKind, positionalSlots_cons hKind,
              hSurplus]
            by_cases hClash :
                param.kind = .positionalOrKeyword ∧
                  keywords.has param.name = true
            · simp [hClash]
            · have hHere :
                  param.kind = .positionalOrKeyword →
                    keywords.has param.name = false := by
                simpa using hClash
              simp only [Bool.and_eq_true, beq_iff_eq, hClash,
                if_false]
              cases hLater : bindPositional keywords params args with
              | error fault =>
                  simp only [Except.map, reduceCtorEq, false_iff]
                  rintro ⟨⟨-, hUnclashing⟩, -⟩
                  rw [(ih hRest args _).mpr ⟨hUnclashing, rfl⟩] at hLater
                  cases hLater
              | ok found =>
                  obtain ⟨hUnclashing, rfl⟩ :=
                    (ih hRest args found).mp hLater
                  simpa [Except.map, hUnclashing] using
                    fun _ => hHere
      · rw [Bool.not_eq_true] at hKind
        have hAll :
            ∀ later ∈ param :: params,
              later.kind.isPositional = false := by
          intro later hLater
          rcases List.mem_cons.mp hLater with rfl | hLater
          · exact hKind
          · exact isPositional_eq_false_of_ordered hOrdered hKind
              later hLater
        rw [bindPositional_of_not_positional hOrdered hAll,
          positionalSlots, beyond_eq_self _ hAll]
        simp [Unclashing, reachedBy, reachedSlots, reachedEntries,
          positionalOf_eq_nil hAll]

------------------------------------------------------------
-- Keyword Arguments of Parameters
------------------------------------------------------------

/- Whether a slot waits for a keyword argument. -/
def awaits : BoundSlot α → Bool
  | (param, none) => param.kind.isNamed
  | (_, some _) => false

/- The names of the slots that wait for a keyword argument. -/
def awaited (slots : List (BoundSlot α)) : List String :=
  (slots.filter awaits).map (·.1.name)

/-
  A slot that keyword arguments can fill, or that needs no
  argument. A keyword must not name what only positions reach,
  unless such keywords are absorbed.
-/
def Fillable (absorbs : Bool) (keywords : Keywords α) : BoundSlot α → Prop
  | (_, some _) => True
  | (param, none) =>
      match param.kind with
      | .varPositional | .varKeyword => True
      | .positionalOnly =>
          ¬ (absorbs = false ∧ keywords.has param.name = true) ∧
            param.default ≠ none
      | .positionalOrKeyword | .keywordOnly =>
          keywords.has param.name = true ∨ param.default ≠ none

/- A slot after keyword arguments are bound. -/
def fill (keywords : Keywords α) : BoundSlot α → BoundSlot α
  | (param, some binding) => (param, some binding)
  | (param, none) =>
      if param.kind.isNamed then
        (param, (keywords.get? param.name).map .value)
      else (param, none)

/- A slot is filled alike without keywords that have other names. -/
theorem fill_without
    {names : List String}
    {slot : BoundSlot α}
    (keywords : Keywords α)
    (hName : slot.1.name ∉ names) :
    fill (keywords.without names) slot = fill keywords slot := by
  rcases slot with ⟨param, _ | binding⟩
  · simp only [fill, Keywords.get?_without keywords hName]
  · rfl

theorem fillable_without_iff
    {names : List String}
    {slot : BoundSlot α}
    (absorbs : Bool)
    (keywords : Keywords α)
    (hName : slot.1.name ∉ names) :
    Fillable absorbs (keywords.without names) slot ↔
      Fillable absorbs keywords slot := by
  rcases slot with ⟨param, _ | binding⟩
  · simp only [Fillable, Keywords.has_without keywords hName]
  · rfl

/- A slot that waits takes the argument of its name, if there is one. -/
theorem bindKeywords_of_isNamed
    {param : Parameter}
    (hNamed : param.kind.isNamed = true)
    (absorbs : Bool)
    (keywords : Keywords α)
    (slots : List (BoundSlot α)) :
    bindKeywords absorbs ((param, none) :: slots) keywords =
      match keywords.take? param.name with
      | some (arg, rest) =>
          match bindKeywords absorbs slots rest with
          | .ok (bound, left) =>
              .ok ((param, some (.value arg)) :: bound, left)
          | .error fault => .error fault
      | none =>
          if param.default.isNone then .error (.missing param.name)
          else
            match bindKeywords absorbs slots keywords with
            | .ok (bound, left) => .ok ((param, none) :: bound, left)
            | .error fault => .error fault := by
  obtain ⟨name, kind, default⟩ := param
  cases kind with
  | positionalOrKeyword | keywordOnly => rfl
  | _ => cases hNamed

theorem fillable_iff_of_isNamed
    {param : Parameter}
    (hNamed : param.kind.isNamed = true)
    (absorbs : Bool)
    (keywords : Keywords α) :
    Fillable absorbs keywords (param, none) ↔
      keywords.has param.name = true ∨ param.default ≠ none := by
  obtain ⟨name, kind, default⟩ := param
  cases kind with
  | positionalOrKeyword | keywordOnly => exact Iff.rfl
  | _ => cases hNamed

/- A slot that waits for no keyword stays as it is. -/
theorem bindKeywords_cons_of_not_awaits
    {absorbs : Bool}
    {keywords : Keywords α}
    {slot : BoundSlot α}
    (hAwaits : awaits slot = false)
    (hFillable : Fillable absorbs keywords slot)
    (slots : List (BoundSlot α)) :
    bindKeywords absorbs (slot :: slots) keywords =
      (bindKeywords absorbs slots keywords).map
        fun (bound, left) => (slot :: bound, left) := by
  have hStep :
      bindKeywords absorbs (slot :: slots) keywords =
        match bindKeywords absorbs slots keywords with
        | .ok (bound, left) => .ok (slot :: bound, left)
        | .error fault => .error fault := by
    rcases slot with ⟨⟨name, kind, default⟩, _ | binding⟩
    · cases kind with
      | varPositional | varKeyword => rfl
      | positionalOrKeyword | keywordOnly => cases hAwaits
      | positionalOnly =>
          obtain ⟨hClash, hDefault⟩ := hFillable
          have hUnclashing : ¬(!absorbs && keywords.has name) = true := by
            simpa using hClash
          have hGiven : ¬default.isNone = true := by
            simpa using hDefault
          exact (if_neg hUnclashing).trans (if_neg hGiven)
    · rfl
  rw [hStep]
  cases bindKeywords absorbs slots keywords <;> rfl

/- A slot that waits for a keyword takes it, or falls back. -/
theorem bindKeywords_cons_of_awaits
    {absorbs : Bool}
    {keywords : Keywords α}
    {slot : BoundSlot α}
    (hDistinct : (keywords.map (·.1)).Nodup)
    (hAwaits : awaits slot = true)
    (hFillable : Fillable absorbs keywords slot)
    (slots : List (BoundSlot α)) :
    bindKeywords absorbs (slot :: slots) keywords =
      (bindKeywords absorbs slots
          (keywords.without [slot.1.name])).map
        fun (bound, left) => (fill keywords slot :: bound, left) := by
  rcases slot with ⟨param, _ | binding⟩
  · have hFill :
        fill keywords (param, none) =
          (param, (keywords.get? param.name).map .value) :=
      if_pos hAwaits
    rw [bindKeywords_of_isNamed hAwaits, Keywords.take?_eq, hFill,
      Keywords.eraseP_eq_without hDistinct param.name]
    cases hGet : keywords.get? param.name with
    | some arg =>
        dsimp only [Option.map_some]
        cases bindKeywords absorbs slots (keywords.without [param.name]) <;>
          rfl
    | none =>
        have hHas : keywords.has param.name = false := by
          rw [← Keywords.isSome_get?, hGet]
          rfl
        have hSame : keywords.without [param.name] = keywords := by
          simp only [Keywords.without, List.filter_eq_self]
          intro entry hEntry
          simp only [Keywords.has, List.any_eq_false,
            beq_iff_eq] at hHas
          simpa using hHas entry hEntry
        have hGiven : ¬param.default.isNone = true := by
          simpa [hHas] using (fillable_iff_of_isNamed hAwaits ..).mp hFillable
        rw [hSame]
        refine (if_neg hGiven).trans ?_
        cases bindKeywords absorbs slots keywords <;> rfl
  · cases hAwaits

theorem bindKeywords_cons_of_not_fillable
    {absorbs : Bool}
    {keywords : Keywords α}
    {slot : BoundSlot α}
    (hFillable : ¬ Fillable absorbs keywords slot)
    (slots : List (BoundSlot α)) :
    ∃ fault,
      bindKeywords absorbs (slot :: slots) keywords =
        .error fault := by
  rcases slot with ⟨param, _ | binding⟩
  · cases hNamed : param.kind.isNamed with
    | true =>
        rw [fillable_iff_of_isNamed hNamed, not_or, not_not,
          Bool.not_eq_true, ← Keywords.isSome_get?,
          Option.isSome_eq_false_iff, Option.isNone_iff_eq_none] at hFillable
        rw [bindKeywords_of_isNamed hNamed, Keywords.take?_eq, hFillable.1,
          hFillable.2]
        exact ⟨.missing param.name, rfl⟩
    | false =>
        obtain ⟨name, kind, default⟩ := param
        cases kind with
        | varPositional | varKeyword => exact absurd trivial hFillable
        | positionalOrKeyword | keywordOnly => cases hNamed
        | positionalOnly =>
            by_cases hClash : (!absorbs && keywords.has name) = true
            · exact ⟨.positionalOnly name, if_pos hClash⟩
            · have hBare : default.isNone = true := by
                by_contra hGiven
                refine hFillable ⟨?_, ?_⟩
                · simpa using hClash
                · simpa using hGiven
              exact ⟨.missing name, (if_neg hClash).trans (if_pos hBare)⟩
  · exact absurd trivial hFillable

/-
  Both cases at once: a slot that can be filled is filled, and
  the keyword that it waits for is gone.
-/
theorem bindKeywords_cons_of_fillable
    {absorbs : Bool}
    {keywords : Keywords α}
    {slot : BoundSlot α}
    (hDistinct : (keywords.map (·.1)).Nodup)
    (hFillable : Fillable absorbs keywords slot)
    (slots : List (BoundSlot α)) :
    bindKeywords absorbs (slot :: slots) keywords =
      (bindKeywords absorbs slots
          (keywords.without (awaited [slot]))).map
        fun (bound, left) => (fill keywords slot :: bound, left) := by
  cases hAwaits : awaits slot with
  | true =>
      rw [bindKeywords_cons_of_awaits hDistinct hAwaits hFillable]
      simp [awaited, hAwaits]
  | false =>
      have hFill : fill keywords slot = slot := by
        rcases slot with ⟨param, _ | binding⟩
        · simp only [awaits] at hAwaits
          simp [fill, hAwaits]
        · rfl
      rw [bindKeywords_cons_of_not_awaits hAwaits hFillable, hFill]
      simp [awaited, hAwaits]

theorem bindKeywords_eq_ok_iff
    (absorbs : Bool)
    {slots : List (BoundSlot α)}
    {keywords : Keywords α}
    (hNames : (slots.map (·.1.name)).Nodup)
    (hDistinct : (keywords.map (·.1)).Nodup)
    (result : List (BoundSlot α) × Keywords α) :
    bindKeywords absorbs slots keywords = .ok result ↔
      (∀ slot ∈ slots, Fillable absorbs keywords slot) ∧
        (slots.map (fill keywords), keywords.without (awaited slots)) =
          result := by
  induction slots generalizing keywords result with
  | nil =>
      change Except.ok ([], keywords) = Except.ok result ↔ _
      simp [awaited]
  | cons slot slots ih =>
      simp only [List.map_cons, List.nodup_cons] at hNames
      have hOthers :
          ∀ other ∈ slots, other.1.name ∉ awaited [slot] := by
        intro other hOther hSame
        simp only [awaited, List.mem_map, List.mem_filter,
          List.mem_singleton] at hSame
        obtain ⟨_, ⟨rfl, -⟩, hName⟩ := hSame
        exact hNames.1 (hName ▸ List.mem_map_of_mem hOther)
      have hFill :
          slots.map (fill (keywords.without (awaited [slot]))) =
            slots.map (fill keywords) :=
        List.map_congr_left fun other hOther =>
          fill_without keywords (hOthers other hOther)
      have hAll :
          (∀ other ∈ slots,
              Fillable absorbs
                (keywords.without (awaited [slot])) other) ↔
            ∀ other ∈ slots, Fillable absorbs keywords other :=
        forall₂_congr fun other hOther =>
          fillable_without_iff absorbs keywords
            (hOthers other hOther)
      have hAwaited :
          awaited (slot :: slots) =
            awaited [slot] ++ awaited slots := by
        simp only [awaited, ← List.map_append, ← List.filter_append]
        rfl
      by_cases hFillable : Fillable absorbs keywords slot
      · have hLater :=
          ih hNames.2
            (Keywords.nodup_without hDistinct (awaited [slot]))
        rw [hAll, hFill, Keywords.without_without,
          ← hAwaited] at hLater
        rw [bindKeywords_cons_of_fillable hDistinct hFillable]
        simp only [List.mem_cons, forall_eq_or_imp, hFillable,
          true_and, List.map_cons]
        cases hFound :
          bindKeywords absorbs slots
            (keywords.without (awaited [slot])) with
        | error fault =>
            simp only [Except.map, reduceCtorEq, false_iff]
            rintro ⟨hSlots, -⟩
            rw [(hLater _).mpr ⟨hSlots, rfl⟩] at hFound
            cases hFound
        | ok found =>
            obtain ⟨hSlots, rfl⟩ := (hLater found).mp hFound
            simp only [Except.map, Except.ok.injEq,
              and_iff_right hSlots]
      · obtain ⟨fault, hFault⟩ :=
          bindKeywords_cons_of_not_fillable hFillable slots
        simp [hFault, hFillable]

end Signature

end SnippetGrader
