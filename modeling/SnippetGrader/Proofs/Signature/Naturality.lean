import SnippetGrader.Proofs.Signature.Phases

/-
  What binding does not look at.

  Binding moves arguments to parameters without looking at them,
  so that it makes no difference whether arguments are changed
  before they are bound or after. Every parameter of a signature
  is bound in the end, whatever its signature is like, and the
  arguments that one parameter collects stand in the call in the
  same order.

  Key definitions include:
    * `Binding.map`, `BoundArguments.map`
    * `Signature.Drawn`

  Key theorems include:
    * `Signature.bind_map`
    * `Signature.drawn_of_bind`
-/

namespace SnippetGrader

variable {α β : Type}

------------------------------------------------------------
-- Changed Arguments
------------------------------------------------------------

/- A binding with its arguments changed. -/
def Binding.map (f : α → β) : Binding α → Binding β
  | .value argument => .value (f argument)
  | .default => .default
  | .varPositional arguments => .varPositional (arguments.map f)
  | .varKeyword arguments =>
      .varKeyword (arguments.map fun entry => (entry.1, f entry.2))

namespace Keywords

/- Keywords with their arguments changed. -/
def mapValues (f : α → β) (keywords : Keywords α) : Keywords β :=
  keywords.map fun entry => (entry.1, f entry.2)

theorem has_mapValues
    (f : α → β)
    (keywords : Keywords α)
    (name : String) :
    (keywords.mapValues f).has name = keywords.has name := by
  simp [has, mapValues, Function.comp_def]

theorem take?_mapValues
    (f : α → β)
    (keywords : Keywords α)
    (name : String) :
    (keywords.mapValues f).take? name =
      (keywords.take? name).map fun taken =>
        (f taken.1, taken.2.mapValues f) := by
  simp only [take?, mapValues, List.find?_map, List.eraseP_map,
    Option.map_map, Function.comp_def]

theorem repeated?_mapValues
    (f : α → β)
    (seen : List String)
    (keywords : Keywords α) :
    (keywords.mapValues f).repeated? seen =
      keywords.repeated? seen := by
  induction keywords generalizing seen with
  | nil => rfl
  | cons entry rest ih =>
      have hRest := ih (entry.1 :: seen)
      simp only [mapValues, List.map_cons, repeated?] at hRest ⊢
      rw [hRest]

end Keywords

namespace Signature

/- A slot with its arguments changed. -/
def mapSlot (f : α → β) (slot : BoundSlot α) : BoundSlot β :=
  (slot.1, slot.2.map (Binding.map f))

theorem map_mapSlot_unbound
    (f : α → β)
    (params : List Parameter) :
    (unbound params).map (mapSlot f) = unbound params := by
  simp [unbound, mapSlot, Function.comp_def]

theorem bindPositional_map
    (f : α → β)
    (keywords : Keywords α)
    (params : List Parameter)
    (args : List α) :
    bindPositional (keywords.mapValues f) params (args.map f) =
      (bindPositional keywords params args).map fun result =>
        (result.1.map (mapSlot f), result.2.map f) := by
  induction params generalizing args with
  | nil => rfl
  | cons param params ih =>
      unfold bindPositional
      cases param.kind
      case varPositional =>
          simp [Except.map, mapSlot, Binding.map, map_mapSlot_unbound]
      case keywordOnly => simp [Except.map, map_mapSlot_unbound]
      case varKeyword => simp [Except.map, map_mapSlot_unbound]
      all_goals
        cases args with
        | nil => simp [Except.map, map_mapSlot_unbound]
        | cons arg rest =>
            simp only [List.map_cons, Keywords.has_mapValues, ih]
            split
            · rfl
            · cases bindPositional keywords params rest <;>
                simp [Except.map, mapSlot, Binding.map]

/- Puts a slot in front of those that keywords were bound to. -/
def withFirst
    (first : BoundSlot α) :
    Except BindError (List (BoundSlot α) × Keywords α) →
      Except BindError (List (BoundSlot α) × Keywords α)
  | .ok (later, left) => .ok (first :: later, left)
  | .error fault => .error fault

theorem bindKeywords_map
    (f : α → β)
    (absorbs : Bool)
    (slots : List (BoundSlot α))
    (keywords : Keywords α) :
    bindKeywords absorbs (slots.map (mapSlot f)) (keywords.mapValues f) =
      (bindKeywords absorbs slots keywords).map fun result =>
        (result.1.map (mapSlot f), result.2.mapValues f) := by
  induction slots generalizing keywords with
  | nil => rfl
  | cons slot slots ih =>
      obtain ⟨param, binding⟩ := slot
      have hRest (keywords : Keywords α) (bound : BoundSlot α) :
          withFirst (mapSlot f bound)
              (bindKeywords absorbs (slots.map (mapSlot f))
                (keywords.mapValues f)) =
            (withFirst bound
              (bindKeywords absorbs slots keywords)).map fun result =>
                (result.1.map (mapSlot f), result.2.mapValues f) := by
        rw [ih]
        cases bindKeywords absorbs slots keywords <;> rfl
      cases binding with
      | some content => exact hRest keywords (param, some content)
      | none =>
          simp only [List.map_cons, mapSlot, Option.map_none,
            bindKeywords, Keywords.has_mapValues,
            Keywords.take?_mapValues]
          cases param.kind
          case varPositional => exact hRest keywords (param, none)
          case varKeyword => exact hRest keywords (param, none)
          case positionalOnly =>
              dsimp only
              split
              · rfl
              · split
                · rfl
                · exact hRest keywords (param, none)
          all_goals
            dsimp only
            cases keywords.take? param.name with
            | some taken =>
                exact hRest taken.2 (param, some (.value taken.1))
            | none =>
                dsimp only [Option.map_none]
                split
                · rfl
                · exact hRest keywords (param, none)

theorem bindVarKeyword_map
    (f : α → β)
    (keywords : Keywords α)
    (slots : List (BoundSlot α)) :
    bindVarKeyword (keywords.mapValues f) (slots.map (mapSlot f)) =
      (bindVarKeyword keywords slots).map (mapSlot f) := by
  induction slots with
  | nil => rfl
  | cons slot slots ih =>
      simp only [List.map_cons, bindVarKeyword, mapSlot]
      split
      · rfl
      · rw [List.map_cons, ← ih]
        rfl

end Signature

/- Bound arguments with the arguments changed. -/
def BoundArguments.map (f : α → β) (bound : BoundArguments α) :
    BoundArguments β :=
  ⟨bound.slots.map (Signature.mapSlot f)⟩

/- Arguments may be changed before they are bound or after. -/
theorem Signature.bind_map
    (f : α → β)
    (signature : Signature)
    (positional : List α)
    (keywords : Keywords α) :
    signature.bind (positional.map f) (keywords.mapValues f) =
      (signature.bind positional keywords).map
        (BoundArguments.map f) := by
  unfold bind
  rw [Keywords.repeated?_mapValues]
  cases Keywords.repeated? [] keywords with
  | some name => rfl
  | none =>
      dsimp only
      rw [bindPositional_map]
      cases bindPositional keywords signature.params positional with
      | error fault => rfl
      | ok reached =>
          obtain ⟨slots, surplus⟩ := reached
          cases surplus with
          | cons arg rest => rfl
          | nil =>
              simp only [Except.map, List.map_nil]
              rw [bindKeywords_map]
              cases bindKeywords signature.hasVarKeyword slots
                  keywords with
              | error fault => rfl
              | ok named =>
                  obtain ⟨bound, left⟩ := named
                  cases left with
                  | nil => rfl
                  | cons entry rest =>
                      have hVar :=
                        bindVarKeyword_map f (entry :: rest) bound
                      simp only [Except.map, Keywords.mapValues,
                        List.map_cons] at hVar ⊢
                      split
                      · simp only [hVar, BoundArguments.map]
                      · rfl

namespace BoundArguments

theorem withDefaults_map
    (f : α → β)
    (bound : BoundArguments α) :
    (bound.map f).withDefaults = bound.withDefaults.map f := by
  have hDefault (param : Parameter) :
      (defaultBinding param : Option (Binding α)).map
          (Binding.map f) =
        defaultBinding param := by
    unfold defaultBinding
    split
    · rfl
    · rfl
    · split <;> rfl
  simp only [withDefaults, map, List.map_map, mk.injEq]
  apply List.map_congr_left
  intro slot _
  obtain ⟨param, binding⟩ := slot
  cases binding with
  | some content => rfl
  | none =>
      simp [Signature.mapSlot, hDefault]

end BoundArguments

------------------------------------------------------------
-- Where Arguments Come From
------------------------------------------------------------

namespace Signature

/-
  A slot that was filled from the arguments of a call: what it
  collects are arguments in the order of the call.
-/
def Drawn (positional : List α) (keywords : Keywords α) :
    BoundSlot α → Prop
  | (_, none) => True
  | (_, some (.value _)) => True
  | (_, some .default) => False
  | (_, some (.varPositional items)) => items.Sublist positional
  | (_, some (.varKeyword pairs)) => pairs.Sublist keywords

/- A slot that is filled, or that has something to fall back to. -/
def Provided : BoundSlot α → Prop
  | (_, some _) => True
  | (param, none) =>
      param.kind.isVariadic = true ∨ param.default.isSome = true

theorem Drawn.of_sublist
    {positional later : List α}
    (hLater : later.Sublist positional)
    {keywords : Keywords α}
    {slot : BoundSlot α}
    (hSlot : Drawn later keywords slot) :
    Drawn positional keywords slot := by
  obtain ⟨param, binding⟩ := slot
  rcases binding with _ | (_ | _ | _ | _)
  · trivial
  · trivial
  · exact hSlot
  · exact List.Sublist.trans hSlot hLater
  · exact hSlot

theorem drawn_unbound
    (positional : List α)
    (keywords : Keywords α)
    (params : List Parameter) :
    ∀ slot ∈ (unbound params : List (BoundSlot α)),
      Drawn positional keywords slot := by
  intro slot hSlot
  obtain ⟨param, _, rfl⟩ := List.mem_map.mp hSlot
  trivial

theorem map_fst_unbound
    (params : List Parameter) :
    (unbound params : List (BoundSlot α)).map (·.1) = params := by
  simp [unbound, Function.comp_def]

/- Positional arguments leave the parameters in place. -/
theorem of_bindPositional_ok
    {keywords : Keywords α}
    {params : List Parameter}
    {args left : List α}
    {slots : List (BoundSlot α)}
    (hBound : bindPositional keywords params args = .ok (slots, left)) :
    slots.map (·.1) = params ∧
      ∀ slot ∈ slots, Drawn args keywords slot := by
  induction params generalizing args slots with
  | nil =>
      cases hBound
      exact ⟨rfl, fun _ hSlot => nomatch hSlot⟩
  | cons param params ih =>
      have hIdle :
          (unbound (param :: params) : List (BoundSlot α)).map (·.1) =
              param :: params ∧
            ∀ slot ∈ (unbound (param :: params) : List (BoundSlot α)),
              Drawn args keywords slot :=
        ⟨map_fst_unbound _, drawn_unbound _ _ _⟩
      unfold bindPositional at hBound
      cases hKind : param.kind <;> rw [hKind] at hBound
      case varPositional =>
          cases hBound
          refine ⟨by rw [List.map_cons, map_fst_unbound], ?_⟩
          intro slot hSlot
          rcases List.mem_cons.mp hSlot with rfl | hLater
          · exact List.Sublist.refl args
          · exact drawn_unbound _ _ _ slot hLater
      case keywordOnly =>
          cases hBound
          exact hIdle
      case varKeyword =>
          cases hBound
          exact hIdle
      all_goals
        cases args with
        | nil =>
            cases hBound
            exact hIdle
        | cons arg rest =>
            dsimp only at hBound
            split at hBound
            · cases hBound
            · cases hRest : bindPositional keywords params rest with
              | error fault => simp [hRest] at hBound
              | ok result =>
                  simp only [hRest, Except.ok.injEq,
                    Prod.mk.injEq] at hBound
                  obtain ⟨rfl, rfl⟩ := hBound
                  obtain ⟨hParams, hDrawn⟩ := ih hRest
                  refine ⟨by rw [List.map_cons, hParams], ?_⟩
                  intro slot hSlot
                  rcases List.mem_cons.mp hSlot with rfl | hLater
                  · trivial
                  · exact (hDrawn slot hLater).of_sublist
                      (List.sublist_cons_self arg rest)

/-
  What keywords leave: the same parameters, each provided for,
  and only single arguments where a slot was filled.
-/
structure Named
    (slots : List (BoundSlot α))
    (keywords : Keywords α)
    (bound : List (BoundSlot α))
    (left : Keywords α) :
    Prop where
  params : bound.map (·.1) = slots.map (·.1)
  leftover : left.Sublist keywords
  provided : ∀ slot ∈ bound, Provided slot
  drawn :
    ∀ slot ∈ bound,
      slot ∈ slots ∨ ∃ param arg, slot = (param, some (.value arg))

/- One slot before others that keywords were bound to. -/
theorem Named.cons
    {slots bound : List (BoundSlot α)}
    {keywords later left : Keywords α}
    (hRest : Named slots later bound left)
    (hLater : later.Sublist keywords)
    {slot first : BoundSlot α}
    (hParam : first.1 = slot.1)
    (hProvided : Provided first)
    (hDrawn :
      first = slot ∨ ∃ param arg, first = (param, some (.value arg))) :
    Named (slot :: slots) keywords (first :: bound) left := by
  refine ⟨?_, hRest.leftover.trans hLater, ?_, ?_⟩
  · rw [List.map_cons, List.map_cons, hParam, hRest.params]
  · intro other hOther
    rcases List.mem_cons.mp hOther with rfl | hThere
    · exact hProvided
    · exact hRest.provided other hThere
  · intro other hOther
    rcases List.mem_cons.mp hOther with rfl | hThere
    · rcases hDrawn with rfl | hValue
      · exact Or.inl List.mem_cons_self
      · exact Or.inr hValue
    · rcases hRest.drawn other hThere with hSame | hValue
      · exact Or.inl (List.mem_cons_of_mem _ hSame)
      · exact Or.inr hValue

theorem sublist_of_take?
    {keywords rest : Keywords α}
    {name : String}
    {arg : α}
    (hTaken : keywords.take? name = some (arg, rest)) :
    rest.Sublist keywords := by
  simp only [Keywords.take?, Option.map_eq_some_iff,
    Prod.mk.injEq] at hTaken
  obtain ⟨_, _, _, rfl⟩ := hTaken
  exact List.eraseP_sublist

theorem named_of_bindKeywords
    {absorbs : Bool}
    {slots bound : List (BoundSlot α)}
    {keywords left : Keywords α}
    (hBound :
      bindKeywords absorbs slots keywords = .ok (bound, left)) :
    Named slots keywords bound left := by
  induction slots generalizing bound keywords left with
  | nil =>
      cases hBound
      exact ⟨rfl, .refl _, List.forall_mem_nil _,
        List.forall_mem_nil _⟩
  | cons slot slots ih =>
      obtain ⟨param, binding⟩ := slot
      have hNext
          {later : Keywords α}
          {first : BoundSlot α}
          (hRest :
            withFirst first (bindKeywords absorbs slots later) =
              Except.ok (bound, left)) :
          ∃ others,
            bound = first :: others ∧ Named slots later others left := by
        cases hInner : bindKeywords absorbs slots later with
        | error fault => simp [hInner, withFirst] at hRest
        | ok result =>
            simp only [hInner, withFirst, Except.ok.injEq,
              Prod.mk.injEq] at hRest
            obtain ⟨rfl, rfl⟩ := hRest
            exact ⟨_, rfl, ih hInner⟩
      -- What is left when a slot stays as it is.
      have hSame
          (hProvided : Provided (param, binding))
          (hRest :
            withFirst (param, binding)
                (bindKeywords absorbs slots keywords) =
              Except.ok (bound, left)) :
          Named ((param, binding) :: slots) keywords bound left := by
        obtain ⟨others, rfl, hOthers⟩ := hNext hRest
        exact hOthers.cons (.refl _) rfl hProvided (Or.inl rfl)
      cases binding with
      | some content => exact hSame trivial hBound
      | none =>
          unfold bindKeywords at hBound
          cases hKind : param.kind <;> simp only [hKind] at hBound
          case varPositional =>
              exact hSame (Or.inl (by rw [hKind]; rfl)) hBound
          case varKeyword =>
              exact hSame (Or.inl (by rw [hKind]; rfl)) hBound
          case positionalOnly =>
              split at hBound
              · cases hBound
              · split at hBound
                · cases hBound
                · rename_i hDefault
                  rw [Bool.not_eq_true, Option.isNone_eq_false_iff]
                    at hDefault
                  exact hSame (Or.inr hDefault) hBound
          all_goals
            cases hTaken : keywords.take? param.name with
            | some taken =>
                simp only [hTaken] at hBound
                obtain ⟨others, rfl, hOthers⟩ := hNext hBound
                exact hOthers.cons (sublist_of_take? hTaken) rfl
                  trivial (Or.inr ⟨_, _, rfl⟩)
            | none =>
                simp only [hTaken] at hBound
                split at hBound
                · cases hBound
                · rename_i hDefault
                  rw [Bool.not_eq_true, Option.isNone_eq_false_iff]
                    at hDefault
                  exact hSame (Or.inr hDefault) hBound

theorem of_mem_bindVarKeyword
    {keywords : Keywords α}
    {slots : List (BoundSlot α)}
    {slot : BoundSlot α}
    (hSlot : slot ∈ bindVarKeyword keywords slots) :
    slot ∈ slots ∨ slot.2 = some (.varKeyword keywords) := by
  induction slots with
  | nil => cases hSlot
  | cons first rest ih =>
      unfold bindVarKeyword at hSlot
      split at hSlot
      · rcases List.mem_cons.mp hSlot with rfl | hLater
        · exact Or.inr rfl
        · exact Or.inl (List.mem_cons_of_mem _ hLater)
      · rcases List.mem_cons.mp hSlot with rfl | hLater
        · exact Or.inl List.mem_cons_self
        · exact (ih hLater).imp (List.mem_cons_of_mem _) id

theorem map_fst_bindVarKeyword
    (keywords : Keywords α)
    (slots : List (BoundSlot α)) :
    (bindVarKeyword keywords slots).map (·.1) = slots.map (·.1) := by
  induction slots with
  | nil => rfl
  | cons slot rest ih =>
      unfold bindVarKeyword
      split
      · rfl
      · rw [List.map_cons, List.map_cons, ih]

/- What binding gives each parameter of a signature. -/
theorem drawn_of_bind
    {signature : Signature}
    {positional : List α}
    {keywords : Keywords α}
    {bound : BoundArguments α}
    (hBound : signature.bind positional keywords = .ok bound) :
    bound.slots.map (·.1) = signature.params ∧
      ∀ slot ∈ bound.slots,
        Provided slot ∧ Drawn positional keywords slot := by
  unfold bind at hBound
  cases hRepeated : Keywords.repeated? [] keywords with
  | some name => simp [hRepeated] at hBound
  | none =>
  rw [hRepeated] at hBound
  dsimp only at hBound
  cases hReached :
      bindPositional keywords signature.params positional with
  | error fault => simp [hReached] at hBound
  | ok reached =>
  obtain ⟨slots, surplus⟩ := reached
  rw [hReached] at hBound
  cases surplus with
  | cons arg rest => cases hBound
  | nil =>
  dsimp only at hBound
  cases hNamed :
      bindKeywords signature.hasVarKeyword slots keywords with
  | error fault => simp [hNamed] at hBound
  | ok named =>
  obtain ⟨slots', left⟩ := named
  rw [hNamed] at hBound
  obtain ⟨hParams, hDrawn⟩ := of_bindPositional_ok hReached
  have hSlots := named_of_bindKeywords hNamed
  have hAll :
      ∀ slot ∈ slots',
        Provided slot ∧ Drawn positional keywords slot := by
    intro slot hSlot
    refine ⟨hSlots.provided slot hSlot, ?_⟩
    rcases hSlots.drawn slot hSlot with hSame | ⟨param, arg, rfl⟩
    · exact hDrawn slot hSame
    · trivial
  cases left with
  | nil =>
      cases hBound
      exact ⟨hSlots.params.trans hParams, hAll⟩
  | cons entry rest =>
      dsimp only at hBound
      split at hBound
      · cases hBound
        refine ⟨?_, ?_⟩
        · rw [map_fst_bindVarKeyword, hSlots.params, hParams]
        · intro slot hSlot
          rcases of_mem_bindVarKeyword hSlot with hSame | hVar
          · exact hAll slot hSame
          · obtain ⟨param, binding⟩ := slot
            subst hVar
            exact ⟨trivial, hSlots.leftover⟩
      · cases hBound

end Signature

end SnippetGrader
