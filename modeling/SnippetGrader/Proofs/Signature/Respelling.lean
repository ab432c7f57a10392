import SnippetGrader.Proofs.Signature.Binding
import SnippetGrader.Proofs.Signature.Receiver

/-
  One call written in several ways.

  A call may list its keyword arguments in any order, and it may
  pass its last positional argument by name. Either way every
  parameter is bound to the same argument, and a call that does
  not fit is refused for the same reason. Only what the order
  itself decides may differ: the order in which keywords are
  collected, and which of several faulty keywords is reported.

  Key definitions include:
    * `SameOutcome`
    * `Signature.refusal?`
    * `Signature.BoundAlike`

  Key theorems include:
    * `Signature.bindKeywords_cons`
    * `Signature.bind_last_by_name`
    * `Signature.bind_of_perm`
    * `Signature.bind_respelled`
-/

namespace SnippetGrader

------------------------------------------------------------
-- Outcomes
------------------------------------------------------------

/- The same fault on both sides, or results that are related. -/
inductive SameOutcome
    {β γ : Type}
    (related : β → γ → Prop) :
    Except BindError β → Except BindError γ → Prop
  | ok
      {first : β}
      {second : γ}
      (here : related first second) :
      SameOutcome related (.ok first) (.ok second)
  | error
      (fault : BindError) :
      SameOutcome related (.error fault) (.error fault)

theorem SameOutcome.map
    {β γ β' γ' : Type}
    {related : β → γ → Prop}
    {changed : β' → γ' → Prop}
    {first : Except BindError β}
    {second : Except BindError γ}
    {f : β → β'}
    {g : γ → γ'}
    (hOutcome : SameOutcome related first second)
    (hChanged : ∀ a b, related a b → changed (f a) (g b)) :
    SameOutcome changed (first.map f) (second.map g) := by
  cases hOutcome with
  | ok hHere => exact .ok (hChanged _ _ hHere)
  | error fault => exact .error fault

theorem SameOutcome.cases
    {β γ : Type}
    {related : β → γ → Prop}
    {first : Except BindError β}
    {second : Except BindError γ}
    (hOutcome : SameOutcome related first second) :
    (∃ fault, first = .error fault ∧ second = .error fault) ∨
      ∃ a b, first = .ok a ∧ second = .ok b ∧ related a b := by
  cases hOutcome with
  | ok hHere => exact Or.inr ⟨_, _, rfl, rfl, hHere⟩
  | error fault => exact Or.inl ⟨fault, rfl, rfl⟩

------------------------------------------------------------
-- Keywords in Another Order
------------------------------------------------------------

namespace Keywords

variable {α : Type}
variable {keywords others front back : Keywords α}

theorem has_of_perm
    (hPerm : keywords.Perm others)
    (name : String) :
    keywords.has name = others.has name := by
  rw [Bool.eq_iff_iff, has_iff, has_iff]
  exact (hPerm.map _).mem_iff

/- As names differ, the argument of a name does not depend on the order. -/
theorem get?_of_perm
    (hPerm : keywords.Perm others)
    (hDistinct : (keywords.map (·.1)).Nodup)
    (name : String) :
    keywords.get? name = others.get? name := by
  have hOthers : (others.map (·.1)).Nodup :=
    (hPerm.map _).nodup hDistinct
  apply Option.ext
  intro argument
  rw [get?_eq_some_iff hDistinct, get?_eq_some_iff hOthers]
  exact hPerm.mem_iff

theorem eraseP_of_perm
    (hPerm : keywords.Perm others)
    (hDistinct : (keywords.map (·.1)).Nodup)
    (name : String) :
    (keywords.eraseP fun entry => entry.1 == name).Perm
      (others.eraseP fun entry => entry.1 == name) := by
  have hOthers : (others.map (·.1)).Nodup :=
    (hPerm.map _).nodup hDistinct
  rw [eraseP_eq_without hDistinct, eraseP_eq_without hOthers]
  exact hPerm.filter _

/- Keywords with distinct names are the same if their names come in order. -/
theorem eq_of_perm_of_names
    (hPerm : keywords.Perm others)
    (hDistinct : (keywords.map (·.1)).Nodup)
    (hNames : keywords.map (·.1) = others.map (·.1)) :
    keywords = others := by
  induction keywords generalizing others with
  | nil => exact hPerm.nil_eq
  | cons entry rest ih =>
      cases others with
      | nil => cases hNames
      | cons other rest' =>
          rw [List.map_cons, List.map_cons, List.cons.injEq] at hNames
          have hEntry : other = entry :=
            List.inj_on_of_nodup_map hDistinct
              (hPerm.mem_iff.mpr List.mem_cons_self) List.mem_cons_self
              hNames.1.symm
          subst hEntry
          rw [ih hPerm.cons_inv (List.nodup_cons.mp hDistinct).2 hNames.2]

------------------------------------------------------------
-- One More Keyword
------------------------------------------------------------

theorem has_insert
    {name other : String}
    (hOther : other ≠ name)
    (argument : α) :
    has (front ++ (name, argument) :: back) other =
      has (front ++ back) other := by
  have hName : (name == other) = false :=
    beq_eq_false_iff_ne.mpr hOther.symm
  simp only [has, List.any_append, List.any_cons, hName, Bool.false_or]

/- What was seen matters only for the names that follow. -/
theorem repeated?_congr
    {seen known : List String}
    (hSame :
      ∀ name ∈ keywords.map (·.1), name ∈ seen ↔ name ∈ known) :
    repeated? seen keywords = repeated? known keywords := by
  induction keywords generalizing seen known with
  | nil => rfl
  | cons entry rest ih =>
      rw [List.map_cons, List.forall_mem_cons] at hSame
      obtain ⟨hHere, hRest⟩ := hSame
      have hLater :
          repeated? (entry.1 :: seen) rest =
            repeated? (entry.1 :: known) rest := by
        apply ih
        intro name hMem
        simp only [List.mem_cons, hRest name hMem]
      simp only [repeated?, List.contains_eq_mem, hHere, hLater]

theorem repeated?_insert
    {name : String}
    (hFresh : has (front ++ back) name = false)
    {seen : List String}
    (hUnseen : name ∉ seen)
    (argument : α) :
    repeated? seen (front ++ (name, argument) :: back) =
      repeated? seen (front ++ back) := by
  induction front generalizing seen with
  | nil =>
      simp only [List.nil_append, repeated?, List.contains_eq_mem,
        hUnseen, decide_false, Bool.false_eq_true, if_false]
      apply repeated?_congr
      intro other hMem
      have hOther : other ≠ name := by
        rintro rfl
        rw [List.nil_append, ← Bool.not_eq_true, has_iff] at hFresh
        exact hFresh hMem
      simp [hOther]
  | cons entry rest ih =>
      have hEntry : name ≠ entry.1 := by
        rintro rfl
        simp [has] at hFresh
      have hRest : has (rest ++ back) name = false := by
        simpa [has, hEntry.symm] using hFresh
      have hLater :=
        @ih hRest (entry.1 :: seen) (by simp [hEntry, hUnseen])
      simp only [List.cons_append, repeated?, hLater]

/- A keyword is taken from wherever it stands. -/
theorem get?_insert
    {name : String}
    (hFresh : has (front ++ back) name = false)
    (argument : α) :
    get? (front ++ (name, argument) :: back) name = some argument := by
  have hFront : ∀ entry ∈ front, entry.1 ≠ name := by
    rintro entry hMem rfl
    rw [← Bool.not_eq_true, has_iff] at hFresh
    exact hFresh (List.mem_map_of_mem (List.mem_append_left _ hMem))
  have hNone : (front.find? fun entry => entry.1 == name) = none := by
    simpa using hFront
  simp [get?, List.find?_append, hNone]

theorem eraseP_insert
    {name : String}
    (hFresh : has (front ++ back) name = false)
    (argument : α) :
    ((front ++ (name, argument) :: back).eraseP
        fun entry => entry.1 == name) =
      front ++ back := by
  have hFront : ∀ entry ∈ front, ¬ (entry.1 == name) = true := by
    intro entry hMem hSame
    rw [← Bool.not_eq_true, has_iff] at hFresh
    rw [beq_iff_eq] at hSame
    subst hSame
    exact hFresh (List.mem_map_of_mem (List.mem_append_left _ hMem))
  rw [List.eraseP_append_right _ hFront, List.eraseP_cons_of_pos]
  exact beq_self_eq_true name

end Keywords

------------------------------------------------------------
-- One Slot at a Time
------------------------------------------------------------

namespace Signature

variable {α : Type}
variable {keywords others : Keywords α}

/- Why keyword arguments cannot fill a slot, if they cannot. -/
def refusal?
    (absorbs : Bool)
    (keywords : Keywords α) :
    BoundSlot α → Option BindError
  | (_, some _) => none
  | (param, none) =>
      match param.kind with
      | .varPositional | .varKeyword => none
      | .positionalOnly =>
          if !absorbs && keywords.has param.name then
            some (.positionalOnly param.name)
          else if param.default.isNone then some (.missing param.name)
          else none
      | .positionalOrKeyword | .keywordOnly =>
          if !keywords.has param.name && param.default.isNone then
            some (.missing param.name)
          else none

/- The keyword arguments that remain once a slot is filled. -/
def remaining (keywords : Keywords α) (slot : BoundSlot α) : Keywords α :=
  if awaits slot then
    keywords.eraseP fun entry => entry.1 == slot.1.name
  else keywords

/- A slot refuses the arguments, or is filled before the later ones. -/
theorem bindKeywords_cons
    (absorbs : Bool)
    (slot : BoundSlot α)
    (slots : List (BoundSlot α))
    (keywords : Keywords α) :
    bindKeywords absorbs (slot :: slots) keywords =
      match refusal? absorbs keywords slot with
      | some fault => .error fault
      | none =>
          (bindKeywords absorbs slots (remaining keywords slot)).map
            fun (bound, left) => (fill keywords slot :: bound, left) := by
  rcases slot with ⟨param, _ | binding⟩
  · have hErase (hNone : keywords.get? param.name = none) :
        (keywords.eraseP fun entry => entry.1 == param.name) =
          keywords := by
      apply List.eraseP_of_forall_not
      simpa [Keywords.get?] using hNone
    have hHas := Keywords.isSome_get? keywords param.name
    cases hKind : param.kind with
    | varPositional | varKeyword =>
        simp only [bindKeywords, refusal?, remaining, awaits, fill, hKind,
          ParamKind.isNamed, Bool.false_eq_true, if_false]
        cases bindKeywords absorbs slots keywords <;> rfl
    | positionalOnly =>
        simp only [bindKeywords, refusal?, remaining, awaits, fill, hKind,
          ParamKind.isNamed, Bool.false_eq_true, if_false]
        split
        · rfl
        · split
          · rfl
          · cases bindKeywords absorbs slots keywords <;> rfl
    | positionalOrKeyword | keywordOnly =>
        simp only [bindKeywords, refusal?, remaining, awaits, fill, hKind,
          ParamKind.isNamed, if_true, Keywords.take?_eq, ← hHas]
        cases hGet : keywords.get? param.name with
        | some arg =>
            simp only [Option.map_some, Option.isSome_some,
              Bool.not_true, Bool.false_and, Bool.false_eq_true, if_false]
            cases bindKeywords absorbs slots
              (keywords.eraseP fun entry => entry.1 == param.name) <;> rfl
        | none =>
            rw [hErase hGet]
            simp only [Option.map_none, Option.isSome_none,
              Bool.not_false, Bool.true_and]
            split
            · rfl
            · cases bindKeywords absorbs slots keywords <;> rfl
  · simp only [bindKeywords, refusal?, remaining, awaits, fill,
      Bool.false_eq_true, if_false]
    cases bindKeywords absorbs slots keywords <;> rfl

/- Slots that are bound already stay as they are. -/
theorem bindKeywords_append_bound
    (absorbs : Bool)
    {bound : List (BoundSlot α)}
    (hBound : ∀ slot ∈ bound, slot.2.isSome = true)
    (slots : List (BoundSlot α))
    (keywords : Keywords α) :
    bindKeywords absorbs (bound ++ slots) keywords =
      (bindKeywords absorbs slots keywords).map
        fun (later, left) => (bound ++ later, left) := by
  induction bound with
  | nil =>
      rw [List.nil_append]
      cases bindKeywords absorbs slots keywords <;> rfl
  | cons slot rest ih =>
      rw [List.forall_mem_cons] at hBound
      rcases slot with ⟨param, _ | binding⟩
      · cases hBound.1
      · rw [List.cons_append, bindKeywords_bound, ih hBound.2]
        cases bindKeywords absorbs slots keywords <;> rfl

/- What is made of the keywords that no parameter took by name. -/
def collect
    (signature : Signature) :
    List (BoundSlot α) × Keywords α →
    Except BindError (BoundArguments α)
  | (bound, []) => .ok ⟨bound⟩
  | (bound, (name, argument) :: left) =>
      if signature.hasVarKeyword then
        .ok ⟨bindVarKeyword ((name, argument) :: left) bound⟩
      else .error (.unexpected name)

/- Binding goes on with the slots that positional arguments leave. -/
theorem bind_of_bindPositional
    {signature : Signature}
    {positional : List α}
    (hRepeated : Keywords.repeated? [] keywords = none)
    {slots : List (BoundSlot α)}
    (hSlots :
      bindPositional keywords signature.params positional =
        .ok (slots, [])) :
    signature.bind positional keywords =
      (bindKeywords signature.hasVarKeyword slots keywords).bind
        signature.collect := by
  simp only [bind, hRepeated, hSlots]
  rcases bindKeywords signature.hasVarKeyword slots keywords with
    fault | ⟨bound, _ | ⟨entry, left⟩⟩ <;> rfl

------------------------------------------------------------
-- The Order of Keywords
------------------------------------------------------------

/- Positional arguments are bound by the names of keywords alone. -/
theorem bindPositional_congr
    {params : List Parameter}
    (hSame :
      ∀ param ∈ params, keywords.has param.name = others.has param.name)
    (args : List α) :
    bindPositional keywords params args =
      bindPositional others params args := by
  induction params generalizing args with
  | nil => rfl
  | cons param params ih =>
      rw [List.forall_mem_cons] at hSame
      cases args with
      | nil => cases hKind : param.kind <;> simp [bindPositional, hKind]
      | cons arg args =>
          cases hKind : param.kind <;>
            simp [bindPositional, hKind, hSame.1, ih hSame.2]

/- Whether a slot is refused, and how it is filled, is not for the order. -/
theorem refusal?_of_perm
    (absorbs : Bool)
    (hPerm : keywords.Perm others)
    (slot : BoundSlot α) :
    refusal? absorbs keywords slot = refusal? absorbs others slot := by
  rcases slot with ⟨param, _ | binding⟩
  · simp only [refusal?, Keywords.has_of_perm hPerm param.name]
  · rfl

theorem fill_of_perm
    (hPerm : keywords.Perm others)
    (hDistinct : (keywords.map (·.1)).Nodup)
    (slot : BoundSlot α) :
    fill keywords slot = fill others slot := by
  rcases slot with ⟨param, _ | binding⟩
  · simp only [fill, Keywords.get?_of_perm hPerm hDistinct param.name]
  · rfl

theorem remaining_of_perm
    (hPerm : keywords.Perm others)
    (hDistinct : (keywords.map (·.1)).Nodup)
    (slot : BoundSlot α) :
    (remaining keywords slot).Perm (remaining others slot) := by
  unfold remaining
  split
  · exact Keywords.eraseP_of_perm hPerm hDistinct slot.1.name
  · exact hPerm

theorem nodup_remaining
    (hDistinct : (keywords.map (·.1)).Nodup)
    (slot : BoundSlot α) :
    ((remaining keywords slot).map (·.1)).Nodup := by
  unfold remaining
  split
  · exact hDistinct.sublist (List.eraseP_sublist.map _)
  · exact hDistinct

/- The same slots are filled alike, and as many keywords remain. -/
theorem bindKeywords_of_perm
    (absorbs : Bool)
    (slots : List (BoundSlot α))
    (hPerm : keywords.Perm others)
    (hDistinct : (keywords.map (·.1)).Nodup) :
    SameOutcome
      (fun first second => first.1 = second.1 ∧ first.2.Perm second.2)
      (bindKeywords absorbs slots keywords)
      (bindKeywords absorbs slots others) := by
  induction slots generalizing keywords others with
  | nil => exact .ok ⟨rfl, hPerm⟩
  | cons slot slots ih =>
      rw [bindKeywords_cons, bindKeywords_cons,
        refusal?_of_perm absorbs hPerm slot]
      cases refusal? absorbs others slot with
      | some fault => exact .error fault
      | none =>
          have hLater :=
            ih (remaining_of_perm hPerm hDistinct slot)
              (nodup_remaining hDistinct slot)
          refine hLater.map ?_
          rintro ⟨bound, left⟩ ⟨_, left'⟩ ⟨rfl, hLeft⟩
          refine ⟨?_, hLeft⟩
          rw [fill_of_perm hPerm hDistinct slot]

/- Bindings that differ at most in the order of collected keywords. -/
def SameBinding : Binding α → Binding α → Prop
  | .varKeyword first, .varKeyword second => first.Perm second
  | first, second => first = second

theorem SameBinding.refl
    (binding : Binding α) :
    SameBinding binding binding := by
  cases binding with
  | varKeyword arguments => exact List.Perm.refl arguments
  | _ => rfl

/- Slots of one parameter whose bindings differ at most in that order. -/
def SameSlot (first second : BoundSlot α) : Prop :=
  first.1 = second.1 ∧ Option.Rel SameBinding first.2 second.2

theorem SameSlot.refl
    (slot : BoundSlot α) :
    SameSlot slot slot := by
  rcases slot with ⟨param, _ | binding⟩
  · exact ⟨rfl, .none⟩
  · exact ⟨rfl, .some (SameBinding.refl binding)⟩

theorem sameSlot_bindVarKeyword
    (hPerm : keywords.Perm others)
    (slots : List (BoundSlot α)) :
    List.Forall₂ SameSlot (bindVarKeyword keywords slots)
      (bindVarKeyword others slots) := by
  induction slots with
  | nil => exact .nil
  | cons slot slots ih =>
      simp only [bindVarKeyword]
      split
      · exact .cons ⟨rfl, .some hPerm⟩
          (List.forall₂_same.mpr fun later _ => SameSlot.refl later)
      · exact .cons (SameSlot.refl slot) ih

/-
  Faults of calls that differ in the order of their keywords.
  They are of one class, and the same one unless the order
  decides which of several keywords is reported.
-/
structure SameFault
    (keywords others : Keywords α)
    (first second : BindError) :
    Prop where
  kind : first.kind = second.kind
  same :
    first = second ∨
      (∃ name other,
        first = .unexpected name ∧ second = .unexpected other) ∨
      ∃ name other,
        Keywords.repeated? [] keywords = some name ∧
          Keywords.repeated? [] others = some other ∧
            first = .duplicate name ∧ second = .duplicate other

/- What binding comes to for two orders of the keyword arguments. -/
def BoundAlike
    (keywords others : Keywords α) :
    Except BindError (BoundArguments α) →
    Except BindError (BoundArguments α) →
    Prop
  | .ok first, .ok second =>
      List.Forall₂ SameSlot first.slots second.slots
  | .error first, .error second => SameFault keywords others first second
  | _, _ => False

/- The keywords left over are collected, or the first is reported. -/
theorem boundAlike_collect
    (signature : Signature)
    (bound : List (BoundSlot α))
    {first second : Keywords α}
    (hPerm : first.Perm second) :
    BoundAlike keywords others (signature.collect (bound, first))
      (signature.collect (bound, second)) := by
  cases first with
  | nil =>
      cases hPerm.nil_eq
      exact List.forall₂_same.mpr fun slot _ => SameSlot.refl slot
  | cons entry rest =>
      cases second with
      | nil => exact absurd hPerm.eq_nil (List.cons_ne_nil entry rest)
      | cons other later =>
          simp only [collect]
          split
          · exact sameSlot_bindVarKeyword hPerm bound
          · exact ⟨rfl, Or.inr (Or.inl ⟨_, _, rfl, rfl⟩)⟩

/- A call with its keyword arguments in another order. -/
theorem bind_of_perm
    (signature : Signature)
    (positional : List α)
    (hPerm : keywords.Perm others) :
    BoundAlike keywords others (signature.bind positional keywords)
      (signature.bind positional others) := by
  have hNames : (keywords.map (·.1)).Perm (others.map (·.1)) :=
    hPerm.map _
  have hRepeated (entries : Keywords α) :
      Keywords.repeated? [] entries = none ↔
        (entries.map (·.1)).Nodup := by
    simp [Keywords.repeated?_eq_none_iff]
  cases hFirst : Keywords.repeated? [] keywords with
  | some name =>
      cases hSecond : Keywords.repeated? [] others with
      | none =>
          rw [hRepeated, ← hNames.nodup_iff, ← hRepeated] at hSecond
          rw [hSecond] at hFirst
          cases hFirst
      | some other =>
          simp only [bind, hFirst, hSecond]
          exact ⟨rfl,
            Or.inr (Or.inr ⟨name, other, hFirst, hSecond, rfl, rfl⟩)⟩
  | none =>
      have hDistinct := (hRepeated keywords).mp hFirst
      have hSecond : Keywords.repeated? [] others = none :=
        (hRepeated others).mpr (hNames.nodup hDistinct)
      have hPositional :
          bindPositional keywords signature.params positional =
            bindPositional others signature.params positional :=
        bindPositional_congr
          (fun param _ => Keywords.has_of_perm hPerm param.name) positional
      rcases hSlots :
          bindPositional others signature.params positional with
        fault | ⟨slots, _ | ⟨extra, left⟩⟩
      · simp only [bind, hFirst, hSecond, hPositional, hSlots]
        exact ⟨rfl, Or.inl rfl⟩
      · rw [bind_of_bindPositional hFirst (hPositional.trans hSlots),
          bind_of_bindPositional hSecond hSlots]
        rcases (bindKeywords_of_perm signature.hasVarKeyword slots hPerm
            hDistinct).cases with
          ⟨fault, hLeft, hRight⟩ |
            ⟨⟨bound, left⟩, ⟨_, left'⟩, hLeft, hRight, rfl, hPermLeft⟩
        · rw [hLeft, hRight]
          exact ⟨rfl, Or.inl rfl⟩
        · rw [hLeft, hRight]
          exact boundAlike_collect signature bound hPermLeft
      · simp only [bind, hFirst, hSecond, hPositional, hSlots]
        exact ⟨rfl, Or.inl rfl⟩

theorem unclaimed_of_perm
    (signature : Signature)
    (positional : List α)
    (hPerm : keywords.Perm others) :
    (signature.unclaimed positional keywords).Perm
      (signature.unclaimed positional others) :=
  hPerm.filter _

theorem names_unclaimed
    (signature : Signature)
    (positional : List α)
    (keywords : Keywords α) :
    (signature.unclaimed positional keywords).map (·.1) =
      (keywords.map (·.1)).filter fun name =>
        !(namedBeyond positional.length signature.params).contains name := by
  simp only [unclaimed, Keywords.without, List.filter_map,
    Function.comp_def]

/-
  Every parameter is bound to the same argument if the keywords
  that no parameter waits for come in the same order.
-/
theorem settledEntries_of_perm
    (signature : Signature)
    (positional : List α)
    (hPerm : keywords.Perm others)
    (hDistinct : (keywords.map (·.1)).Nodup)
    (hOrder :
      (signature.unclaimed positional keywords).map (·.1) =
        (signature.unclaimed positional others).map (·.1)) :
    signature.settledEntries positional keywords =
      signature.settledEntries positional others := by
  have hUnclaimed :
      signature.unclaimed positional keywords =
        signature.unclaimed positional others := by
    refine Keywords.eq_of_perm_of_names
      (signature.unclaimed_of_perm positional hPerm) ?_ hOrder
    rw [names_unclaimed]
    exact hDistinct.filter _
  unfold settledEntries
  congr 2
  funext param
  simp only [settled, hUnclaimed,
    Keywords.get?_of_perm hPerm hDistinct param.name]

------------------------------------------------------------
-- The Last Positional Argument
------------------------------------------------------------

/-
  What becomes of parameters that no positional argument is left
  for: one that collects positional arguments collects none.
-/
def opened : List Parameter → List (BoundSlot α)
  | [] => []
  | param :: params =>
      if param.kind == .varPositional then
        (param, some (.varPositional [])) :: unbound params
      else unbound (param :: params)

theorem bindPositional_without_arguments
    (keywords : Keywords α)
    (params : List Parameter) :
    bindPositional keywords params [] = .ok (opened params, []) := by
  cases params with
  | nil => rfl
  | cons param params =>
      cases hKind : param.kind <;> simp [bindPositional, opened, hKind]

/- Slots that are alike once defaults are filled in. -/
abbrev Alike (first second : List (BoundSlot α)) : Prop :=
  first.map withFallback = second.map withFallback

/- Slots that are alike, with the same keywords left over. -/
def SameLeft (first second : List (BoundSlot α) × Keywords α) : Prop :=
  Alike first.1 second.1 ∧ first.2 = second.2

/-
  The last positional argument is bound to its parameter, or
  left for it to be found by name. Positions before it are bound
  to the same arguments, or refused for the same keyword.
-/
theorem bindPositional_last
    {param : Parameter}
    (hKind : param.kind = .positionalOrKeyword)
    (hFresh : keywords.has param.name = false)
    (after : List Parameter)
    {before : List Parameter}
    (hPositional : ∀ other ∈ before, other.kind.isPositional = true)
    (hSame :
      ∀ other ∈ before, keywords.has other.name = others.has other.name)
    {init : List α}
    (hLength : init.length = before.length)
    (last : α) :
    SameOutcome
      (fun first second =>
        ∃ bound : List (BoundSlot α),
          (∀ slot ∈ bound, slot.2.isSome = true) ∧
            first =
              (bound ++ (param, some (.value last)) :: opened after, []) ∧
            second = (bound ++ unbound (param :: after), []))
      (bindPositional keywords (before ++ param :: after) (init ++ [last]))
      (bindPositional others (before ++ param :: after) init) := by
  induction before generalizing init with
  | nil =>
      cases List.length_eq_zero_iff.mp hLength
      have hReached : param.kind.isPositional = true := by
        rw [hKind]
        rfl
      rw [List.nil_append, List.nil_append, bindPositional_cons hReached,
        bindPositional_nil hReached, bindPositional_without_arguments,
        hFresh, Bool.and_false]
      exact .ok ⟨[], by simp, rfl, rfl⟩
  | cons other before ih =>
      obtain ⟨arg, init, rfl⟩ :=
        List.exists_cons_of_length_eq_add_one hLength
      rw [List.forall_mem_cons] at hPositional hSame
      rw [List.cons_append, List.cons_append,
        bindPositional_cons hPositional.1, bindPositional_cons hPositional.1,
        hSame.1]
      split
      · exact .error _
      · refine (ih hPositional.2 hSame.2 (by simpa using hLength)).map ?_
        rintro _ _ ⟨bound, hBound, rfl, rfl⟩
        refine ⟨(other, some (.value arg)) :: bound, ?_, rfl, rfl⟩
        rw [List.forall_mem_cons]
        exact ⟨rfl, hBound⟩

/- To collect no arguments and to be left out come to the same. -/
theorem bindKeywords_opened
    (absorbs : Bool)
    (params : List Parameter)
    (keywords : Keywords α) :
    SameOutcome SameLeft
      (bindKeywords absorbs (opened params) keywords)
      (bindKeywords absorbs (unbound params) keywords) := by
  have hSelf (outcome : Except BindError (List (BoundSlot α) × Keywords α)) :
      SameOutcome SameLeft outcome outcome := by
    cases outcome with
    | ok result => exact .ok ⟨rfl, rfl⟩
    | error fault => exact .error fault
  cases params with
  | nil => exact hSelf _
  | cons param params =>
      by_cases hKind : param.kind = .varPositional
      · have hOpened :
            opened (param :: params) =
              (param, some (.varPositional [])) ::
                (unbound params : List (BoundSlot α)) := by
          simp [opened, hKind]
        have hUnbound :
            (unbound (param :: params) : List (BoundSlot α)) =
              (param, none) :: unbound params := rfl
        have hHere :
            refusal? absorbs keywords (param, none) = none ∧
              remaining keywords (param, none) = keywords ∧
                fill keywords (param, none) = (param, none) := by
          simp [refusal?, remaining, awaits, fill, hKind,
            ParamKind.isNamed]
        rw [hOpened, hUnbound, bindKeywords_bound, bindKeywords_cons,
          hHere.1, hHere.2.1, hHere.2.2]
        refine (hSelf _).map ?_
        rintro ⟨bound, left⟩ ⟨bound', _⟩ ⟨hBound, rfl⟩
        refine ⟨?_, rfl⟩
        simp only [Alike, List.map_cons]
        rw [hBound]
        simp [withFallback, BoundArguments.defaultBinding, hKind]
      · have hOpened :
            (opened (param :: params) : List (BoundSlot α)) =
              unbound (param :: params) := by
          simp [opened, hKind]
        rw [hOpened]
        exact hSelf _

/- An argument that is found by name is bound as the last position is. -/
theorem bindKeywords_last
    (absorbs : Bool)
    {param : Parameter}
    (hKind : param.kind = .positionalOrKeyword)
    {front back : Keywords α}
    (hFresh : (front ++ back).has param.name = false)
    {bound : List (BoundSlot α)}
    (hBound : ∀ slot ∈ bound, slot.2.isSome = true)
    (after : List Parameter)
    (last : α) :
    SameOutcome SameLeft
      (bindKeywords absorbs
        (bound ++ (param, some (.value last)) :: opened after)
        (front ++ back))
      (bindKeywords absorbs (bound ++ unbound (param :: after))
        (front ++ (param.name, last) :: back)) := by
  have hUnbound :
      (unbound (param :: after) : List (BoundSlot α)) =
        (param, none) :: unbound after := rfl
  have hHas :
      Keywords.has (front ++ (param.name, last) :: back)
        param.name = true := by
    simp [Keywords.has]
  have hTaken :
      refusal? absorbs (front ++ (param.name, last) :: back)
            ((param, none) : BoundSlot α) = none ∧
        remaining (front ++ (param.name, last) :: back) (param, none) =
            front ++ back ∧
          fill (front ++ (param.name, last) :: back) (param, none) =
            (param, some (.value last)) := by
    simp only [refusal?, remaining, awaits, fill, hKind,
      ParamKind.isNamed, hHas, Keywords.eraseP_insert hFresh,
      Keywords.get?_insert hFresh, Bool.not_true, Bool.false_and,
      Bool.false_eq_true, if_false, if_true, Option.map_some, and_self]
  rw [bindKeywords_append_bound absorbs hBound,
    bindKeywords_append_bound absorbs hBound, hUnbound,
    bindKeywords_bound, bindKeywords_cons, hTaken.1, hTaken.2.1,
    hTaken.2.2]
  refine @SameOutcome.map _ _ _ _ SameLeft SameLeft _ _ _ _ ?_ ?_
  · refine (bindKeywords_opened absorbs after (front ++ back)).map ?_
    rintro first second ⟨hAlike, hLeft⟩
    refine ⟨?_, hLeft⟩
    simp only [Alike, List.map_cons]
    rw [hAlike]
  · rintro first second ⟨hAlike, hLeft⟩
    refine ⟨?_, hLeft⟩
    simp only [Alike, List.map_append]
    rw [hAlike]

/- Collected keywords keep slots alike. -/
theorem alike_bindVarKeyword
    (left : Keywords α)
    {first second : List (BoundSlot α)}
    (hAlike : Alike first second) :
    Alike (bindVarKeyword left first) (bindVarKeyword left second) := by
  induction first generalizing second with
  | nil =>
      cases second with
      | nil => rfl
      | cons slot rest => cases hAlike
  | cons slot rest ih =>
      cases second with
      | nil => cases hAlike
      | cons other rest' =>
          simp only [Alike, List.map_cons, List.cons.injEq] at hAlike
          obtain ⟨hHere, hRest⟩ := hAlike
          have hParam : slot.1 = other.1 := congrArg (·.1) hHere
          simp only [bindVarKeyword, ← hParam]
          split
          · simp only [Alike, List.map_cons]
            rw [hRest]
          · simp only [Alike, List.map_cons]
            rw [ih hRest, hParam]
            rw [show (other.1, slot.2) = slot from
              Prod.ext hParam.symm rfl]
            exact congrArg (· :: _) hHere

theorem withDefaults_collect
    (signature : Signature)
    {first second : List (BoundSlot α) × Keywords α}
    (hSame : SameLeft first second) :
    (signature.collect first).map BoundArguments.withDefaults =
      (signature.collect second).map BoundArguments.withDefaults := by
  obtain ⟨slots, left⟩ := first
  obtain ⟨slots', _⟩ := second
  obtain ⟨hAlike, rfl⟩ := hSame
  have hOk {found found' : List (BoundSlot α)}
      (hFound : Alike found found') :
      BoundArguments.withDefaults ⟨found⟩ =
        BoundArguments.withDefaults ⟨found'⟩ :=
    congrArg BoundArguments.mk hFound
  cases left with
  | nil => exact congrArg Except.ok (hOk hAlike)
  | cons entry rest =>
      simp only [collect]
      split
      · exact congrArg Except.ok
          (hOk (alike_bindVarKeyword (entry :: rest) hAlike))
      · rfl

/- The parameters around one that may be passed by position or by name. -/
theorem WellFormed.exists_around
    {signature : Signature}
    (hWell : signature.WellFormed)
    {place : Nat}
    {param : Parameter}
    (hParam : signature.params[place]? = some param)
    (hKind : param.kind = .positionalOrKeyword) :
    ∃ before after,
      signature.params = before ++ param :: after ∧
        before.length = place ∧
          ∀ other ∈ before,
            other.kind.isPositional = true ∧
              other.name ≠ param.name := by
  obtain ⟨hPlace, hHere⟩ := List.getElem?_eq_some_iff.mp hParam
  refine ⟨signature.params.take place,
    signature.params.drop (place + 1), ?_, ?_, ?_⟩
  · rw [← hHere, List.getElem_cons_drop, List.take_append_drop]
  · rw [List.length_take]
    omega
  · have hOrdered := hWell.ordered
    have hDistinct := hWell.distinct
    rw [← List.take_append_drop place signature.params,
      ← List.getElem_cons_drop hPlace, hHere, List.map_append,
      List.map_cons] at hOrdered hDistinct
    intro other hOther
    constructor
    · have hPrecede :=
        (List.pairwise_append.mp hOrdered).2.2 other.kind
          (List.mem_map_of_mem hOther) param.kind List.mem_cons_self
      rw [hKind] at hPrecede
      revert hPrecede
      cases other.kind <;> decide
    · exact (List.nodup_append.mp hDistinct).2.2 other.name
        (List.mem_map_of_mem hOther) param.name List.mem_cons_self

/-
  The last positional argument passed by name: every parameter
  is bound to the same argument, or the call is refused for the
  same reason.
-/
theorem bind_last_by_name
    {signature : Signature}
    (hWell : signature.WellFormed)
    {init : List α}
    {param : Parameter}
    (hParam : signature.params[init.length]? = some param)
    (hKind : param.kind = .positionalOrKeyword)
    {front back : Keywords α}
    (hFresh : (front ++ back).has param.name = false)
    (last : α) :
    (signature.bind (init ++ [last]) (front ++ back)).map
        BoundArguments.withDefaults =
      (signature.bind init
          (front ++ (param.name, last) :: back)).map
        BoundArguments.withDefaults := by
  obtain ⟨before, after, hParams, hLength, hBefore⟩ :=
    hWell.exists_around hParam hKind
  have hRepeated :=
    Keywords.repeated?_insert hFresh List.not_mem_nil last
  cases hFirst : Keywords.repeated? [] (front ++ back) with
  | some name =>
      rw [hFirst] at hRepeated
      simp only [bind, hFirst, hRepeated]
  | none =>
      rw [hFirst] at hRepeated
      have hReached :=
        bindPositional_last hKind hFresh after
          (fun other hOther => (hBefore other hOther).1)
          (fun other hOther =>
            (Keywords.has_insert (hBefore other hOther).2 last).symm)
          hLength.symm last
      rw [← hParams] at hReached
      rcases hReached.cases with
        ⟨fault, hLeft, hRight⟩ |
          ⟨_, _, hLeft, hRight, bound, hBound, rfl, rfl⟩
      · simp only [bind, hFirst, hRepeated, hLeft, hRight]
      · rw [bind_of_bindPositional hFirst hLeft,
          bind_of_bindPositional hRepeated hRight]
        rcases (bindKeywords_last signature.hasVarKeyword hKind hFresh
            hBound after last).cases with
          ⟨fault, hLeft, hRight⟩ | ⟨found, found', hLeft, hRight, hSame⟩
        · rw [hLeft, hRight]
        · rw [hLeft, hRight]
          exact withDefaults_collect signature hSame

------------------------------------------------------------
-- Spelling
------------------------------------------------------------

/-
  How a call is written does not matter for its binding. The
  last positional argument may be passed by name instead, at any
  place among the keywords, and keywords may be given in any
  order.
-/
theorem bind_respelled
    {signature : Signature}
    (hWell : signature.WellFormed) :
    (∀ (init : List α) (last : α) (front back : Keywords α)
        (param : Parameter),
      signature.params[init.length]? = some param →
        param.kind = .positionalOrKeyword →
          (front ++ back).has param.name = false →
            (signature.bind (init ++ [last]) (front ++ back)).map
                BoundArguments.withDefaults =
              (signature.bind init
                  (front ++ (param.name, last) :: back)).map
                BoundArguments.withDefaults) ∧
      ∀ (positional : List α) (keywords others : Keywords α),
        keywords.Perm others →
          BoundAlike keywords others
            (signature.bind positional keywords)
            (signature.bind positional others) := by
  constructor
  · intro init last front back param hParam hKind hFresh
    exact bind_last_by_name hWell hParam hKind hFresh last
  · intro positional keywords others hPerm
    exact bind_of_perm signature positional hPerm

/- A call that leaves keywords over, written in three ways. -/
theorem bind_respelled_collecting :
    let signature : Signature :=
      ⟨[⟨"a", .positionalOnly, none⟩, ⟨"b", .positionalOrKeyword, none⟩,
        ⟨"rest", .varPositional, none⟩, ⟨"more", .varKeyword, none⟩]⟩
    let keywords : Keywords Nat := [("a", 3), ("c", 4)]
    signature.WellFormed ∧
      (signature.bind [1, 2] keywords).map
          BoundArguments.withDefaults =
        (signature.bind [1] [("a", 3), ("b", 2), ("c", 4)]).map
          BoundArguments.withDefaults ∧
        BoundAlike keywords keywords.reverse
          (signature.bind [1, 2] keywords)
          (signature.bind [1, 2] keywords.reverse) := by
  intro signature keywords
  have hWell : signature.WellFormed := by decide
  refine ⟨hWell, ?_, ?_⟩
  · exact (bind_respelled hWell).1 [1] 2 [("a", 3)] [("c", 4)]
      ⟨"b", .positionalOrKeyword, none⟩ rfl rfl (by decide)
  · exact (bind_respelled hWell).2 [1, 2] keywords keywords.reverse
      keywords.reverse_perm.symm

end Signature

end SnippetGrader
