import SnippetGrader.Proofs.Parsing.Parameters
import SnippetGrader.Proofs.Parsing.TrailerForms

/-
  Functions without names are read back.

  The parts of a parameter list are the parameters and the marks
  that stand alone between them. What a list has declared so far
  tells whether a further part may follow, and what it changes.

  Key definitions include:
    * `ParamPart`, `ParamPart.list`
    * `ExprGrammar.ParamState.take`
    * `ExprGrammar.ParamState.Allows`

  Key theorems include:
    * `ExprGrammar.ParamState.declares_list`
    * `ExprForm.recovered_lambda`
-/

namespace SnippetGrader

open SnippetGrader.Parser SnippetGrader.ExprGrammar

------------------------------------------------------------
-- Parts of a Parameter List
------------------------------------------------------------

/- A parameter, or a mark that stands alone. -/
inductive ParamPart where
  | declared (param : Param Expr)
  | slash
  | star

namespace ParamPart

/- The tokens of a part. -/
def tokens : ParamPart → List TokenKind
  | declared param => kindsOf (Expr.lexemesOfParam param)
  | slash => [.mark .slash]
  | star => [.mark .star]

/- The slash after a parameter, unless it is not the last of its kind. -/
def slashAfter (param : Param Expr) (rest : List (Param Expr)) :
    List ParamPart :=
  if param.kind = .positionalOnly ∧
      ∀ next ∈ rest.head?, next.kind ≠ .positionalOnly then
    [slash]
  else []

/- Whether a star must stand before a parameter. -/
def needsStar (starred : Bool) (param : Param Expr) : Bool :=
  param.kind == .keywordOnly && !starred

/- The parts of a list of parameters. -/
def listFrom (starred : Bool) : List (Param Expr) → List ParamPart
  | [] => []
  | param :: rest =>
      (if needsStar starred param then [star] else []) ++
        declared param :: slashAfter param rest ++
          listFrom (starred || needsStar starred param) rest

/- Whether a parameter takes all other positional arguments. -/
def hasStar (params : List (Param Expr)) : Bool :=
  params.any fun param => param.kind == .varPositional

/- The parts of a whole parameter list. -/
def list (params : List (Param Expr)) : List ParamPart :=
  listFrom (hasStar params) params

theorem map_kindsOf_markedLexemes
    (starred : Bool)
    (params : List (Param Expr)) :
    (markedLexemes starred (Expr.paramsLexemes params)).map kindsOf =
      (listFrom starred params).map tokens := by
  induction params generalizing starred with
  | nil => rfl
  | cons param rest ih =>
      rw [Expr.paramsLexemes_eq_map] at ih ⊢
      obtain ⟨name, kind, default, span⟩ := param
      simp only [List.map_cons, markedLexemes, listFrom, List.map_append,
        ih]
      congr 1
      rcases rest with _ | ⟨⟨_, next, _, _⟩, _⟩
      · cases kind <;> cases starred <;> rfl
      · cases next <;> cases kind <;> cases starred <;> rfl

section Cons

variable {starred : Bool}
variable {param : Param Expr}
variable {rest : List (Param Expr)}

theorem slashAfter_of_ne
    (hKind : param.kind ≠ .positionalOnly) :
    slashAfter param rest = [] :=
  if_neg fun hSlash => hKind hSlash.1

theorem listFrom_plain
    (hKind : param.kind ≠ .positionalOnly)
    (hStar : needsStar starred param = false) :
    listFrom starred (param :: rest) =
      declared param :: listFrom starred rest := by
  rw [listFrom, hStar, slashAfter_of_ne hKind, Bool.or_false]
  rfl

theorem listFrom_star
    (hStar : needsStar starred param = true) :
    listFrom starred (param :: rest) =
      star :: declared param :: listFrom true rest := by
  have hKind : param.kind = .keywordOnly := by
    rw [needsStar, Bool.and_eq_true] at hStar
    exact eq_of_beq hStar.1
  have hSlash : param.kind ≠ .positionalOnly := by
    rw [hKind]
    decide
  rw [listFrom, hStar, slashAfter_of_ne hSlash, Bool.or_true]
  rfl

theorem listFrom_marked
    (hKind : param.kind = .positionalOnly) :
    listFrom starred (param :: rest) =
      declared param :: (slashAfter param rest ++ listFrom starred rest) := by
  have hStar : needsStar starred param = false := by
    rw [needsStar, hKind]
    rfl
  rw [listFrom, hStar, Bool.or_false]
  rfl

theorem hasStar_cons
    (hKind : param.kind ≠ .varPositional) :
    hasStar (param :: rest) = hasStar rest := by
  rw [hasStar, List.any_cons, beq_eq_false_iff_ne.mpr hKind,
    Bool.false_or, hasStar]

end Cons

/- Only the parameters of a list are declared by its parts. -/
theorem mem_of_mem_listFrom
    {starred : Bool}
    {param : Param Expr}
    {params : List (Param Expr)}
    (hMem : declared param ∈ listFrom starred params) :
    param ∈ params := by
  induction params generalizing starred with
  | nil => cases hMem
  | cons first rest ih =>
      rw [listFrom, slashAfter] at hMem
      have hCases : param = first ∨
          declared param ∈ listFrom (starred || needsStar starred first)
            rest := by
        revert hMem
        split <;> split <;> simp
      rcases hCases with rfl | hRest
      · exact List.mem_cons_self
      · exact List.mem_cons_of_mem _ (ih hRest)

/- The tokens of a parameter list are those of its parts. -/
theorem kindsOf_paramListLexemes
    (params : List (Param Expr)) :
    kindsOf (paramListLexemes (Expr.paramsLexemes params)) =
      [.mark .comma].intercalate ((list params).map tokens) := by
  have hStar :
      ((Expr.paramsLexemes params).any fun param =>
          param.1 == .varPositional) =
        hasStar params := by
    rw [Expr.paramsLexemes_eq_map, List.any_map]
    rfl
  rw [paramListLexemes, kindsOf_commaSeparated, hStar,
    map_kindsOf_markedLexemes, list]

end ParamPart

------------------------------------------------------------
-- What Has Been Declared
------------------------------------------------------------

namespace ExprGrammar

namespace ParamState

/- What has been declared after one more part. -/
def take (state : ParamState) : ParamPart → ParamState
  | .slash =>
      { state with
        seenSlash := true
        params :=
          state.params.map fun param =>
            { param with kind := .positionalOnly } }
  | .star => { state with keywordOnly := true }
  | .declared param =>
      if param.kind = .varPositional then
        { state with
          keywordOnly := true
          params := state.params ++ [param] }
      else if param.kind = .varKeyword then
        { state with params := state.params ++ [param] }
      else
        { state with
          seenDefault :=
            state.seenDefault ||
              (!state.keywordOnly && param.default.isSome)
          params :=
            state.params ++
              [{ param with
                kind :=
                  if state.keywordOnly then .keywordOnly
                  else .positionalOrKeyword }] }

/- Whether a part may stand before others. -/
def Allows (state : ParamState) (later : List ParamPart) : ParamPart → Prop
  | .slash =>
      state.seenSlash = false ∧
        state.keywordOnly = false ∧ state.params ≠ []
  | .star => state.keywordOnly = false ∧ later ≠ []
  | .declared param =>
      if param.kind = .varPositional then
        state.keywordOnly = false ∧ param.default = none
      else if param.kind = .varKeyword then
        later = [] ∧ param.default = none
      else
        state.keywordOnly = false →
          state.seenDefault = true → param.default.isSome = true

/- Whether each part may stand before those after it. -/
def AllowsAll : ParamState → List ParamPart → Prop
  | _, [] => True
  | state, part :: later =>
      state.Allows later part ∧ AllowsAll (state.take part) later

/- The kind of a parameter that no mark belongs to. -/
def namedKind (state : ParamState) : ParamKind :=
  if state.keywordOnly then .keywordOnly else .positionalOrKeyword

section Taking

variable {state : ParamState}
variable {param : Param Expr}

/- A parameter whose kind its place or its mark tells is declared. -/
theorem params_take
    (hKind :
      param.kind.isVariadic = true ∨ param.kind = state.namedKind) :
    (state.take (.declared param)).params = state.params ++ [param] := by
  rw [take]
  split
  · rfl
  · split
    · rfl
    · obtain ⟨name, kind, default, span⟩ := param
      have hNamed : kind = state.namedKind := by
        refine hKind.resolve_left fun hVariadic => ?_
        cases kind <;> contradiction
      subst hNamed
      rfl

theorem keywordOnly_take :
    (state.take (.declared param)).keywordOnly =
      (state.keywordOnly || param.kind == .varPositional) := by
  obtain ⟨name, kind, default, span⟩ := param
  cases kind <;> simp [take]

/- Only a default that a position may reach is seen. -/
theorem seenDefault_take
    (hSeen : (state.take (.declared param)).seenDefault = true) :
    state.seenDefault = true ∨
      state.keywordOnly = false ∧
        param.kind.isVariadic = false ∧ param.default.isSome = true := by
  obtain ⟨name, kind, default, span⟩ := param
  cases kind <;> simp_all [take, ParamKind.isVariadic]

end Taking

------------------------------------------------------------
-- What May Still Be Declared
------------------------------------------------------------

/- Parameters that may follow, none of which stands before a slash. -/
structure Awaits (state : ParamState) (params : List (Param Expr)) : Prop where
  marked : ∀ param ∈ params, param.kind ≠ .positionalOnly
  ordered : (params.map (·.kind)).Pairwise ParamKind.MayPrecede
  bare :
    ∀ param ∈ params,
      param.kind.isVariadic = true → param.default = none
  late :
    state.keywordOnly = true →
      ∀ param ∈ params, ParamKind.keywordOnly.rank ≤ param.kind.rank
  defaultsLast :
    params.Pairwise fun first second =>
      first.kind.isPositional = true →
        second.kind.isPositional = true →
          first.default.isSome = true →
            second.default.isSome = true
  seen :
    state.seenDefault = true →
      ∀ param ∈ params,
        param.kind.isPositional = true → param.default.isSome = true

namespace Awaits

variable {state : ParamState}
variable {param : Param Expr}
variable {rest : List (Param Expr)}

theorem precedes
    (hAwaits : state.Awaits (param :: rest)) :
    ∀ later ∈ rest, param.kind.MayPrecede later.kind := by
  have hOrdered := hAwaits.ordered
  rw [List.map_cons, List.pairwise_cons] at hOrdered
  exact fun later hMem => hOrdered.1 _ (List.mem_map_of_mem hMem)

/- What comes before a star may be reached by position. -/
theorem early
    (hAwaits : state.Awaits (param :: rest))
    (hRank : param.kind.rank < ParamKind.keywordOnly.rank) :
    state.keywordOnly = false := by
  by_contra hLate
  rw [Bool.not_eq_false] at hLate
  exact absurd (hAwaits.late hLate param List.mem_cons_self)
    (not_le.mpr hRank)

/- The kind of the next parameter is told by its mark or by its place. -/
theorem expected
    (hAwaits : state.Awaits (param :: rest))
    (hStar : param.kind = .keywordOnly → state.keywordOnly = true) :
    param.kind.isVariadic = true ∨ param.kind = state.namedKind := by
  have hEarly := hAwaits.early
  have hMarked := hAwaits.marked param List.mem_cons_self
  rw [namedKind]
  cases hKind : param.kind with
  | positionalOnly => exact absurd hKind hMarked
  | positionalOrKeyword =>
      rw [hEarly (by rw [hKind]; decide)]
      exact Or.inr rfl
  | keywordOnly =>
      rw [hStar hKind]
      exact Or.inr rfl
  | _ => exact Or.inl rfl

/- Nothing else follows a parameter that takes all other keywords. -/
theorem allows
    (hAwaits : state.Awaits (param :: rest))
    (hStar : param.kind = .keywordOnly → state.keywordOnly = true)
    {later : List ParamPart}
    (hLater : rest = [] → later = []) :
    state.Allows later (.declared param) := by
  have hBare := hAwaits.bare param List.mem_cons_self
  have hExpected := hAwaits.expected hStar
  rw [Allows]
  split
  case isTrue hKind =>
    rw [hKind] at hBare
    exact ⟨hAwaits.early (by rw [hKind]; decide), hBare rfl⟩
  case isFalse hPositional =>
    split
    case isTrue hKind =>
      rw [hKind] at hBare
      refine ⟨hLater ?_, hBare rfl⟩
      refine List.eq_nil_iff_forall_not_mem.mpr fun other hMem => ?_
      have hPrecede := hAwaits.precedes other hMem
      rw [hKind] at hPrecede
      exact ParamKind.not_varKeyword_mayPrecede _ hPrecede
    case isFalse hKeyword =>
      intro hEarly hSeen
      refine hAwaits.seen hSeen param List.mem_cons_self ?_
      rcases hExpected with hVariadic | hNamed
      · revert hVariadic hPositional hKeyword
        cases param.kind <;> decide
      · rw [hNamed, namedKind, hEarly]
        rfl

/- Only what may follow a parameter is still awaited after it. -/
theorem take
    (hAwaits : state.Awaits (param :: rest))
    (hStar : param.kind = .keywordOnly → state.keywordOnly = true) :
    (state.take (.declared param)).Awaits rest := by
  have hOrdered := hAwaits.ordered
  rw [List.map_cons, List.pairwise_cons] at hOrdered
  have hDefaults := List.pairwise_cons.mp hAwaits.defaultsLast
  have hMember {later : Param Expr} (hMem : later ∈ rest) :
      later ∈ param :: rest := List.mem_cons_of_mem _ hMem
  constructor
  case marked => exact fun later hMem => hAwaits.marked later (hMember hMem)
  case ordered => exact hOrdered.2
  case bare => exact fun later hMem => hAwaits.bare later (hMember hMem)
  case late =>
    intro hAfter later hMem
    rw [keywordOnly_take, Bool.or_eq_true] at hAfter
    rcases hAfter with hBefore | hKind
    · exact hAwaits.late hBefore later (hMember hMem)
    · have hPrecede := hAwaits.precedes later hMem
      rw [eq_of_beq hKind] at hPrecede
      revert hPrecede
      cases later.kind <;> decide
  case defaultsLast => exact hDefaults.2
  case seen =>
    intro hAfter later hMem hPositional
    rcases seenDefault_take hAfter with hBefore | ⟨hEarly, hKind, hSome⟩
    · exact hAwaits.seen hBefore later (hMember hMem) hPositional
    · refine hDefaults.1 later hMem ?_ hPositional hSome
      have hNamed := (hAwaits.expected hStar).resolve_left
        (by rw [hKind]; exact Bool.false_ne_true)
      rw [hNamed, namedKind, hEarly]
      rfl

/- After a star, only its own parameters are awaited. -/
theorem takeStar
    (hAwaits : state.Awaits (param :: rest))
    (hKind : param.kind = .keywordOnly) :
    (state.take .star).Awaits (param :: rest) := by
  refine ⟨hAwaits.marked, hAwaits.ordered, hAwaits.bare, ?_,
    hAwaits.defaultsLast, hAwaits.seen⟩
  intro _ later hMem
  rcases List.mem_cons.mp hMem with rfl | hRest
  · rw [hKind]
  · have hPrecede := hAwaits.precedes later hRest
    rw [hKind] at hPrecede
    revert hPrecede
    cases later.kind <;> decide

/- No star with a name follows a parameter that needs a bare one. -/
theorem hasStar_eq_false
    (hAwaits : state.Awaits (param :: rest))
    (hKind : param.kind = .keywordOnly) :
    ParamPart.hasStar (param :: rest) = false := by
  rw [ParamPart.hasStar, List.any_eq_false]
  intro later hMem hSame
  rcases List.mem_cons.mp hMem with rfl | hRest
  · rw [hKind] at hSame
    cases hSame
  · have hPrecede := hAwaits.precedes later hRest
    rw [hKind, eq_of_beq hSame] at hPrecede
    exact absurd hPrecede (by decide)

end Awaits

------------------------------------------------------------
-- Parts That Declare Parameters
------------------------------------------------------------

/- Parts that are allowed, and what they declare. -/
structure Declares
    (state : ParamState)
    (parts : List ParamPart)
    (params : List (Param Expr)) : Prop where
  allows : state.AllowsAll parts
  params : (parts.foldl take state).params = state.params ++ params

section Parts

variable {state : ParamState}
variable {parts : List ParamPart}
variable {param : Param Expr}
variable {rest : List (Param Expr)}

theorem Declares.cons
    (hAllows : state.Allows parts (.declared param))
    (hParams :
      (state.take (.declared param)).params = state.params ++ [param])
    (hRest : (state.take (.declared param)).Declares parts rest) :
    state.Declares (.declared param :: parts) (param :: rest) := by
  refine ⟨⟨hAllows, hRest.allows⟩, ?_⟩
  rw [List.foldl_cons, hRest.params, hParams, List.append_assoc,
    List.singleton_append]

theorem Declares.star
    {params : List (Param Expr)}
    (hEarly : state.keywordOnly = false)
    (hSome : parts ≠ [])
    (hParts : (state.take .star).Declares parts params) :
    state.Declares (.star :: parts) params :=
  ⟨⟨⟨hEarly, hSome⟩, hParts.allows⟩, hParts.params⟩

/- The parts of awaited parameters declare them. -/
theorem declares_listFrom
    {params : List (Param Expr)}
    {starred : Bool}
    (hAwaits : state.Awaits params)
    (hStarred :
      starred = (state.keywordOnly || ParamPart.hasStar params)) :
    state.Declares (ParamPart.listFrom starred params) params := by
  induction params generalizing state starred with
  | nil => exact ⟨trivial, (List.append_nil _).symm⟩
  | cons param rest ih =>
      have hFirst {state : ParamState} {more : Bool}
          (hAwaits : state.Awaits (param :: rest))
          (hMore :
            more =
              (state.keywordOnly || ParamPart.hasStar (param :: rest)))
          (hStar :
            param.kind = .keywordOnly → state.keywordOnly = true) :
          state.Declares
            (.declared param :: ParamPart.listFrom more rest)
            (param :: rest) := by
        refine .cons (hAwaits.allows hStar ?_)
          (params_take (hAwaits.expected hStar))
          (ih (hAwaits.take hStar) ?_)
        · rintro rfl
          rfl
        · rw [hMore, keywordOnly_take, ParamPart.hasStar,
            List.any_cons, ← Bool.or_assoc]
          rfl
      have hMarked := hAwaits.marked param List.mem_cons_self
      cases hStar : ParamPart.needsStar starred param with
      | false =>
          rw [ParamPart.listFrom_plain hMarked hStar]
          refine hFirst hAwaits hStarred fun hKind => ?_
          rw [ParamPart.needsStar, hKind, hStarred,
            hAwaits.hasStar_eq_false hKind, Bool.or_false] at hStar
          simpa using hStar
      | true =>
          rw [ParamPart.listFrom_star hStar]
          rw [ParamPart.needsStar, Bool.and_eq_true] at hStar
          have hKind := eq_of_beq hStar.1
          have hEarly : state.keywordOnly = false := by
            have hNone := hStar.2
            rw [hStarred, hAwaits.hasStar_eq_false hKind,
              Bool.or_false] at hNone
            simpa using hNone
          exact .star hEarly (List.cons_ne_nil _ _)
            (hFirst (hAwaits.takeStar hKind) rfl fun _ => rfl)

end Parts

/- What has been declared by parameters that a slash will follow. -/
def early (done : List (Param Expr)) : ParamState where
  params :=
    done.map fun param => { param with kind := .positionalOrKeyword }
  seenDefault := done.any fun param => param.default.isSome

section Slashes

variable {done rest : List (Param Expr)}

/- What stands before a slash may not be followed by what does. -/
theorem awaits_rest
    (hParams : ParamsWellFormed (done ++ rest))
    (hDone : ∀ param ∈ done, param.kind = .positionalOnly)
    (hRest : ∀ first ∈ rest.head?, first.kind ≠ .positionalOnly)
    {state : ParamState}
    (hEarly : state.keywordOnly = false)
    (hSeen :
      state.seenDefault = true →
        ∃ param ∈ done, param.default.isSome = true) :
    state.Awaits rest := by
  have hOrdered := hParams.ordered
  rw [List.map_append, List.pairwise_append] at hOrdered
  have hDefaults := List.pairwise_append.mp hParams.defaultsLast
  constructor
  case marked =>
    intro param hMem
    cases rest with
    | nil => cases hMem
    | cons first later =>
        have hFirst := hRest first rfl
        rcases List.mem_cons.mp hMem with rfl | hLater
        · exact hFirst
        · have hPrecede : first.kind.MayPrecede param.kind :=
            (List.pairwise_cons.mp hOrdered.2.1).1 _
              (List.mem_map_of_mem hLater)
          intro hKind
          rw [hKind] at hPrecede
          revert hPrecede hFirst
          cases first.kind <;> decide
  case ordered => exact hOrdered.2.1
  case bare =>
    exact fun param hMem =>
      hParams.bare param (List.mem_append_right _ hMem)
  case late => exact fun hLate => absurd (hEarly.symm.trans hLate) nofun
  case defaultsLast => exact hDefaults.2.1
  case seen =>
    intro hAfter param hMem hPositional
    obtain ⟨earlier, hEarlier, hSome⟩ := hSeen hAfter
    refine hDefaults.2.2 earlier hEarlier param hMem ?_ hPositional hSome
    rw [hDone earlier hEarlier]
    rfl

theorem take_early
    {param : Param Expr}
    (hKind : param.kind = .positionalOnly) :
    (early done).take (.declared param) = early (done ++ [param]) := by
  simp [take, early, hKind]

/- A slash restores the kinds of what stands before it. -/
theorem take_slash
    (hDone : ∀ param ∈ done, param.kind = .positionalOnly) :
    (early done).take .slash =
      { early done with params := done, seenSlash := true } := by
  have hSame :
      (done.map fun param =>
          ({ param with kind := .positionalOnly } : Param Expr)) =
        done := by
    refine List.map_congr_left ?_ |>.trans (List.map_id done)
    intro param hMem
    obtain ⟨name, kind, default, span⟩ := param
    have hKind : kind = .positionalOnly := hDone _ hMem
    rw [hKind]
    rfl
  simp only [take, early, List.map_map]
  exact congrArg
    (fun params : List (Param Expr) =>
      ({ early done with params := params, seenSlash := true } :
        ParamState))
    hSame

/- Parameters before a slash, and those after it, are declared. -/
theorem declares_early
    {left : List (Param Expr)}
    {starred : Bool}
    (hParams : ParamsWellFormed (done ++ left))
    (hDone : ∀ param ∈ done, param.kind = .positionalOnly)
    (hLeft : ∃ first ∈ left.head?, first.kind = .positionalOnly)
    (hStarred : starred = ParamPart.hasStar left) :
    (early done).AllowsAll (ParamPart.listFrom starred left) ∧
      ((ParamPart.listFrom starred left).foldl take (early done)).params =
        done ++ left := by
  induction left generalizing done with
  | nil => obtain ⟨_, ⟨⟩, -⟩ := hLeft
  | cons param rest ih =>
      have hKind : param.kind = .positionalOnly := by
        obtain ⟨first, ⟨⟩, hFirst⟩ := hLeft
        exact hFirst
      have hNext : ∀ other ∈ done ++ [param], other.kind = .positionalOnly :=
        List.forall_mem_append.mpr ⟨hDone, by simpa using hKind⟩
      rw [ParamPart.hasStar_cons (by rw [hKind]; decide)] at hStarred
      rw [List.append_cons] at hParams ⊢
      have hAllows (later : List ParamPart) :
          (early done).Allows later (.declared param) := by
        rw [Allows, if_neg (by rw [hKind]; decide),
          if_neg (by rw [hKind]; decide)]
        intro _ hSeen
        obtain ⟨earlier, hEarlier, hSome⟩ := List.any_eq_true.mp hSeen
        have hDefaults := hParams.defaultsLast
        rw [List.append_assoc, List.singleton_append] at hDefaults
        refine (List.pairwise_append.mp hDefaults).2.2 earlier hEarlier
          param List.mem_cons_self ?_ ?_ hSome
        · rw [hDone earlier hEarlier]
          rfl
        · rw [hKind]
          rfl
      rw [ParamPart.listFrom_marked hKind, AllowsAll, List.foldl_cons,
        take_early hKind]
      by_cases hLast : ∀ next ∈ rest.head?, next.kind ≠ .positionalOnly
      · have hAwaits :
            ((early (done ++ [param])).take .slash).Awaits rest :=
          awaits_rest hParams hNext hLast rfl
            List.any_eq_true.mp
        have hRest := declares_listFrom hAwaits hStarred
        rw [ParamPart.slashAfter, if_pos ⟨hKind, hLast⟩]
        refine ⟨⟨hAllows _, ⟨rfl, rfl, ?_⟩, hRest.allows⟩, ?_⟩
        · simp [early]
        · refine hRest.params.trans ?_
          rw [take_slash hNext]
      · rw [ParamPart.slashAfter, if_neg (fun hSlash => hLast hSlash.2)]
        push Not at hLast
        obtain ⟨hOthers, hTaken⟩ := ih hParams hNext hLast hStarred
        exact ⟨⟨hAllows _, hOthers⟩, hTaken⟩

/- The parts of a parameter list declare its parameters. -/
theorem declares_list
    {params : List (Param Expr)}
    (hParams : ParamsWellFormed params) :
    ({} : ParamState).Declares (ParamPart.list params) params := by
  by_cases hFirst : ∃ first ∈ params.head?, first.kind = .positionalOnly
  · have hEarly := @declares_early [] params _ hParams nofun hFirst rfl
    exact ⟨hEarly.1, hEarly.2⟩
  · push Not at hFirst
    exact declares_listFrom
      (@awaits_rest [] params hParams nofun hFirst {} rfl nofun) rfl

end Slashes

/- What has been read is what was written, up to positions. -/
structure Resembles (found state : ParamState) : Prop where
  params : found.params.map Param.erased = state.params.map Param.erased
  keywordOnly : found.keywordOnly = state.keywordOnly
  seenSlash : found.seenSlash = state.seenSlash
  seenDefault : found.seenDefault = state.seenDefault

end ParamState

------------------------------------------------------------
-- Rounds
------------------------------------------------------------

variable {grammar : ExprGrammar}

/- One more part of a parameter list, given its first token. -/
def paramPart
    (grammar : ExprGrammar)
    (closing : Mark)
    (annotated : Bool)
    (state : ParamState) :
    TokenKind → Parser ParamState
  | .mark .slash => slashParam state
  | .mark .star => grammar.starParam closing annotated state
  | _ => grammar.namedParam annotated state

/- One more part and the comma after it, unless the last one is read. -/
def paramRound
    (grammar : ExprGrammar)
    (closing : Mark)
    (annotated : Bool)
    (state : ParamState) :
    Parser (Step ParamState ParamState) := do
  let kind ← peek
  if kind == .mark .doubleStar then
    let state ← grammar.varKeywordParam closing annotated state
    return .done state
  else if kind == .mark closing then return .done state
  else
    let state ← grammar.paramPart closing annotated state kind
    if ← eat (.mark .comma) then return .again state
    else return .done state

theorem params_eq
    (closing : Mark)
    (annotated : Bool) :
    grammar.params closing annotated =
      loop ({} : ParamState) (grammar.paramRound closing annotated) >>=
        fun state =>
          (repeatedParam? [] state.params).elim (pure state.params)
            fun param =>
              refuseAt .invalidParameters
                ("duplicate argument '" ++ param.name.name
                  ++ "' in function definition")
                param.span := by
  unfold params
  congr 1
  · congr 1
    funext state
    unfold paramRound
    congr 1
    funext kind
    cases kind with
    | mark symbol => cases symbol <;> rfl
    | _ => rfl
  · funext state
    cases repeatedParam? [] state.params <;> rfl

/- The default after a name, if there is one. -/
def paramDefault (grammar : ExprGrammar) : Parser (Option Expr) := do
  if ← eat (.mark .assign) then some <$> grammar.expression
  else pure none

/- Declares a parameter that has been read. -/
def declareNamed
    (state : ParamState)
    (name : Ident)
    (default : Option Expr) :
    Parser ParamState :=
  if !state.keywordOnly && default.isNone && state.seenDefault then
    refuseAt .invalidParameters "non-default argument follows default argument"
      name.span
  else
    pure { state with
      seenDefault := state.seenDefault || (!state.keywordOnly && default.isSome)
      params :=
        state.params ++
          [⟨name, state.namedKind, default,
            (default.map fun value => name.span.merge value.span).getD
              name.span⟩] }

theorem namedParam_eq
    (annotated : Bool)
    (state : ParamState) :
    grammar.namedParam annotated state = (do
      let name ← expectName
      grammar.skipAnnotation annotated
      declareNamed state name (← grammar.paramDefault)) := by
  unfold namedParam
  congr 1
  funext name
  congr 1
  funext _
  unfold paramDefault
  rw [bind_assoc]
  congr 1
  funext found
  cases found <;> rfl

/- Parameters of different names are accepted. -/
theorem repeatedParam?_eq_none
    {earlier : List String}
    {params : List (Param Expr)}
    (hDistinct : (params.map (·.name.name)).Nodup)
    (hNew : ∀ param ∈ params, param.name.name ∉ earlier) :
    repeatedParam? earlier params = none := by
  induction params generalizing earlier with
  | nil => rfl
  | cons param rest ih =>
      rw [List.map_cons, List.nodup_cons] at hDistinct
      rw [List.forall_mem_cons] at hNew
      rw [repeatedParam?, if_neg (by simpa using hNew.1)]
      refine ih hDistinct.2 fun other hMem hEarlier => ?_
      rcases List.mem_cons.mp hEarlier with hSame | hKnown
      · rw [← hSame] at hDistinct
        exact hDistinct.1 (List.mem_map_of_mem hMem)
      · exact hNew.2 other hMem hKnown

section Rounds

variable {n depth : Nat}
variable {found state : ParamState}
variable {tokens more : List TokenKind}
variable {holds : ParamState → Prop}

/- The next tokens are those of one more part. -/
def StartsPart
    (grammar : ExprGrammar)
    (state : ParamState)
    (depth : Nat)
    (tokens more : List TokenKind)
    (holds : ParamState → Prop) : Prop :=
  ∃ kind later,
    tokens = kind :: later ∧
      (kind == .mark .doubleStar) = false ∧
        (kind == .mark .colon) = false ∧
          Reads (grammar.paramPart .colon false state kind) depth tokens
            more holds

theorem StartsPart.mono
    {post : ParamState → Prop}
    (hStarts : StartsPart grammar state depth tokens more holds)
    (hPost : ∀ next, holds next → post next) :
    StartsPart grammar state depth tokens more post := by
  obtain ⟨kind, later, rfl, hStars, hColon, hRead⟩ := hStarts
  exact ⟨kind, later, rfl, hStars, hColon, hRead.mono hPost⟩

theorem StartsPart.goesOn
    (hStarts :
      StartsPart grammar state depth tokens (.mark .comma :: more) holds) :
    Reads (grammar.paramRound .colon false state) depth tokens more
      (Step.GoesOn holds) := by
  obtain ⟨kind, later, rfl, hStars, hColon, hRead⟩ := hStarts
  refine .peek (.ofFalse (Bool.eq_false_iff.mp hStars)
    (.ofFalse (Bool.eq_false_iff.mp hColon) ?_))
  exact hRead.bind fun next hNext => .eat rfl (.ofTrue rfl (.pure hNext))

theorem StartsPart.endsWith
    (hStarts :
      StartsPart grammar state depth tokens (.mark .colon :: more) holds) :
    Reads (grammar.paramRound .colon false state) depth tokens
      (.mark .colon :: more) (Step.EndsWith holds) := by
  obtain ⟨kind, later, rfl, hStars, hColon, hRead⟩ := hStarts
  refine .peek (.ofFalse (Bool.eq_false_iff.mp hStars)
    (.ofFalse (Bool.eq_false_iff.mp hColon) ?_))
  exact hRead.bind fun next hNext =>
    .leave rfl (.ofFalse Bool.false_ne_true (.pure hNext))

/- Without annotations, none is read. -/
theorem reads_noAnnotation :
    Reads (grammar.skipAnnotation false) depth tokens tokens
      fun _ => True :=
  .ofFalse Bool.false_ne_true (.pure trivial)

theorem starts_slash
    {later : List ParamPart}
    (hFound : found.Resembles state)
    (hAllows : state.Allows later .slash) :
    StartsPart grammar found depth (.mark .slash :: more) more
      (ParamState.Resembles · (state.take .slash)) := by
  obtain ⟨hSlash, hEarly, hSome⟩ := hAllows
  refine ⟨_, _, rfl, rfl, rfl, .bind .advance fun start _ => ?_⟩
  refine .ofFalse ?_ (.pure ?_)
  · have hParams : found.params.isEmpty = false := by
      rw [Bool.eq_false_iff, ne_eq, List.isEmpty_iff]
      intro hNil
      have hMap := hFound.params
      rw [hNil, List.map_nil] at hMap
      exact hSome (List.map_eq_nil_iff.mp hMap.symm)
    rw [hFound.seenSlash, hFound.keywordOnly, hSlash, hEarly, hParams]
    exact Bool.false_ne_true
  · refine ⟨?_, hFound.keywordOnly, rfl, hFound.seenDefault⟩
    have hMark (params : List (Param Expr)) :
        (params.map fun param =>
            ({ param with kind := .positionalOnly } : Param Expr)).map
            Param.erased =
          (params.map Param.erased).map fun param =>
            { param with kind := .positionalOnly } := by
      rw [List.map_map, List.map_map]
      rfl
    change List.map _ (List.map _ _) = List.map _ (List.map _ _)
    rw [hMark, hMark, hFound.params]

theorem starts_star
    {later : List ParamPart}
    (hFound : found.Resembles state)
    (hAllows : state.Allows later .star) :
    StartsPart grammar found depth
      (.mark .star :: .mark .comma :: more) (.mark .comma :: more)
      (ParamState.Resembles · (state.take .star)) := by
  refine ⟨_, _, rfl, rfl, rfl, .bind .advance fun start _ => ?_⟩
  refine .ofFalse ?_ (.peek (.ofFalse Bool.false_ne_true (.pure ?_)))
  · rw [hFound.keywordOnly, hAllows.1]
    exact Bool.false_ne_true
  · exact ⟨hFound.params, rfl, hFound.seenSlash, hFound.seenDefault⟩

theorem starts_varPositional
    {param : Param Expr}
    {later : List ParamPart}
    (hFound : found.Resembles state)
    (hKind : param.kind = .varPositional)
    (hAllows : state.Allows later (.declared param)) :
    StartsPart grammar found depth
      ((ParamPart.declared param).tokens ++ more) more
      (ParamState.Resembles · (state.take (.declared param))) := by
  rw [ParamState.Allows, if_pos hKind] at hAllows
  obtain ⟨name, kind, default, span⟩ := param
  obtain ⟨hEarly, rfl : default = none⟩ := hAllows
  obtain rfl : kind = .varPositional := hKind
  refine ⟨_, _, rfl, rfl, rfl, .bind .advance fun start _ => ?_⟩
  refine .ofFalse ?_ (.peek ?_)
  · rw [hFound.keywordOnly, hEarly]
    exact Bool.false_ne_true
  · refine .bind (.expectName name.name) fun found hName => ?_
    refine reads_noAnnotation.bind fun _ _ => .pure ?_
    refine ⟨?_, rfl, hFound.seenSlash, hFound.seenDefault⟩
    change List.map _ (_ ++ [_]) = List.map _ (_ ++ [_])
    simp [hFound.params, Param.erased, Ident.erased, hName]

/- The default of a parameter, if it has one. -/
theorem reads_paramDefault
    {name : String}
    {default : Option Expr}
    (hDefault : ∀ value ∈ default, value.Whole)
    (hDepth : Expr.optionNesting default ≤ depth)
    (hLength :
      (kindsOf (paramLexemes .keywordOnly name
        (default.map (Expr.lexemesAt 0)))).length ≤ n)
    (hMore : EndsPart .colon more) :
    ∃ later,
      kindsOf (paramLexemes .keywordOnly name
          (default.map (Expr.lexemesAt 0))) ++ more =
        .name name :: later ∧
      Reads (levels n).paramDefault depth later more
        fun value => value.map Expr.erased = default.map Expr.erased := by
  cases default with
  | none =>
      obtain ⟨mark, others, rfl, hMark⟩ := hMore
      have hOther : (TokenKind.mark mark == .mark .assign) = false := by
        rcases hMark with rfl | rfl <;> rfl
      exact ⟨_, rfl, .leave hOther (.ofFalse Bool.false_ne_true
        (.pure rfl))⟩
  | some value =>
      have hValue :=
        @Expr.Whole.asExpression value n depth more (hDefault value rfl) 0
          (Nat.zero_le _) hDepth (Nat.lt_of_succ_lt hLength)
          (Expr.stops_endsPart hMore rfl)
      exact ⟨_, rfl, .eat rfl (.ofTrue rfl
        (.map (hValue.mono fun _ hFound => congrArg some hFound)))⟩

/- A parameter without a mark of its own. -/
theorem starts_named
    {param : Param Expr}
    {later : List ParamPart}
    (hFound : found.Resembles state)
    (hKind : param.kind.isVariadic = false)
    (hAllows : state.Allows later (.declared param))
    (hDefault : ∀ value ∈ param.default, value.Whole)
    (hDepth : Expr.optionNesting param.default ≤ depth)
    (hLength : (ParamPart.declared param).tokens.length ≤ n)
    (hMore : EndsPart .colon more) :
    StartsPart (levels n) found depth
      ((ParamPart.declared param).tokens ++ more) more
      (ParamState.Resembles · (state.take (.declared param))) := by
  obtain ⟨name, kind, default, span⟩ := param
  have hPositional : kind ≠ .varPositional := by
    rintro rfl
    cases hKind
  have hKeyword : kind ≠ .varKeyword := by
    rintro rfl
    cases hKind
  have hTokens :
      (ParamPart.declared ⟨name, kind, default, span⟩).tokens =
        kindsOf (paramLexemes .keywordOnly name.name
          (default.map (Expr.lexemesAt 0))) := by
    cases kind <;> first
      | contradiction
      | cases default <;> rfl
  rw [ParamState.Allows, if_neg hPositional, if_neg hKeyword] at hAllows
  rw [hTokens] at hLength ⊢
  obtain ⟨others, hStart, hRead⟩ :=
    reads_paramDefault hDefault hDepth hLength hMore
  rw [hStart]
  refine ⟨_, _, rfl, rfl, rfl, ?_⟩
  rw [ParamState.take, if_neg hPositional, if_neg hKeyword]
  change Reads (namedParam _ _ _) _ _ _ _
  rw [namedParam_eq]
  refine .bind (.expectName name.name) fun read hName => ?_
  refine reads_noAnnotation.bind fun _ _ => hRead.bind fun value hValue => ?_
  have hSome : value.isSome = default.isSome := by
    rw [← Option.isSome_map (f := Expr.erased), hValue, Option.isSome_map]
  refine .ofFalse ?_ (.pure ⟨?_, hFound.keywordOnly, hFound.seenSlash, ?_⟩)
  · rw [hFound.keywordOnly, hFound.seenDefault, ← Option.not_isSome, hSome]
    intro hAll
    simp only [Bool.and_eq_true, Bool.not_eq_true'] at hAll
    obtain ⟨⟨hEarly, hNone⟩, hSeen⟩ := hAll
    rw [hAllows hEarly hSeen] at hNone
    cases hNone
  · change List.map _ (_ ++ [_]) = List.map _ (_ ++ [_])
    simp [hFound.params, ParamState.namedKind, hFound.keywordOnly,
      Param.erased, Ident.erased, hName, hValue]
  · rw [hFound.keywordOnly, hFound.seenDefault, hSome]

/- The parameter that takes all other keywords ends the list. -/
theorem endsWith_varKeyword
    {param : Param Expr}
    {later : List ParamPart}
    (hFound : found.Resembles state)
    (hKind : param.kind = .varKeyword)
    (hAllows : state.Allows later (.declared param))
    (hPost :
      ∀ next : ParamState,
        next.Resembles (state.take (.declared param)) → holds next) :
    Reads (grammar.paramRound .colon false found) depth
      ((ParamPart.declared param).tokens ++ .mark .colon :: more)
      (.mark .colon :: more) (Step.EndsWith holds) := by
  obtain ⟨name, kind, default, span⟩ := param
  obtain rfl : kind = .varKeyword := hKind
  obtain ⟨-, rfl : default = none⟩ := hAllows
  refine .peek (.ofTrue rfl ?_)
  refine .bind (?_ : Reads _ depth _ _ holds) fun next hNext => .pure hNext
  refine .bind .advance fun start _ => ?_
  refine .bind (.expectName name.name) fun read hName => ?_
  refine reads_noAnnotation.bind fun _ _ => ?_
  have hNoComma :
      Reads (eat (.mark .comma)) depth (.mark .colon :: more)
        (.mark .colon :: more) fun _ => True := by
    rw [← bind_pure (eat _)]
    exact .leave rfl (.pure trivial)
  refine .bind (.discard hNoComma) fun _ _ => .check (.ofTrue rfl (.pure ?_))
  refine hPost _
    ⟨?_, hFound.keywordOnly, hFound.seenSlash, hFound.seenDefault⟩
  change List.map _ (_ ++ [_]) = List.map _ (_ ++ [_])
  simp [hFound.params, Param.erased, Ident.erased, hName]

/- A part that is read back. -/
def ReadsPart (n depth : Nat) : ParamPart → Prop
  | .declared param =>
      (∀ value ∈ param.default, value.Whole) ∧
        Expr.optionNesting param.default ≤ depth ∧
          (ParamPart.declared param).tokens.length ≤ n
  | _ => True

/- The next part is read, whatever its mark, unless it ends the list. -/
theorem starts_part
    {part : ParamPart}
    {later : List ParamPart}
    (hFound : found.Resembles state)
    (hAllows : state.Allows later part)
    (hPart : ReadsPart n depth part)
    (hEnds : EndsPart .colon more)
    (hComma : later ≠ [] → ∃ others, more = .mark .comma :: others)
    (hOther :
      ∀ param, part = .declared param → param.kind ≠ .varKeyword) :
    StartsPart (levels n) found depth (part.tokens ++ more) more
      (ParamState.Resembles · (state.take part)) := by
  cases part with
  | slash => exact starts_slash hFound hAllows
  | star =>
      obtain ⟨others, rfl⟩ := hComma (And.right hAllows)
      exact starts_star hFound hAllows
  | declared param =>
      obtain ⟨hDefault, hDepth, hLength⟩ := hPart
      by_cases hKind : param.kind = .varPositional
      · exact starts_varPositional hFound hKind hAllows
      · refine starts_named hFound ?_ hAllows hDefault hDepth hLength hEnds
        have hNotKeyword := hOther param rfl
        revert hKind hNotKeyword
        cases param.kind <;> decide

/- What is left of a parameter list, and what has been read. -/
def PartsLeft
    (n depth : Nat)
    (params : List (Param Expr))
    (left : List ParamPart)
    (found : ParamState) : Prop :=
  ∃ state : ParamState,
    found.Resembles state ∧
      state.AllowsAll left ∧
        (left.foldl ParamState.take state).params = params ∧
          ∀ part ∈ left, ReadsPart n depth part

/- A parameter list is read up to the colon after it. -/
theorem reads_params
    {params : List (Param Expr)}
    (hParams : ParamsWellFormed params)
    (hParts : ∀ part ∈ ParamPart.list params, ReadsPart n depth part) :
    Reads ((levels n).params .colon false) depth
      ([.mark .comma].intercalate
          ((ParamPart.list params).map ParamPart.tokens) ++
        .mark .colon :: more)
      (.mark .colon :: more)
      fun found => found.map Param.erased = params.map Param.erased := by
  have hDeclares := ParamState.declares_list hParams
  rw [params_eq]
  refine .bind
    (.rounds (PartsLeft n depth params) ?_ ?_ ?_
      ⟨{}, ⟨rfl, rfl, rfl, rfl⟩, hDeclares.allows, hDeclares.params,
        hParts⟩ :
      Reads _ _ _ _ fun found : ParamState =>
        found.params.map Param.erased = params.map Param.erased)
    fun found hFound => ?_
  · rintro found ⟨state, hFound, -, hTaken, -⟩
    refine .peek (.ofFalse Bool.false_ne_true (.ofTrue rfl (.pure ?_)))
    exact hFound.params.trans (congrArg _ hTaken)
  · rintro part found ⟨state, hFound, ⟨hAllows, -⟩, hTaken, hPart⟩
    have hAll {next : ParamState}
        (hNext : next.Resembles (state.take part)) :
        next.params.map Param.erased = params.map Param.erased :=
      hNext.params.trans (congrArg _ hTaken)
    by_cases hKeyword : ∃ param, part = .declared param ∧
        param.kind = .varKeyword
    · obtain ⟨param, rfl, hKind⟩ := hKeyword
      exact endsWith_varKeyword hFound hKind hAllows fun _ => hAll
    · push Not at hKeyword
      have hStarts :=
        starts_part hFound hAllows (hPart part List.mem_cons_self)
          ⟨_, more, rfl, Or.inr rfl⟩ (absurd rfl) hKeyword
      exact (hStarts.mono fun _ => hAll).endsWith
  · rintro part later found more
      ⟨state, hFound, ⟨hAllows, hAllowed⟩, hTaken, hPart⟩ hSome
    have hOther (param : Param Expr) (hDeclared : part = .declared param) :
        param.kind ≠ .varKeyword := by
      rintro hKind
      subst hDeclared
      rw [ParamState.Allows, if_neg (by rw [hKind]; decide),
        if_pos hKind] at hAllows
      exact hSome hAllows.1
    have hStarts :=
      starts_part hFound hAllows (hPart part List.mem_cons_self)
        ⟨_, more, rfl, Or.inl rfl⟩ (fun _ => ⟨more, rfl⟩) hOther
    refine (hStarts.mono fun next hNext => ?_).goesOn
    exact ⟨state.take part, hNext, hAllowed, hTaken,
      fun other hMem => hPart other (List.mem_cons_of_mem _ hMem)⟩
  · have hNames :
        found.params.map (·.name.name) = params.map (·.name.name) := by
      have hSame := congrArg (List.map (·.name.name)) hFound
      rw [List.map_map, List.map_map] at hSame
      exact hSame
    have hNone : repeatedParam? [] found.params = none := by
      refine repeatedParam?_eq_none ?_ fun _ _ => List.not_mem_nil
      rw [hNames]
      exact hParams.distinct
    rw [hNone]
    exact .pure hFound

end Rounds

end ExprGrammar

------------------------------------------------------------
-- Functions without Names
------------------------------------------------------------

namespace ExprForm

theorem le_paramsNesting
    {params : List (Param Expr)}
    {param : Param Expr}
    (hMem : param ∈ params) :
    Expr.optionNesting param.default ≤ Expr.paramsNesting params := by
  induction params with
  | nil => cases hMem
  | cons first rest ih =>
      obtain ⟨name, kind, default, span⟩ := first
      rw [Expr.paramsNesting]
      rcases List.mem_cons.mp hMem with rfl | hRest
      · exact le_max_left _ _
      · exact (ih hRest).trans (le_max_right _ _)

theorem tokens_lambda
    (params : List (Param Expr))
    (body : Expr) :
    (lambda params body).tokens =
      .keyword .lambdaWord ::
        ([.mark .comma].intercalate
            ((ParamPart.list params).map ParamPart.tokens) ++
          .mark .colon :: body.tokensAt 0) := by
  cases params with
  | nil => rfl
  | cons param rest =>
      rw [tokens, lexemes, kindsOf_token, kindsOf_space, kindsOf_append,
        ParamPart.kindsOf_paramListLexemes]
      · rfl
      · exact List.cons_ne_nil _ _

/- A function is read with its parameters and its body. -/
theorem recovered_lambda
    {params : List (Param Expr)}
    {body : Expr}
    (hParams : ParamsWellFormed params)
    (hDefaults :
      ∀ param ∈ params, ∀ value ∈ param.default, value.Whole)
    (hBody : body.Whole) :
    (lambda params body).Recovered := by
  intro n depth rest hDepth hTokens hStops
  have hNesting :
      (lambda params body).nesting =
        max (Expr.paramsNesting params) (1 + body.nestingAt 0) := rfl
  rw [hNesting] at hDepth
  rw [tokens_lambda] at hTokens ⊢
  simp only [List.length_append, List.length_cons] at hTokens
  have hParts :
      ∀ part ∈ ParamPart.list params, ReadsPart n depth part := by
    intro part hMem
    have hPart :=
      @length_le_intercalate _ _ [TokenKind.mark .comma] ParamPart.tokens
        _ _ hMem
    cases part with
    | declared param =>
        have hParam := ParamPart.mem_of_mem_listFrom hMem
        exact ⟨hDefaults param hParam,
          (le_paramsNesting hParam).trans (by omega), by omega⟩
    | _ => trivial
  unfold Recovers
  rw [List.cons_append, List.append_assoc, List.cons_append]
  refine .check (.ofTrue rfl (.bind .advance fun start _ => ?_))
  refine (reads_params hParams hParts).bind fun found hFound => ?_
  refine .bind (.discard (.expect rfl)) fun _ _ => ?_
  refine (hBody.asExpression (Nat.zero_le _)
    (show _ ≤ depth by omega) (show _ < n by omega) hStops).bind
      fun value hValue => .pure ?_
  rw [Expr.erased, erased, hValue, Expr.erasedParams_eq_map, hFound,
    ← Expr.erasedParams_eq_map]
  rfl

end ExprForm

end SnippetGrader
