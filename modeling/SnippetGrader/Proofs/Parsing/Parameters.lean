import SnippetGrader.Parsing.Expression
import SnippetGrader.Proofs.Parsing.Yields
import SnippetGrader.Proofs.Tree.Plain

/-
  Parameter lists that are read are well-formed.

  Parameters are read one after another. What has been read so
  far fixes which kinds may still follow, and whether a default
  is required.

  Key definitions include:
    * `ExprGrammar.Sound`
    * `ExprGrammar.ParamState.Open`

  Key theorems include:
    * `ExprGrammar.yields_params`
-/

namespace SnippetGrader

namespace ExprGrammar

open SnippetGrader.Parser

/- Rules that yield plain expressions. -/
structure Sound (grammar : ExprGrammar) : Prop where
  expression : Yields grammar.expression Expr.Plain
  notTest : Yields grammar.notTest Expr.Plain
  bitOr : Yields grammar.bitOr Expr.Plain
  factor : Yields grammar.factor Expr.Plain

------------------------------------------------------------
-- Declared Parameters
------------------------------------------------------------

/- Parameters that may be declared after each other. -/
structure Declared (params : List (Param Expr)) : Prop where
  plain : ∀ param ∈ params, (Node.param param).Plain
  ordered : (params.map (·.kind)).Pairwise ParamKind.MayPrecede
  bare :
    ∀ param ∈ params,
      param.kind.isVariadic = true → param.default = none
  defaultsLast :
    params.Pairwise fun first second =>
      first.kind.isPositional = true →
        second.kind.isPositional = true →
          first.default.isSome = true →
            second.default.isSome = true

/- Another parameter may be declared if all before it may precede it. -/
theorem Declared.append
    {params : List (Param Expr)}
    {param : Param Expr}
    (hParams : Declared params)
    (hPlain : (Node.param param).Plain)
    (hOrder :
      ∀ earlier ∈ params, earlier.kind.MayPrecede param.kind)
    (hBare : param.kind.isVariadic = true → param.default = none)
    (hDefaults :
      param.kind.isPositional = true →
        param.default.isSome = false →
          ∀ earlier ∈ params,
            earlier.kind.isPositional = true →
              earlier.default.isSome = false) :
    Declared (params ++ [param]) := by
  constructor
  case plain =>
    exact List.forall_mem_append.mpr
      ⟨hParams.plain, by simpa using hPlain⟩
  case ordered =>
    rw [List.map_append, List.pairwise_append]
    refine ⟨hParams.ordered, List.pairwise_singleton _ _, ?_⟩
    intro kind hKind other hOther
    obtain ⟨earlier, hEarlier, rfl⟩ := List.mem_map.mp hKind
    rw [List.map_singleton, List.mem_singleton] at hOther
    rw [hOther]
    exact hOrder earlier hEarlier
  case bare =>
    exact List.forall_mem_append.mpr
      ⟨hParams.bare, by simpa using hBare⟩
  case defaultsLast =>
    rw [List.pairwise_append]
    refine ⟨hParams.defaultsLast, List.pairwise_singleton _ _, ?_⟩
    intro earlier hEarlier other hOther hFirst hSecond hSome
    rw [List.mem_singleton] at hOther
    subst hOther
    cases hDefault : other.default.isSome with
    | true => rfl
    | false =>
        rw [hDefaults hSecond hDefault earlier hEarlier hFirst] at hSome
        exact hSome

namespace ParamState

/-
  Parameters after which others may be declared. Before a star
  all of them are positional, and before a slash none of them is
  positional only.
-/
structure Open (state : ParamState) : Prop where
  declared : Declared state.params
  early :
    state.keywordOnly = false →
      ∀ param ∈ state.params, param.kind.isPositional = true
  unmarked :
    state.seenSlash = false →
      ∀ param ∈ state.params, param.kind ≠ .positionalOnly
  unfinished : ∀ param ∈ state.params, param.kind ≠ .varKeyword
  seen :
    state.seenDefault = false →
      ∀ param ∈ state.params,
        param.kind.isPositional = true → param.default.isSome = false

end ParamState

theorem plain_param
    {name : Ident}
    {kind : ParamKind}
    {default : Option Expr}
    {span : Span}
    (hName : IsName name.name)
    (hDefault : ∀ expr, default = some expr → expr.Plain) :
    (Node.param ⟨name, kind, default, span⟩).Plain := by
  refine Node.plain_of_children hName (fun _ hExpr => nomatch hExpr) ?_
  intro child hChild
  simp only [Node.children, Node.slots, List.flatMap_cons,
    Node.slotChildren_identSlot, Node.slotChildren_symbolSlot,
    Node.slotChildren_optionSlot, List.flatMap_nil, List.append_nil,
    List.nil_append, List.mem_map, Option.mem_toList] at hChild
  obtain ⟨expr, hExpr, rfl⟩ := hChild
  exact hDefault expr hExpr

------------------------------------------------------------
-- Steps
------------------------------------------------------------

section Steps

variable {grammar : ExprGrammar}

theorem yields_annotationSkipped
    (hGrammar : grammar.Sound)
    (annotated : Bool) :
    Yields (grammar.skipAnnotation annotated) fun _ => True := by
  refine .ite (fun _ => ?_) fun _ => .pure trivial
  refine (yields_eat _).bind fun _ => .ite (fun _ => ?_) fun _ => ?_
  · exact hGrammar.expression.discard.mono fun _ _ _ => trivial
  · exact .pure fun _ => trivial

/- A slash only changes the kinds of what stands before it. -/
theorem ParamState.Open.slash
    {state : ParamState}
    (hOpen : state.Open)
    (hEarly : state.keywordOnly = false) :
    ({ state with
      seenSlash := true
      params :=
        state.params.map fun param =>
          { param with kind := .positionalOnly } } : ParamState).Open := by
  have hPositional := hOpen.early hEarly
  constructor
  case declared =>
    constructor
    case plain =>
      simp only [List.forall_mem_map]
      intro param hParam
      have hPlain := hOpen.declared.plain param hParam
      refine Node.plain_of_children hPlain.everywhere.atNode.readsBack
        (fun _ hExpr => nomatch hExpr) fun child hChild => ?_
      refine ⟨hPlain.everywhere.atChild hChild, ?_⟩
      intro expr hExpr
      cases hOnly : expr.isIndexOnly with
      | false => rfl
      | true =>
          exact absurd hOnly fun hOnly =>
            hPlain.everywhere.atNode.indices expr (hExpr ▸ hChild) hOnly
    case ordered =>
      rw [List.map_map, List.pairwise_map]
      exact List.pairwise_of_forall fun _ _ => Or.inr ⟨rfl, rfl⟩
    case bare =>
      simp only [List.forall_mem_map]
      exact fun _ _ hVariadic => nomatch hVariadic
    case defaultsLast =>
      rw [List.pairwise_map]
      refine hOpen.declared.defaultsLast.imp_of_mem ?_
      intro first second hFirst hSecond hBefore _ _
      exact hBefore (hPositional first hFirst)
        (hPositional second hSecond)
  case early => simp [ParamKind.isPositional]
  case unmarked => simp
  case unfinished => simp
  case seen =>
    intro hSeen
    simp only [List.forall_mem_map]
    intro param hParam _
    exact hOpen.seen hSeen param hParam (hPositional param hParam)

theorem yields_slashParam
    (state : ParamState) :
    Yields (slashParam state) fun next => state.Open → next.Open := by
  refine yields_advance.bind fun _ => .ite (fun _ => ?_) fun hFits => ?_
  · exact yields_refuseAt _ _ _
  · refine .pure fun _ hOpen => hOpen.slash ?_
    simp only [Bool.or_eq_true, not_or, Bool.not_eq_true] at hFits
    exact hFits.1.2

theorem yields_varKeywordParam
    (hGrammar : grammar.Sound)
    (closing : Mark)
    (annotated : Bool)
    (state : ParamState) :
    Yields (grammar.varKeywordParam closing annotated state)
      fun next => state.Open → Declared next.params := by
  refine yields_advance.bind fun _ => ?_
  refine yields_expectName.bind fun name => ?_
  refine (yields_annotationSkipped hGrammar annotated).bind fun _ => ?_
  refine (yields_eat _).discard.bind fun _ => ?_
  refine (yields_check _).bind fun _ => .ite (fun _ => ?_) fun _ => ?_
  · refine .pure fun _ _ _ hName _ hOpen => ?_
    refine hOpen.declared.append ?_ ?_ (fun _ => rfl) nofun
    · exact plain_param hName nofun
    · intro earlier hEarlier
      exact ParamKind.mayPrecede_varKeyword
        (hOpen.unfinished earlier hEarlier)
  · exact yields_refuse _ _

/- After a further parameter, others may still follow. -/
theorem ParamState.Open.append
    {state : ParamState}
    {param : Param Expr}
    {keywordOnly seenDefault : Bool}
    (hOpen : state.Open)
    (hPlain : (Node.param param).Plain)
    (hOrder :
      ∀ earlier ∈ state.params,
        earlier.kind.MayPrecede param.kind)
    (hKind :
      param.kind ≠ .positionalOnly ∧ param.kind ≠ .varKeyword)
    (hBare : param.kind.isVariadic = true → param.default = none)
    (hDefault :
      param.kind.isPositional = true →
        param.default.isSome = false → state.seenDefault = false)
    (hEarly :
      keywordOnly = false →
        state.keywordOnly = false ∧ param.kind.isPositional = true)
    (hSeen :
      seenDefault = false →
        state.seenDefault = false ∧
          (param.kind.isPositional = true →
            param.default.isSome = false)) :
    ({ state with
      keywordOnly := keywordOnly
      seenDefault := seenDefault
      params := state.params ++ [param] } : ParamState).Open := by
  constructor
  case declared =>
    refine hOpen.declared.append hPlain hOrder hBare ?_
    intro hPositional hNone
    exact hOpen.seen (hDefault hPositional hNone)
  case early =>
    intro hLate
    obtain ⟨hBefore, hPositional⟩ := hEarly hLate
    exact List.forall_mem_append.mpr
      ⟨hOpen.early hBefore, by simpa using hPositional⟩
  case unmarked =>
    intro hSlash
    exact List.forall_mem_append.mpr
      ⟨hOpen.unmarked hSlash, by simpa using hKind.1⟩
  case unfinished =>
    exact List.forall_mem_append.mpr
      ⟨hOpen.unfinished, by simpa using hKind.2⟩
  case seen =>
    intro hNone
    obtain ⟨hBefore, hHere⟩ := hSeen hNone
    exact List.forall_mem_append.mpr
      ⟨hOpen.seen hBefore, by simpa using hHere⟩

theorem yields_starParam
    (hGrammar : grammar.Sound)
    (closing : Mark)
    (annotated : Bool)
    (state : ParamState) :
    Yields (grammar.starParam closing annotated state)
      fun next => state.Open → next.Open := by
  refine yields_advance.bind fun _ => .ite (fun _ => ?_) fun hEarly => ?_
  · exact yields_refuseAt _ _ _
  rw [Bool.not_eq_true] at hEarly
  refine yields_peek.bind fun kind => ?_
  split
  · refine yields_expectName.bind fun name => ?_
    refine (yields_annotationSkipped hGrammar annotated).bind fun _ => ?_
    refine .pure fun _ hName _ _ hOpen => ?_
    refine hOpen.append (plain_param hName nofun) ?_ ?_ (fun _ => rfl)
      nofun nofun fun hNone => ⟨hNone, nofun⟩
    · intro earlier hEarlier
      exact ParamKind.mayPrecede_varPositional
        (hOpen.early hEarly earlier hEarlier)
    · exact ⟨nofun, nofun⟩
  · refine .ite (fun _ => ?_) fun _ => ?_
    · exact yields_refuseAt _ _ _
    · refine .pure fun _ _ hOpen => ?_
      exact ⟨hOpen.declared, nofun, hOpen.unmarked, hOpen.unfinished,
        hOpen.seen⟩

theorem yields_namedParam
    (hGrammar : grammar.Sound)
    (annotated : Bool)
    (state : ParamState) :
    Yields (grammar.namedParam annotated state)
      fun next => state.Open → next.Open := by
  refine yields_expectName.bind fun name => ?_
  refine (yields_annotationSkipped hGrammar annotated).bind fun _ => ?_
  refine (yields_eat _).bind fun _ => ?_
  have hAssigned :
      Yields (some <$> grammar.expression) fun default =>
        ∀ expr, default = some expr → expr.Plain := by
    refine .map (hGrammar.expression.mono fun value hValue => ?_)
    rintro expr ⟨⟩
    exact hValue
  refine .iteBind (fun _ => hAssigned) (fun _ => .pure nofun)
    fun default => .ite (fun _ => ?_) fun hFits => ?_
  · exact yields_refuseAt _ _ _
  refine .pure fun hDefault _ _ hName hOpen => ?_
  have hPlain (kind : ParamKind) (span : Span) :
      (Node.param ⟨name, kind, default, span⟩).Plain :=
    plain_param hName hDefault
  cases hLate : state.keywordOnly with
  | true =>
      refine hOpen.append (hPlain _ _) ?_ ⟨nofun, nofun⟩ nofun nofun
        nofun ?_
      · intro earlier hEarlier
        exact ParamKind.mayPrecede_keywordOnly
          (hOpen.unfinished earlier hEarlier)
      · intro hNone
        exact ⟨by simpa using hNone, nofun⟩
  | false =>
      refine hOpen.append (hPlain _ _) ?_ ⟨nofun, nofun⟩ nofun ?_
        (fun _ => ⟨hLate, rfl⟩) ?_
      · intro earlier hEarlier
        exact ParamKind.mayPrecede_positionalOrKeyword
          (hOpen.early hLate earlier hEarlier)
      · intro _ hNone
        simp only [Option.isSome_eq_false_iff] at hNone
        simpa [hLate, hNone] using hFits
      · intro hNone
        simpa [ParamKind.isPositional] using hNone

/- The whole list, if no name is declared twice. -/
theorem nodup_of_repeatedParam?
    {earlier : List String}
    {params : List (Param Expr)}
    (hNone : repeatedParam? earlier params = none) :
    (params.map (·.name.name)).Nodup ∧
      ∀ param ∈ params, param.name.name ∉ earlier := by
  induction params generalizing earlier with
  | nil => simp
  | cons param rest ih =>
      simp only [repeatedParam?, List.contains_eq_mem,
        decide_eq_true_eq] at hNone
      split at hNone
      · cases hNone
      · rename_i hNew
        obtain ⟨hRest, hOthers⟩ := ih hNone
        refine ⟨?_, ?_⟩
        · rw [List.map_cons, List.nodup_cons]
          refine ⟨?_, hRest⟩
          intro hMem
          obtain ⟨other, hOther, hSame⟩ := List.mem_map.mp hMem
          exact hOthers other hOther (by simp [hSame])
        · intro other hOther
          rcases List.mem_cons.mp hOther with rfl | hLater
          · exact hNew
          · intro hMem
            exact hOthers other hLater (List.mem_cons_of_mem _ hMem)

theorem yields_params
    (hGrammar : grammar.Sound)
    (closing : Mark)
    (annotated : Bool) :
    Yields (grammar.params closing annotated) fun params =>
      ParamsWellFormed params ∧
        ∀ param ∈ params, (Node.param param).Plain := by
  have hStart : ParamState.Open {} :=
    ⟨⟨List.forall_mem_nil _, .nil, List.forall_mem_nil _, .nil⟩,
      fun _ => List.forall_mem_nil _, fun _ => List.forall_mem_nil _,
      List.forall_mem_nil _, fun _ => List.forall_mem_nil _⟩
  have hStep (state : ParamState) {step : Parser ParamState}
      (hNext : Yields step fun next => state.Open → next.Open) :
      Yields
        (do
          let next ← step
          if ← eat (.mark .comma) then return Step.again next
          return Step.done next)
        (RoundKeeps ParamState.Open
          (fun next : ParamState => Declared next.params) state) := by
    refine hNext.bind fun next => (yields_eat _).bind fun _ =>
      .ite (fun _ => ?_) fun _ => ?_
    · exact .pure fun _ hOpen => hOpen
    · exact .pure fun _ hOpen hBefore => (hOpen hBefore).declared
  refine (yields_loop ParamState.Open
    (fun next => Declared next.params) hStart fun state => ?_).bind
    fun state => ?_
  · refine yields_peek.bind fun kind => ?_
    split
    · refine (yields_varKeywordParam hGrammar closing annotated
        state).bind fun next => .pure ?_
      exact fun hDeclared _ hOpen => hDeclared hOpen
    · refine .ite (fun _ => ?_) fun _ => ?_
      · exact .pure fun _ hOpen => hOpen.declared
      dsimp only
      split
      · exact (hStep state (yields_slashParam state)).mono
          fun _ hRound _ => hRound
      · exact (hStep state
          (yields_starParam hGrammar closing annotated state)).mono
          fun _ hRound _ => hRound
      · exact (hStep state
          (yields_namedParam hGrammar annotated state)).mono
          fun _ hRound _ => hRound
  split
  · rename_i hDistinct
    refine .pure fun hDeclared => ⟨?_, hDeclared.plain⟩
    exact ⟨(nodup_of_repeatedParam? hDistinct).1, hDeclared.ordered,
      hDeclared.bare, hDeclared.defaultsLast⟩
  · exact yields_refuseAt _ _ _

end Steps

end ExprGrammar

end SnippetGrader
