import SnippetGrader.Proofs.Parsing.Levels
import SnippetGrader.Proofs.Tree.Erasure

/-
  Expressions that are read back from their tokens.

  The rules over enough levels read the tokens of a form up to a
  token that does not go on with it. So an expression that is
  parenthesized where its place needs it is read back by every
  rule that is no tighter than its place.

  Key definitions include:
    * `Expr.tokensAt`, `ExprForm.tokens`
    * `ExprForm.Recovered`, `Expr.RecoveredAt`, `Expr.ClimbedAt`

  Key theorems include:
    * `Expr.recoveredAt_of_form`
    * `Expr.recovered_of_climbed`, `Expr.whole_of_recovered`
-/

namespace SnippetGrader

open SnippetGrader.Parser

/- The tokens of an expression in a place that needs a strength. -/
def Expr.tokensAt (strength : Nat) (expr : Expr) : List TokenKind :=
  kindsOf (expr.lexemesAt strength)

/- The tokens of a form without parentheses around it. -/
def ExprForm.tokens (form : ExprForm Expr) : List TokenKind :=
  kindsOf form.lexemes

theorem Expr.tokensAt_mk
    (strength : Nat)
    (span : Span)
    (form : ExprForm Expr) :
    (Expr.mk span form).tokensAt strength =
      if form.strength < strength then
        .mark .openParen :: form.tokens ++ [.mark .closeParen]
      else form.tokens := by
  unfold tokensAt ExprForm.tokens
  rw [lexemesAt]
  split
  · simp [enclosed]
  · rfl

open ExprGrammar

------------------------------------------------------------
-- Forms and Expressions
------------------------------------------------------------

/- What a parser reads is an expression, up to positions. -/
def Parser.Recovers
    (parser : Parser Expr)
    (depth : Nat)
    (tokens rest : List TokenKind)
    (expr : Expr) : Prop :=
  Reads parser depth (tokens ++ rest) rest
    fun found => found.erased = expr.erased

/- A form whose tokens its own rule reads back. -/
def ExprForm.Recovered (form : ExprForm Expr) : Prop :=
  ∀ n depth rest,
    form.nesting ≤ depth →
      form.tokens.length ≤ n →
        Stops form.strength rest →
          Recovers ((levels n).rule form.strength) depth form.tokens rest
            (.synthetic form)

/-
  An expression whose tokens in a place are read back by the
  rules that are no tighter than the place.
-/
def Expr.RecoveredAt (strength : Nat) (expr : Expr) : Prop :=
  ∀ n depth looser rest,
    looser ≤ strength →
      expr.nestingAt strength ≤ depth →
        (expr.tokensAt strength).length ≤ n →
          Stops looser rest →
            Recovers ((levels n).rule looser) depth
              (expr.tokensAt strength) rest expr

/-
  An expression after which the rule of its place goes on with
  operators that group to the left.
-/
def Expr.ClimbedAt (strength : Nat) (expr : Expr) : Prop :=
  ∀ n depth rest after (holds : Expr → Prop),
    expr.nestingAt strength ≤ depth →
      (expr.tokensAt strength).length ≤ n →
        Stops (strength + 1) rest →
          (∀ found : Expr, found.erased = expr.erased →
            Reads ((levels n).climb strength found) depth rest after
              holds) →
            Reads ((levels n).rule strength) depth
              (expr.tokensAt strength ++ rest) after holds

namespace Expr

variable {span : Span}
variable {form : ExprForm Expr}

/- An expression that does not start with a star is an item. -/
theorem reads_unstarred
    {grammar : ExprGrammar}
    {unstarred : Parser Expr}
    {depth : Nat}
    {tokens rest : List TokenKind}
    {holds : Expr → Prop}
    (hLeads : Leads 0 tokens)
    (hRead : Reads unstarred depth (tokens ++ rest) rest holds) :
    Reads (grammar.starred unstarred) depth (tokens ++ rest) rest
      holds := by
  obtain ⟨kind, later, lead, rfl, hLead, -⟩ := hLeads
  refine .check (.ofFalse ?_ hRead)
  rw [TokenKind.mark_of_lead hLead rfl]
  exact Bool.false_ne_true

/- Only its word starts a comprehension. -/
theorem reads_noComprehension
    {depth : Nat}
    {kind : TokenKind}
    {rest : List TokenKind}
    (hKind : (kind == .keyword .forWord) = false) :
    Reads refuseComprehension depth (kind :: rest) (kind :: rest)
      fun _ => True :=
  .check (.ofFalse (Bool.eq_false_iff.mp hKind) (.pure trivial))

/- Tokens in parentheses are read back as an atom. -/
theorem reads_parenthesized
    (hForm : form.Recovered)
    (hLeads : Leads form.strength form.tokens)
    {n depth : Nat}
    (hDepth : 1 + form.nesting ≤ depth)
    (hLength : form.tokens.length + 2 ≤ n)
    {rest : List TokenKind} :
    Recovers ((levels n).rule Strength.atom) depth
      (.mark .openParen :: form.tokens ++ [.mark .closeParen]) rest
      (.synthetic form) := by
  obtain ⟨n, rfl⟩ : ∃ less, n = less + 1 := ⟨n - 1, by omega⟩
  obtain ⟨depth, rfl⟩ : ∃ less, depth = less + 1 := ⟨depth - 1, by omega⟩
  have hStops (strength : Nat) : Stops strength (.mark .closeParen :: rest) :=
    ⟨_, _, rfl, Nat.zero_le _⟩
  have hInner :=
    hForm n depth _ (by omega) (by omega) (hStops form.strength)
  have hBound : form.strength ≤ Strength.atom := by
    obtain ⟨_, _, lead, -, hLead, hTight⟩ := hLeads
    exact hTight.trans (TokenKind.lead_le hLead)
  have hWhole :
      Reads (levels (n + 1)).expression (depth + 1)
        (form.tokens ++ .mark .closeParen :: rest)
        (.mark .closeParen :: rest)
        fun found => found.erased = (Expr.synthetic form).erased :=
    .nested (reads_looser hInner hLeads (Nat.zero_le _) hBound (hStops 0))
  have hItem :=
    @reads_unstarred (levels (n + 1)) _ _ _ _ _
      (hLeads.mono (Nat.zero_le _)) hWhole
  obtain ⟨kind, later, lead, hTokens, hLead, -⟩ := hLeads
  unfold Recovers
  rw [List.append_assoc, List.cons_append, List.singleton_append]
  refine .peek (.bind .advance fun opening _ => ?_)
  rw [hTokens, List.cons_append] at hItem ⊢
  refine .check (.ofFalse ?_ (hItem.bind fun first hFirst => ?_))
  · rw [TokenKind.mark_of_lead hLead rfl]
    exact Bool.false_ne_true
  · exact (reads_noComprehension rfl).bind fun _ _ =>
      .eat rfl (.ofTrue rfl (.pure hFirst))

theorem tokensAt_of_loose
    {strength : Nat}
    (hLoose : form.strength < strength) :
    (Expr.mk span form).tokensAt strength =
      .mark .openParen :: form.tokens ++ [.mark .closeParen] := by
  rw [tokensAt_mk, if_pos hLoose]

theorem tokensAt_of_tight
    {strength : Nat}
    (hTight : strength ≤ form.strength) :
    (Expr.mk span form).tokensAt strength = form.tokens := by
  rw [tokensAt_mk, if_neg (by omega)]

theorem nestingAt_of_tight
    {strength : Nat}
    (hTight : strength ≤ form.strength) :
    (Expr.mk span form).nestingAt strength = form.nesting := by
  rw [nestingAt, if_neg (by omega), Nat.zero_add]

/- An expression is read back in every place if its form is. -/
theorem recoveredAt_of_form
    (hForm : form.Recovered)
    (hLeads : Leads form.strength form.tokens)
    {strength : Nat}
    (hStrength : strength ≤ Strength.atom) :
    (Expr.mk span form).RecoveredAt strength := by
  intro n depth looser rest hLooser hDepth hLength hStops
  rw [nestingAt] at hDepth
  by_cases hLoose : form.strength < strength
  · rw [if_pos hLoose] at hDepth
    rw [tokensAt_of_loose hLoose] at hLength ⊢
    simp only [List.length_append, List.length_cons,
      List.length_nil] at hLength
    have hAtom :=
      @reads_parenthesized form hForm hLeads n depth hDepth (by omega) rest
    exact reads_looser hAtom ⟨_, _, _, rfl, rfl, le_rfl⟩
      (hLooser.trans hStrength) le_rfl hStops
  · rw [if_neg hLoose] at hDepth
    rw [not_lt] at hLoose
    rw [tokensAt_of_tight hLoose] at hLength ⊢
    have hOwn :=
      hForm n depth rest (by omega) hLength
        (hStops.mono (hLooser.trans hLoose))
    have hBound : form.strength ≤ Strength.atom := by
      obtain ⟨_, _, lead, -, hLead, hTight⟩ := hLeads
      exact hTight.trans (TokenKind.lead_le hLead)
    exact reads_looser hOwn hLeads (hLooser.trans hLoose) hBound hStops

/- An expression of another strength is a single operand. -/
theorem climbedAt_of_ne
    {expr : Expr}
    {strength : Nat}
    (hClimbing : IsClimbing strength)
    (hNe : expr.form.strength ≠ strength)
    (hExpr : expr.RecoveredAt (strength + 1)) :
    expr.ClimbedAt strength := by
  intro n depth rest after holds hDepth hLength hStops hClimb
  obtain ⟨span, form⟩ := expr
  have hSame :
      (Expr.mk span form).tokensAt strength =
          (Expr.mk span form).tokensAt (strength + 1) ∧
        (Expr.mk span form).nestingAt strength =
          (Expr.mk span form).nestingAt (strength + 1) := by
    have hIff : form.strength < strength ↔ form.strength < strength + 1 := by
      have hOther : form.strength ≠ strength := hNe
      omega
    rw [tokensAt_mk, tokensAt_mk, nestingAt, nestingAt]
    simp only [hIff, and_self]
  rw [rule_eq_climb hClimbing, hSame.1]
  rw [hSame.1] at hLength
  rw [hSame.2] at hDepth
  exact (hExpr _ _ _ _ le_rfl hDepth hLength hStops).bind hClimb

/- A form is read back if the rule of its strength goes on after it. -/
theorem recovered_of_climbed
    (hClimbing : IsClimbing form.strength)
    (hClimbed : (Expr.synthetic form).ClimbedAt form.strength) :
    form.Recovered := by
  intro n depth rest hDepth hLength hStops
  have hNesting :
      (Expr.synthetic form).nestingAt form.strength = form.nesting :=
    nestingAt_of_tight le_rfl
  have hTokens :
      (Expr.synthetic form).tokensAt form.strength = form.tokens :=
    tokensAt_of_tight le_rfl
  unfold Recovers
  rw [← hTokens] at hLength ⊢
  rw [← hNesting] at hDepth
  exact hClimbed _ _ _ _ _ hDepth hLength (hStops.mono (Nat.le_succ _))
    fun found hFound =>
      (climb_stop hClimbing hStops found).mono fun _ hSame =>
        hSame ▸ hFound

------------------------------------------------------------
-- Operands
------------------------------------------------------------

/- An expression that is read back wherever one may stand. -/
structure Whole (expr : Expr) : Prop where
  leads :
    ∀ {strength}, strength ≤ Strength.atom →
      Leads strength (expr.tokensAt strength)
  recovered :
    ∀ {strength}, strength ≤ Strength.atom → expr.RecoveredAt strength
  climbed :
    ∀ {strength}, IsClimbing strength → expr.ClimbedAt strength

/- How a form is read back that takes no operands on its left. -/
theorem whole_of_recovered
    (hLeads :
      ∀ {strength}, strength ≤ Strength.atom →
        Leads strength ((Expr.mk span form).tokensAt strength))
    (hBound : form.strength ≤ Strength.atom)
    (hClimbing : ¬ IsClimbing form.strength)
    (hForm : form.Recovered) :
    (Expr.mk span form).Whole := by
  have hOwn : Leads form.strength form.tokens := by
    have hTight := hLeads hBound
    rwa [tokensAt_of_tight le_rfl] at hTight
  have hRecovered {strength : Nat} (hStrength : strength ≤ Strength.atom) :
      (Expr.mk span form).RecoveredAt strength :=
    recoveredAt_of_form hForm hOwn hStrength
  refine ⟨hLeads, hRecovered, ?_⟩
  intro strength hStrength
  have hNe : form.strength ≠ strength := by
    rintro rfl
    exact hClimbing hStrength
  exact
    @climbedAt_of_ne (.mk span form) _ hStrength hNe
      (hRecovered hStrength.lt_atom)

/- How a form is read back that takes an operand on its left. -/
theorem whole_of_climbed
    (hLeads :
      ∀ {strength}, strength ≤ Strength.atom →
        Leads strength ((Expr.mk span form).tokensAt strength))
    (hClimbing : IsClimbing form.strength)
    (hClimbed : (Expr.synthetic form).ClimbedAt form.strength) :
    (Expr.mk span form).Whole := by
  have hOwn : Leads form.strength form.tokens := by
    have hTight := hLeads hClimbing.lt_atom.le
    rwa [tokensAt_of_tight le_rfl] at hTight
  have hRecovered {strength : Nat} (hStrength : strength ≤ Strength.atom) :
      (Expr.mk span form).RecoveredAt strength :=
    recoveredAt_of_form (recovered_of_climbed hClimbing hClimbed) hOwn
      hStrength
  refine ⟨hLeads, hRecovered, ?_⟩
  intro strength hStrength
  by_cases hSame : form.strength = strength
  · subst hSame
    exact hClimbed
  · exact
      @climbedAt_of_ne (.mk span form) _ hStrength hSame
        (hRecovered hStrength.lt_atom)

namespace Whole

variable {expr : Expr}
variable {n depth : Nat}
variable {rest : List TokenKind}

/- An expression is read back by the rule of its place. -/
theorem atRule
    (hExpr : expr.Whole)
    {strength : Nat}
    (hStrength : strength ≤ Strength.atom)
    (hDepth : expr.nestingAt strength ≤ depth)
    (hLength : (expr.tokensAt strength).length ≤ n)
    (hStops : Stops strength rest) :
    Recovers ((levels n).rule strength) depth (expr.tokensAt strength)
      rest expr :=
  hExpr.recovered hStrength _ _ _ _ le_rfl hDepth hLength hStops

/- A whole expression inside another one lies a level deeper. -/
theorem asExpression
    (hExpr : expr.Whole)
    {strength : Nat}
    (hStrength : strength ≤ Strength.atom)
    (hDepth : 1 + expr.nestingAt strength ≤ depth)
    (hLength : (expr.tokensAt strength).length < n)
    (hStops : Stops 0 rest) :
    Recovers (levels n).expression depth (expr.tokensAt strength) rest
      expr := by
  obtain ⟨n, rfl⟩ : ∃ less, n = less + 1 := ⟨n - 1, by omega⟩
  obtain ⟨depth, rfl⟩ : ∃ less, depth = less + 1 := ⟨depth - 1, by omega⟩
  exact .nested
    (hExpr.recovered hStrength _ _ _ _ (Nat.zero_le _) (by omega)
      (by omega) hStops)

end Whole

end Expr

end SnippetGrader
