import SnippetGrader.Parsing.Expression
import SnippetGrader.Proofs.Parsing.Reads
import SnippetGrader.Proofs.Tree.Phrases

/-
  The levels of the grammar of expressions.

  There is a rule for each strength, and it reads the
  expressions that bind at least as tightly. A rule goes on as
  long as the next token is an operator of its own strength or
  of a tighter one. So what a rule reads, the next looser rule
  reads too, unless the expression starts with an operator of
  that rule, or one follows it.

  Key definitions include:
    * `TokenKind.reach`, `Stops`, `Leads`
    * `ExprGrammar.rule`, `ExprGrammar.climb`

  Key theorems include:
    * `ExprGrammar.reads_looser`
-/

namespace SnippetGrader

------------------------------------------------------------
-- First and Next Tokens
------------------------------------------------------------

/-
  How tightly an expression must bind so that a token after it
  does not belong to it.
-/
def TokenKind.reach : TokenKind → Nat
  | .str _ => Strength.atom + 1
  | .mark .openParen | .mark .openBracket | .mark .dot =>
      Strength.primary + 1
  | .mark .doubleStar => Strength.power + 1
  | .mark .star | .mark .atSign | .mark .slash | .mark .doubleSlash
  | .mark .percent => Strength.term + 1
  | .mark .plus | .mark .minus => Strength.sum + 1
  | .mark .shiftLeft | .mark .shiftRight => Strength.shift + 1
  | .mark .ampersand => Strength.bitAnd + 1
  | .mark .caret => Strength.bitXor + 1
  | .mark .pipe => Strength.bitOr + 1
  | .mark .equal | .mark .notEqual | .mark .less | .mark .lessEq
  | .mark .greater | .mark .greaterEq | .keyword .inWord
  | .keyword .notWord | .keyword .isWord => Strength.comparison + 1
  | .keyword .andWord => Strength.and + 1
  | .keyword .orWord => Strength.or + 1
  | .keyword .ifWord => Strength.conditional + 1
  | _ => 0

/- Tokens that do not belong to an expression before them. -/
def Stops (strength : Nat) (rest : List TokenKind) : Prop :=
  ∃ kind later, rest = kind :: later ∧ kind.reach ≤ strength

/- Tokens of an expression of some strength. -/
def Leads (strength : Nat) (tokens : List TokenKind) : Prop :=
  ∃ kind later lead,
    tokens = kind :: later ∧ kind.lead? = some lead ∧ strength ≤ lead

theorem Stops.mono
    {strength tighter : Nat}
    {rest : List TokenKind}
    (hStops : Stops strength rest)
    (hTighter : strength ≤ tighter) :
    Stops tighter rest := by
  obtain ⟨kind, later, hRest, hReach⟩ := hStops
  exact ⟨kind, later, hRest, hReach.trans hTighter⟩

/- No operators bind just as tightly as a lambda or a sign. -/
theorem Stops.of_succ
    {strength : Nat}
    {rest : List TokenKind}
    (hStops : Stops (strength + 1) rest)
    (hStrength : strength = Strength.lambda ∨ strength = Strength.unary) :
    Stops strength rest := by
  obtain ⟨kind, later, rfl, hReach⟩ := hStops
  refine ⟨kind, later, rfl, ?_⟩
  have hNone : kind.reach ≠ strength + 1 := by
    rcases hStrength with rfl | rfl
    · cases kind with
      | mark mark => cases mark <;> decide
      | keyword word => cases word <;> decide
      | str _ => exact (by decide : Strength.atom + 1 ≠ Strength.lambda + 1)
      | _ => exact (Nat.succ_ne_zero _).symm
    · cases kind with
      | mark mark => cases mark <;> decide
      | keyword word => cases word <;> decide
      | str _ => exact (by decide : Strength.atom + 1 ≠ Strength.unary + 1)
      | _ => exact (Nat.succ_ne_zero _).symm
  omega

theorem Leads.append
    {strength : Nat}
    {tokens : List TokenKind}
    (hLeads : Leads strength tokens)
    (rest : List TokenKind) :
    Leads strength (tokens ++ rest) := by
  obtain ⟨kind, later, lead, rfl, hLead, hStrength⟩ := hLeads
  exact ⟨kind, later ++ rest, lead, rfl, hLead, hStrength⟩

theorem Leads.mono
    {strength looser : Nat}
    {tokens : List TokenKind}
    (hLeads : Leads strength tokens)
    (hLooser : looser ≤ strength) :
    Leads looser tokens := by
  obtain ⟨kind, later, lead, hTokens, hLead, hStrength⟩ := hLeads
  exact ⟨kind, later, lead, hTokens, hLead, hLooser.trans hStrength⟩

theorem OpensWith.leads
    {strength : Nat}
    {lexemes : List Lexeme}
    (hOpens : OpensWith strength lexemes) :
    Leads strength (kindsOf lexemes) := by
  obtain ⟨kind, rest, lead, rfl, hLead, hStrength, -⟩ := hOpens
  exact ⟨kind, kindsOf rest, lead, rfl, hLead, hStrength⟩

namespace TokenKind

variable {kind : TokenKind}
variable {mark : Mark}
variable {word : Keyword}
variable {strength lead : Nat}

/- A token with too small a reach is not one with a greater reach. -/
theorem beq_of_reach
    {other : TokenKind}
    (hReach : kind.reach ≤ strength)
    (hOther : strength < other.reach)
    (hSame : (kind == other) = true → kind = other) :
    (kind == other) = false := by
  rw [Bool.eq_false_iff]
  intro hEqual
  rw [hSame hEqual] at hReach
  omega

theorem mark_of_reach
    (hReach : kind.reach ≤ strength)
    (hMark : strength < (TokenKind.mark mark).reach) :
    (kind == .mark mark) = false :=
  beq_of_reach hReach hMark eq_of_beq_mark

theorem word_of_reach
    (hReach : kind.reach ≤ strength)
    (hWord : strength < (TokenKind.keyword word).reach) :
    (kind == .keyword word) = false :=
  beq_of_reach hReach hWord eq_of_beq_keyword

theorem lead_le
    (hLead : kind.lead? = some lead) :
    lead ≤ Strength.atom := by
  cases kind with
  | mark symbol => cases symbol <;> cases hLead <;> decide
  | keyword symbol => cases symbol <;> cases hLead <;> decide
  | _ => cases hLead <;> decide

/- A token that leads an expression is not one that cannot. -/
theorem mark_of_lead
    (hLead : kind.lead? = some lead)
    (hMark : (TokenKind.mark mark).lead? = none) :
    (kind == .mark mark) = false := by
  rw [Bool.eq_false_iff]
  intro hEqual
  rw [eq_of_beq_mark hEqual, hMark] at hLead
  cases hLead

theorem word_of_lead
    (hLead : kind.lead? = some lead)
    (hWord : ∀ other ∈ (TokenKind.keyword word).lead?, other < lead) :
    (kind == .keyword word) = false := by
  rw [Bool.eq_false_iff]
  intro hEqual
  have hSame := hWord lead (by rw [← eq_of_beq_keyword hEqual]; exact hLead)
  omega

/- What leads a power is no sign. -/
theorem signOp?_of_lead
    (hLead : kind.lead? = some lead)
    (hTight : Strength.unary + 1 ≤ lead) :
    ExprGrammar.signOp? kind = none := by
  cases kind with
  | mark symbol =>
      cases symbol <;> first
        | rfl
        | (cases hLead; exact absurd hTight (by decide))
  | _ => rfl

end TokenKind

namespace ExprGrammar

open SnippetGrader.Parser

------------------------------------------------------------
-- Rules
------------------------------------------------------------

variable {grammar : ExprGrammar}

/- A whole expression, without the level that it is nested in. -/
def whole (grammar : ExprGrammar) : Parser Expr := do
  if ← check (.keyword .lambdaWord) then grammar.lambda
  else grammar.conditional

/- The rule for expressions that bind at least as tightly as a strength. -/
def rule (grammar : ExprGrammar) : (strength : Nat) → Parser Expr
  | 0 => grammar.whole
  | 1 => grammar.conditional
  | 2 => grammar.disjunction
  | 3 => booleanLevel .andWord .and grammar.negation
  | 4 => grammar.negation
  | 5 => grammar.comparison
  | 13 => grammar.power
  | 14 => grammar.primary
  | 15 => grammar.atom
  | strength =>
      (binaryLevels.take (12 - strength)).foldl binaryLevel grammar.signed

/- The strengths whose operators group to the left. -/
def IsClimbing (strength : Nat) : Prop :=
  Strength.bitOr ≤ strength ∧ strength ≤ Strength.term ∨
    strength = Strength.primary

instance (strength : Nat) : Decidable (IsClimbing strength) := by
  unfold IsClimbing
  infer_instance

theorem IsClimbing.lt_atom
    {strength : Nat}
    (hClimbing : IsClimbing strength) :
    strength < Strength.atom := by
  rcases hClimbing with ⟨-, hHigh⟩ | rfl
  · exact hHigh.trans_lt (by decide)
  · decide

/- The operators between operands of a strength. -/
def opFor? (strength : Nat) : TokenKind → Option BinaryOp :=
  binaryLevels.getD (Strength.term - strength) fun _ => none

/- One more operand on the right, if its operator comes next. -/
def binaryRound
    (operand : Parser Expr)
    (opFor : TokenKind → Option BinaryOp)
    (left : Expr) :
    Parser (Step Expr Expr) := do
  (opFor (← peek)).elim (return .done left) fun op => do
    discard advance
    let right ← operand
    return .again
      (.mk (left.span.merge right.span) (.binary left op right))

/- One more call, subscript or attribute, if there is one. -/
def trailerRound
    (grammar : ExprGrammar)
    (object : Expr) :
    Parser (Step Expr Expr) := do
  let kind ← peek
  if kind == .mark .openParen then
    let opening := (← advance).span
    let given ← grammar.arguments opening
    return .again
      (.mk (object.span.merge (← previousSpan))
        (.call object given.args given.keywords))
  else if kind == .mark .openBracket then
    let opening := (← advance).span
    let index ← grammar.subscriptIndex
    discard (expectClosing .closeBracket opening)
    return .again
      (.mk (object.span.merge (← previousSpan)) (.subscript object index))
  else if kind == .mark .dot then
    discard advance
    let attr ← expectName
    return .again (.mk (object.span.merge attr.span) (.attribute object attr))
  else return .done object

/- What goes on after an expression with operators that group to the left. -/
def climb (grammar : ExprGrammar) (strength : Nat) (left : Expr) : Parser Expr :=
  if strength = Strength.primary then loop left grammar.trailerRound
  else
    loop left
      (binaryRound (grammar.rule (strength + 1)) (opFor? strength))

theorem climb_of_operator
    {strength : Nat}
    (hStrength : strength ≤ Strength.term)
    (left : Expr) :
    grammar.climb strength left =
      loop left
        (binaryRound (grammar.rule (strength + 1)) (opFor? strength)) := by
  refine if_neg ?_
  rintro rfl
  exact absurd hStrength (by decide)

theorem climb_of_primary
    (object : Expr) :
    grammar.climb Strength.primary object =
      loop object grammar.trailerRound := rfl

theorem binaryLevel_eq
    (operand : Parser Expr)
    (opFor : TokenKind → Option BinaryOp) :
    binaryLevel operand opFor =
      operand >>= fun left => loop left (binaryRound operand opFor) := by
  unfold binaryLevel
  congr 1
  funext left
  congr 1
  funext left
  unfold binaryRound
  congr 1
  funext kind
  cases opFor kind <;> rfl

theorem primary_eq
    (grammar : ExprGrammar) :
    grammar.primary =
      grammar.atom >>= fun object => loop object grammar.trailerRound := by
  unfold primary
  congr 1
  funext object
  congr 1
  funext object
  unfold trailerRound
  congr 1
  funext kind
  cases kind with
  | mark symbol => cases symbol <;> rfl
  | _ => rfl

/- A level whose operators group to the left reads a first operand first. -/
theorem rule_eq_climb
    {strength : Nat}
    (hClimbing : IsClimbing strength) :
    grammar.rule strength =
      grammar.rule (strength + 1) >>= grammar.climb strength := by
  rcases hClimbing with ⟨hLow, hHigh⟩ | rfl
  · simp only [Strength.bitOr, Strength.term] at hLow hHigh
    interval_cases strength <;> exact binaryLevel_eq _ _
  · exact primary_eq grammar

section Climbing

variable {depth : Nat}
variable {kind : TokenKind}
variable {rest : List TokenKind}
variable {strength : Nat}

theorem opFor?_of_reach
    (hLow : Strength.bitOr ≤ strength)
    (hHigh : strength ≤ Strength.term)
    (hReach : kind.reach ≤ strength) :
    opFor? strength kind = none := by
  simp only [Strength.bitOr, Strength.term] at hLow hHigh
  cases kind with
  | mark symbol =>
      interval_cases strength <;> cases symbol <;>
        first | rfl | exact absurd hReach (by decide)
  | _ => interval_cases strength <;> rfl

/- An expression ends where no operator of its level comes next. -/
theorem climb_stop
    (hClimbing : IsClimbing strength)
    (hStops : Stops strength rest)
    (left : Expr) :
    Reads (grammar.climb strength left) depth rest rest (· = left) := by
  obtain ⟨kind, later, rfl, hReach⟩ := hStops
  rcases hClimbing with ⟨hLow, hHigh⟩ | rfl
  · rw [climb_of_operator hHigh]
    refine .done (.peek ?_)
    rw [opFor?_of_reach hLow hHigh hReach]
    exact .pure rfl
  · rw [climb_of_primary]
    have hMark (mark : Mark)
        (hMark : Strength.primary < (TokenKind.mark mark).reach) :
        ¬ (kind == .mark mark) = true := by
      rw [TokenKind.mark_of_reach hReach hMark]
      exact Bool.false_ne_true
    exact .done (.peek (.ofFalse (hMark .openParen (by decide))
      (.ofFalse (hMark .openBracket (by decide))
        (.ofFalse (hMark .dot (by decide)) (.pure rfl)))))

/- No comparison goes on with a token that reaches less far. -/
theorem reads_noComparison
    (hReach : kind.reach ≤ Strength.comparison) :
    Reads comparisonOp? depth (kind :: rest) (kind :: rest)
      (· = none) := by
  refine .peek (.peekAhead ?_)
  cases kind with
  | mark symbol =>
      cases symbol <;> first
        | exact .pure rfl
        | exact absurd hReach (by decide)
  | keyword word =>
      cases word <;> first
        | exact .pure rfl
        | exact absurd hReach (by decide)
  | _ => exact .pure rfl

end Climbing

------------------------------------------------------------
-- Looser Rules
------------------------------------------------------------

section Looser

variable {depth : Nat}
variable {tokens rest : List TokenKind}
variable {holds : Expr → Prop}
variable {strength : Nat}

/- Values without a word after the first one are no operands. -/
theorem reads_booleanLevel_alone
    {word : Keyword}
    {op : BoolOp}
    {operand : Parser Expr}
    (hOperand : Reads operand depth (tokens ++ rest) rest holds)
    (hStops : Stops strength rest)
    (hWord : strength < (TokenKind.keyword word).reach) :
    Reads (booleanLevel word op operand) depth (tokens ++ rest) rest
      holds := by
  obtain ⟨kind, later, rfl, hReach⟩ := hStops
  refine hOperand.bind fun first hFirst => .check (.ofFalse ?_ (.pure hFirst))
  rw [TokenKind.word_of_reach hReach hWord]
  exact Bool.false_ne_true

/-
  A rule reads what the next tighter one reads, if it does not
  start with an operator of the looser rule, and none follows.
-/
theorem reads_next
    (hRead :
      Reads (grammar.rule (strength + 1)) depth (tokens ++ rest) rest
        holds)
    (hLeads : Leads (strength + 1) tokens)
    (hStops : Stops strength rest)
    (hBound : strength < Strength.atom) :
    Reads (grammar.rule strength) depth (tokens ++ rest) rest holds := by
  by_cases hClimbing : IsClimbing strength
  · rw [rule_eq_climb hClimbing]
    exact hRead.bind fun left hLeft =>
      (climb_stop hClimbing hStops left).mono fun _ hSame =>
        hSame ▸ hLeft
  obtain ⟨lead, more, tight, rfl, hLead, hTight⟩ := hLeads
  have hStopped := hStops
  obtain ⟨kind, later, rfl, hReach⟩ := hStops
  have hNotMark {mark : Mark}
      (hMark : strength < (TokenKind.mark mark).reach) :
      (kind == .mark mark) = false :=
    TokenKind.mark_of_reach hReach hMark
  have hNotWord {word : Keyword}
      (hWord : strength < (TokenKind.keyword word).reach) :
      (kind == .keyword word) = false :=
    TokenKind.word_of_reach hReach hWord
  have hNoWord {word : Keyword}
      (hWord :
        ∀ other ∈ (TokenKind.keyword word).lead?, other < strength + 1) :
      ¬ (lead == .keyword word) = true := by
    rw [TokenKind.word_of_lead hLead fun other hOther =>
      (hWord other hOther).trans_le hTight]
    exact Bool.false_ne_true
  simp only [Strength.atom] at hBound
  interval_cases strength
  · exact .check (.ofFalse (hNoWord (by decide)) hRead)
  · exact hRead.bind fun body hBody =>
      .leave (hNotWord (by decide))
        (.ofFalse Bool.false_ne_true (.pure hBody))
  · exact reads_booleanLevel_alone hRead hStopped (by decide)
  · exact reads_booleanLevel_alone hRead hStopped (by decide)
  · exact .check (.ofFalse (hNoWord (by decide)) hRead)
  · refine hRead.bind fun left hLeft =>
      .bind (show Reads _ _ _ (kind :: later) (· = []) from
        .done ((reads_noComparison hReach).bind ?_)) ?_
    · rintro _ rfl
      exact .pure rfl
    · rintro _ rfl
      exact .ofTrue rfl (.pure hLeft)
  · exact absurd (Or.inl (by decide)) hClimbing
  · exact absurd (Or.inl (by decide)) hClimbing
  · exact absurd (Or.inl (by decide)) hClimbing
  · exact absurd (Or.inl (by decide)) hClimbing
  · exact absurd (Or.inl (by decide)) hClimbing
  · exact absurd (Or.inl (by decide)) hClimbing
  · refine .peek ?_
    rw [TokenKind.signOp?_of_lead hLead hTight]
    exact hRead
  · exact hRead.bind fun base hBase =>
      .leave (hNotMark (by decide))
        (.ofFalse Bool.false_ne_true (.pure hBase))
  · exact absurd (Or.inr rfl) hClimbing

/- A rule reads what a tighter one reads. -/
theorem reads_looser
    {tight : Nat}
    (hRead :
      Reads (grammar.rule tight) depth (tokens ++ rest) rest holds)
    (hLeads : Leads tight tokens)
    (hLooser : strength ≤ tight)
    (hTight : tight ≤ Strength.atom)
    (hStops : Stops strength rest) :
    Reads (grammar.rule strength) depth (tokens ++ rest) rest holds := by
  induction tight with
  | zero =>
      rw [Nat.le_zero.mp hLooser]
      exact hRead
  | succ tight ih =>
      rcases Nat.of_le_succ hLooser with hLess | rfl
      · refine ih ?_ (hLeads.mono (Nat.le_succ tight)) hLess (by omega)
        exact reads_next hRead hLeads (hStops.mono hLess) hTight
      · exact hRead

end Looser

end ExprGrammar

end SnippetGrader
