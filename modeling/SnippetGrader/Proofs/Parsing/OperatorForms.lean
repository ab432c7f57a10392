import SnippetGrader.Proofs.Parsing.Recovery

/-
  Operators are read back with their operands.

  Operators group to the left, but powers to the right. Values
  between the same words, and operands of comparisons, form one
  list.

  Key theorems include:
    * `ExprForm.recovered_unary`
    * `ExprForm.climbedAt_binary`, `ExprForm.recovered_power`
    * `ExprForm.recovered_boolean`, `ExprForm.recovered_compare`
    * `ExprForm.recovered_conditional`
-/

namespace SnippetGrader

open SnippetGrader.Parser SnippetGrader.ExprGrammar

namespace ExprForm

------------------------------------------------------------
-- Prefixes
------------------------------------------------------------

/- An operator before its operand that is no word is a sign. -/
theorem exists_sign
    {op : UnaryOp}
    (hOp : op ≠ .not)
    (operand : Expr) :
    ∃ mark,
      signOp? (.mark mark) = some op ∧
        (unary op operand).strength = Strength.unary ∧
          (unary op operand).nesting =
              1 + operand.nestingAt Strength.unary ∧
            (unary op operand).tokens =
              .mark mark :: operand.tokensAt Strength.unary := by
  cases op <;> first
    | exact absurd rfl hOp
    | exact ⟨_, rfl, rfl, rfl, rfl⟩

/- A sign is read with the operand that it belongs to. -/
theorem recovered_unary
    {op : UnaryOp}
    {operand : Expr}
    (hOp : op ≠ .not)
    (hOperand : operand.Whole) :
    (unary op operand).Recovered := by
  intro n depth rest hDepth hLength hStops
  obtain ⟨mark, hSign, hStrength, hNesting, hTokens⟩ :=
    exists_sign hOp operand
  rw [hStrength] at hStops ⊢
  rw [hNesting] at hDepth
  rw [hTokens] at hLength ⊢
  rw [List.length_cons] at hLength
  obtain ⟨n, rfl⟩ : ∃ less, n = less + 1 := ⟨n - 1, by omega⟩
  obtain ⟨depth, rfl⟩ : ∃ less, depth = less + 1 := ⟨depth - 1, by omega⟩
  have hRule :=
    hOperand.atRule (show Strength.unary ≤ Strength.atom by decide)
      (show _ ≤ depth by omega) (show _ ≤ n by omega) hStops
  refine .peek ?_
  rw [hSign]
  refine .bind .advance fun start _ => ?_
  refine .bind (.nested hRule) fun found hFound => .pure ?_
  rw [Expr.erased, erased, hFound]
  rfl

/- So is the word before an operand. -/
theorem recovered_not
    {operand : Expr}
    (hOperand : operand.Whole) :
    (unary .not operand).Recovered := by
  intro n depth rest hDepth hLength hStops
  have hTokens :
      (unary .not operand).tokens =
        .keyword .notWord :: operand.tokensAt Strength.not := rfl
  have hNesting :
      (unary .not operand).nesting =
        1 + operand.nestingAt Strength.not := rfl
  rw [hNesting] at hDepth
  rw [hTokens] at hLength ⊢
  rw [List.length_cons] at hLength
  obtain ⟨n, rfl⟩ : ∃ less, n = less + 1 := ⟨n - 1, by omega⟩
  obtain ⟨depth, rfl⟩ : ∃ less, depth = less + 1 := ⟨depth - 1, by omega⟩
  have hRule :=
    hOperand.atRule (show Strength.not ≤ Strength.atom by decide)
      (show _ ≤ depth by omega) (show _ ≤ n by omega) hStops
  refine .check (.ofTrue rfl (.bind .advance fun start _ => ?_))
  refine .bind (.nested hRule) fun found hFound => .pure ?_
  rw [Expr.erased, erased, hFound]
  rfl

------------------------------------------------------------
-- Binary Operators
------------------------------------------------------------

theorem exists_binary
    {op : BinaryOp}
    (hOp : op ≠ .pow) :
    op.operandStrengths = (op.strength, op.strength + 1) ∧
      Strength.bitOr ≤ op.strength ∧
        op.strength ≤ Strength.term ∧
          opFor? op.strength (.mark op.mark) = some op ∧
            (TokenKind.mark op.mark).reach ≤ op.strength + 1 := by
  cases op <;> first
    | exact absurd rfl hOp
    | exact ⟨rfl, by decide, by decide, rfl, by decide⟩

/- An operation goes on where its left operand does. -/
theorem climbedAt_binary
    {left right : Expr}
    {op : BinaryOp}
    (hOp : op ≠ .pow)
    (hLeft : left.Whole)
    (hRight : right.Whole) :
    (Expr.synthetic (binary left op right)).ClimbedAt op.strength := by
  intro n depth rest after holds hDepth hLength hStops hClimb
  obtain ⟨hStrengths, hLow, hHigh, hFor, hReach⟩ := exists_binary hOp
  have hTokens :
      (Expr.synthetic (binary left op right)).tokensAt op.strength =
        left.tokensAt op.strength ++
          .mark op.mark :: right.tokensAt (op.strength + 1) := by
    have hTight : op.strength ≤ (binary left op right).strength := le_rfl
    rw [Expr.synthetic, Expr.tokensAt_of_tight hTight, tokens, lexemes,
      kindsOf_append, hStrengths]
    rfl
  have hNesting :
      (Expr.synthetic (binary left op right)).nestingAt op.strength =
        max (left.nestingAt op.strength)
          (right.nestingAt (op.strength + 1)) := by
    have hTight : op.strength ≤ (binary left op right).strength := le_rfl
    rw [Expr.synthetic, Expr.nestingAt_of_tight hTight]
    cases op <;> first
      | exact absurd rfl hOp
      | rfl
  rw [hNesting] at hDepth
  rw [hTokens] at hLength ⊢
  simp only [List.length_append, List.length_cons] at hLength
  have hClimbing : IsClimbing op.strength := Or.inl ⟨hLow, hHigh⟩
  rw [List.append_assoc, List.cons_append]
  refine hLeft.climbed hClimbing _ _ _ _ _ (by omega) (by omega)
    ⟨_, _, rfl, hReach⟩ fun found hFound => ?_
  rw [climb_of_operator hHigh]
  have hRule :=
    hRight.atRule (show op.strength + 1 ≤ Strength.atom from
      (Nat.succ_le_succ hHigh).trans (by decide))
      (show _ ≤ depth by omega) (show _ ≤ n by omega) hStops
  refine .again
    (·.erased = (Expr.synthetic (binary left op right)).erased) rest
    (.peek ?_) ?_ fun next hNext => ?_
  · rw [hFor]
    refine .skip (.bind hRule fun other hOther => .pure ?_)
    change Expr.erased (.mk _ _) = _
    rw [Expr.erased, erased, hFound, hOther]
    rfl
  · simp only [List.length_cons, List.length_append]
    omega
  · rw [← climb_of_operator hHigh]
    exact hClimb next hNext

/- A power is read with all powers on its right. -/
theorem recovered_power
    {left right : Expr}
    (hLeft : left.Whole)
    (hRight : right.Whole) :
    (binary left .pow right).Recovered := by
  intro n depth rest hDepth hLength hStops
  have hTokens :
      (binary left .pow right).tokens =
        left.tokensAt Strength.primary ++
          .mark .doubleStar :: right.tokensAt Strength.unary := by
    rw [tokens, lexemes, kindsOf_append]
    rfl
  have hNesting :
      (binary left .pow right).nesting =
        max (left.nestingAt Strength.primary)
          (1 + right.nestingAt Strength.unary) := rfl
  rw [hNesting] at hDepth
  rw [hTokens] at hLength ⊢
  simp only [List.length_append, List.length_cons] at hLength
  obtain ⟨n, rfl⟩ : ∃ less, n = less + 1 := ⟨n - 1, by omega⟩
  obtain ⟨depth, rfl⟩ : ∃ less, depth = less + 1 := ⟨depth - 1, by omega⟩
  have hBase :=
    hLeft.atRule (show Strength.primary ≤ Strength.atom by decide)
      (show _ ≤ depth + 1 by omega) (show _ ≤ n + 1 by omega)
      (show Stops Strength.primary
        (.mark .doubleStar :: (right.tokensAt Strength.unary ++ rest)) from
          ⟨_, _, rfl, le_rfl⟩)
  have hExponent :=
    hRight.atRule (show Strength.unary ≤ Strength.atom by decide)
      (show _ ≤ depth by omega) (show _ ≤ n by omega)
      (hStops.of_succ (Or.inr rfl))
  unfold Recovers
  rw [List.append_assoc, List.cons_append]
  refine hBase.bind fun base hFound => .eat rfl (.ofTrue rfl ?_)
  refine .bind (.nested hExponent) fun exponent hOther => .pure ?_
  rw [Expr.erased, erased, hFound, hOther]
  rfl

------------------------------------------------------------
-- Values between Words
------------------------------------------------------------

theorem le_valuesNesting
    {strength : Nat}
    {values : List Expr}
    {value : Expr}
    (hMem : value ∈ values) :
    value.nestingAt strength ≤ Expr.valuesNesting strength values := by
  induction values with
  | nil => cases hMem
  | cons first rest ih =>
      rw [Expr.valuesNesting]
      rcases List.mem_cons.mp hMem with rfl | hRest
      · exact le_max_left _ _
      · exact (ih hRest).trans (le_max_right _ _)

/- Parts after the first one are written with a separator before each. -/
theorem intercalate_eq_flatMap
    {α β : Type}
    (separator : List β)
    (texts : α → List β)
    (first : α)
    (rest : List α) :
    separator.intercalate ((first :: rest).map texts) =
      texts first ++ rest.flatMap fun part => separator ++ texts part := by
  induction rest generalizing first with
  | nil => simp
  | cons second later ih =>
      rw [List.map_cons, List.map_cons, List.intercalate_cons_cons,
        ← List.map_cons, ih, List.flatMap_cons, List.append_assoc,
        List.append_assoc]

theorem length_le_flatMap
    {α β : Type}
    {texts : α → List β}
    {items : List α}
    {item : α}
    (hMem : item ∈ items) :
    (texts item).length ≤ (items.flatMap texts).length := by
  induction items with
  | nil => cases hMem
  | cons first rest ih =>
      rw [List.flatMap_cons, List.length_append]
      rcases List.mem_cons.mp hMem with rfl | hRest
      · omega
      · have hLater := ih hRest
        omega

theorem exists_word
    (op : BoolOp) :
    (∀ grammar : ExprGrammar,
        grammar.rule op.strength =
          booleanLevel op.word op (grammar.rule (op.strength + 1))) ∧
      (TokenKind.keyword op.word).reach = op.strength + 1 := by
  cases op <;> exact ⟨fun _ => rfl, rfl⟩

/- Two or more values with one word between them are read as one list. -/
theorem recovered_boolean
    {op : BoolOp}
    {values : List Expr}
    (hLength : 2 ≤ values.length)
    (hValues : ∀ value ∈ values, value.Whole) :
    (boolean op values).Recovered := by
  obtain ⟨first, second, later, rfl⟩ :
      ∃ first second later, values = first :: second :: later := by
    rcases values with _ | ⟨first, _ | ⟨second, later⟩⟩
    · cases hLength
    · exact absurd hLength (by simp)
    · exact ⟨first, second, later, rfl⟩
  intro n depth rest hDepth hTokens hStops
  obtain ⟨hRule, hReach⟩ := exists_word op
  have hForm :
      (boolean op (first :: second :: later)).tokens =
        first.tokensAt (op.strength + 1) ++
          (second :: later).flatMap fun value =>
            .keyword op.word :: value.tokensAt (op.strength + 1) := by
    rw [tokens, lexemes, Expr.lexemesAll_eq_map, kindsOf_intercalate,
      List.map_map]
    exact intercalate_eq_flatMap [.keyword op.word]
      (Expr.tokensAt (op.strength + 1)) first (second :: later)
  have hNesting :
      (boolean op (first :: second :: later)).nesting =
        Expr.valuesNesting (op.strength + 1)
          (first :: second :: later) := rfl
  have hBound : op.strength + 1 ≤ Strength.atom := op.strength_lt
  rw [hNesting] at hDepth
  rw [hForm] at hTokens ⊢
  rw [List.length_append] at hTokens
  have hOperand {value : Expr}
      (hMem : value ∈ first :: second :: later)
      (hFits : (value.tokensAt (op.strength + 1)).length ≤ n)
      (more : List TokenKind)
      (hMore : Stops (op.strength + 1) more) :
      Recovers ((levels n).rule (op.strength + 1)) depth
        (value.tokensAt (op.strength + 1)) more value :=
    (hValues value hMem).atRule hBound
      ((le_valuesNesting hMem).trans hDepth) hFits hMore
  have hLater :
      ∀ value ∈ second :: later,
        ∀ more, Stops (op.strength + 1) more →
          Recovers ((levels n).rule (op.strength + 1)) depth
            (value.tokensAt (op.strength + 1)) more value := by
    intro value hMem
    have hPart :=
      @length_le_flatMap _ _
        (fun value : Expr =>
          TokenKind.keyword op.word :: value.tokensAt (op.strength + 1))
        _ _ hMem
    rw [List.length_cons] at hPart
    exact hOperand (List.mem_cons_of_mem _ hMem) (by omega)
  have hWord (more : List TokenKind) :
      Stops (op.strength + 1) (.keyword op.word :: more) :=
    ⟨_, _, rfl, hReach.le⟩
  have hSame := TokenKind.beq_keyword op.word
  change Stops op.strength rest at hStops
  change Recovers ((levels n).rule op.strength) _ _ _ _
  rw [hRule]
  unfold Recovers
  rw [List.append_assoc]
  refine (hOperand List.mem_cons_self (by omega) _ (hWord _)).bind
    fun found hFound => .check (.ofTrue hSame ?_)
  refine .bind
    (.links (ReadSoFar _ Expr.erased (first :: second :: later))
      (fun _ => List.cons_ne_nil _ _) (fun _ _ => hWord _)
      (hStops.mono (Nat.le_succ _)) ?_ ?_ ⟨hLater, ?_⟩)
    fun values
        (hFound :
          values.map Expr.erased =
            (first :: second :: later).map Expr.erased) =>
      .previousSpan fun _ => .pure ?_
  · intro values hRead
    obtain ⟨kind, more, rfl, hKind⟩ := hStops
    refine .leave (TokenKind.word_of_reach hKind (by omega))
      (.ofFalse Bool.false_ne_true (.pure ?_))
    have hWhole := hRead.2
    rwa [List.append_nil] at hWhole
  · intro value left values more hRead hMore
    refine .eat hSame (.ofTrue rfl ?_)
    exact (hRead.1 value List.mem_cons_self more hMore).bind
      fun next hNext => .pure (hRead.next hNext)
  · simp [hFound]
  · rw [Expr.erased, erased, Expr.erasedAll_eq_map, hFound]
    simp [Expr.erased, erased, Expr.synthetic]

------------------------------------------------------------
-- Comparisons
------------------------------------------------------------

/- An operator of one or two words is read before an operand. -/
theorem reads_comparisonOp
    (op : CompareOp)
    {depth : Nat}
    {operand : List TokenKind}
    (hOperand : Leads Strength.bitOr operand) :
    Reads comparisonOp? depth (kindsOf op.lexemes ++ operand) operand
      (· = some op) := by
  obtain ⟨kind, later, lead, rfl, hLead, hTight⟩ := hOperand
  cases op with
  | same =>
      refine .peek (.peekAhead ?_)
      cases kind with
      | keyword word =>
          cases word <;> first
            | exact .skip (.pure rfl)
            | (cases hLead; exact absurd hTight (by decide))
      | _ => exact .skip (.pure rfl)
  | notSame => exact .peek (.peekAhead (.skip (.skip (.pure rfl))))
  | notMember => exact .peek (.peekAhead (.skip (.skip (.pure rfl))))
  | _ => exact .peek (.peekAhead (.skip (.pure rfl)))

/- Every operator ends the operand before it. -/
theorem stops_comparisonOp
    (op : CompareOp)
    (more : List TokenKind) :
    Stops Strength.bitOr (kindsOf op.lexemes ++ more) := by
  cases op <;> exact ⟨_, _, rfl, by decide⟩

/- The tokens of one more operand of a comparison. -/
def stepTokens (step : CompareOp × Expr) : List TokenKind :=
  kindsOf step.1.lexemes ++ step.2.tokensAt Strength.bitOr

theorem kindsOf_stepLexemes
    (steps : List (CompareOp × Expr)) :
    kindsOf (Expr.stepLexemes steps) = steps.flatMap stepTokens := by
  induction steps with
  | nil => rfl
  | cons first rest ih =>
      obtain ⟨op, operand⟩ := first
      rw [Expr.stepLexemes, kindsOf_space, kindsOf_append, kindsOf_space,
        kindsOf_append, ih, List.flatMap_cons, stepTokens,
        List.append_assoc]
      rfl

theorem le_stepsNesting
    {steps : List (CompareOp × Expr)}
    {step : CompareOp × Expr}
    (hMem : step ∈ steps) :
    step.2.nestingAt Strength.bitOr ≤ Expr.stepsNesting steps := by
  induction steps with
  | nil => cases hMem
  | cons first rest ih =>
      obtain ⟨op, operand⟩ := first
      rw [Expr.stepsNesting]
      rcases List.mem_cons.mp hMem with rfl | hRest
      · exact le_max_left _ _
      · exact (ih hRest).trans (le_max_right _ _)

/- A chain of comparisons is read as one. -/
theorem recovered_compare
    {left : Expr}
    {steps : List (CompareOp × Expr)}
    (hSome : steps ≠ [])
    (hLeft : left.Whole)
    (hSteps : ∀ step ∈ steps, step.2.Whole) :
    (compare left steps).Recovered := by
  intro n depth rest hDepth hTokens hStops
  have hForm :
      (compare left steps).tokens =
        left.tokensAt Strength.bitOr ++ steps.flatMap stepTokens := by
    rw [tokens, lexemes, kindsOf_append, kindsOf_stepLexemes]
    rfl
  have hNesting :
      (compare left steps).nesting =
        max (left.nestingAt Strength.bitOr)
          (Expr.stepsNesting steps) := rfl
  rw [hNesting] at hDepth
  rw [hForm] at hTokens ⊢
  rw [List.length_append] at hTokens
  change Stops Strength.comparison rest at hStops
  have hBound : Strength.bitOr ≤ Strength.atom := by decide
  have hLater :
      ∀ step ∈ steps,
        Leads Strength.bitOr (step.2.tokensAt Strength.bitOr) ∧
          ∀ more, Stops Strength.bitOr more →
            Recovers ((levels n).rule Strength.bitOr) depth
              (step.2.tokensAt Strength.bitOr) more step.2 := by
    intro step hMem
    have hPart := @length_le_flatMap _ _ stepTokens _ _ hMem
    have hNested := le_stepsNesting hMem
    rw [stepTokens, List.length_append] at hPart
    exact
      ⟨(hSteps step hMem).leads hBound, fun more hMore =>
        (hSteps step hMem).atRule hBound (by omega) (by omega) hMore⟩
  have hNext (step : CompareOp × Expr) (more : List TokenKind) :
      Stops Strength.bitOr (stepTokens step ++ more) := by
    rw [stepTokens, List.append_assoc]
    exact stops_comparisonOp step.1 _
  have hSteps :
      Stops Strength.bitOr (steps.flatMap stepTokens ++ rest) := by
    obtain ⟨first, others, rfl⟩ := List.exists_cons_of_ne_nil hSome
    rw [List.flatMap_cons, List.append_assoc]
    exact hNext first _
  unfold Recovers
  rw [List.append_assoc]
  refine (hLeft.atRule hBound (show _ ≤ depth by omega)
    (show _ ≤ n by omega) hSteps).bind fun first hFirst => ?_
  refine .bind
    (.links (ReadSoFar _ (Prod.map id Expr.erased) steps)
      (fun step => ?_) hNext (hStops.mono (Nat.le_succ _)) ?_ ?_
      ⟨hLater, rfl⟩)
    fun found
        (hFound :
          found.map (Prod.map id Expr.erased) =
            steps.map (Prod.map id Expr.erased)) => ?_
  · obtain ⟨op, operand⟩ := step
    cases op <;> exact List.cons_ne_nil _ _
  · intro found hRead
    obtain ⟨kind, more, rfl, hReach⟩ := hStops
    refine (reads_noComparison hReach).bind ?_
    rintro _ rfl
    refine .pure ?_
    have hWhole := hRead.2
    rwa [List.append_nil] at hWhole
  · intro step left found more hRead hMore
    obtain ⟨hLeads, hOperand⟩ := hRead.1 step List.mem_cons_self
    rw [stepTokens, List.append_assoc]
    refine (reads_comparisonOp step.1 (hLeads.append more)).bind ?_
    rintro _ rfl
    refine (hOperand more hMore).bind fun operand hOther =>
      .pure (hRead.next ?_)
    exact Prod.ext rfl hOther
  · have hNonempty : ¬ found.isEmpty = true := by
      rw [List.isEmpty_iff]
      rintro rfl
      exact hSome (List.map_eq_nil_iff.mp hFound.symm)
    refine .ofFalse hNonempty (.previousSpan fun _ => .pure ?_)
    rw [Expr.erased, erased, Expr.erasedSteps_eq_map, hFound, hFirst]
    simp [Expr.erased, erased, Expr.synthetic]

------------------------------------------------------------
-- Conditionals
------------------------------------------------------------

/- A conditional is read up to the end of its last operand. -/
theorem recovered_conditional
    {test body orelse : Expr}
    (hTest : test.Whole)
    (hBody : body.Whole)
    (hElse : orelse.Whole) :
    (conditional test body orelse).Recovered := by
  intro n depth rest hDepth hTokens hStops
  have hForm :
      (conditional test body orelse).tokens =
        body.tokensAt Strength.or ++
          .keyword .ifWord ::
            (test.tokensAt Strength.or ++
              .keyword .elseWord ::
                orelse.tokensAt Strength.conditional) := by
    rw [tokens, lexemes, kindsOf_append, kindsOf_space, kindsOf_token,
      kindsOf_space, kindsOf_append]
    rfl
  have hNesting :
      (conditional test body orelse).nesting =
        max
          (max (body.nestingAt Strength.or) (test.nestingAt Strength.or))
          (1 + orelse.nestingAt Strength.conditional) := rfl
  rw [hNesting] at hDepth
  rw [hForm] at hTokens ⊢
  simp only [List.length_append, List.length_cons] at hTokens
  have hOr : Strength.or ≤ Strength.atom := by decide
  unfold Recovers
  rw [List.append_assoc, List.cons_append, List.append_assoc,
    List.cons_append]
  refine (hBody.atRule hOr (show _ ≤ depth by omega)
    (show _ ≤ n by omega) ⟨_, _, rfl, le_rfl⟩).bind fun first hFirst => ?_
  refine .eat rfl (.ofTrue rfl ?_)
  refine (hTest.atRule hOr (show _ ≤ depth by omega)
    (show _ ≤ n by omega) ⟨_, _, rfl, Nat.zero_le _⟩).bind
      fun choice hChoice => ?_
  refine .bind (.discard (.expect rfl)) fun _ _ => ?_
  refine (hElse.asExpression (show Strength.conditional ≤ _ by decide)
    (show _ ≤ depth by omega) (show _ < n by omega)
    (hStops.of_succ (Or.inl rfl))).bind fun other hOther => .pure ?_
  rw [Expr.erased, erased, hFirst, hChoice, hOther]
  rfl

end ExprForm

end SnippetGrader
