import SnippetGrader.Proofs.Token.Rounds

/-
  Lines and blocks are balanced.

  A line is ended only after something that stands on it, and
  blocks are opened and closed only at the start of a line. In
  brackets there are no lines. The number of open blocks is that
  of the indentations that a run keeps, so that at the end of
  the text all of them are closed.

  Key definitions include:
    * `openBrackets`, `MayFollow`
    * `OpenBlocks`, `Bracketed`
    * `BalancedLayout`
    * `LexState.InLayout`

  Key theorems include:
    * `OpenBlocks.snoc`, `Bracketed.snoc`
    * `LexState.InLayout.enters`, `LexState.InLayout.finds`
    * `layout_balanced`
-/

namespace SnippetGrader

------------------------------------------------------------
-- Blocks and Brackets
------------------------------------------------------------

namespace TokenKind

/- The token that opens a block. -/
def opensBlock : TokenKind → Bool
  | .indent => true
  | _ => false

/- The token that closes a block. -/
def closesBlock : TokenKind → Bool
  | .dedent => true
  | _ => false

end TokenKind

/-
  The number of brackets that tokens leave open. A closing one
  without an opening one is ignored.
-/
def openBrackets (kinds : List TokenKind) : Nat :=
  kinds.foldl LexState.bracketsAfterKind 0

/- The last of the tokens. A text starts like a line after another one. -/
def lastOrNewline (kinds : List TokenKind) : TokenKind :=
  kinds.getLast?.getD .newline

/- Tokens after which blocks can be closed. -/
def LineEnded (kinds : List TokenKind) : Prop :=
  lastOrNewline kinds = .newline ∨ lastOrNewline kinds = .dedent

/- Whether a token may stand right after another one. -/
structure MayFollow (earlier later : TokenKind) : Prop where
  newline : later = .newline → earlier ≠ .newline
  indent : later = .indent → earlier = .newline
  dedent : later = .dedent → earlier = .newline ∨ earlier = .dedent

/- Tokens before the end of a text that leave a number of blocks open. -/
structure OpenBlocks (kinds : List TokenKind) (blocks : Nat) : Prop where
  unended : .endOfFile ∉ kinds
  follows : (.newline :: kinds).IsChain MayFollow
  nested :
    ∀ before, before <+: kinds →
      before.countP TokenKind.closesBlock ≤
        before.countP TokenKind.opensBlock
  count :
    kinds.countP TokenKind.opensBlock =
      kinds.countP TokenKind.closesBlock + blocks

/- Tokens that leave a number of brackets open, with no layout inside. -/
structure Bracketed (kinds : List TokenKind) (brackets : Nat) : Prop where
  count : openBrackets kinds = brackets
  outside :
    ∀ before kind after,
      kinds = before ++ kind :: after →
        kind.isLayout = true → openBrackets before = 0

/-
  The tokens of a text, if their layout is balanced: they end
  with the only token for the end, blocks are closed as often as
  they are opened and never before, brackets that are closed
  have no layout between them, blocks are opened at the start of
  a line, no line is empty, and the last line ends before the
  blocks that are still open do.
-/
structure BalancedLayout (kinds : List TokenKind) : Prop where
  ends :
    ∃ before,
      kinds = before ++ [TokenKind.endOfFile] ∧ .endOfFile ∉ before
  nested :
    ∀ before, before <+: kinds →
      before.countP TokenKind.closesBlock ≤
        before.countP TokenKind.opensBlock
  closed :
    kinds.countP TokenKind.closesBlock = kinds.countP TokenKind.opensBlock
  bracketed :
    ∀ before kind inside after,
      kinds = before ++ kind :: (inside ++ after) →
        0 < openBrackets before →
          openBrackets (before ++ kind :: inside) = 0 →
            kind.isLayout = false
  indented :
    ∀ before after,
      kinds = before ++ TokenKind.indent :: after →
        before = [] ∨ before.getLast? = some .newline
  separated :
    kinds.IsChain fun kind next => ¬(kind = .newline ∧ next = .newline)
  ended :
    ∃ lines blocks,
      kinds =
          lines ++ List.replicate blocks TokenKind.dedent ++
            [TokenKind.endOfFile] ∧
        (lines.getLast? = some .newline ∨ lines = [] ∧ blocks = 0)

------------------------------------------------------------
-- More Tokens
------------------------------------------------------------

section Snoc

variable {kinds : List TokenKind}
variable {blocks brackets : Nat}
variable {kind : TokenKind}

@[simp] theorem lastOrNewline_snoc :
    lastOrNewline (kinds ++ [kind]) = kind := by
  simp [lastOrNewline]

theorem openBrackets_snoc :
    openBrackets (kinds ++ [kind]) =
      LexState.bracketsAfterKind (openBrackets kinds) kind := by
  simp [openBrackets]

/- What may follow the last token may be added. -/
theorem follows_snoc
    (hFollows : (.newline :: kinds).IsChain MayFollow)
    (hMay : MayFollow (lastOrNewline kinds) kind) :
    (.newline :: (kinds ++ [kind])).IsChain MayFollow := by
  rw [← List.cons_append, List.isChain_append]
  refine ⟨hFollows, .singleton _, ?_⟩
  intro earlier hLast later hFirst
  rw [List.getLast?_cons] at hLast
  cases hLast
  cases hFirst
  exact hMay

/- What stands before a token is something that it may follow. -/
theorem mayFollow_of_split
    {before after : List TokenKind}
    (hFollows : (.newline :: kinds).IsChain MayFollow)
    (hSplit : kinds = before ++ kind :: after) :
    MayFollow (lastOrNewline before) kind := by
  rw [hSplit, ← List.cons_append, List.isChain_append] at hFollows
  refine hFollows.2.2 _ ?_ _ rfl
  simp [lastOrNewline, List.getLast?_cons]

theorem openBlocks_nil : OpenBlocks [] 0 where
  unended := List.not_mem_nil
  follows := .singleton _
  nested before hPrefix := by simp [List.prefix_nil.mp hPrefix]
  count := rfl

theorem bracketed_nil : Bracketed [] 0 where
  count := rfl
  outside before kind after hSplit := by simp at hSplit

theorem OpenBlocks.snoc
    {after : Nat}
    (hBlocks : OpenBlocks kinds blocks)
    (hEnd : kind ≠ .endOfFile)
    (hFollows : MayFollow (lastOrNewline kinds) kind)
    (hCount :
      blocks + [kind].countP TokenKind.opensBlock =
        after + [kind].countP TokenKind.closesBlock) :
    OpenBlocks (kinds ++ [kind]) after where
  unended := by
    simp only [List.mem_append, List.mem_singleton, not_or]
    exact ⟨hBlocks.unended, hEnd.symm⟩
  follows := follows_snoc hBlocks.follows hFollows
  nested before hPrefix := by
    rcases List.prefix_concat_iff.mp hPrefix with rfl | hEarlier
    · have hHere := hBlocks.count
      simp only [List.countP_append]
      omega
    · exact hBlocks.nested before hEarlier
  count := by
    have hHere := hBlocks.count
    simp only [List.countP_append]
    omega

/- A token that stands on a line neither opens nor closes a block. -/
theorem OpenBlocks.solid
    (hBlocks : OpenBlocks kinds blocks)
    (hSolid : kind.isLayout = false) :
    OpenBlocks (kinds ++ [kind]) blocks := by
  cases kind with
  | newline | indent | dedent | endOfFile => cases hSolid
  | _ => exact hBlocks.snoc (by simp) ⟨by simp, by simp, by simp⟩ rfl

theorem Bracketed.snoc
    (hBrackets : Bracketed kinds brackets)
    (hOutside : kind.isLayout = true → brackets = 0) :
    Bracketed (kinds ++ [kind])
      (LexState.bracketsAfterKind brackets kind) where
  count := by rw [openBrackets_snoc, hBrackets.count]
  outside before other after hSplit hLayout := by
    rcases List.eq_nil_or_concat after with rfl | ⟨rest, last, rfl⟩
    · obtain ⟨rfl, hSame⟩ := List.append_inj' hSplit rfl
      cases hSame
      rw [hBrackets.count]
      exact hOutside hLayout
    · have hEarlier :
          kinds ++ [kind] = (before ++ other :: rest) ++ [last] := by
        simpa using hSplit
      exact hBrackets.outside before other rest
        (List.append_inj' hEarlier rfl).1 hLayout

/- Blocks are closed at the start of a line. -/
theorem OpenBlocks.close
    {closed : Nat}
    (hBlocks : OpenBlocks kinds (closed + blocks))
    (hLast : LineEnded kinds) :
    OpenBlocks (kinds ++ List.replicate closed TokenKind.dedent) blocks := by
  induction closed generalizing kinds with
  | zero => simpa using hBlocks
  | succ closed ih =>
      have hNext :
          OpenBlocks (kinds ++ [TokenKind.dedent]) (closed + blocks) := by
        refine hBlocks.snoc (by simp) ⟨by simp, by simp, fun _ => hLast⟩ ?_
        simp [List.countP_singleton, TokenKind.opensBlock,
          TokenKind.closesBlock]
        omega
      have hClosed := ih hNext (.inr lastOrNewline_snoc)
      rwa [List.append_assoc, List.singleton_append,
        ← List.replicate_succ] at hClosed

theorem LineEnded.close
    (hLast : LineEnded kinds)
    (closed : Nat) :
    LineEnded (kinds ++ List.replicate closed TokenKind.dedent) := by
  cases closed with
  | zero => simpa using hLast
  | succ closed =>
      rw [List.replicate_succ', ← List.append_assoc]
      exact .inr lastOrNewline_snoc

/- Closing blocks outside of brackets leaves the brackets as they are. -/
theorem Bracketed.close
    (hBrackets : Bracketed kinds 0)
    (closed : Nat) :
    Bracketed (kinds ++ List.replicate closed TokenKind.dedent) 0 := by
  induction closed with
  | zero => simpa using hBrackets
  | succ closed ih =>
      rw [List.replicate_succ', ← List.append_assoc]
      exact ih.snoc fun _ => rfl

theorem bracketsAfterKind_of_isLayout
    (hLayout : kind.isLayout = true) :
    LexState.bracketsAfterKind brackets kind = brackets := by
  cases kind with
  | newline | indent | dedent | endOfFile => rfl
  | _ => cases hLayout

theorem openBrackets_append_of_isLayout
    (kinds : List TokenKind)
    {tail : List TokenKind}
    (hLayout : ∀ kind ∈ tail, kind.isLayout = true) :
    openBrackets (kinds ++ tail) = openBrackets kinds := by
  induction tail generalizing kinds with
  | nil => rw [List.append_nil]
  | cons kind tail ih =>
      rw [← List.singleton_append, ← List.append_assoc,
        ih _ fun other hMem => hLayout other (List.mem_cons_of_mem _ hMem),
        openBrackets_snoc,
        bracketsAfterKind_of_isLayout (hLayout kind List.mem_cons_self)]

/- Layout after the tokens does not stand in brackets that are closed. -/
theorem Bracketed.solid_within
    (hBrackets : Bracketed kinds brackets)
    {tail : List TokenKind}
    (hTail : ∀ kind ∈ tail, kind.isLayout = true)
    {before inside after : List TokenKind}
    (hSplit : kinds ++ tail = before ++ kind :: (inside ++ after))
    (hOpen : 0 < openBrackets before)
    (hClosed : openBrackets (before ++ kind :: inside) = 0) :
    kind.isLayout = false := by
  rcases List.append_eq_append_iff.mp hSplit with
    ⟨passed, rfl, rfl⟩ | ⟨left, rfl, hLeft⟩
  · -- Both ends stand after the tokens, so that they leave the same open.
    have hPassed : openBrackets (kinds ++ passed) = openBrackets kinds :=
      openBrackets_append_of_isLayout kinds fun other hMem =>
        hTail other (by simp [hMem])
    have hWithin :
        openBrackets (kinds ++ (passed ++ kind :: inside)) =
          openBrackets kinds :=
      openBrackets_append_of_isLayout kinds fun other hMem =>
        hTail other (by
          simp only [List.mem_append, List.mem_cons] at hMem ⊢
          tauto)
    rw [List.append_assoc, hWithin] at hClosed
    omega
  · cases left with
    | nil =>
        have hWithin :
            openBrackets (before ++ kind :: inside) = openBrackets before :=
          openBrackets_append_of_isLayout before fun other hMem =>
            hTail other (by
              rw [← List.nil_append tail, ← hLeft]
              simp only [List.mem_append, List.mem_cons] at hMem ⊢
              tauto)
        rw [hWithin] at hClosed
        omega
    | cons other left =>
        obtain ⟨rfl, -⟩ := List.cons.inj hLeft
        refine Bool.eq_false_iff.mpr fun hLayout => ?_
        have hNone := hBrackets.outside before kind left rfl hLayout
        omega

/- The last tokens up to the end of a line close blocks. -/
theorem exists_closingRun
    (hFollows : (.newline :: kinds).IsChain MayFollow)
    (hLast : LineEnded kinds) :
    ∃ lines closed,
      kinds = lines ++ List.replicate closed TokenKind.dedent ∧
        (lines.getLast? = some .newline ∨ lines = []) := by
  induction kinds using List.reverseRecOn with
  | nil => exact ⟨[], 0, rfl, .inr rfl⟩
  | append_singleton kinds kind ih =>
      rw [LineEnded, lastOrNewline_snoc] at hLast
      rcases hLast with rfl | rfl
      · exact ⟨kinds ++ [TokenKind.newline], 0, by simp, .inl (by simp)⟩
      · have hMay := mayFollow_of_split hFollows rfl
        rw [← List.cons_append, List.isChain_append] at hFollows
        obtain ⟨lines, closed, rfl, hLines⟩ :=
          ih hFollows.1 (hMay.dedent rfl)
        refine ⟨lines, closed + 1, ?_, hLines⟩
        rw [List.replicate_succ', List.append_assoc]

end Snoc

namespace LexState

------------------------------------------------------------
-- One More Round
------------------------------------------------------------

/- The kinds of the tokens found so far. -/
def kinds (state : LexState) : List TokenKind :=
  state.tokens.toList.map (·.kind)

/-
  A state whose tokens have a balanced layout so far. Blocks are
  open as many as there are indentations, and lines start after
  other lines only, outside of brackets.
-/
structure InLayout (state : LexState) : Prop where
  blocks : OpenBlocks state.kinds state.indents.length
  brackets : Bracketed state.kinds state.brackets
  lineStart :
    state.lineStart = true →
      state.brackets = 0 ∧ lastOrNewline state.kinds = .newline

section Rounds

variable {file : SourceFile}
variable {state next : LexState}

theorem kinds_of_push
    {kind : TokenKind}
    {span : Span}
    (hTokens : next.tokens = state.tokens.push ⟨kind, span⟩) :
    next.kinds = state.kinds ++ [kind] := by
  simp [kinds, hTokens]

theorem kinds_push
    (state : LexState)
    (kind : TokenKind)
    (span : Span) :
    (state.push kind span).kinds = state.kinds ++ [kind] :=
  kinds_of_push rfl

theorem kinds_closeBlocks
    (state : LexState)
    (closed : List Nat)
    (span : Span) :
    (state.closeBlocks closed span).kinds =
      state.kinds ++ List.replicate closed.length TokenKind.dedent := by
  rw [closeBlocks_eq]
  simp [kinds]

theorem lastKind?_eq
    (state : LexState) :
    state.lastKind? = state.kinds.getLast? := by
  simp [lastKind?, kinds, ← Array.getLast?_toList]

theorem InLayout.of_same
    (hState : state.InLayout)
    (hTokens : next.tokens = state.tokens)
    (hBrackets : next.brackets = state.brackets)
    (hIndents : next.indents = state.indents)
    (hLine : next.lineStart = true → state.lineStart = true) :
    next.InLayout := by
  have hKinds : next.kinds = state.kinds := by
    rw [kinds, kinds, hTokens]
  refine ⟨?_, ?_, fun hStart => ?_⟩
  · rw [hKinds, hIndents]
    exact hState.blocks
  · rw [hKinds, hBrackets]
    exact hState.brackets
  · rw [hKinds, hBrackets]
    exact hState.lineStart (hLine hStart)

/- A round at the start of a line. -/
theorem InLayout.enters
    (hState : state.InLayout)
    (hStart : state.lineStart = true)
    (hEnters : state.Enters next)
    (hErrors : next.errors = state.errors) :
    next.InLayout := by
  obtain ⟨hNone, hLast⟩ := hState.lineStart hStart
  have hBrackets := hNone ▸ hState.brackets
  cases hEnters with
  | ended | level =>
      exact hState.of_same rfl rfl rfl fun hLine => by cases hLine
  | blank => exact hState.of_same rfl rfl rfl fun _ => hStart
  | @deeper width span =>
      have hKinds :
          LexState.kinds
              { state.afterIndentation.push .indent span with
                indents := width :: state.indents } =
            state.kinds ++ [TokenKind.indent] :=
        state.afterIndentation.kinds_push .indent span
      refine ⟨?_, ?_, fun hLine => by cases hLine⟩
      · rw [hKinds]
        exact hState.blocks.snoc (by simp)
          ⟨by simp, fun _ => hLast, by simp⟩ rfl
      · rw [hKinds]
        exact hState.brackets.snoc fun _ => hNone
  | @shallower closed left span hSplit =>
      have hKinds :
          LexState.kinds
              { state.afterIndentation.closeBlocks closed span with
                indents := left } =
            state.kinds ++ List.replicate closed.length TokenKind.dedent :=
        state.afterIndentation.kinds_closeBlocks closed span
      refine ⟨?_, ?_, fun hLine => ?_⟩
      · rw [hKinds]
        refine OpenBlocks.close ?_ (.inl hLast)
        have hBlocks := hState.blocks
        rwa [hSplit, List.length_append] at hBlocks
      · rw [hKinds, closeBlocks_eq]
        have hSame := hBrackets.close closed.length
        rwa [← hNone] at hSame
      · rw [closeBlocks_eq] at hLine
        cases hLine
  | astray =>
      rw [closeBlocks_eq] at hErrors
      exact absurd hErrors Diagnostics.push_ne

/- A round within a line. -/
theorem InLayout.finds
    {first : Scanner}
    (hState : state.InLayout)
    (hInside : state.lineStart = false)
    (hFinds : state.Finds first next)
    (hErrors : next.errors = state.errors) :
    next.InLayout := by
  cases hFinds with
  | token hToken =>
      have hKinds := kinds_of_push hToken.tokens
      refine ⟨?_, ?_, fun hLine => ?_⟩
      · rw [hKinds, hToken.indents]
        exact hState.blocks.solid hToken.solid
      · rw [hKinds, hToken.brackets]
        refine hState.brackets.snoc fun hLayout => ?_
        rw [hToken.solid] at hLayout
        cases hLayout
      · rw [hToken.lineStart, hInside] at hLine
        cases hLine
  | fault hFault =>
      rw [hFault.errors] at hErrors
      exact absurd hErrors Diagnostics.push_ne
  | comment | joined =>
      exact hState.of_same rfl rfl rfl id
  | newline =>
      simp only [readNewline]
      split
      · exact hState.of_same rfl rfl rfl id
      rename_i hNone
      rw [gt_iff_lt, Nat.not_lt, Nat.le_zero] at hNone
      -- A line feed after another line, or before the first one, is left out.
      have hBlank (hLast : lastOrNewline state.kinds = .newline) :
          InLayout
            { state.moveTo (first.skip 1) with lineStart := true } :=
        ⟨hState.blocks, hState.brackets, fun _ => ⟨hNone, hLast⟩⟩
      rw [lastKind?_eq]
      split
      · rename_i hNothing
        exact hBlank (by simp [lastOrNewline, hNothing])
      · rename_i hLast
        exact hBlank (by simp [lastOrNewline, hLast])
      · rename_i kind hOther hLast
        have hKinds :=
          LexState.kinds_push
            { state.moveTo (first.skip 1) with lineStart := true }
            .newline first.position.point
        refine ⟨?_, ?_, fun _ => ⟨hNone, ?_⟩⟩
        · rw [hKinds]
          refine hState.blocks.snoc (by simp) ⟨?_, by simp, by simp⟩ rfl
          rintro - hNewline
          rw [lastOrNewline, hLast] at hNewline
          exact hOther hNewline
        · rw [hKinds]
          exact hState.brackets.snoc fun _ => hNone
        · rw [hKinds]
          exact lastOrNewline_snoc

/- What a round keeps as long as no fault is found. -/
theorem InLayout.round
    {ended : Bool}
    (hState : state.errors.hasErrors = false → state.InLayout)
    (hRound : state.round file = (ended, next))
    (hErrors : next.errors.hasErrors = false) :
    next.InLayout := by
  cases ended with
  | true =>
      obtain ⟨rfl, -⟩ := round_ended hRound
      exact (hState hErrors).of_same rfl rfl rfl id
  | false =>
      have hSame := errors_round_eq hRound hErrors
      rw [hSame] at hErrors
      have hHere := hState hErrors
      rcases round_again hRound with ⟨hStart, hEnters⟩ | ⟨hInside, hFinds⟩
      · exact hHere.enters (Bool.and_eq_true_iff.mp hStart).1 hEnters hSame
      · refine hHere.finds (Bool.eq_false_iff.mpr fun hLine => ?_) hFinds hSame
        have hNone := (hHere.lineStart hLine).1
        simp [entersNext, hLine, hNone] at hInside

end Rounds

------------------------------------------------------------
-- The End of a Text
------------------------------------------------------------

/- Tokens with the last line ended. -/
def withLineEnd (kinds : List TokenKind) : List TokenKind :=
  match kinds.getLast? with
  | none | some .newline | some .dedent => kinds
  | some _ => kinds ++ [TokenKind.newline]

theorem kinds_finish
    (state : LexState) :
    state.finish.tokens.toList.map (·.kind) =
      withLineEnd state.kinds ++
        List.replicate state.indents.length TokenKind.dedent ++
          [TokenKind.endOfFile] := by
  have hClosed (ended : LexState) (span : Span) :
      ((ended.closeBlocks state.indents span).push .endOfFile span).kinds =
        ended.kinds ++
          List.replicate state.indents.length TokenKind.dedent ++
            [TokenKind.endOfFile] := by
    rw [kinds_push, kinds_closeBlocks]
  simp only [finish, withLineEnd, ← lastKind?_eq]
  cases state.lastKind? with
  | none => exact hClosed state _
  | some kind =>
      cases kind with
      | newline | dedent => exact hClosed state _
      | _ =>
          rw [← state.kinds_push .newline state.scanner.position.point]
          exact hClosed _ _

variable {kinds : List TokenKind}
variable {blocks : Nat}

theorem exists_lineEnd
    (kinds : List TokenKind) :
    ∃ ending,
      withLineEnd kinds = kinds ++ ending ∧
        ∀ kind ∈ ending, kind.isLayout = true := by
  unfold withLineEnd
  split
  · exact ⟨[], by simp, by simp⟩
  · exact ⟨[], by simp, by simp⟩
  · exact ⟨[], by simp, by simp⟩
  · exact ⟨[.newline], rfl, by simp [TokenKind.isLayout]⟩

/- Once the last line has ended, blocks can be closed. -/
theorem openBlocks_withLineEnd
    (hBlocks : OpenBlocks kinds blocks) :
    OpenBlocks (withLineEnd kinds) blocks ∧
      LineEnded (withLineEnd kinds) := by
  unfold withLineEnd
  split
  · rename_i hLast
    exact ⟨hBlocks, .inl (by simp [lastOrNewline, hLast])⟩
  · rename_i hLast
    exact ⟨hBlocks, .inl (by simp [lastOrNewline, hLast])⟩
  · rename_i hLast
    exact ⟨hBlocks, .inr (by simp [lastOrNewline, hLast])⟩
  · rename_i kind hOther _ hLast
    refine ⟨hBlocks.snoc (by simp) ⟨?_, by simp, by simp⟩ rfl,
      .inl lastOrNewline_snoc⟩
    rintro - hNewline
    rw [lastOrNewline, hLast] at hNewline
    exact hOther hNewline

end LexState

------------------------------------------------------------
-- Whole Texts
------------------------------------------------------------

/-
  Tokens that leave no block open, the last line of which has
  ended, are balanced together with the end of the text.
-/
theorem BalancedLayout.ofOpenBlocks
    {kinds tail : List TokenKind}
    {brackets : Nat}
    (hBlocks : OpenBlocks (kinds ++ tail) 0)
    (hBrackets : Bracketed kinds brackets)
    (hTail : ∀ kind ∈ tail, kind.isLayout = true)
    (hLast : LineEnded (kinds ++ tail)) :
    BalancedLayout (kinds ++ tail ++ [TokenKind.endOfFile]) := by
  have hFollows :
      (.newline :: (kinds ++ tail ++ [TokenKind.endOfFile])).IsChain
        MayFollow :=
    follows_snoc hBlocks.follows ⟨by simp, by simp, by simp⟩
  have hCount := hBlocks.count
  have hClosed :
      (kinds ++ tail ++ [TokenKind.endOfFile]).countP
          TokenKind.closesBlock =
        (kinds ++ tail ++ [TokenKind.endOfFile]).countP
          TokenKind.opensBlock := by
    simpa [List.countP_singleton, TokenKind.opensBlock,
      TokenKind.closesBlock] using hCount.symm
  refine ⟨⟨_, rfl, hBlocks.unended⟩, ?_, hClosed, ?_, ?_, ?_, ?_⟩
  · intro before hPrefix
    rcases List.prefix_concat_iff.mp hPrefix with rfl | hEarlier
    · exact hClosed.le
    · exact hBlocks.nested before hEarlier
  · intro before kind inside after hSplit
    rw [List.append_assoc] at hSplit
    refine hBrackets.solid_within (fun other hMem => ?_) hSplit
    rcases List.mem_append.mp hMem with hMem | hMem
    · exact hTail other hMem
    · rw [List.mem_singleton.mp hMem]
      rfl
  · intro before after hSplit
    have hNewline := (mayFollow_of_split hFollows hSplit).indent rfl
    rcases List.eq_nil_or_concat before with rfl | ⟨earlier, last, rfl⟩
    · exact .inl rfl
    · rw [List.concat_eq_append, lastOrNewline_snoc] at hNewline
      exact .inr (by simp [hNewline])
  · refine hFollows.tail.imp ?_
    rintro kind next hMay ⟨rfl, rfl⟩
    exact hMay.newline rfl rfl
  · obtain ⟨lines, closed, hLines, hEnd⟩ :=
      exists_closingRun hBlocks.follows hLast
    refine ⟨lines, closed, by rw [hLines], hEnd.imp_right ?_⟩
    rintro rfl
    rw [hLines] at hCount
    simpa [List.countP_replicate, TokenKind.opensBlock,
      TokenKind.closesBlock] using hCount.symm

/- The tokens of a text without faults have a balanced layout. -/
theorem layout_balanced
    (file : SourceFile)
    (hErrors : (lex file).errors.hasErrors = false) :
    BalancedLayout ((lex file).tokens.toList.map (·.kind)) := by
  obtain ⟨last, hRun, hLex⟩ := runsTo_lex file
  rw [hLex] at hErrors ⊢
  have hState : last.InLayout :=
    hRun.keeps
      (fun state => state.errors.hasErrors = false → state.InLayout)
      (fun _ => ⟨openBlocks_nil, bracketed_nil, fun _ => ⟨rfl, rfl⟩⟩)
      LexState.InLayout.round hErrors
  rw [LexState.kinds_finish]
  obtain ⟨hEnded, hLineEnd⟩ := LexState.openBlocks_withLineEnd hState.blocks
  obtain ⟨ending, hEnding, hLayout⟩ := LexState.exists_lineEnd last.kinds
  have hClosed :
      OpenBlocks
        (LexState.withLineEnd last.kinds ++
          List.replicate last.indents.length TokenKind.dedent) 0 :=
    hEnded.close hLineEnd
  have hLast := hLineEnd.close last.indents.length
  rw [hEnding, List.append_assoc last.kinds] at hClosed hLast ⊢
  refine BalancedLayout.ofOpenBlocks hClosed hState.brackets ?_ hLast
  intro kind hMem
  rcases List.mem_append.mp hMem with hMem | hMem
  · exact hLayout kind hMem
  · rw [List.eq_of_mem_replicate hMem]
    rfl

/- Two blocks that end together, and a line within brackets. -/
theorem layout_balanced_blocks :
    (lex ⟨"a.py",
        "if a:\n  for b in c:\n\n    f(b,\n  c)\nd"⟩).errors.hasErrors =
        false ∧
      BalancedLayout
        ((lex ⟨"a.py",
          "if a:\n  for b in c:\n\n    f(b,\n  c)\nd"⟩).tokens.toList.map
            (·.kind)) := by
  have hClean :
      (lex ⟨"a.py",
        "if a:\n  for b in c:\n\n    f(b,\n  c)\nd"⟩).errors.hasErrors =
        false := by
    decide +kernel
  exact ⟨hClean, layout_balanced _ hClean⟩

end SnippetGrader
