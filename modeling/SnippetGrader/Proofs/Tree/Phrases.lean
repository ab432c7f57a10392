import SnippetGrader.Proofs.Token.Spacing
import SnippetGrader.Proofs.Tree.Legible

/-
  The tokens of an expression are spaced.

  After every lexeme there may stand a space or a mark that no
  longer mark goes on with, and an expression starts with such a
  mark, a word, a number or a string. So the lexemes of its
  parts can be put together.

  Key definitions include:
    * `Mark.isGentle`, `Lexeme.follows`
    * `TokenKind.lead?`, `OpensWith`

  Key theorems include:
    * `IsSpaced.append`, `IsSpaced.intercalate`
    * `Expr.Legible.isSpaced_and_index`
-/

namespace SnippetGrader

------------------------------------------------------------
-- Gentle Marks
------------------------------------------------------------

/- Whether no longer mark goes on with the first character of a mark. -/
def Mark.isGentle (mark : Mark) : Bool :=
  mark != .dot && mark.bytes.head?.all (!Byte.extendsMark ·)

/- Whether no longer mark starts with a mark. -/
def Mark.isFirm : Mark → Bool
  | .openParen | .closeParen | .openBracket | .closeBracket
  | .openBrace | .closeBrace | .comma | .colon => true
  | _ => false

/- A byte that ends a token is no digit. -/
theorem Byte.isDigit_of_isBreak
    {b : UInt8}
    (hBreak : isBreak b = true) :
    isDigit b = false := by
  simp only [isBreak, continuesWord, Bool.and_eq_true,
    Bool.not_eq_true', Bool.or_eq_false_iff] at hBreak
  exact hBreak.1.1.2

theorem Mark.fits_of_isFirm
    {mark : Mark}
    {b : UInt8}
    (hFirm : mark.isFirm = true) :
    mark.fits b = true := by
  have hDot : mark ≠ .dot := by
    rintro rfl
    cases hFirm
  have hNone :
      (LexState.longMarks.all fun entry =>
        !mark.bytes.isPrefixOf entry.1) = true := by
    rw [LexState.longMarks_eq]
    cases mark <;> first
      | cases hFirm; done
      | rfl
  rw [List.all_eq_true] at hNone
  rw [fits, Bool.and_eq_true, List.all_eq_true]
  refine ⟨fun entry hEntry => ?_, by simp [hDot]⟩
  rw [Bool.not_eq_true', Bool.eq_false_iff]
  intro hLonger
  have hPrefix : mark.bytes.isPrefixOf entry.1 = true :=
    List.isPrefixOf_iff_prefix.mpr
      ((List.prefix_append _ _).trans
        (List.isPrefixOf_iff_prefix.mp hLonger))
  have hNot := hNone entry hEntry
  rw [hPrefix] at hNot
  cases hNot

namespace Lexeme

/- Whether a lexeme may stand after every other one. -/
def follows : Lexeme → Bool
  | .token (.mark mark) => mark.isGentle
  | .token _ => false
  | .space => true

variable {first second : Lexeme}
variable {mark : Mark}

theorem parts_space :
    first.parts .space = true := by
  cases first with
  | space => rfl
  | token kind => cases kind <;> rfl

theorem parts_gentle
    (hGentle : mark.isGentle = true) :
    first.parts (.token (.mark mark)) = true := by
  rw [Mark.isGentle, Bool.and_eq_true, bne_iff_ne] at hGentle
  obtain ⟨hDot, hBytes⟩ := hGentle
  cases first with
  | space => rfl
  | token kind =>
      cases kind with
      | mark symbol =>
          rw [parts]
          rw [Option.all_eq_true] at hBytes ⊢
          intro b hHead
          refine Mark.fits_of_not_extends
            ((Bool.not_eq_true' _).mp (hBytes b hHead)) fun _ => ?_
          exact Byte.isDigit_of_isBreak (Mark.isBreak_of_mem hHead).1
      | int value => exact bne_iff_ne.mpr hDot
      | _ => rfl

theorem parts_of_follows
    (hFollows : second.follows = true) :
    first.parts second = true := by
  cases second with
  | space => exact parts_space
  | token kind =>
      cases kind with
      | mark mark => exact parts_gentle hFollows
      | _ => cases hFollows

theorem parts_firm
    (hFirm : mark.isFirm = true) :
    parts (.token (.mark mark)) second = true := by
  cases second with
  | space => rfl
  | token kind =>
      cases kind with
      | mark other =>
          rw [parts, Option.all_eq_true]
          intro b _
          exact Mark.fits_of_isFirm hFirm
      | _ => cases mark <;> first | rfl | cases hFirm

end Lexeme

------------------------------------------------------------
-- Spaced Lists
------------------------------------------------------------

namespace IsSpaced

variable {lexeme : Lexeme}
variable {lexemes others : List Lexeme}
variable {kind : TokenKind}
variable {mark : Mark}

theorem nil :
    IsSpaced [] :=
  ⟨by simp, List.isChain_nil⟩

theorem cons
    (hSpelled : lexeme.IsSpelled)
    (hParts : ∀ next ∈ lexemes.head?, lexeme.parts next = true)
    (hSpaced : IsSpaced lexemes) :
    IsSpaced (lexeme :: lexemes) :=
  ⟨List.forall_mem_cons.mpr ⟨hSpelled, hSpaced.readable⟩,
    List.isChain_cons.mpr ⟨hParts, hSpaced.parted⟩⟩

theorem space
    (hSpaced : IsSpaced lexemes) :
    IsSpaced (.space :: lexemes) :=
  hSpaced.cons trivial fun next _ => by cases next <;> rfl

theorem firm
    (hFirm : mark.isFirm = true)
    (hSpaced : IsSpaced lexemes) :
    IsSpaced (.token (.mark mark) :: lexemes) :=
  hSpaced.cons trivial fun _ _ => Lexeme.parts_firm hFirm

theorem single
    (hKind : kind.IsSpelled) :
    IsSpaced [.token kind] :=
  nil.cons hKind (by simp)

/- Lexemes may be followed by others that start with what may follow. -/
theorem append
    (hFirst : IsSpaced lexemes)
    (hFollows : ∀ next ∈ others.head?, next.follows = true)
    (hSecond : IsSpaced others) :
    IsSpaced (lexemes ++ others) := by
  refine ⟨fun lexeme hMem => ?_, ?_⟩
  · rcases List.mem_append.mp hMem with hHere | hLater
    · exact hFirst.readable lexeme hHere
    · exact hSecond.readable lexeme hLater
  · rw [List.isChain_append]
    exact
      ⟨hFirst.parted, hSecond.parted, fun _ _ next hNext =>
        Lexeme.parts_of_follows (hFollows next hNext)⟩

theorem thenSpace
    (hFirst : IsSpaced lexemes)
    (hSecond : IsSpaced others) :
    IsSpaced (lexemes ++ .space :: others) :=
  hFirst.append (by rintro next ⟨⟩; rfl) hSecond.space

theorem thenMark
    (hGentle : mark.isGentle = true)
    (hFirst : IsSpaced lexemes)
    (hSecond : IsSpaced (.token (.mark mark) :: others)) :
    IsSpaced (lexemes ++ .token (.mark mark) :: others) :=
  hFirst.append (by rintro next ⟨⟩; exact hGentle) hSecond

/- Every token may stand before a space. -/
theorem afterToken
    (hKind : kind.IsSpelled)
    (hSpaced : IsSpaced lexemes) :
    IsSpaced (.token kind :: .space :: lexemes) :=
  hSpaced.space.cons hKind
    (by rintro next ⟨⟩; exact Lexeme.parts_space)

theorem enclosed
    {opening closing : Mark}
    (hOpening : opening.isFirm = true)
    (hClosing : closing.isGentle = true)
    (hSpaced : IsSpaced lexemes) :
    IsSpaced (SnippetGrader.enclosed opening closing lexemes) := by
  refine firm hOpening (hSpaced.append ?_ (single trivial))
  rintro next ⟨⟩
  exact hClosing

/- A separator ends with a space, and starts with what may follow. -/
theorem intercalate
    {separator : List Lexeme}
    (hSeparator : IsSpaced separator)
    (hFollows :
      ∀ next ∈ (separator ++ [Lexeme.space]).head?, next.follows = true)
    {parts : List (List Lexeme)}
    (hParts : ∀ part ∈ parts, IsSpaced part) :
    IsSpaced ((separator ++ [Lexeme.space]).intercalate parts) := by
  induction parts with
  | nil => exact nil
  | cons first rest ih =>
      rw [List.forall_mem_cons] at hParts
      cases rest with
      | nil => simpa using hParts.1
      | cons second later =>
          have hRest := hSeparator.append
            (by rintro next ⟨⟩; rfl) (ih hParts.2).space
          rw [List.intercalate_cons_cons, List.append_assoc first,
            List.append_assoc separator, List.singleton_append]
          refine hParts.1.append ?_ hRest
          intro next hNext
          refine hFollows next ?_
          rw [List.head?_append] at hNext ⊢
          exact hNext

theorem commaSeparated
    {parts : List (List Lexeme)}
    (hParts : ∀ part ∈ parts, IsSpaced part) :
    IsSpaced (SnippetGrader.commaSeparated parts) := by
  refine @intercalate [.token (.mark .comma)] (single trivial) ?_ _ hParts
  rintro next ⟨⟩
  rfl

end IsSpaced

------------------------------------------------------------
-- First Lexemes
------------------------------------------------------------

/- How tightly an expression that starts with a token may bind. -/
def TokenKind.lead? : TokenKind → Option Nat
  | .keyword .lambdaWord => some Strength.lambda
  | .keyword .notWord => some Strength.not
  | .mark .plus | .mark .minus | .mark .tilde => some Strength.unary
  | .int _ | .float _ | .str _ | .name _ => some Strength.atom
  | .keyword .trueWord | .keyword .falseWord | .keyword .noneWord =>
      some Strength.atom
  | .mark .openParen | .mark .openBracket | .mark .openBrace =>
      some Strength.atom
  | _ => none

/- What starts an expression may stand after a mark. -/
theorem Lexeme.parts_of_lead
    {mark : Mark}
    {kind : TokenKind}
    {lead : Nat}
    (hMark : mark ≠ .dot)
    (hLead : kind.lead? = some lead) :
    parts (.token (.mark mark)) (.token kind) = true := by
  cases kind with
  | mark second =>
      refine parts_gentle ?_
      cases second <;> first
        | rfl
        | cases hLead
  | _ => cases mark <;> first | rfl | exact absurd rfl hMark

/- Only the name of a keyword argument stands before an equals sign. -/
def NotAssigned (kind : TokenKind) (rest : List TokenKind) : Prop :=
  ∀ id, kind = .name id → rest.head? ≠ some (.mark .assign)

theorem notAssigned_keyword
    (word : Keyword)
    (rest : List TokenKind) :
    NotAssigned (.keyword word) rest := by
  rintro id ⟨⟩

theorem notAssigned_mark
    (mark : Mark)
    (rest : List TokenKind) :
    NotAssigned (.mark mark) rest := by
  rintro id ⟨⟩

theorem head?_keyword_ne
    (word : Keyword)
    (rest : List Lexeme) :
    (kindsOf (.token (.keyword word) :: rest)).head? ≠
      some (.mark .assign) := by
  rintro ⟨⟩

theorem head?_mark_ne
    {mark : Mark}
    (hMark : mark ≠ .assign)
    (rest : List Lexeme) :
    (kindsOf (.token (.mark mark) :: rest)).head? ≠
      some (.mark .assign) := by
  rintro ⟨⟩
  exact hMark rfl

/-
  The first lexeme of a list is a token that starts expressions,
  which may bind as tightly as is needed.
-/
def OpensWith (strength : Nat) (lexemes : List Lexeme) : Prop :=
  ∃ kind rest lead,
    lexemes = .token kind :: rest ∧
      kind.lead? = some lead ∧
        strength ≤ lead ∧ NotAssigned kind (kindsOf rest)

namespace OpensWith

variable {strength : Nat}
variable {lexemes others : List Lexeme}

theorem append
    (hOpens : OpensWith strength lexemes)
    (hOthers : (kindsOf others).head? ≠ some (.mark .assign)) :
    OpensWith strength (lexemes ++ others) := by
  obtain ⟨kind, rest, lead, rfl, hLead, hStrength, hNext⟩ := hOpens
  refine ⟨kind, rest ++ others, lead, rfl, hLead, hStrength, ?_⟩
  intro id hName
  rw [kindsOf_append, List.head?_append]
  cases hHead : (kindsOf rest).head? with
  | none => exact hOthers
  | some next =>
      rw [Option.some_or, ← hHead]
      exact hNext id hName

theorem mono
    {weaker : Nat}
    (hOpens : OpensWith strength lexemes)
    (hWeaker : weaker ≤ strength) :
    OpensWith weaker lexemes := by
  obtain ⟨kind, rest, lead, hLexemes, hLead, hStrength, hNext⟩ := hOpens
  exact
    ⟨kind, rest, lead, hLexemes, hLead, hWeaker.trans hStrength, hNext⟩

theorem parts
    (hOpens : OpensWith strength lexemes)
    {mark : Mark}
    (hMark : mark ≠ .dot) :
    ∀ next ∈ lexemes.head?,
      Lexeme.parts (.token (.mark mark)) next = true := by
  obtain ⟨kind, rest, lead, rfl, hLead, -, -⟩ := hOpens
  rintro next ⟨⟩
  exact Lexeme.parts_of_lead hMark hLead

end OpensWith

theorem BinaryOp.mark_ne_assign
    (op : BinaryOp) :
    op.mark ≠ .assign := by
  cases op <;> decide

theorem BinaryOp.strength_le
    (op : BinaryOp) :
    op.strength ≤ op.operandStrengths.1 := by
  cases op <;> decide

theorem BinaryOp.operandStrengths_le
    (op : BinaryOp) :
    op.operandStrengths.1 ≤ Strength.atom ∧
      op.operandStrengths.2 ≤ Strength.atom := by
  cases op <;> decide

theorem BoolOp.strength_lt
    (op : BoolOp) :
    op.strength + 1 ≤ Strength.atom := by
  cases op <;> decide

namespace Expr

/-
  An expression that stands alone starts with a token that binds
  as tightly as its place needs.
-/
theorem Legible.opensWith
    {expr : Expr}
    (hLegible : expr.Legible)
    (hPlain : expr.IsPlain)
    {strength : Nat}
    (hStrength : strength ≤ Strength.atom) :
    OpensWith strength (expr.lexemesAt strength) := by
  induction hLegible generalizing strength with
  | @intro span form here below ih =>
      have hForm : OpensWith form.strength (ExprForm.lexemes form) := by
        cases form with
        | starred value => cases hPlain.unstarred
        | slice lower upper step => cases hPlain.complete
        | tuple items =>
            rcases items with _ | ⟨first, _ | ⟨second, later⟩⟩ <;>
              exact ⟨_, _, _, rfl, rfl, le_rfl, notAssigned_mark _ _⟩
        | «attribute» object attr =>
            exact
              (ih object List.mem_cons_self here.1
                (Nat.le_succ Strength.primary)).append
                (head?_mark_ne (by decide) _)
        | subscript object index =>
            exact
              (ih object List.mem_cons_self here.1
                (Nat.le_succ Strength.primary)).append
                (head?_mark_ne (by decide) _)
        | call callee args keywords =>
            exact
              (ih callee List.mem_cons_self here.1
                (Nat.le_succ Strength.primary)).append
                (head?_mark_ne (by decide) _)
        | binary left op right =>
            have hLeft :=
              ih left List.mem_cons_self here.1
                op.operandStrengths_le.1
            exact
              (hLeft.mono op.strength_le).append
                (head?_mark_ne op.mark_ne_assign _)
        | unary op operand =>
            cases op with
            | not => exact ⟨_, _, _, rfl, rfl, le_rfl, notAssigned_keyword _ _⟩
            | _ => exact ⟨_, _, _, rfl, rfl, le_rfl, notAssigned_mark _ _⟩
        | boolean op values =>
            obtain ⟨first, second, later, rfl⟩ :
                ∃ first second later, values = first :: second :: later := by
              obtain ⟨hLength, -⟩ := here
              rcases values with _ | ⟨first, _ | ⟨second, later⟩⟩
              · cases hLength
              · exact absurd hLength (by simp)
              · exact ⟨first, second, later, rfl⟩
            have hFirst :=
              ih first List.mem_cons_self (here.2 first List.mem_cons_self)
                op.strength_lt
            rw [ExprForm.lexemes, lexemesAll, lexemesAll,
              List.intercalate_cons_cons, List.append_assoc]
            exact
              (hFirst.mono (Nat.le_succ _)).append (head?_keyword_ne _ _)
        | compare left rest =>
            have hLeft :=
              @ih left List.mem_cons_self here.2.1 Strength.bitOr
                (by decide)
            refine (hLeft.mono (Nat.le_succ _)).append ?_
            rcases rest with _ | ⟨⟨op, operand⟩, later⟩
            · rintro ⟨⟩
            · cases op <;> rintro ⟨⟩
        | conditional test body orelse =>
            have hBody :=
              @ih body (by simp [ExprForm.operands]) here.2.1 Strength.or
                (by decide)
            exact
              (hBody.mono (Nat.le_succ _)).append (head?_keyword_ne _ _)
        | lambda params body =>
            cases params <;>
              exact ⟨_, _, _, rfl, rfl, le_rfl, notAssigned_keyword _ _⟩
        | bool value =>
            cases value <;>
              exact ⟨_, _, _, rfl, rfl, le_rfl, notAssigned_keyword _ _⟩
        | name id =>
            refine ⟨_, _, _, rfl, rfl, le_rfl, fun _ _ => ?_⟩
            nofun
        | _ => exact ⟨_, _, _, rfl, rfl, le_rfl, nofun⟩
      rw [lexemesAt]
      split
      · exact ⟨_, _, _, rfl, rfl, hStrength, notAssigned_mark _ _⟩
      · rename_i hTight
        exact hForm.mono (not_lt.mp hTight)

------------------------------------------------------------
-- Parts of Expressions
------------------------------------------------------------

theorem isSpaced_words
    (first second : Keyword) :
    IsSpaced
      [.token (.keyword first), .space, .token (.keyword second)] := by
  have hSecond : IsSpaced [.token (.keyword second)] :=
    IsSpaced.single trivial
  exact hSecond.space.cons trivial (by rintro next ⟨⟩; rfl)

theorem isSpaced_compareOp
    (op : CompareOp) :
    IsSpaced op.lexemes := by
  cases op with
  | notSame => exact isSpaced_words _ _
  | notMember => exact isSpaced_words _ _
  | same => exact @IsSpaced.single (.keyword _) trivial
  | member => exact @IsSpaced.single (.keyword _) trivial
  | _ => exact @IsSpaced.single (.mark _) trivial

/- The parts of a parameter list are its parameters and the markers. -/
theorem mem_markedLexemes
    {starred : Bool}
    {params : List (ParamKind × List Lexeme)}
    {part : List Lexeme}
    (hMem : part ∈ markedLexemes starred params) :
    part = [.token (.mark .star)] ∨
      part = [.token (.mark .slash)] ∨
        ∃ param ∈ params, part = param.2 := by
  induction params generalizing starred with
  | nil => cases hMem
  | cons param rest ih =>
      obtain ⟨kind, lexemes⟩ := param
      simp only [markedLexemes, List.mem_append, List.mem_cons] at hMem
      rcases hMem with (hStar | rfl | hSlash) | hRest
      · split at hStar
        · exact Or.inl (List.mem_singleton.mp hStar)
        · cases hStar
      · exact Or.inr (Or.inr ⟨_, List.mem_cons_self, rfl⟩)
      · split at hSlash
        · cases hSlash
        · split at hSlash
          · exact Or.inr (Or.inl (List.mem_singleton.mp hSlash))
          · cases hSlash
      · rcases ih hRest with hStar | hSlash | ⟨param, hParam, hPart⟩
        · exact Or.inl hStar
        · exact Or.inr (Or.inl hSlash)
        · exact
            Or.inr (Or.inr ⟨param, List.mem_cons_of_mem _ hParam, hPart⟩)

theorem isSpaced_paramList
    {params : List (ParamKind × List Lexeme)}
    (hParams : ∀ param ∈ params, IsSpaced param.2) :
    IsSpaced (paramListLexemes params) := by
  refine IsSpaced.commaSeparated fun part hMem => ?_
  rcases mem_markedLexemes hMem with rfl | rfl | ⟨param, hParam, rfl⟩
  · exact IsSpaced.single trivial
  · exact IsSpaced.single trivial
  · exact hParams param hParam

theorem getLast?_enclosed
    (opening closing : Mark)
    (lexemes : List Lexeme) :
    (enclosed opening closing lexemes).getLast? =
      some (.token (.mark closing)) :=
  List.getLast?_concat

/- An object other than an integer may be followed by a point. -/
theorem parts_dot
    {object : Expr}
    (hPlain : object.IsPlain)
    (hInt : object.isInt = false) :
    ∀ last ∈ (object.lexemesAt Strength.primary).getLast?,
      last.parts (.token (.mark .dot)) = true := by
  obtain ⟨span, form⟩ := object
  have hOther {last : Lexeme}
      (hKind : ∀ value, last ≠ .token (.int value)) :
      last.parts (.token (.mark .dot)) = true := by
    cases last with
    | space => rfl
    | token kind =>
        cases kind with
        | int value => exact absurd rfl (hKind value)
        | mark symbol =>
            exact Mark.fits_of_not_extends rfl fun _ => rfl
        | _ => rfl
  intro last hLast
  refine hOther ?_
  rintro value rfl
  rw [lexemesAt] at hLast
  cases form with
  | int value => cases hInt
  | slice lower upper step => cases hPlain.complete
  | tuple items =>
      rcases items with _ | ⟨first, _ | ⟨second, later⟩⟩ <;>
        simp [ExprForm.strength, ExprForm.lexemes,
          getLast?_enclosed, Strength.primary, Strength.atom] at hLast
  | bool value =>
      cases value <;>
        simp [ExprForm.strength, ExprForm.lexemes,
          Strength.primary, Strength.atom] at hLast
  | binary left op right =>
      cases op <;>
        simp [ExprForm.strength, BinaryOp.strength,
          getLast?_enclosed, Strength.primary, Strength.bitOr,
          Strength.bitXor, Strength.bitAnd, Strength.shift,
          Strength.sum, Strength.term, Strength.power] at hLast
  | unary op operand =>
      cases op <;>
        simp [ExprForm.strength, getLast?_enclosed,
          Strength.primary, Strength.unary, Strength.not] at hLast
  | boolean op values =>
      cases op <;>
        simp [ExprForm.strength, BoolOp.strength,
          getLast?_enclosed, Strength.primary, Strength.or,
          Strength.and] at hLast
  | lambda params body =>
      simp [ExprForm.strength, getLast?_enclosed, Strength.primary,
        Strength.lambda] at hLast
  | _ =>
      simp [ExprForm.strength, ExprForm.lexemes,
        getLast?_enclosed, Strength.primary, Strength.atom,
        Strength.conditional, Strength.comparison,
        Strength.bitOr] at hLast

theorem mem_operands_keyword
    {callee : Expr}
    {args : List Expr}
    {keywords : List (KeywordArg Expr)}
    {keyword : KeywordArg Expr}
    (hMem : keyword ∈ keywords) :
    keyword.value ∈ ExprForm.operands (.call callee args keywords) := by
  simp only [ExprForm.operands, List.mem_append, List.mem_map]
  exact Or.inr ⟨keyword, hMem, rfl⟩

/- An argument starts with a name or with stars. -/
theorem isSpaced_keyword
    {keyword : KeywordArg Expr}
    (hLegible : keyword.value.Legible)
    (hPlain : keyword.value.IsPlain)
    (hNamed : ∀ ident ∈ keyword.name, IsName ident.name)
    (hValue : IsSpaced (keyword.value.lexemesAt 0)) :
    IsSpaced (lexemesOfKeyword keyword) := by
  obtain ⟨name, value, span⟩ := keyword
  have hMarked {mark : Mark} (hMark : mark ≠ .dot) :
      IsSpaced (.token (.mark mark) :: value.lexemesAt 0) :=
    hValue.cons trivial
      ((hLegible.opensWith hPlain (Nat.zero_le _)).parts hMark)
  cases name with
  | none => exact hMarked (by decide)
  | some ident =>
      exact (hMarked (by decide)).cons (hNamed ident rfl)
        (by rintro next ⟨⟩; rfl)

theorem mem_operands_default
    {params : List (Param Expr)}
    {param : Param Expr}
    {body default : Expr}
    (hMem : param ∈ params)
    (hDefault : default ∈ param.default) :
    default ∈ ExprForm.operands (.lambda params body) :=
  List.mem_append_left _
    (List.mem_filterMap.mpr ⟨param, hMem, hDefault⟩)

theorem isSpaced_param
    {param : Param Expr}
    (hName : IsName param.name.name)
    (hDefault :
      ∀ default ∈ param.default,
        default.Legible ∧ default.IsPlain ∧
          IsSpaced (default.lexemesAt 0)) :
    IsSpaced (lexemesOfParam param) := by
  obtain ⟨name, kind, default, span⟩ := param
  have hAlone : IsSpaced [.token (.name name.name)] :=
    IsSpaced.single hName
  have hStarred (mark : Mark) (hMark : mark ≠ .dot) :
      IsSpaced [.token (.mark mark), .token (.name name.name)] :=
    hAlone.cons trivial
      (by rintro next ⟨⟩; exact Lexeme.parts_of_lead hMark rfl)
  cases default with
  | none =>
      cases kind with
      | varPositional => exact hStarred .star (by decide)
      | varKeyword => exact hStarred .doubleStar (by decide)
      | _ => exact hAlone
  | some value =>
      obtain ⟨hLegible, hPlain, hValue⟩ := hDefault value rfl
      have hAssigned :
          IsSpaced (.token (.mark .assign) :: value.lexemesAt 0) :=
        hValue.cons trivial
          ((hLegible.opensWith hPlain (Nat.zero_le _)).parts (by decide))
      cases kind with
      | varPositional => exact hStarred .star (by decide)
      | varKeyword => exact hStarred .doubleStar (by decide)
      | _ => exact hAssigned.cons hName (by rintro next ⟨⟩; rfl)

/- The later operands of a comparison start with a space. -/
theorem follows_stepLexemes
    (steps : List (CompareOp × Expr)) :
    ∀ next ∈ (stepLexemes steps).head?, next.follows = true := by
  cases steps with
  | nil => simp [stepLexemes]
  | cons first rest =>
      rintro next ⟨⟩
      rfl

theorem isSpaced_steps
    {steps : List (CompareOp × Expr)}
    (hSteps :
      ∀ step ∈ steps, IsSpaced (step.2.lexemesAt Strength.bitOr)) :
    IsSpaced (stepLexemes steps) := by
  induction steps with
  | nil => exact IsSpaced.nil
  | cons first rest ih =>
      obtain ⟨op, operand⟩ := first
      rw [List.forall_mem_cons] at hSteps
      exact ((isSpaced_compareOp op).thenSpace
        (hSteps.1.append (follows_stepLexemes rest) (ih hSteps.2))).space

------------------------------------------------------------
-- Spaced Forms
------------------------------------------------------------

section SpacedForms

variable {items : List Expr}

theorem isSpaced_lexemesAll
    {strength : Nat}
    (hItems : ∀ item ∈ items, IsSpaced (item.lexemesAt strength)) :
    ∀ part ∈ lexemesAll strength items, IsSpaced part := by
  rw [lexemesAll_eq_map]
  intro part hMem
  obtain ⟨item, hItem, rfl⟩ := List.mem_map.mp hMem
  exact hItems item hItem

theorem isSpaced_items
    (hItems : ∀ item ∈ items, IsSpaced (item.lexemesAt 0)) :
    IsSpaced (commaSeparated (lexemesAll 0 items)) :=
  IsSpaced.commaSeparated (isSpaced_lexemesAll hItems)

theorem isSpaced_tuple
    (hItems : ∀ item ∈ items, IsSpaced (item.lexemesAt 0)) :
    IsSpaced (ExprForm.lexemes (.tuple items)) := by
  rcases items with _ | ⟨first, _ | ⟨second, later⟩⟩
  · exact IsSpaced.nil.enclosed rfl rfl
  · have hComma : IsSpaced [.token (.mark .comma)] :=
      IsSpaced.single trivial
    exact
      ((hItems first List.mem_cons_self).thenMark rfl hComma).enclosed
        rfl rfl
  · exact (isSpaced_items hItems).enclosed rfl rfl

theorem isSpaced_dict
    {entries : List (Expr × Expr)}
    (hEntries :
      ∀ entry ∈ entries, ∀ part ∈ [entry.1, entry.2],
        IsSpaced (part.lexemesAt 0)) :
    IsSpaced (ExprForm.lexemes (.dict entries)) := by
  refine IsSpaced.enclosed rfl rfl
    (IsSpaced.commaSeparated fun part hMem => ?_)
  rw [entryLexemes_eq_map] at hMem
  obtain ⟨entry, hEntry, rfl⟩ := List.mem_map.mp hMem
  have hKey := hEntries entry hEntry entry.1 (by simp)
  have hValue := hEntries entry hEntry entry.2 (by simp)
  exact hKey.thenMark rfl (hValue.afterToken trivial)

/- The point of an attribute would go on with a number. -/
theorem isSpaced_attribute
    {object : Expr}
    {attr : Ident}
    (here : ExprForm.IsWritten (.attribute object attr))
    (hObject : IsSpaced (object.lexemesAt Strength.primary)) :
    IsSpaced (ExprForm.lexemes (.attribute object attr)) := by
  obtain ⟨hPlain, hInt, hAttr⟩ := here
  have hName : IsSpaced [.token (.name attr.name)] :=
    IsSpaced.single hAttr
  have hDotted :
      IsSpaced [.token (.mark .dot), .token (.name attr.name)] :=
    hName.cons trivial (by rintro next ⟨⟩; rfl)
  refine ⟨?_, ?_⟩
  · intro lexeme hMem
    rcases List.mem_append.mp hMem with hHere | hLater
    · exact hObject.readable lexeme hHere
    · exact hDotted.readable lexeme hLater
  · refine List.isChain_append.mpr
      ⟨hObject.parted, hDotted.parted, fun last hLast => ?_⟩
    rintro next ⟨⟩
    exact parts_dot hPlain hInt last hLast

theorem isSpaced_slice
    {lower upper step : Option Expr}
    (hBounds :
      ∀ bound ∈ lower.toList ++ upper.toList ++ step.toList,
        IsSpaced (bound.lexemesAt 0)) :
    IsSpaced (ExprForm.lexemes (.slice lower upper step)) := by
  have hBound {bound : Option Expr}
      (hExpr : ∀ expr ∈ bound, IsSpaced (expr.lexemesAt 0)) :
      IsSpaced (optionLexemes bound) := by
    cases bound with
    | none => exact IsSpaced.nil
    | some expr => exact hExpr expr rfl
  simp only [List.mem_append, Option.mem_toList, or_imp,
    forall_and] at hBounds
  obtain ⟨⟨hLower, hUpper⟩, hStep⟩ := hBounds
  rw [ExprForm.lexemes]
  refine (hBound hLower).thenMark rfl (IsSpaced.firm rfl ?_)
  split
  · exact (hBound hUpper).thenMark rfl ((hBound hStep).firm rfl)
  · rw [List.append_nil]
    exact hBound hUpper

theorem isSpaced_arguments
    {keywords : List (KeywordArg Expr)}
    (hItems : ∀ item ∈ items, IsSpaced (item.lexemesAt 0))
    (hKeywords :
      ∀ keyword ∈ keywords, IsSpaced (lexemesOfKeyword keyword)) :
    IsSpaced
      (commaSeparated (lexemesAll 0 items ++ keywordsLexemes keywords)) := by
  refine IsSpaced.commaSeparated fun part hMem => ?_
  rcases List.mem_append.mp hMem with hItem | hKeyword
  · exact isSpaced_lexemesAll hItems part hItem
  · rw [keywordsLexemes_eq_map] at hKeyword
    obtain ⟨keyword, hMember, rfl⟩ := List.mem_map.mp hKeyword
    exact hKeywords keyword hMember

theorem isSpaced_unary
    {op : UnaryOp}
    {operand : Expr}
    (hLegible : operand.Legible)
    (hPlain : operand.IsPlain)
    (hOperand : ∀ strength, IsSpaced (operand.lexemesAt strength)) :
    IsSpaced (ExprForm.lexemes (.unary op operand)) := by
  have hOpens :=
    @Legible.opensWith operand hLegible hPlain Strength.unary (by decide)
  cases op with
  | not => exact (hOperand Strength.not).afterToken trivial
  | _ =>
      exact (hOperand Strength.unary).cons trivial
        (hOpens.parts (by decide))

theorem isSpaced_boolean
    {op : BoolOp}
    (hItems :
      ∀ item ∈ items, IsSpaced (item.lexemesAt (op.strength + 1))) :
    IsSpaced (ExprForm.lexemes (.boolean op items)) := by
  have hWord : IsSpaced [.token (.keyword op.word)] :=
    IsSpaced.single trivial
  refine @IsSpaced.intercalate
    [.space, .token (.keyword op.word)] hWord.space ?_ _
    (isSpaced_lexemesAll hItems)
  rintro next ⟨⟩
  rfl

theorem isSpaced_conditional
    {test body orelse : Expr}
    (hTest : IsSpaced (test.lexemesAt Strength.or))
    (hBody : IsSpaced (body.lexemesAt Strength.or))
    (hElse : IsSpaced (orelse.lexemesAt Strength.conditional)) :
    IsSpaced (ExprForm.lexemes (.conditional test body orelse)) := by
  have hOtherwise :=
    @IsSpaced.afterToken _ (.keyword .elseWord) trivial hElse
  exact hBody.thenSpace ((hTest.thenSpace hOtherwise).afterToken trivial)

theorem isSpaced_lambda
    {params : List (Param Expr)}
    {body : Expr}
    (hParams : ∀ param ∈ params, IsSpaced (lexemesOfParam param))
    (hBody : IsSpaced (body.lexemesAt 0)) :
    IsSpaced (ExprForm.lexemes (.lambda params body)) := by
  have hColon := @IsSpaced.afterToken _ (.mark .colon) trivial hBody
  rcases params with _ | ⟨first, later⟩
  · exact hColon.cons trivial (by rintro next ⟨⟩; rfl)
  · refine @IsSpaced.afterToken _ (.keyword _) trivial
      ((isSpaced_paramList fun param hMem => ?_).thenMark rfl hColon)
    rw [paramsLexemes_eq_map] at hMem
    obtain ⟨param, hParam, rfl⟩ := List.mem_map.mp hMem
    exact hParams param hParam

end SpacedForms

/- The tokens of a form are spaced when those of its operands are. -/
theorem isSpaced_form
    {form : ExprForm Expr}
    (here : form.IsWritten)
    (below : ∀ operand ∈ form.operands, operand.Legible)
    (hOperands :
      ∀ operand ∈ form.operands,
        ∀ strength, IsSpaced (operand.lexemesAt strength))
    (hIndexes :
      ∀ operand ∈ form.operands, IsSpaced operand.indexLexemes) :
    IsSpaced form.lexemes := by
  cases form with
  | int value => exact IsSpaced.single here
  | float value => exact IsSpaced.single here
  | str value => exact IsSpaced.single here
  | bool value => cases value <;> exact IsSpaced.single trivial
  | none => exact IsSpaced.single trivial
  | name id => exact IsSpaced.single here
  | list items =>
      exact (isSpaced_items fun item hItem =>
        hOperands item hItem 0).enclosed rfl rfl
  | set items =>
      exact (isSpaced_items fun item hItem =>
        hOperands item hItem 0).enclosed rfl rfl
  | tuple items =>
      exact isSpaced_tuple fun item hItem => hOperands item hItem 0
  | dict entries =>
      exact isSpaced_dict fun entry hEntry part hPart =>
        hOperands part (List.mem_flatMap.mpr ⟨entry, hEntry, hPart⟩) 0
  | «attribute» object attr =>
      exact isSpaced_attribute here
        (hOperands object List.mem_cons_self Strength.primary)
  | subscript object index =>
      have hObject := hOperands object List.mem_cons_self Strength.primary
      have hIndex := hIndexes index (by simp [ExprForm.operands])
      exact hObject.thenMark rfl (hIndex.enclosed rfl rfl)
  | slice lower upper step =>
      exact isSpaced_slice fun bound hBound => hOperands bound hBound 0
  | call callee args keywords =>
      have hCallee := hOperands callee List.mem_cons_self Strength.primary
      refine hCallee.thenMark rfl
        (IsSpaced.enclosed rfl rfl (isSpaced_arguments ?_ ?_))
      · intro arg hArg
        exact hOperands arg (by simp [ExprForm.operands, hArg]) 0
      · intro keyword hMember
        have hOperand :=
          @mem_operands_keyword callee args keywords keyword hMember
        exact isSpaced_keyword (below _ hOperand)
          (here.2.2.1 keyword hMember)
          (here.2.2.2.named keyword hMember)
          (hOperands _ hOperand 0)
  | starred value =>
      have hOpens :=
        @Legible.opensWith value (below value List.mem_cons_self)
          here Strength.bitOr (by decide)
      exact (hOperands value List.mem_cons_self Strength.bitOr).cons
        trivial (hOpens.parts (by decide))
  | binary left op right =>
      have hLeft :=
        hOperands left List.mem_cons_self op.operandStrengths.1
      have hRight :=
        hOperands right (by simp [ExprForm.operands])
          op.operandStrengths.2
      exact hLeft.thenSpace (hRight.afterToken trivial)
  | unary op operand =>
      exact isSpaced_unary (below operand List.mem_cons_self) here
        (hOperands operand List.mem_cons_self)
  | boolean op values =>
      exact isSpaced_boolean fun value hValue =>
        hOperands value hValue (op.strength + 1)
  | compare left rest =>
      have hLeft := hOperands left List.mem_cons_self Strength.bitOr
      refine hLeft.append (follows_stepLexemes rest)
        (isSpaced_steps fun step hMem => ?_)
      have hOperand : step.2 ∈ ExprForm.operands (.compare left rest) :=
        List.mem_cons_of_mem _ (List.mem_map_of_mem hMem)
      exact hOperands step.2 hOperand Strength.bitOr
  | conditional test body orelse =>
      exact isSpaced_conditional
        (hOperands test (by simp [ExprForm.operands]) Strength.or)
        (hOperands body (by simp [ExprForm.operands]) Strength.or)
        (hOperands orelse (by simp [ExprForm.operands])
          Strength.conditional)
  | lambda params body =>
      refine isSpaced_lambda (fun param hParam => ?_)
        (hOperands body (by simp [ExprForm.operands]) 0)
      obtain ⟨hName, hPlain⟩ := here.2.1 param hParam
      refine isSpaced_param hName fun default hDefault => ?_
      have hOperand :=
        @mem_operands_default params param body default hParam hDefault
      exact
        ⟨below default hOperand, hPlain default hDefault,
          hOperands default hOperand 0⟩

/- The tokens of a legible expression are spaced, also as an index. -/
theorem Legible.isSpaced_and_index
    {expr : Expr}
    (hLegible : expr.Legible) :
    (∀ strength, IsSpaced (expr.lexemesAt strength)) ∧
      IsSpaced expr.indexLexemes := by
  induction hLegible with
  | @intro span form here below ih =>
      have hForm : IsSpaced form.lexemes :=
        isSpaced_form here below
          (fun operand hOperand => (ih operand hOperand).1)
          (fun operand hOperand => (ih operand hOperand).2)
      refine ⟨fun strength => ?_, ?_⟩
      · rw [lexemesAt]
        split
        · exact hForm.enclosed rfl rfl
        · exact hForm
      · cases form with
        | tuple items =>
            rcases items with _ | ⟨first, later⟩
            · exact IsSpaced.nil.enclosed rfl rfl
            · exact isSpaced_items fun item hItem => (ih item hItem).1 0
        | _ => exact hForm

/- A text that an expression is written as is read as its tokens. -/
theorem Legible.lex_written
    (name : String)
    {expr : Expr}
    {text : String}
    (hLegible : expr.Legible)
    (hPlain : expr.IsPlain)
    (hWritten : WrittenAs (expr.lexemesAt 0) text) :
    (lex ⟨name, text⟩).tokens.toList.map (·.kind) =
        kindsOf (expr.lexemesAt 0) ++ [.newline, .endOfFile] ∧
      (lex ⟨name, text⟩).errors = {} := by
  have hSpaced := hLegible.isSpaced_and_index.1 0
  obtain ⟨first, rest, -, hLexemes, -, -, -⟩ :=
    @Legible.opensWith expr hLegible hPlain 0 (Nat.zero_le _)
  rw [hLexemes] at hSpaced hWritten ⊢
  exact SnippetGrader.lex_written name hSpaced hWritten

/- The source of an expression is such a text. -/
theorem writtenAs_source
    (expr : Expr) :
    WrittenAs (expr.lexemesAt 0) expr.source := by
  rw [source, ← spelled_lexemesAt]
  exact writtenAs_spelled _

end Expr

end SnippetGrader
