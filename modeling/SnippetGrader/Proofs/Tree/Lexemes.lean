import Mathlib
import SnippetGrader.Token.Basic
import SnippetGrader.Tree.Text

/-
  The tokens that the text of an expression is made of.

  The text is a list of lexemes: tokens, each with one spelling,
  and single spaces. Reading the spellings one after the other
  gives the text, and leaving out the spaces gives the tokens
  that the text should be read as.

  Key definitions include:
    * `Lexeme`, `TokenKind.spelling`
    * `Expr.lexemesAt`
    * `Expr.tokensAt`

  Key theorems include:
    * `spelled_lexemesAt`
-/

namespace SnippetGrader

------------------------------------------------------------
-- Lexemes
------------------------------------------------------------

/- How a token is written. -/
def TokenKind.spelling : TokenKind → String
  | .float value => Number.valueText value
  | .str value => Text.doubleQuoted value
  | kind => kind.text

@[simp] theorem TokenKind.spelling_name
    (id : String) :
    (TokenKind.name id).spelling = id := rfl

@[simp] theorem TokenKind.spelling_keyword
    (word : Keyword) :
    (TokenKind.keyword word).spelling = word.text := rfl

@[simp] theorem TokenKind.spelling_mark
    (mark : Mark) :
    (TokenKind.mark mark).spelling = mark.text := rfl

/- A token, or a space between two. -/
inductive Lexeme where
  | token (kind : TokenKind)
  | space
  deriving Inhabited

namespace Lexeme

/- How a lexeme is written. -/
def text : Lexeme → String
  | token kind => kind.spelling
  | space => " "

/- The token that a lexeme is, unless it is a space. -/
def kind? : Lexeme → Option TokenKind
  | token kind => some kind
  | space => none

end Lexeme

/- The text that lexemes are written as. -/
def spelled : List Lexeme → String
  | [] => ""
  | lexeme :: rest => lexeme.text ++ spelled rest

/- The tokens among lexemes. -/
def kindsOf (lexemes : List Lexeme) : List TokenKind :=
  lexemes.filterMap Lexeme.kind?

@[simp] theorem spelled_nil :
    spelled [] = "" := rfl

@[simp] theorem spelled_token
    (kind : TokenKind)
    (rest : List Lexeme) :
    spelled (.token kind :: rest) = kind.spelling ++ spelled rest := rfl

@[simp] theorem spelled_space
    (rest : List Lexeme) :
    spelled (.space :: rest) = " " ++ spelled rest := rfl

@[simp] theorem spelled_append
    (first second : List Lexeme) :
    spelled (first ++ second) = spelled first ++ spelled second := by
  induction first with
  | nil => rw [List.nil_append, spelled_nil, String.empty_append]
  | cons lexeme rest ih =>
      rw [List.cons_append, spelled, ih, spelled, String.append_assoc]

/- Separators are written between the parts that they separate. -/
theorem spelled_intercalate
    (separator : List Lexeme)
    (parts : List (List Lexeme)) :
    spelled (separator.intercalate parts) =
      (spelled separator).intercalate (parts.map spelled) := by
  induction parts with
  | nil => rfl
  | cons first rest ih =>
      cases rest with
      | nil => simp
      | cons second later =>
          rw [List.intercalate_cons_cons, List.map_cons, List.map_cons,
            String.intercalate_cons_cons, ← List.map_cons, ← ih,
            spelled_append, spelled_append, String.append_assoc]

@[simp] theorem kindsOf_nil :
    kindsOf [] = [] := rfl

@[simp] theorem kindsOf_token
    (kind : TokenKind)
    (rest : List Lexeme) :
    kindsOf (.token kind :: rest) = kind :: kindsOf rest := rfl

@[simp] theorem kindsOf_space
    (rest : List Lexeme) :
    kindsOf (.space :: rest) = kindsOf rest := rfl

@[simp] theorem kindsOf_append
    (first second : List Lexeme) :
    kindsOf (first ++ second) = kindsOf first ++ kindsOf second :=
  List.filterMap_append

theorem kindsOf_intercalate
    (separator : List Lexeme)
    (parts : List (List Lexeme)) :
    kindsOf (separator.intercalate parts) =
      (kindsOf separator).intercalate (parts.map kindsOf) := by
  induction parts with
  | nil => rfl
  | cons first rest ih =>
      cases rest with
      | nil => simp
      | cons second later =>
          rw [List.intercalate_cons_cons, List.map_cons, List.map_cons,
            List.intercalate_cons_cons, ← List.map_cons, ← ih,
            kindsOf_append, kindsOf_append]

------------------------------------------------------------
-- Operators and Lists
------------------------------------------------------------

/- The mark of an operator. -/
def BinaryOp.mark : BinaryOp → Mark
  | .add => .plus
  | .sub => .minus
  | .mul => .star
  | .matMul => .atSign
  | .div => .slash
  | .floorDiv => .doubleSlash
  | .mod => .percent
  | .pow => .doubleStar
  | .shiftLeft => .shiftLeft
  | .shiftRight => .shiftRight
  | .bitOr => .pipe
  | .bitXor => .caret
  | .bitAnd => .ampersand

/- The lexemes of an operator, up to its operand. -/
def UnaryOp.lexemes : UnaryOp → List Lexeme
  | .pos => [.token (.mark .plus)]
  | .neg => [.token (.mark .minus)]
  | .invert => [.token (.mark .tilde)]
  | .not => [.token (.keyword .notWord), .space]

/- The word of an operator. -/
def BoolOp.word : BoolOp → Keyword
  | .and => .andWord
  | .or => .orWord

/- The lexemes of an operator of one or two words. -/
def CompareOp.lexemes : CompareOp → List Lexeme
  | .eq => [.token (.mark .equal)]
  | .notEq => [.token (.mark .notEqual)]
  | .less => [.token (.mark .less)]
  | .lessEq => [.token (.mark .lessEq)]
  | .greater => [.token (.mark .greater)]
  | .greaterEq => [.token (.mark .greaterEq)]
  | .same => [.token (.keyword .isWord)]
  | .notSame =>
      [.token (.keyword .isWord), .space, .token (.keyword .notWord)]
  | .member => [.token (.keyword .inWord)]
  | .notMember =>
      [.token (.keyword .notWord), .space, .token (.keyword .inWord)]

/- A comma and the space after it. -/
def commaLexemes : List Lexeme :=
  [.token (.mark .comma), .space]

/- Lists of lexemes with commas between them. -/
def commaSeparated (parts : List (List Lexeme)) : List Lexeme :=
  commaLexemes.intercalate parts

/- Lexemes between two marks. -/
def enclosed (opening closing : Mark) (lexemes : List Lexeme) : List Lexeme :=
  .token (.mark opening) :: lexemes ++ [.token (.mark closing)]

theorem kindsOf_commaSeparated
    (parts : List (List Lexeme)) :
    kindsOf (commaSeparated parts) =
      [.mark .comma].intercalate (parts.map kindsOf) :=
  kindsOf_intercalate commaLexemes parts

theorem kindsOf_enclosed
    (opening closing : Mark)
    (lexemes : List Lexeme) :
    kindsOf (enclosed opening closing lexemes) =
      .mark opening :: (kindsOf lexemes ++ [.mark closing]) := by
  rw [enclosed, List.cons_append, kindsOf_token, kindsOf_append]
  rfl

/- The parts of a parameter list, given those of each parameter. -/
def markedLexemes
    (starred : Bool) :
    List (ParamKind × List Lexeme) →
    List (List Lexeme)
  | [] => []
  | (kind, lexemes) :: rest =>
      let needsStar := kind == .keywordOnly && !starred
      let slash :=
        match rest with
        | (.positionalOnly, _) :: _ => []
        | _ =>
            if kind == .positionalOnly then [[.token (.mark .slash)]]
            else []
      (if needsStar then [[.token (.mark .star)]] else [])
        ++ lexemes :: slash
        ++ markedLexemes (starred || needsStar) rest

/- The lexemes of a parameter list. -/
def paramListLexemes (params : List (ParamKind × List Lexeme)) : List Lexeme :=
  commaSeparated
    (markedLexemes (params.any fun param => param.1 == .varPositional) params)

/- The lexemes of one parameter, given those of its default. -/
def paramLexemes
    (kind : ParamKind)
    (name : String)
    (default : Option (List Lexeme)) :
    List Lexeme :=
  match kind, default with
  | .varPositional, _ => [.token (.mark .star), .token (.name name)]
  | .varKeyword, _ => [.token (.mark .doubleStar), .token (.name name)]
  | _, some lexemes =>
      .token (.name name) :: .token (.mark .assign) :: lexemes
  | _, none => [.token (.name name)]

/- The lexemes of one keyword argument, given those of its value. -/
def keywordLexemes (name : Option Ident) (value : List Lexeme) : List Lexeme :=
  match name with
  | some ident => .token (.name ident.name) :: .token (.mark .assign) :: value
  | none => .token (.mark .doubleStar) :: value

------------------------------------------------------------
-- Expressions
------------------------------------------------------------

mutual

/- The lexemes of an expression in a place that needs a given strength. -/
def Expr.lexemesAt (strength : Nat) : Expr → List Lexeme
  | .mk _ form =>
      if form.strength < strength then
        enclosed .openParen .closeParen (ExprForm.lexemes form)
      else ExprForm.lexemes form

/- The lexemes of a form without parentheses around it. -/
def ExprForm.lexemes : ExprForm Expr → List Lexeme
  | .int value => [.token (.int value)]
  | .float value => [.token (.float value)]
  | .str value => [.token (.str value)]
  | .bool true => [.token (.keyword .trueWord)]
  | .bool false => [.token (.keyword .falseWord)]
  | .none => [.token (.keyword .noneWord)]
  | .name id => [.token (.name id)]
  | .list items =>
      enclosed .openBracket .closeBracket
        (commaSeparated (Expr.lexemesAll 0 items))
  | .tuple [item] =>
      enclosed .openParen .closeParen
        (item.lexemesAt 0 ++ [.token (.mark .comma)])
  | .tuple items =>
      enclosed .openParen .closeParen
        (commaSeparated (Expr.lexemesAll 0 items))
  | .set items =>
      enclosed .openBrace .closeBrace
        (commaSeparated (Expr.lexemesAll 0 items))
  | .dict entries =>
      enclosed .openBrace .closeBrace
        (commaSeparated (Expr.entryLexemes entries))
  | .attribute object attr =>
      object.lexemesAt Strength.primary ++
        [.token (.mark .dot), .token (.name attr.name)]
  | .subscript object index =>
      object.lexemesAt Strength.primary ++
        enclosed .openBracket .closeBracket (Expr.indexLexemes index)
  | .slice lower upper step =>
      Expr.optionLexemes lower ++ .token (.mark .colon) ::
        (Expr.optionLexemes upper ++
          if step.isSome then
            .token (.mark .colon) :: Expr.optionLexemes step
          else [])
  | .call callee args keywords =>
      callee.lexemesAt Strength.primary ++
        enclosed .openParen .closeParen
          (commaSeparated
            (Expr.lexemesAll 0 args ++ Expr.keywordsLexemes keywords))
  | .starred value =>
      .token (.mark .star) :: value.lexemesAt Strength.bitOr
  | .binary left op right =>
      left.lexemesAt op.operandStrengths.1 ++
        .space :: .token (.mark op.mark) :: .space ::
          right.lexemesAt op.operandStrengths.2
  | .unary .not operand =>
      UnaryOp.not.lexemes ++ operand.lexemesAt Strength.not
  | .unary op operand =>
      op.lexemes ++ operand.lexemesAt Strength.unary
  | .boolean op values =>
      [.space, .token (.keyword op.word), .space].intercalate
        (Expr.lexemesAll (op.strength + 1) values)
  | .compare left rest =>
      left.lexemesAt Strength.bitOr ++ Expr.stepLexemes rest
  | .conditional test body orelse =>
      body.lexemesAt Strength.or ++
        .space :: .token (.keyword .ifWord) :: .space ::
          (test.lexemesAt Strength.or ++
            .space :: .token (.keyword .elseWord) :: .space ::
              orelse.lexemesAt Strength.conditional)
  | .lambda [] body =>
      .token (.keyword .lambdaWord) :: .token (.mark .colon) :: .space ::
        body.lexemesAt 0
  | .lambda params body =>
      .token (.keyword .lambdaWord) :: .space ::
        (paramListLexemes (Expr.paramsLexemes params) ++
          .token (.mark .colon) :: .space :: body.lexemesAt 0)

/- The lexemes of expressions in places that need a given strength. -/
def Expr.lexemesAll (strength : Nat) : List Expr → List (List Lexeme)
  | [] => []
  | expr :: rest =>
      expr.lexemesAt strength :: Expr.lexemesAll strength rest

/- The lexemes of an optional expression. -/
def Expr.optionLexemes : Option Expr → List Lexeme
  | none => []
  | some expr => expr.lexemesAt 0

/- The lexemes of the entries of a dictionary. -/
def Expr.entryLexemes : List (Expr × Expr) → List (List Lexeme)
  | [] => []
  | (key, value) :: rest =>
      (key.lexemesAt 0 ++
          .token (.mark .colon) :: .space :: value.lexemesAt 0) ::
        Expr.entryLexemes rest

/- The lexemes of the later operands of a comparison. -/
def Expr.stepLexemes : List (CompareOp × Expr) → List Lexeme
  | [] => []
  | (op, operand) :: rest =>
      .space :: (op.lexemes ++
        .space :: (operand.lexemesAt Strength.bitOr ++
          Expr.stepLexemes rest))

/- The lexemes of an index. -/
def Expr.indexLexemes : Expr → List Lexeme
  | .mk _ (.tuple []) => enclosed .openParen .closeParen []
  | .mk _ (.tuple items) => commaSeparated (Expr.lexemesAll 0 items)
  | .mk _ form => ExprForm.lexemes form

/- The lexemes of keyword arguments. -/
def Expr.keywordsLexemes : List (KeywordArg Expr) → List (List Lexeme)
  | [] => []
  | ⟨name, value, _⟩ :: rest =>
      keywordLexemes name (value.lexemesAt 0) ::
        Expr.keywordsLexemes rest

/- The lexemes of parameters, each with its kind. -/
def Expr.paramsLexemes :
    List (Param Expr) → List (ParamKind × List Lexeme)
  | [] => []
  | ⟨name, kind, none, _⟩ :: rest =>
      (kind, paramLexemes kind name.name none) :: Expr.paramsLexemes rest
  | ⟨name, kind, some default, _⟩ :: rest =>
      (kind, paramLexemes kind name.name (some (default.lexemesAt 0))) ::
        Expr.paramsLexemes rest

end

namespace Expr

theorem lexemesAll_eq_map
    (strength : Nat)
    (items : List Expr) :
    lexemesAll strength items = items.map (lexemesAt strength) := by
  induction items with
  | nil => rfl
  | cons first rest ih => rw [lexemesAll, ih, List.map_cons]

/- The lexemes of an entry of a dictionary. -/
def lexemesOfEntry (entry : Expr × Expr) : List Lexeme :=
  entry.1.lexemesAt 0 ++
    .token (.mark .colon) :: .space :: entry.2.lexemesAt 0

theorem entryLexemes_eq_map
    (entries : List (Expr × Expr)) :
    entryLexemes entries = entries.map lexemesOfEntry := by
  induction entries with
  | nil => rfl
  | cons first rest ih =>
      rw [entryLexemes, ih, List.map_cons, lexemesOfEntry]

/- The lexemes of a keyword argument. -/
def lexemesOfKeyword (keyword : KeywordArg Expr) : List Lexeme :=
  keywordLexemes keyword.name (keyword.value.lexemesAt 0)

theorem keywordsLexemes_eq_map
    (keywords : List (KeywordArg Expr)) :
    keywordsLexemes keywords = keywords.map lexemesOfKeyword := by
  induction keywords with
  | nil => rfl
  | cons first rest ih =>
      rw [keywordsLexemes, ih, List.map_cons, lexemesOfKeyword]

/- The lexemes of a parameter. -/
def lexemesOfParam (param : Param Expr) : List Lexeme :=
  paramLexemes param.kind param.name.name
    (param.default.map (lexemesAt 0))

theorem paramsLexemes_eq_map
    (params : List (Param Expr)) :
    paramsLexemes params =
      params.map fun param => (param.kind, lexemesOfParam param) := by
  induction params with
  | nil => rfl
  | cons first rest ih =>
      obtain ⟨name, kind, default, span⟩ := first
      cases default <;>
        rw [paramsLexemes, ih, List.map_cons] <;>
        rfl

end Expr

------------------------------------------------------------
-- Lexemes as Text
------------------------------------------------------------

theorem spelled_enclosed
    (opening closing : Mark)
    (lexemes : List Lexeme) :
    spelled (enclosed opening closing lexemes) =
      opening.text ++ spelled lexemes ++ closing.text := by
  simp [enclosed, String.append_assoc]

theorem spelled_commaSeparated
    (parts : List (List Lexeme)) :
    spelled (commaSeparated parts) = commaJoined (parts.map spelled) :=
  spelled_intercalate commaLexemes parts

theorem BinaryOp.text_mark
    (op : BinaryOp) :
    op.mark.text = op.symbol := by
  cases op <;> rfl

theorem BoolOp.text_word
    (op : BoolOp) :
    op.word.text = op.symbol := by
  cases op <;> rfl

theorem CompareOp.spelled_lexemes
    (op : CompareOp) :
    spelled op.lexemes = op.symbol := by
  cases op <;> rfl

/- Markers stand at the same places in both lists. -/
theorem map_spelled_markedLexemes
    (starred : Bool)
    (params : List (ParamKind × List Lexeme)) :
    (markedLexemes starred params).map spelled =
      markedParams starred (params.map (Prod.map id spelled)) := by
  induction params generalizing starred with
  | nil => rfl
  | cons param rest ih =>
      obtain ⟨kind, lexemes⟩ := param
      simp only [markedLexemes, markedParams, List.map_cons,
        List.map_append, Prod.map, id, ih]
      congr 1
      rcases rest with _ | ⟨⟨next, _⟩, _⟩
      · cases kind <;> cases starred <;> rfl
      · cases next <;> cases kind <;> cases starred <;> rfl

theorem spelled_paramListLexemes
    (params : List (ParamKind × List Lexeme)) :
    spelled (paramListLexemes params) =
      paramListText (params.map (Prod.map id spelled)) := by
  unfold paramListLexemes paramListText
  rw [spelled_commaSeparated, map_spelled_markedLexemes, List.any_map]
  rfl

theorem spelled_paramLexemes
    (kind : ParamKind)
    (name : String)
    (default : Option (List Lexeme)) :
    spelled (paramLexemes kind name default) =
      paramText kind name (default.map spelled) := by
  cases kind <;> cases default <;>
    simp [paramLexemes, paramText, String.append_assoc] <;>
    rfl

theorem spelled_keywordLexemes
    (name : Option Ident)
    (value : List Lexeme) :
    spelled (keywordLexemes name value) =
      keywordText name (spelled value) := by
  cases name <;>
    simp [keywordLexemes, keywordText, String.append_assoc] <;>
    rfl

mutual

/- The lexemes of an expression are written as its text. -/
theorem spelled_lexemesAt
    (strength : Nat) :
    (expr : Expr) →
    spelled (expr.lexemesAt strength) = expr.textAt strength
  | .mk _ form => by
      rw [Expr.lexemesAt, Expr.textAt]
      split
      · rw [spelled_enclosed, spelled_lexemes form]
        rfl
      · exact spelled_lexemes form

theorem spelled_lexemes :
    (form : ExprForm Expr) →
    spelled form.lexemes = form.text
  | .int _ | .float _ | .str _ | .bool true | .bool false | .none
  | .name _ => by
      rw [ExprForm.lexemes, ExprForm.text, spelled_token, spelled_nil,
        String.append_empty]
      rfl
  | .list items | .set items => by
      simp only [ExprForm.lexemes, ExprForm.text, spelled_enclosed,
        spelled_commaSeparated, map_spelled_lexemesAll 0 items]
      rfl
  | .tuple [] => by
      simp [ExprForm.lexemes, ExprForm.text, spelled_enclosed,
        spelled_commaSeparated, Expr.lexemesAll, Expr.textsAt]
      rfl
  | .tuple [item] => by
      simp [ExprForm.lexemes, ExprForm.text, spelled_enclosed,
        spelled_lexemesAt 0 item, String.append_assoc]
      rfl
  | .tuple (first :: second :: later) => by
      simp only [ExprForm.lexemes, ExprForm.text, spelled_enclosed,
        spelled_commaSeparated,
        map_spelled_lexemesAll 0 (first :: second :: later)]
      rfl
  | .dict entries => by
      simp only [ExprForm.lexemes, ExprForm.text, spelled_enclosed,
        spelled_commaSeparated, map_spelled_entryLexemes entries]
      rfl
  | .attribute object attr => by
      simp [ExprForm.lexemes, ExprForm.text,
        spelled_lexemesAt _ object, String.append_assoc]
      rfl
  | .subscript object index => by
      simp only [ExprForm.lexemes, ExprForm.text, spelled_append,
        spelled_enclosed, spelled_lexemesAt _ object,
        spelled_indexLexemes index, String.append_assoc]
      rfl
  | .slice lower upper step => by
      have hStep :
          spelled
              (if step.isSome then
                .token (.mark .colon) :: Expr.optionLexemes step
              else []) =
            if step.isSome then ":" ++ Expr.optionText step else "" := by
        split
        · rw [spelled_token, spelled_optionLexemes step]
          rfl
        · rfl
      simp only [ExprForm.lexemes, ExprForm.text, spelled_append,
        spelled_token, spelled_optionLexemes lower,
        spelled_optionLexemes upper, hStep, String.append_assoc]
      rfl
  | .call callee args keywords => by
      simp only [ExprForm.lexemes, ExprForm.text, spelled_append,
        spelled_enclosed, spelled_lexemesAt _ callee,
        spelled_commaSeparated, List.map_append,
        map_spelled_lexemesAll 0 args,
        map_spelled_keywordsLexemes keywords, String.append_assoc]
      rfl
  | .starred value => by
      rw [ExprForm.lexemes, ExprForm.text, spelled_token,
        spelled_lexemesAt _ value]
      rfl
  | .binary left op right => by
      simp only [ExprForm.lexemes, ExprForm.text, spelled_append,
        spelled_space, spelled_token, spelled_lexemesAt _ left,
        spelled_lexemesAt _ right, TokenKind.spelling_mark,
        op.text_mark, String.append_assoc]
  | .unary .not operand => by
      have hWord : Keyword.notWord.text = "not" := rfl
      simp [ExprForm.lexemes, ExprForm.text, UnaryOp.lexemes,
        spelled_lexemesAt _ operand, hWord, ← String.append_assoc]
  | .unary .pos operand | .unary .neg operand
  | .unary .invert operand => by
      simp [ExprForm.lexemes, ExprForm.text, UnaryOp.lexemes,
        spelled_lexemesAt _ operand]
      rfl
  | .boolean op values => by
      simp only [ExprForm.lexemes, ExprForm.text, spelled_intercalate,
        map_spelled_lexemesAll _ values, spelled_space, spelled_token,
        spelled_nil, TokenKind.spelling_keyword, op.text_word,
        String.append_assoc, String.append_empty]
  | .compare left rest => by
      rw [ExprForm.lexemes, ExprForm.text, spelled_append,
        spelled_lexemesAt _ left, spelled_stepLexemes rest]
  | .conditional test body orelse => by
      have hSpaced (word : String) (text : String) :
          " " ++ (word ++ (" " ++ text)) =
            " " ++ word ++ " " ++ text := by
        simp only [String.append_assoc]
      have hIf : Keyword.ifWord.text = "if" := rfl
      have hElse : Keyword.elseWord.text = "else" := rfl
      simp only [ExprForm.lexemes, ExprForm.text, spelled_append,
        spelled_space, spelled_token, spelled_lexemesAt _ test,
        spelled_lexemesAt _ body, spelled_lexemesAt _ orelse,
        TokenKind.spelling_keyword, hIf, hElse, String.append_assoc,
        hSpaced, String.reduceAppend]
  | .lambda [] body => by
      simp only [ExprForm.lexemes, ExprForm.text, spelled_space,
        spelled_token, spelled_lexemesAt 0 body,
        TokenKind.spelling_keyword, TokenKind.spelling_mark,
        ← String.append_assoc]
      rfl
  | .lambda (param :: params) body => by
      have hWord : Keyword.lambdaWord.text = "lambda" := rfl
      have hColon : Mark.colon.text = ":" := rfl
      simp only [ExprForm.lexemes, ExprForm.text, spelled_append,
        spelled_space, spelled_token, spelled_paramListLexemes,
        map_spelled_paramsLexemes (param :: params),
        spelled_lexemesAt 0 body, TokenKind.spelling_keyword,
        TokenKind.spelling_mark, hWord, hColon, ← String.append_assoc,
        String.reduceAppend]

theorem map_spelled_lexemesAll
    (strength : Nat) :
    (items : List Expr) →
    (Expr.lexemesAll strength items).map spelled =
      Expr.textsAt strength items
  | [] => rfl
  | item :: rest => by
      rw [Expr.lexemesAll, Expr.textsAt, List.map_cons,
        spelled_lexemesAt strength item, map_spelled_lexemesAll strength rest]

theorem spelled_optionLexemes :
    (optional : Option Expr) →
    spelled (Expr.optionLexemes optional) = Expr.optionText optional
  | none => rfl
  | some expr => spelled_lexemesAt 0 expr

theorem map_spelled_entryLexemes :
    (entries : List (Expr × Expr)) →
    (Expr.entryLexemes entries).map spelled = Expr.entryTexts entries
  | [] => rfl
  | (key, value) :: rest => by
      have hColon (text : String) :
          Mark.colon.text ++ (" " ++ text) = ": " ++ text := by
        rw [← String.append_assoc]
        rfl
      simp only [Expr.entryLexemes, Expr.entryTexts, List.map_cons,
        map_spelled_entryLexemes rest, spelled_append, spelled_token,
        spelled_space, spelled_lexemesAt 0 key,
        spelled_lexemesAt 0 value, TokenKind.spelling_mark, hColon,
        String.append_assoc]

theorem spelled_stepLexemes :
    (steps : List (CompareOp × Expr)) →
    spelled (Expr.stepLexemes steps) = Expr.comparisonText steps
  | [] => rfl
  | (op, operand) :: rest => by
      simp only [Expr.stepLexemes, Expr.comparisonText, spelled_append,
        spelled_space, op.spelled_lexemes, spelled_lexemesAt _ operand,
        spelled_stepLexemes rest, String.append_assoc]

theorem spelled_indexLexemes :
    (index : Expr) →
    spelled (Expr.indexLexemes index) = Expr.indexText index
  | .mk _ (.tuple []) => rfl
  | .mk _ (.tuple (first :: later)) => by
      simp only [Expr.indexLexemes, Expr.indexText, spelled_commaSeparated,
        map_spelled_lexemesAll 0 (first :: later)]
  | .mk _ (.int _) | .mk _ (.float _) | .mk _ (.str _)
  | .mk _ (.bool _) | .mk _ .none | .mk _ (.list _) | .mk _ (.set _)
  | .mk _ (.dict _) | .mk _ (.name _) | .mk _ (.attribute _ _)
  | .mk _ (.subscript _ _) | .mk _ (.slice _ _ _)
  | .mk _ (.call _ _ _) | .mk _ (.starred _) | .mk _ (.binary _ _ _)
  | .mk _ (.unary _ _) | .mk _ (.boolean _ _) | .mk _ (.compare _ _)
  | .mk _ (.conditional _ _ _) | .mk _ (.lambda _ _) => by
      exact spelled_lexemes _

theorem map_spelled_keywordsLexemes :
    (keywords : List (KeywordArg Expr)) →
    (Expr.keywordsLexemes keywords).map spelled =
      Expr.keywordTexts keywords
  | [] => rfl
  | ⟨name, value, _⟩ :: rest => by
      rw [Expr.keywordsLexemes, Expr.keywordTexts, List.map_cons,
        spelled_keywordLexemes, spelled_lexemesAt 0 value,
        map_spelled_keywordsLexemes rest]

theorem map_spelled_paramsLexemes :
    (params : List (Param Expr)) →
    (Expr.paramsLexemes params).map (Prod.map id spelled) =
      Expr.paramTexts params
  | [] => rfl
  | ⟨name, kind, none, _⟩ :: rest => by
      rw [Expr.paramsLexemes, Expr.paramTexts, List.map_cons, Prod.map,
        spelled_paramLexemes, map_spelled_paramsLexemes rest]
      rfl
  | ⟨name, kind, some default, _⟩ :: rest => by
      rw [Expr.paramsLexemes, Expr.paramTexts, List.map_cons, Prod.map,
        spelled_paramLexemes, map_spelled_paramsLexemes rest,
        Option.map_some, spelled_lexemesAt 0 default]
      rfl

end

end SnippetGrader
