import SnippetGrader.Number.Notation
import SnippetGrader.Text.Quoted
import SnippetGrader.Tree.Node

/-
  Trees as short text.

  An expression is written with the parentheses that its
  operators need and no others. A statement is written as its
  first line.

  Key definitions include:
    * `Expr.source`
    * `Stmt.header`
    * `Node.text`
    * `Node.description`
-/

namespace SnippetGrader

------------------------------------------------------------
-- Binding Strength
------------------------------------------------------------

/- How tightly a form binds, from the loosest upwards. -/
namespace Strength

def lambda : Nat := 0
def conditional : Nat := 1
def or : Nat := 2
def and : Nat := 3
def not : Nat := 4
def comparison : Nat := 5
def bitOr : Nat := 6
def bitXor : Nat := 7
def bitAnd : Nat := 8
def shift : Nat := 9
def sum : Nat := 10
def term : Nat := 11
def unary : Nat := 12
def power : Nat := 13
def primary : Nat := 14
def atom : Nat := 15

end Strength

/- How tightly an operator binds. -/
def BinaryOp.strength : BinaryOp → Nat
  | .bitOr => Strength.bitOr
  | .bitXor => Strength.bitXor
  | .bitAnd => Strength.bitAnd
  | .shiftLeft | .shiftRight => Strength.shift
  | .add | .sub => Strength.sum
  | .mul | .matMul | .div | .floorDiv | .mod => Strength.term
  | .pow => Strength.power

/- How tightly the operands on either side of an operator must bind. -/
def BinaryOp.operandStrengths (op : BinaryOp) : Nat × Nat :=
  match op with
  | .pow => (Strength.primary, Strength.unary)
  | _ => (op.strength, op.strength + 1)

/- How tightly an operator binds. -/
def BoolOp.strength : BoolOp → Nat
  | .or => Strength.or
  | .and => Strength.and

/- How tightly a form binds. -/
def ExprForm.strength {ε : Type} : ExprForm ε → Nat
  | .lambda _ _ => Strength.lambda
  | .conditional _ _ _ => Strength.conditional
  | .boolean op _ => op.strength
  | .unary .not _ => Strength.not
  | .compare _ _ => Strength.comparison
  | .binary _ op _ => op.strength
  | .unary _ _ => Strength.unary
  | .starred _ => Strength.bitOr
  | .attribute _ _ | .subscript _ _ | .call _ _ _ => Strength.primary
  | _ => Strength.atom

------------------------------------------------------------
-- Expressions
------------------------------------------------------------

/- Texts with commas between them. -/
def commaJoined (texts : List String) : String :=
  ", ".intercalate texts

/-
  The texts of a parameter list, given the kind and text of each
  parameter: a slash follows the last positional-only parameter,
  and a bare star precedes the first keyword-only one unless a
  variadic parameter does.
-/
def markedParams
    (starred : Bool) :
    List (ParamKind × String) →
    List String
  | [] => []
  | (kind, text) :: rest =>
      let needsStar := kind == .keywordOnly && !starred
      let slash :=
        match rest with
        | (.positionalOnly, _) :: _ => []
        | _ => if kind == .positionalOnly then ["/"] else []
      (if needsStar then ["*"] else [])
        ++ text :: slash
        ++ markedParams (starred || needsStar) rest

/- The text of a parameter list. -/
def paramListText (params : List (ParamKind × String)) : String :=
  commaJoined
    (markedParams (params.any fun param => param.1 == .varPositional) params)

/- The text of one parameter, given the text of its default. -/
def paramText (kind : ParamKind) (name : String) (default : Option String) : String :=
  match kind, default with
  | .varPositional, _ => "*" ++ name
  | .varKeyword, _ => "**" ++ name
  | _, some text => name ++ "=" ++ text
  | _, none => name

/- The text of one keyword argument, given the text of its value. -/
def keywordText (name : Option Ident) (value : String) : String :=
  match name with
  | some ident => ident.name ++ "=" ++ value
  | none => "**" ++ value

mutual

/- An expression in a place that needs a given strength. -/
def Expr.textAt (strength : Nat) : Expr → String
  | .mk _ form =>
      if form.strength < strength then "(" ++ ExprForm.text form ++ ")"
      else ExprForm.text form

/- A form without parentheses around it. -/
def ExprForm.text : ExprForm Expr → String
  | .int value => toString value
  | .float value => Number.valueText value
  | .str value => Text.doubleQuoted value
  | .bool value => if value then "True" else "False"
  | .none => "None"
  | .name id => id
  | .list items => "[" ++ commaJoined (Expr.textsAt 0 items) ++ "]"
  | .tuple [item] => "(" ++ item.textAt 0 ++ ",)"
  | .tuple items => "(" ++ commaJoined (Expr.textsAt 0 items) ++ ")"
  | .set items => "\x7b" ++ commaJoined (Expr.textsAt 0 items) ++ "\x7d"
  | .dict entries => "\x7b" ++ commaJoined (Expr.entryTexts entries) ++ "\x7d"
  | .attribute object attr => object.textAt Strength.primary ++ "." ++ attr.name
  | .subscript object index =>
      object.textAt Strength.primary ++ "[" ++ Expr.indexText index ++ "]"
  | .slice lower upper step =>
      Expr.optionText lower ++ ":" ++ Expr.optionText upper
        ++ (if step.isSome then ":" ++ Expr.optionText step else "")
  | .call callee args keywords =>
      callee.textAt Strength.primary ++ "("
        ++ commaJoined (Expr.textsAt 0 args ++ Expr.keywordTexts keywords)
        ++ ")"
  | .starred value => "*" ++ value.textAt Strength.bitOr
  | .binary left op right =>
      left.textAt op.operandStrengths.1 ++ " " ++ op.symbol ++ " "
        ++ right.textAt op.operandStrengths.2
  | .unary .not operand => "not " ++ operand.textAt Strength.not
  | .unary op operand => op.symbol ++ operand.textAt Strength.unary
  | .boolean op values =>
      (" " ++ op.symbol ++ " ").intercalate
        (Expr.textsAt (op.strength + 1) values)
  | .compare left rest =>
      left.textAt Strength.bitOr ++ Expr.comparisonText rest
  | .conditional test body orelse =>
      body.textAt Strength.or ++ " if " ++ test.textAt Strength.or ++ " else "
        ++ orelse.textAt Strength.conditional
  | .lambda [] body => "lambda: " ++ body.textAt 0
  | .lambda params body =>
      "lambda " ++ paramListText (Expr.paramTexts params) ++ ": "
        ++ body.textAt 0

/- Expressions in places that need a given strength. -/
def Expr.textsAt (strength : Nat) : List Expr → List String
  | [] => []
  | expr :: rest => expr.textAt strength :: Expr.textsAt strength rest

/- An optional expression; nothing is written if it is absent. -/
def Expr.optionText : Option Expr → String
  | none => ""
  | some expr => expr.textAt 0

/- The entries of a dictionary. -/
def Expr.entryTexts : List (Expr × Expr) → List String
  | [] => []
  | (key, value) :: rest =>
      (key.textAt 0 ++ ": " ++ value.textAt 0) :: Expr.entryTexts rest

/- The later operands of a comparison, each after its operator. -/
def Expr.comparisonText : List (CompareOp × Expr) → String
  | [] => ""
  | (op, operand) :: rest =>
      " " ++ op.symbol ++ " " ++ operand.textAt Strength.bitOr
        ++ Expr.comparisonText rest

/- An index; a tuple that is not empty needs no parentheses. -/
def Expr.indexText : Expr → String
  | .mk _ (.tuple []) => "()"
  | .mk _ (.tuple items) => commaJoined (Expr.textsAt 0 items)
  | .mk _ form => ExprForm.text form

/- Keyword arguments. -/
def Expr.keywordTexts : List (KeywordArg Expr) → List String
  | [] => []
  | ⟨name, value, _⟩ :: rest =>
      keywordText name (value.textAt 0) :: Expr.keywordTexts rest

/- Parameters, each with its kind. -/
def Expr.paramTexts : List (Param Expr) → List (ParamKind × String)
  | [] => []
  | ⟨name, kind, none, _⟩ :: rest =>
      (kind, paramText kind name.name none) :: Expr.paramTexts rest
  | ⟨name, kind, some default, _⟩ :: rest =>
      (kind, paramText kind name.name (some (default.textAt 0)))
        :: Expr.paramTexts rest

end

/- The text of an expression on its own. -/
def Expr.source (expr : Expr) : String :=
  expr.textAt 0

/- The texts of expressions, with commas between them. -/
def Expr.joined (exprs : List Expr) : String :=
  commaJoined (Expr.textsAt 0 exprs)

/- The text of a target or assigned value: a longer tuple needs no parentheses. -/
def Expr.bareSource (expr : Expr) : String :=
  match expr.form with
  | .tuple items =>
      if items.length > 1 then Expr.joined items else expr.source
  | _ => expr.source

------------------------------------------------------------
-- Statements and Other Nodes
------------------------------------------------------------

/- The text of one imported name. -/
def Alias.text (imported : Alias) : String :=
  match imported.asName with
  | some ident => imported.name ++ " as " ++ ident.name
  | none => imported.name

/- The texts of imported names. -/
def Alias.joined (names : List Alias) : String :=
  commaJoined (names.map Alias.text)

/- The first line of a statement. -/
def Stmt.header (stmt : Stmt) : String :=
  match stmt.form with
  | .expr value => value.source
  | .assign targets value =>
      " = ".intercalate ((targets ++ [value]).map Expr.bareSource)
  | .augAssign target op value =>
      target.source ++ " " ++ op.symbol ++ "= " ++ value.bareSource
  | .functionDef name params _ =>
      "def " ++ name.name ++ "(" ++ paramListText (Expr.paramTexts params) ++ ")"
  | .classDef name [] _ => "class " ++ name.name
  | .classDef name bases _ => "class " ++ name.name ++ "(" ++ Expr.joined bases ++ ")"
  | .ret (some value) => "return " ++ value.bareSource
  | .ret none => "return"
  | .branch test _ _ => "if " ++ test.source
  | .whileLoop test _ _ => "while " ++ test.source
  | .forLoop target items _ _ =>
      "for " ++ target.bareSource ++ " in " ++ items.bareSource
  | .importModules names => "import " ++ Alias.joined names
  | .importFrom source names =>
      "from " ++ source ++ " import " ++ Alias.joined names
  | .raise (some exception) => "raise " ++ exception.source
  | .raise none => "raise"
  | .assert test none => "assert " ++ test.source
  | .assert test (some message) =>
      "assert " ++ test.source ++ ", " ++ message.source
  | .pass => "pass"
  | .breakLoop => "break"
  | .continueLoop => "continue"

/- An expression in a message: an attribute is named before its object. -/
def Expr.quotedText : Expr → String
  | .mk _ (.attribute object attr) =>
      "\"" ++ attr.name ++ "\" on " ++ object.quotedText
  | expr => expr.source

/- A node in a message. -/
def Node.text : Node → String
  | .expr inner => inner.quotedText
  | .stmt inner => inner.header
  | .program root => ((root.body.head?).map Stmt.header).getD ""
  | .keyword inner => keywordText inner.name inner.value.source
  | .param inner =>
      paramText inner.kind inner.name.name (inner.default.map Expr.source)
  | .imported inner => inner.text

------------------------------------------------------------
-- Descriptions
------------------------------------------------------------

/- Whether an expression is a number literal. -/
def Expr.isNumber (expr : Expr) : Bool :=
  match expr.form with
  | .int _ | .float _ => true
  | _ => false

/- What an expression is, in prose. -/
def Expr.description (expr : Expr) : String :=
  match expr.form with
  | .int _ | .float _ => "a number"
  | .str _ => "a string"
  | .bool _ => "a boolean"
  | .none => "the value None"
  | .list _ => "a list"
  | .tuple _ => "a tuple"
  | .set _ => "a set"
  | .dict _ => "a dictionary"
  | .name _ => "a variable"
  | .attribute _ _ => "an attribute"
  | .subscript _ _ => "a subscript"
  | .slice _ _ _ => "a slice"
  | .call _ _ _ => "a function call"
  | .starred _ => "an unpacking"
  | .binary _ _ _ => "an arithmetic expression"
  | .unary .not _ | .boolean _ _ => "a boolean expression"
  | .unary op operand =>
      if op != .invert && operand.isNumber then "a number"
      else "an arithmetic expression"
  | .compare _ _ => "a comparison"
  | .conditional _ _ _ => "a conditional expression"
  | .lambda _ _ => "a lambda function"

/- What a statement is, in prose. -/
def Stmt.description (stmt : Stmt) : String :=
  match stmt.form with
  | .expr value => value.description
  | .assign _ _ => "an assignment"
  | .augAssign _ _ _ => "an augmented assignment"
  | .functionDef _ _ _ => "a function definition"
  | .classDef _ _ _ => "a class definition"
  | .ret _ => "a return statement"
  | .branch _ _ _ => "an if statement"
  | .whileLoop _ _ _ => "a while loop"
  | .forLoop _ _ _ _ => "a for loop"
  | .importModules _ | .importFrom _ _ => "an import"
  | .raise _ => "a raise statement"
  | .assert _ _ => "an assertion"
  | .pass => "a pass statement"
  | .breakLoop => "a break statement"
  | .continueLoop => "a continue statement"

/- What a node is, in prose. -/
def Node.description : Node → String
  | .program _ => "a module"
  | .stmt inner => inner.description
  | .expr inner => inner.description
  | .keyword _ => "a keyword argument"
  | .param _ => "a parameter"
  | .imported _ => "an imported name"

end SnippetGrader
