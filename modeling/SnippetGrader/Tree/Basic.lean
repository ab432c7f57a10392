import SnippetGrader.Source.Span

/-
  Trees of parsed snippets.

  The shape of a node is kept apart from its position: a form
  is a shape over an unspecified type of children, and a node is
  a span with a form over nodes. Children stand in the order in
  which they are written.

  Key definitions include:
    * `ExprForm`, `Expr`
    * `StmtForm`, `Stmt`
    * `Program`
-/

namespace SnippetGrader

------------------------------------------------------------
-- Names and Operators
------------------------------------------------------------

/- A name at a position. -/
structure Ident where
  name : String
  span : Span
  deriving DecidableEq, Repr, Inhabited

/- How an argument may reach a parameter. -/
inductive ParamKind where
  | positionalOnly
  | positionalOrKeyword
  | varPositional
  | keywordOnly
  | varKeyword
  deriving DecidableEq, Repr, Inhabited

namespace ParamKind

/- All kinds, in the order in which a list declares them. -/
def all : List ParamKind :=
  [positionalOnly, positionalOrKeyword, varPositional, keywordOnly, varKeyword]

/- The name of a kind. -/
def text : ParamKind → String
  | positionalOnly => "positional-only"
  | positionalOrKeyword => "positional-or-keyword"
  | varPositional => "var-positional"
  | keywordOnly => "keyword-only"
  | varKeyword => "var-keyword"

/- The kind with a given name. -/
def ofText? (text : String) : Option ParamKind :=
  all.find? fun kind => kind.text == text

end ParamKind

/- Operators between two operands. -/
inductive BinaryOp where
  | add
  | sub
  | mul
  | matMul
  | div
  | floorDiv
  | mod
  | pow
  | shiftLeft
  | shiftRight
  | bitOr
  | bitXor
  | bitAnd
  deriving DecidableEq, Repr, Inhabited

/- The symbol of an operator. -/
def BinaryOp.symbol : BinaryOp → String
  | add => "+"
  | sub => "-"
  | mul => "*"
  | matMul => "@"
  | div => "/"
  | floorDiv => "//"
  | mod => "%"
  | pow => "**"
  | shiftLeft => "<<"
  | shiftRight => ">>"
  | bitOr => "|"
  | bitXor => "^"
  | bitAnd => "&"

/- Operators before one operand. -/
inductive UnaryOp where
  | pos
  | neg
  | invert
  | not
  deriving DecidableEq, Repr, Inhabited

/- The symbol of an operator. -/
def UnaryOp.symbol : UnaryOp → String
  | pos => "+"
  | neg => "-"
  | invert => "~"
  | not => "not"

/- Operators that may leave later operands unevaluated. -/
inductive BoolOp where
  | and
  | or
  deriving DecidableEq, Repr, Inhabited

/- The symbol of an operator. -/
def BoolOp.symbol : BoolOp → String
  | and => "and"
  | or => "or"

/- Operators of a comparison chain. -/
inductive CompareOp where
  | eq
  | notEq
  | less
  | lessEq
  | greater
  | greaterEq
  | same
  | notSame
  | member
  | notMember
  deriving DecidableEq, Repr, Inhabited

/- The symbol of an operator. -/
def CompareOp.symbol : CompareOp → String
  | eq => "=="
  | notEq => "!="
  | less => "<"
  | lessEq => "<="
  | greater => ">"
  | greaterEq => ">="
  | same => "is"
  | notSame => "is not"
  | member => "in"
  | notMember => "not in"

------------------------------------------------------------
-- Expressions
------------------------------------------------------------

/- A declared parameter, with its default. -/
structure Param (ε : Type) where
  name : Ident
  kind : ParamKind
  default : Option ε
  span : Span
  deriving Repr, Inhabited

/- A keyword argument, or an unpacked mapping if it has no name. -/
structure KeywordArg (ε : Type) where
  name : Option Ident
  value : ε
  span : Span
  deriving Repr, Inhabited

/- The shapes of expressions over children of type `ε`. -/
inductive ExprForm (ε : Type) where
  | int (value : Int)
  | float (value : Float)
  | str (value : String)
  | bool (value : Bool)
  | none
  | list (items : List ε)
  | tuple (items : List ε)
  | set (items : List ε)
  | dict (entries : List (ε × ε))
  | name (id : String)
  | attribute (object : ε) (attr : Ident)
  | subscript (object index : ε)
  | slice (lower upper step : Option ε)
  | call (callee : ε) (args : List ε) (keywords : List (KeywordArg ε))
  | starred (value : ε)
  | binary (left : ε) (op : BinaryOp) (right : ε)
  | unary (op : UnaryOp) (operand : ε)
  | boolean (op : BoolOp) (values : List ε)
  | compare (left : ε) (rest : List (CompareOp × ε))
  | conditional (test body orelse : ε)
  | lambda (params : List (Param ε)) (body : ε)
  deriving Repr, Inhabited

/- An expression: a span and a form over expressions. -/
inductive Expr where
  | mk (span : Span) (form : ExprForm Expr)
  deriving Repr

namespace Expr

instance : Inhabited Expr := ⟨.mk default .none⟩

/- Where an expression stands. -/
def span : Expr → Span
  | .mk span _ => span

/- The shape of an expression. -/
def form : Expr → ExprForm Expr
  | .mk _ form => form

/- An expression that appears in no text. -/
def synthetic (form : ExprForm Expr) : Expr :=
  .mk .synthetic form

@[simp] theorem span_mk (span : Span) (form : ExprForm Expr) :
    (Expr.mk span form).span = span := rfl

@[simp] theorem form_mk (span : Span) (form : ExprForm Expr) :
    (Expr.mk span form).form = form := rfl

end Expr

/- Whether an argument unpacks a sequence. -/
def Expr.isStarred (expr : Expr) : Bool :=
  match expr.form with
  | .starred _ => true
  | _ => false

/- Whether a call unpacks a sequence or a mapping. -/
def hasUnpacking (args : List Expr) (keywords : List (KeywordArg Expr)) : Bool :=
  args.any Expr.isStarred || keywords.any fun keyword => keyword.name.isNone

------------------------------------------------------------
-- Statements
------------------------------------------------------------

/- One imported name, with the name it is bound to. -/
structure Alias where
  name : String
  asName : Option Ident
  span : Span
  deriving DecidableEq, Repr, Inhabited

/- The shapes of statements over nested statements of type `σ`. -/
inductive StmtForm (σ : Type) where
  | expr (value : Expr)
  | assign (targets : List Expr) (value : Expr)
  | augAssign (target : Expr) (op : BinaryOp) (value : Expr)
  | functionDef (name : Ident) (params : List (Param Expr)) (body : List σ)
  | classDef (name : Ident) (bases : List Expr) (body : List σ)
  | ret (value : Option Expr)
  | branch (test : Expr) (body orelse : List σ)
  | whileLoop (test : Expr) (body orelse : List σ)
  | forLoop (target items : Expr) (body orelse : List σ)
  | importModules (names : List Alias)
  | importFrom (source : String) (names : List Alias)
  | raise (exception : Option Expr)
  | assert (test : Expr) (message : Option Expr)
  | pass
  | breakLoop
  | continueLoop
  deriving Repr, Inhabited

/- A statement: a span and a form over statements. -/
inductive Stmt where
  | mk (span : Span) (form : StmtForm Stmt)
  deriving Repr

namespace Stmt

instance : Inhabited Stmt := ⟨.mk default .pass⟩

/- Where a statement stands. -/
def span : Stmt → Span
  | .mk span _ => span

/- The shape of a statement. -/
def form : Stmt → StmtForm Stmt
  | .mk _ form => form

@[simp] theorem span_mk (span : Span) (form : StmtForm Stmt) :
    (Stmt.mk span form).span = span := rfl

@[simp] theorem form_mk (span : Span) (form : StmtForm Stmt) :
    (Stmt.mk span form).form = form := rfl

end Stmt

/- A parsed text: its statements from top to bottom. -/
structure Program where
  body : List Stmt
  span : Span
  deriving Repr, Inhabited

end SnippetGrader
