import SnippetGrader.Signature.Basic

/-
  The routines that are there before a snippet defines anything.

  A routine with a signature gets one argument for each
  parameter; one without takes its arguments as they come. Two
  routines are the same value if they have the same name.

  Key definitions include:
    * `Builtin`
    * `Builtin.name`, `Builtin.signature?`
    * `Builtin.globals`
-/

namespace SnippetGrader

------------------------------------------------------------
-- Routines
------------------------------------------------------------

/- The functions of the module `math`. -/
inductive MathFunction where
  | sqrt
  | floor
  | ceil
  | exp
  | fabs
  | pow
  | log
  deriving DecidableEq, Repr, Inhabited

/- The methods of strings. -/
inductive StrMethod where
  | upper
  | lower
  | strip
  | split
  | join
  | replace
  | startsWith
  | endsWith
  deriving DecidableEq, Repr, Inhabited

/- The methods of lists. -/
inductive ListMethod where
  | append
  | extend
  | pop
  | insert
  | count
  | index
  | sort
  | reverse
  deriving DecidableEq, Repr, Inhabited

/- The methods of dicts. -/
inductive DictMethod where
  | get
  | keys
  | values
  | items
  deriving DecidableEq, Repr, Inhabited

/- All routines. -/
inductive Builtin where
  | len
  | sum
  | abs
  | round
  | sorted
  | enumerate
  | pow
  | divmod
  | repr
  | isinstance
  | print
  | max
  | min
  | range
  | zip
  | str
  | int
  | float
  | bool
  | list
  | tuple
  | dict
  | set
  | type
  | exceptionInit
  | math (function : MathFunction)
  | strMethod (method : StrMethod)
  | listMethod (method : ListMethod)
  | dictMethod (method : DictMethod)
  deriving DecidableEq, Repr, Inhabited

------------------------------------------------------------
-- Names
------------------------------------------------------------

/- The name of a function of `math`. -/
def MathFunction.name : MathFunction → String
  | sqrt => "sqrt"
  | floor => "floor"
  | ceil => "ceil"
  | exp => "exp"
  | fabs => "fabs"
  | pow => "pow"
  | log => "log"

/- All functions of `math`. -/
def MathFunction.all : List MathFunction :=
  [sqrt, floor, ceil, exp, fabs, pow, log]

/- The name of a method of strings. -/
def StrMethod.name : StrMethod → String
  | upper => "upper"
  | lower => "lower"
  | strip => "strip"
  | split => "split"
  | join => "join"
  | replace => "replace"
  | startsWith => "startswith"
  | endsWith => "endswith"

/- All methods of strings. -/
def StrMethod.all : List StrMethod :=
  [upper, lower, strip, split, join, replace, startsWith, endsWith]

/- The name of a method of lists. -/
def ListMethod.name : ListMethod → String
  | append => "append"
  | extend => "extend"
  | pop => "pop"
  | insert => "insert"
  | count => "count"
  | index => "index"
  | sort => "sort"
  | reverse => "reverse"

/- All methods of lists. -/
def ListMethod.all : List ListMethod :=
  [append, extend, pop, insert, count, index, sort, reverse]

/- The name of a method of dicts. -/
def DictMethod.name : DictMethod → String
  | get => "get"
  | keys => "keys"
  | values => "values"
  | items => "items"

/- All methods of dicts. -/
def DictMethod.all : List DictMethod :=
  [get, keys, values, items]

namespace Builtin

/- The name of a routine. Methods are named with the type they belong to. -/
def name : Builtin → String
  | len => "len"
  | sum => "sum"
  | abs => "abs"
  | round => "round"
  | sorted => "sorted"
  | enumerate => "enumerate"
  | pow => "pow"
  | divmod => "divmod"
  | repr => "repr"
  | isinstance => "isinstance"
  | print => "print"
  | max => "max"
  | min => "min"
  | range => "range"
  | zip => "zip"
  | str => "str"
  | int => "int"
  | float => "float"
  | bool => "bool"
  | list => "list"
  | tuple => "tuple"
  | dict => "dict"
  | set => "set"
  | type => "type"
  | exceptionInit => "__init__"
  | math function => function.name
  | strMethod method => "str." ++ method.name
  | listMethod method => "list." ++ method.name
  | dictMethod method => "dict." ++ method.name

/- The routines that every snippet sees under their names. -/
def globals : List Builtin :=
  [len, sum, abs, round, sorted, enumerate, pow, divmod, repr, isinstance,
   print, max, min, range, zip, str, int, float, bool, list, tuple, dict, set,
   type]

end Builtin

------------------------------------------------------------
-- Signatures
------------------------------------------------------------

namespace Parameter

/- A parameter that only a position reaches. -/
def positional (name : String) : Parameter :=
  ⟨name, .positionalOnly, none⟩

/- A parameter that a position or a keyword reaches. -/
def either (name : String) : Parameter :=
  ⟨name, .positionalOrKeyword, none⟩

/- A parameter that only a keyword reaches. -/
def keyword (name : String) : Parameter :=
  ⟨name, .keywordOnly, none⟩

/- The parameter with a default that appears in no text. -/
def orElse (param : Parameter) (form : ExprForm Expr) : Parameter :=
  { param with default := some (.synthetic form) }

end Parameter

open Parameter

/- The signature of a function of `math`. -/
def MathFunction.signature? : MathFunction → Option Signature
  | sqrt | floor | ceil | exp | fabs => some ⟨[positional "x"]⟩
  | pow => some ⟨[positional "x", positional "y"]⟩
  | log => none

/- The signature of a method of strings, with its receiver. -/
def StrMethod.signature? : StrMethod → Option Signature
  | upper | lower => some ⟨[positional "self"]⟩
  | strip => some ⟨[positional "self", (positional "chars").orElse .none]⟩
  | split =>
      some
        ⟨[positional "self", (either "sep").orElse .none,
          (either "maxsplit").orElse (.int (-1))]⟩
  | join => some ⟨[positional "self", positional "iterable"]⟩
  | replace =>
      some
        ⟨[positional "self", positional "old", positional "new",
          (positional "count").orElse (.int (-1))]⟩
  | startsWith | endsWith => none

/- The signature of a method of lists, with its receiver. -/
def ListMethod.signature? : ListMethod → Option Signature
  | append => some ⟨[positional "self", positional "object"]⟩
  | extend => some ⟨[positional "self", positional "iterable"]⟩
  | pop => some ⟨[positional "self", (positional "index").orElse (.int (-1))]⟩
  | insert => some ⟨[positional "self", positional "index", positional "object"]⟩
  | count => some ⟨[positional "self", positional "value"]⟩
  | index => none
  | sort =>
      some
        ⟨[positional "self", (keyword "key").orElse .none,
          (keyword "reverse").orElse (.bool false)]⟩
  | reverse => some ⟨[positional "self"]⟩

/- The signature of a method of dicts, with its receiver. -/
def DictMethod.signature? : DictMethod → Option Signature
  | get =>
      some
        ⟨[positional "self", positional "key",
          (positional "default").orElse .none]⟩
  | keys | values | items => none

/- The signature of a routine, if it has one. -/
def Builtin.signature? : Builtin → Option Signature
  | len | repr => some ⟨[positional "obj"]⟩
  | sum => some ⟨[positional "iterable", (either "start").orElse (.int 0)]⟩
  | abs => some ⟨[positional "x"]⟩
  | round => some ⟨[either "number", (either "ndigits").orElse .none]⟩
  | sorted =>
      some
        ⟨[positional "iterable", (keyword "key").orElse .none,
          (keyword "reverse").orElse (.bool false)]⟩
  | enumerate => some ⟨[either "iterable", (either "start").orElse (.int 0)]⟩
  | pow => some ⟨[either "base", either "exp", (either "mod").orElse .none]⟩
  | divmod => some ⟨[positional "x", positional "y"]⟩
  | isinstance => some ⟨[positional "obj", positional "class_or_tuple"]⟩
  | math function => function.signature?
  | strMethod method => method.signature?
  | listMethod method => method.signature?
  | dictMethod method => method.signature?
  | print | max | min | range | zip | str | int | float | bool | list | tuple
  | dict | set | type | exceptionInit => none

end SnippetGrader
