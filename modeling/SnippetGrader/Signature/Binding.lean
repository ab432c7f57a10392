import SnippetGrader.Signature.Basic

/-
  Binding the arguments of a call to the parameters of a
  signature.

  Positional arguments fill parameters from the left, keyword
  arguments fill the rest by name, and variadic parameters
  collect what is left over. Binding does not look at the
  arguments, so that it serves expressions and values alike.

  Key definitions include:
    * `BindError`
    * `Binding`, `BoundArguments`
    * `Signature.bind`
    * `BoundArguments.withDefaults`
-/

namespace SnippetGrader

------------------------------------------------------------
-- Errors
------------------------------------------------------------

/- Why arguments do not fit a signature. -/
inductive BindError where
  | missing (name : String)
  | unexpected (name : String)
  | positionalOnly (name : String)
  | surplus
  | duplicate (name : String)
  deriving DecidableEq, Repr, Inhabited

/- The coarse classes of binding errors. -/
inductive BindErrorKind where
  | missing
  | unexpected
  | surplus
  | duplicate
  deriving DecidableEq, Repr, Inhabited

namespace BindError

/- The class of an error. -/
def kind : BindError → BindErrorKind
  | missing _ => .missing
  | unexpected _ | positionalOnly _ => .unexpected
  | surplus => .surplus
  | duplicate _ => .duplicate

/- The parameter or keyword that an error is about. -/
def name? : BindError → Option String
  | missing name | unexpected name | positionalOnly name | duplicate name =>
      some name
  | surplus => none

/- The wording of an error. -/
def message : BindError → String
  | missing name => "missing a required argument: '" ++ name ++ "'"
  | unexpected name => "got an unexpected keyword argument '" ++ name ++ "'"
  | positionalOnly name =>
      "'" ++ name
        ++ "' parameter is positional only, but was passed as a keyword"
  | surplus => "too many positional arguments"
  | duplicate name => "multiple values for argument '" ++ name ++ "'"

end BindError

------------------------------------------------------------
-- Bindings
------------------------------------------------------------

/- What a parameter is bound to. -/
inductive Binding (α : Type) where
  | value (argument : α)
  | default
  | varPositional (arguments : List α)
  | varKeyword (arguments : List (String × α))
  deriving Repr, Inhabited

/- The parameters of a signature, each with its binding if it has one. -/
structure BoundArguments (α : Type) where
  slots : List (Parameter × Option (Binding α))
  deriving Repr, Inhabited

/- Keyword arguments in the order of a call. -/
abbrev Keywords (α : Type) := List (String × α)

namespace Keywords

variable {α : Type}

/- Whether a keyword is given. -/
def has (keywords : Keywords α) (name : String) : Bool :=
  keywords.any fun entry => entry.1 == name

/- Takes the first argument with a given name. -/
def take? (keywords : Keywords α) (name : String) : Option (α × Keywords α) :=
  (keywords.find? fun entry => entry.1 == name).map fun entry =>
    (entry.2, keywords.eraseP fun entry => entry.1 == name)

/- The first keyword that repeats an earlier one. -/
def repeated? : (seen : List String) → Keywords α → Option String
  | _, [] => none
  | seen, (name, _) :: rest =>
      if seen.contains name then some name else repeated? (name :: seen) rest

end Keywords

namespace Signature

variable {α : Type}

/- A list of parameters none of which is bound. -/
def unbound (params : List Parameter) : List (Parameter × Option (Binding α)) :=
  params.map fun param => (param, none)

/-
  Binds positional arguments from the left, until the arguments
  or the positional parameters end. The arguments that remain
  are returned.
-/
def bindPositional
    (keywords : Keywords α) :
    List Parameter →
    List α →
    Except BindError (List (Parameter × Option (Binding α)) × List α)
  | [], args => .ok ([], args)
  | param :: params, args =>
      match param.kind with
      | .varPositional =>
          .ok ((param, some (.varPositional args)) :: unbound params, [])
      | .keywordOnly | .varKeyword => .ok (unbound (param :: params), args)
      | .positionalOnly | .positionalOrKeyword =>
          match args with
          | [] => .ok (unbound (param :: params), [])
          | arg :: rest =>
              if param.kind == .positionalOrKeyword && keywords.has param.name then
                .error (.duplicate param.name)
              else
                match bindPositional keywords params rest with
                | .ok (slots, left) =>
                    .ok ((param, some (.value arg)) :: slots, left)
                | .error fault => .error fault

/-
  Binds the parameters that no positional argument reached, by
  name. A parameter that stays unbound must have a default or be
  variadic. The keywords that remain are returned.
-/
def bindKeywords
    (absorbs : Bool) :
    List (Parameter × Option (Binding α)) →
    Keywords α →
    Except BindError (List (Parameter × Option (Binding α)) × Keywords α)
  | [], keywords => .ok ([], keywords)
  | (param, some binding) :: slots, keywords =>
      match bindKeywords absorbs slots keywords with
      | .ok (bound, left) => .ok ((param, some binding) :: bound, left)
      | .error fault => .error fault
  | (param, none) :: slots, keywords =>
      match param.kind with
      | .varPositional | .varKeyword =>
          match bindKeywords absorbs slots keywords with
          | .ok (bound, left) => .ok ((param, none) :: bound, left)
          | .error fault => .error fault
      | .positionalOnly =>
          if !absorbs && keywords.has param.name then
            .error (.positionalOnly param.name)
          else if param.default.isNone then .error (.missing param.name)
          else
            match bindKeywords absorbs slots keywords with
            | .ok (bound, left) => .ok ((param, none) :: bound, left)
            | .error fault => .error fault
      | .positionalOrKeyword | .keywordOnly =>
          match keywords.take? param.name with
          | some (arg, rest) =>
              match bindKeywords absorbs slots rest with
              | .ok (bound, left) =>
                  .ok ((param, some (.value arg)) :: bound, left)
              | .error fault => .error fault
          | none =>
              if param.default.isNone then .error (.missing param.name)
              else
                match bindKeywords absorbs slots keywords with
                | .ok (bound, left) => .ok ((param, none) :: bound, left)
                | .error fault => .error fault

/- Gives leftover keywords to the first parameter that collects them. -/
def bindVarKeyword
    (keywords : Keywords α) :
    List (Parameter × Option (Binding α)) →
    List (Parameter × Option (Binding α))
  | [] => []
  | (param, binding) :: slots =>
      if param.kind == .varKeyword then
        (param, some (.varKeyword keywords)) :: slots
      else (param, binding) :: bindVarKeyword keywords slots

/- Binds the arguments of a call to the parameters of a signature. -/
def bind
    (signature : Signature)
    (positional : List α)
    (keywords : Keywords α) :
    Except BindError (BoundArguments α) :=
  match Keywords.repeated? [] keywords with
  | some name => .error (.duplicate name)
  | none =>
      match bindPositional keywords signature.params positional with
      | .error fault => .error fault
      | .ok (_, _ :: _) => .error .surplus
      | .ok (slots, []) =>
          match bindKeywords signature.hasVarKeyword slots keywords with
          | .error fault => .error fault
          | .ok (bound, []) => .ok ⟨bound⟩
          | .ok (bound, (name, arg) :: left) =>
              if signature.hasVarKeyword then
                .ok ⟨bindVarKeyword ((name, arg) :: left) bound⟩
              else .error (.unexpected name)

end Signature

------------------------------------------------------------
-- Bound Arguments
------------------------------------------------------------

namespace BoundArguments

variable {α : Type}

/- The binding of a parameter that no argument reached. -/
def defaultBinding (param : Parameter) : Option (Binding α) :=
  match param.kind with
  | .varPositional => some (.varPositional [])
  | .varKeyword => some (.varKeyword [])
  | _ => if param.default.isSome then some .default else none

/- Fills every unbound parameter that has something to fall back to. -/
def withDefaults (bound : BoundArguments α) : BoundArguments α :=
  ⟨bound.slots.map fun (param, binding) =>
    (param, binding.or (defaultBinding param))⟩

/- The bound parameters in declared order. -/
def entries (bound : BoundArguments α) : List (Parameter × Binding α) :=
  bound.slots.filterMap fun (param, binding) =>
    binding.map fun content => (param, content)

/-
  The expression that a binding stands for: leftover positional
  arguments form a tuple and leftover keywords a dictionary.
-/
def bindingExpr? (param : Parameter) : Binding Expr → Option Expr
  | .value expr => some expr
  | .default => param.default
  | .varPositional items => some (.synthetic (.tuple items))
  | .varKeyword pairs =>
      some
        (.synthetic
          (.dict (pairs.map fun (key, value) => (.synthetic (.str key), value))))

/- One expression for each bound parameter. -/
def exprs (bound : BoundArguments Expr) : List (String × Expr) :=
  bound.entries.filterMap fun (param, binding) =>
    (bindingExpr? param binding).map fun expr => (param.name, expr)

end BoundArguments

end SnippetGrader
