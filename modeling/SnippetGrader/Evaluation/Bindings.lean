/-
  Names bound to values, in the order in which they were first
  bound.

  Key definitions include:
    * `Bindings`
    * `Bindings.get?`, `Bindings.insert`, `Bindings.erase`
-/

namespace SnippetGrader

/- An ordered list of names with their values. -/
abbrev Bindings (α : Type) := List (String × α)

namespace Bindings

variable {α : Type}

/- The value of a name. -/
def get? (bindings : Bindings α) (name : String) : Option α :=
  (bindings.find? fun entry => entry.1 == name).map (·.2)

/- Whether a name is bound. -/
def has (bindings : Bindings α) (name : String) : Bool :=
  bindings.any fun entry => entry.1 == name

/-
  Binds a name. One that was bound keeps its place, and a new
  one goes last.
-/
def insert (name : String) (value : α) : Bindings α → Bindings α
  | [] => [(name, value)]
  | entry :: rest =>
      if entry.1 == name then (name, value) :: rest
      else entry :: insert name value rest

/- Removes a name. -/
def erase (bindings : Bindings α) (name : String) : Bindings α :=
  bindings.eraseP fun entry => entry.1 == name

/- The names in order. -/
def names (bindings : Bindings α) : List String :=
  bindings.map (·.1)

end Bindings

end SnippetGrader
