import SnippetGrader.Evaluation.Bindings
import SnippetGrader.Text.Hidden

/-
  Scopes that fall back to the scope they were opened in.

  All scopes of a run are kept, because a function remembers the
  scope it was defined in after that scope was left. A scope is
  known by its number, and its parent has a smaller one.

  Key definitions include:
    * `Scope`, `Scopes`
    * `Scopes.root`, `Scopes.child`
    * `Scopes.get?`, `Scopes.define`, `Scopes.remove`
    * `Scopes.summary`
-/

namespace SnippetGrader

/- The names of a scope, and the scope around it. -/
structure Scope (α : Type) where
  bindings : Bindings α := []
  parent : Option Nat := none
  deriving Inhabited

/- All scopes of a run. -/
structure Scopes (α : Type) where
  all : Array (Scope α) := #[]
  deriving Inhabited

namespace Scopes

variable {α : Type}

/- The scope with a given number. -/
def scope (scopes : Scopes α) (id : Nat) : Scope α :=
  scopes.all[id]?.getD {}

/- Adds a scope. It gets the next free number. -/
def add (scopes : Scopes α) (scope : Scope α) : Nat × Scopes α :=
  (scopes.all.size, ⟨scopes.all.push scope⟩)

/- Adds a scope that falls back to none. -/
def root (scopes : Scopes α) : Nat × Scopes α :=
  scopes.add {}

/- Adds a scope that falls back to a given one. -/
def child (scopes : Scopes α) (parent : Nat) : Nat × Scopes α :=
  scopes.add { parent := some parent }

/- The names of a scope, without those around it. -/
def locals (scopes : Scopes α) (id : Nat) : Bindings α :=
  (scopes.scope id).bindings

/- Looks a name up through a number of scopes from the inside out. -/
def lookup (scopes : Scopes α) (name : String) : (steps : Nat) → (id : Nat) → Option α
  | 0, _ => none
  | steps + 1, id =>
      match (scopes.scope id).bindings.get? name with
      | some value => some value
      | none =>
          match (scopes.scope id).parent with
          | some parent => lookup scopes name steps parent
          | none => none

/-
  The value of a name in the innermost scope that binds it. A
  scope has at most as many scopes around it as its number says.
-/
def get? (scopes : Scopes α) (id : Nat) (name : String) : Option α :=
  scopes.lookup name (id + 1) id

/- Changes the names of one scope. -/
def update
    (scopes : Scopes α)
    (id : Nat)
    (change : Bindings α → Bindings α) :
    Scopes α :=
  ⟨scopes.all.modify id fun scope =>
    { scope with bindings := change scope.bindings }⟩

/- Binds a name in one scope. -/
def define (scopes : Scopes α) (id : Nat) (name : String) (value : α) : Scopes α :=
  scopes.update id (Bindings.insert name value)

/- Removes a name from one scope. -/
def remove (scopes : Scopes α) (id : Nat) (name : String) : Scopes α :=
  scopes.update id (·.erase name)

/- Whether a scope itself binds a name. -/
def hasLocal (scopes : Scopes α) (id : Nat) (name : String) : Bool :=
  (scopes.locals id).has name

/- Whether a scope falls back to another. -/
def hasParent (scopes : Scopes α) (id : Nat) : Bool :=
  (scopes.scope id).parent.isSome

/- A scope on one line: its names, and whether it has a parent. -/
def summary (scopes : Scopes α) (id : Nat) : String :=
  let names := (scopes.locals id).names.map Text.spelledOut
  "Environment \x7b names: [" ++ ", ".intercalate names
    ++ "], has_parent: " ++ toString (scopes.hasParent id) ++ " \x7d"

end Scopes

end SnippetGrader
