import Mathlib
import SnippetGrader.Signature.Basic

/-
  Signatures that a function may have.

  Parameters have different names and stand in the order of
  their kinds. So the parameters that positional arguments may
  reach come first.

  Key definitions include:
    * `ParamKind.MayPrecede`
    * `Signature.WellFormed`
    * `reachedBy`, `beyond`

  Key theorems include:
    * `reachedBy_append_beyond`
-/

namespace SnippetGrader

------------------------------------------------------------
-- Kinds
------------------------------------------------------------

/- The place of a kind in a parameter list. -/
def ParamKind.rank : ParamKind → Nat
  | .positionalOnly => 0
  | .positionalOrKeyword => 1
  | .varPositional => 2
  | .keywordOnly => 3
  | .varKeyword => 4

/- Kinds stand in a fixed order, and a variadic one only once. -/
def ParamKind.MayPrecede (first second : ParamKind) : Prop :=
  first.rank < second.rank ∨
    first = second ∧ first.isVariadic = false

instance (first second : ParamKind) :
    Decidable (first.MayPrecede second) := by
  unfold ParamKind.MayPrecede
  infer_instance

/- Whether a keyword argument may reach a parameter of this kind. -/
def ParamKind.isNamed : ParamKind → Bool
  | .positionalOrKeyword | .keywordOnly => true
  | _ => false

namespace ParamKind

theorem mayPrecede_varKeyword
    {kind : ParamKind}
    (hKind : kind ≠ .varKeyword) :
    kind.MayPrecede .varKeyword := by
  revert hKind
  cases kind <;> decide

theorem mayPrecede_keywordOnly
    {kind : ParamKind}
    (hKind : kind ≠ .varKeyword) :
    kind.MayPrecede .keywordOnly := by
  revert hKind
  cases kind <;> decide

theorem mayPrecede_varPositional
    {kind : ParamKind}
    (hKind : kind.isPositional = true) :
    kind.MayPrecede .varPositional := by
  revert hKind
  cases kind <;> decide

theorem mayPrecede_positionalOrKeyword
    {kind : ParamKind}
    (hKind : kind.isPositional = true) :
    kind.MayPrecede .positionalOrKeyword := by
  revert hKind
  cases kind <;> decide

/- Nothing that positions reach follows what they do not reach. -/
theorem MayPrecede.isPositional_eq_false
    {first second : ParamKind}
    (hPrecede : first.MayPrecede second)
    (hFirst : first.isPositional = false) :
    second.isPositional = false := by
  revert hPrecede hFirst
  cases first <;> cases second <;> decide

/- Nothing follows what collects keywords. -/
theorem not_varKeyword_mayPrecede
    (kind : ParamKind) :
    ¬ ParamKind.varKeyword.MayPrecede kind := by
  cases kind <;> decide

end ParamKind

------------------------------------------------------------
-- Well-Formed Signatures
------------------------------------------------------------

/- Different names, and kinds in order. -/
structure Signature.WellFormed (signature : Signature) : Prop where
  distinct : (signature.params.map (·.name)).Nodup
  ordered :
    (signature.params.map (·.kind)).Pairwise ParamKind.MayPrecede

instance (signature : Signature) :
    Decidable signature.WellFormed :=
  decidable_of_iff
    ((signature.params.map (·.name)).Nodup ∧
      (signature.params.map (·.kind)).Pairwise
        ParamKind.MayPrecede)
    ⟨fun ⟨hDistinct, hOrdered⟩ => ⟨hDistinct, hOrdered⟩,
      fun ⟨hDistinct, hOrdered⟩ => ⟨hDistinct, hOrdered⟩⟩

------------------------------------------------------------
-- Parameters that Positions Reach
------------------------------------------------------------

/- The parameters that positional arguments may reach. -/
def positionalOf (params : List Parameter) : List Parameter :=
  params.filter fun param => param.kind.isPositional

/- The parameters that a number of positional arguments reach. -/
def reachedBy (count : Nat) (params : List Parameter) : List Parameter :=
  (positionalOf params).take count

/- The parameters that a number of positional arguments leave. -/
def beyond (count : Nat) (params : List Parameter) : List Parameter :=
  (positionalOf params).drop count
    ++ params.filter fun param => !param.kind.isPositional

section Order

variable {param : Parameter}
variable {params : List Parameter}

theorem isPositional_eq_false_of_ordered
    (hOrdered :
      ((param :: params).map (·.kind)).Pairwise
        ParamKind.MayPrecede)
    (hKind : param.kind.isPositional = false) :
    ∀ later ∈ params, later.kind.isPositional = false := by
  intro later hLater
  have hPrecede :=
    (List.pairwise_cons.mp hOrdered).1 later.kind
      (List.mem_map_of_mem hLater)
  exact hPrecede.isPositional_eq_false hKind

@[simp] theorem positionalOf_cons_positional
    (hKind : param.kind.isPositional = true) :
    positionalOf (param :: params) =
      param :: positionalOf params := by
  simp [positionalOf, hKind]

/- Once positions end, they reach nothing more. -/
theorem positionalOf_eq_nil
    (hKinds :
      ∀ later ∈ params, later.kind.isPositional = false) :
    positionalOf params = [] := by
  simpa [positionalOf] using hKinds

theorem beyond_eq_self
    (count : Nat)
    (hKinds :
      ∀ later ∈ params, later.kind.isPositional = false) :
    beyond count params = params := by
  rw [beyond, positionalOf_eq_nil hKinds]
  simpa [List.filter_eq_self] using hKinds

theorem beyond_cons_positional
    (count : Nat)
    (hKind : param.kind.isPositional = true) :
    beyond (count + 1) (param :: params) =
      beyond count params := by
  simp [beyond, hKind]

/- The reached parameters come before the others. -/
theorem reachedBy_append_beyond
    (count : Nat)
    (hOrdered :
      (params.map (·.kind)).Pairwise ParamKind.MayPrecede) :
    reachedBy count params ++ beyond count params = params := by
  have hSplit :
      positionalOf params ++
          (params.filter fun param => !param.kind.isPositional) =
        params := by
    induction params with
    | nil => rfl
    | cons param params ih =>
        by_cases hKind : param.kind.isPositional = true
        · have hRest := ih (List.pairwise_cons.mp hOrdered).2
          simpa [hKind] using hRest
        · rw [Bool.not_eq_true] at hKind
          have hAll :
              ∀ later ∈ param :: params,
                later.kind.isPositional = false := by
            intro later hLater
            rcases List.mem_cons.mp hLater with rfl | hLater
            · exact hKind
            · exact isPositional_eq_false_of_ordered hOrdered hKind
                later hLater
          have hSelf := beyond_eq_self 0 hAll
          rw [beyond, positionalOf_eq_nil hAll] at hSelf
          rw [positionalOf_eq_nil hAll]
          exact hSelf
  rw [reachedBy, beyond, ← List.append_assoc,
    List.take_append_drop, hSplit]

end Order

end SnippetGrader
