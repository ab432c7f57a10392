import SnippetGrader.Proofs.Evaluation.Limits

/-
  What code leaves as it found it.

  Code runs in a scope, and the functions and classes in it run
  in scopes of their own. However it ends, it comes back to the
  scope and to the depth that it started in. An expression binds
  no name of a scope that was there before, and a statement only
  names of the innermost one.

  Key definitions include:
    * `Interpreter.SamePlace`, `Interpreter.Confines`
    * `Eval.Confined`
    * `Interpreter.Operation`

  Key theorems include:
    * `Evaluator.confined_levels`
    * `scope_and_depth_restored`
    * `only_innermost_scope_rebound`
-/

namespace SnippetGrader

------------------------------------------------------------
-- Scopes that Are Kept
------------------------------------------------------------

namespace Scopes

variable {α : Type}
variable (scopes : Scopes α)

theorem scope_add_of_lt
    (added : Scope α)
    {id : Nat}
    (hOld : id < scopes.all.size) :
    (scopes.add added).2.scope id = scopes.scope id := by
  unfold scope add
  rw [Array.getElem?_push_lt hOld, Array.getElem?_eq_getElem hOld]

@[simp]
theorem size_add
    (added : Scope α) :
    (scopes.add added).2.all.size = scopes.all.size + 1 :=
  Array.size_push added

theorem scope_define_of_ne
    {id target : Nat}
    (hOther : id ≠ target)
    (name : String)
    (value : α) :
    (scopes.define target name value).scope id = scopes.scope id := by
  unfold scope define update
  rw [Array.getElem?_modify, if_neg (Ne.symm hOther)]

@[simp]
theorem size_define
    (target : Nat)
    (name : String)
    (value : α) :
    (scopes.define target name value).all.size = scopes.all.size :=
  Array.size_modify ..

end Scopes

namespace Interpreter

/- The number of scopes of a run. -/
def scopeCount (interpreter : Interpreter) : Nat :=
  interpreter.store.scopes.all.size

/- A state whose code runs where that of another does. -/
structure SamePlace (last start : Interpreter) : Prop where
  scope : last.scope = start.scope
  depth : last.depth = start.depth
  globals : last.globals = start.globals

theorem SamePlace.trans
    {first second third : Interpreter}
    (hLater : third.SamePlace second)
    (hEarlier : second.SamePlace first) :
    third.SamePlace first :=
  ⟨hLater.scope.trans hEarlier.scope, hLater.depth.trans hEarlier.depth,
    hLater.globals.trans hEarlier.globals⟩

/-
  A state that code has reached from another: it is in the same
  place, and the scopes below a number are the same, except for
  the innermost one if names may be bound in it.
-/
structure Confines
    (base : Nat)
    (binds : Bool)
    (start last : Interpreter) :
    Prop where
  place : last.SamePlace start
  grows : start.scopeCount ≤ last.scopeCount
  keeps :
    ∀ id < base, (binds = true → id ≠ start.scope) →
      last.store.scopes.scope id = start.store.scopes.scope id

variable {base : Nat}
variable {binds : Bool}

theorem Confines.of_scopes_eq
    {start last : Interpreter}
    (hPlace : last.SamePlace start)
    (hScopes : last.store.scopes = start.store.scopes) :
    Confines base binds start last := by
  refine ⟨hPlace, ?_, ?_⟩
  · unfold scopeCount
    rw [hScopes]
  · intro id _ _
    rw [hScopes]

theorem Confines.trans
    {first second third : Interpreter}
    (hEarlier : Confines base binds first second)
    (hLater : Confines base binds second third) :
    Confines base binds first third := by
  refine ⟨hLater.place.trans hEarlier.place,
    hEarlier.grows.trans hLater.grows, ?_⟩
  intro id hOld hOther
  have hMiddle : binds = true → id ≠ second.scope := by
    rw [hEarlier.place.scope]
    exact hOther
  rw [hLater.keeps id hOld hMiddle, hEarlier.keeps id hOld hOther]

end Interpreter

------------------------------------------------------------
-- Confined Steps
------------------------------------------------------------

namespace Eval

open Interpreter

variable {α β : Type}
variable {base : Nat}
variable {binds : Bool}

/- A step that keeps its place and the scopes below a number. -/
def Confined (base : Nat) (binds : Bool) (action : Eval α) : Prop :=
  ∀ start : Interpreter,
    base ≤ start.scopeCount →
      Confines base binds start (after (action start))

namespace Confined

/- A step that binds no names may stand where one may bind some. -/
theorem weaken
    {action : Eval α}
    (hAction : Confined base false action) :
    Confined base binds action := by
  intro start hBase
  have hConfines := hAction start hBase
  exact ⟨hConfines.place, hConfines.grows,
    fun id hOld _ => hConfines.keeps id hOld nofun⟩

theorem bind
    {first : Eval α}
    {next : α → Eval β}
    (hFirst : Confined base binds first)
    (hNext : ∀ value, Confined base binds (next value)) :
    Confined base binds (first >>= next) := by
  intro start hBase
  have hBefore := hFirst start hBase
  change Confines base binds start (after (EStateM.bind first next start))
  unfold EStateM.bind
  generalize first start = result at hBefore
  cases result with
  | error fault last => exact hBefore
  | ok value middle =>
      exact hBefore.trans
        (hNext value middle (hBase.trans hBefore.grows))

theorem charge
    (units : Nat) :
    Confined base binds (charge units) := by
  intro start _
  unfold Eval.charge
  dsimp only
  split <;> exact .of_scopes_eq ⟨rfl, rfl, rfl⟩ rfl

theorem define
    (name : String)
    (value : Value) :
    Confined base true (define name value) := by
  intro start _
  refine ⟨⟨rfl, rfl, rfl⟩, (Scopes.size_define ..).ge, ?_⟩
  intro id _ hOther
  exact Scopes.scope_define_of_ne _ (hOther rfl) name value

/- A scope that is opened is none of those before. -/
theorem bind_openScope
    {next : Nat → Eval β}
    (hNext :
      ∀ scope, base ≤ scope → Confined base binds (next scope))
    (parent : Nat)
    (bindings : Bindings Value) :
    Confined base binds (openScope parent bindings >>= next) := by
  intro start hBase
  let opened : Interpreter := after (openScope parent bindings start)
  have hCount : opened.scopeCount = start.scopeCount + 1 :=
    Scopes.size_add ..
  have hOpened : Confines base binds start opened := by
    refine ⟨⟨rfl, rfl, rfl⟩, hCount ▸ Nat.le_succ _, ?_⟩
    intro id hOld _
    exact Scopes.scope_add_of_lt _ _ (hOld.trans_le hBase)
  have hRest :=
    hNext start.scopeCount hBase opened (hBase.trans hOpened.grows)
  exact hOpened.trans hRest

/- What code binds in a new scope is not seen from outside. -/
theorem inScope
    {scope : Nat}
    {action : Eval α}
    (hNew : base ≤ scope)
    (hAction : Confined base true action) :
    Confined base binds (inScope scope action) := by
  intro start hBase
  have hInner := hAction { start with scope } hBase
  have hLeft
      {last : Interpreter}
      (hLast : Confines base true { start with scope } last) :
      Confines base binds start { last with scope := start.scope } := by
    refine ⟨⟨rfl, hLast.place.depth, hLast.place.globals⟩,
      hLast.grows, ?_⟩
    intro id hOld _
    exact hLast.keeps id hOld fun _ => Nat.ne_of_lt (hOld.trans_le hNew)
  unfold Eval.inScope
  dsimp only
  generalize action { start with scope } = result at hInner
  cases result <;> exact hLeft hInner

theorem inCall
    {scope : Nat}
    {action : Eval α}
    (hNew : base ≤ scope)
    (hAction : Confined base true action) :
    Confined base binds (inCall scope action) := by
  intro start hBase
  have hInner :=
    @inScope α base binds scope action hNew hAction
      { start with depth := start.depth + 1 } hBase
  have hLeft
      {last : Interpreter}
      (hLast :
        Confines base binds { start with depth := start.depth + 1 } last) :
      Confines base binds start { last with depth := start.depth } :=
    ⟨⟨hLast.place.scope, rfl, hLast.place.globals⟩, hLast.grows,
      hLast.keeps⟩
  unfold Eval.inCall
  dsimp only
  split
  · exact .of_scopes_eq ⟨rfl, rfl, rfl⟩ rfl
  · generalize Eval.inScope scope action
      { start with depth := start.depth + 1 } = result at hInner
    cases result <;> exact hLeft hInner

end Confined

/- Confined steps, as a relation that expressions keep. -/
def confining (base : Nat) (binds : Bool) : Congruence where
  Relates action _ := Confined base binds action
  relates_pure _ _ _ := .of_scopes_eq ⟨rfl, rfl, rfl⟩ rfl
  relates_bind := Confined.bind
  relates_throw _ _ _ := .of_scopes_eq ⟨rfl, rfl, rfl⟩ rfl
  relates_reading _ _ _ := .of_scopes_eq ⟨rfl, rfl, rfl⟩ rfl
  relates_withHeap _ _ _ := .of_scopes_eq ⟨rfl, rfl, rfl⟩ rfl
  relates_write _ _ _ := .of_scopes_eq ⟨rfl, rfl, rfl⟩ rfl
  relates_charge := Confined.charge

theorem Confined.discard
    {action : Eval α}
    (hAction : Confined base binds action) :
    Confined base binds (discard action) :=
  @Congruence.relates_discard (confining base binds) α action action
    hAction

theorem Confined.mapM
    {step : α → Eval β}
    (hSteps : ∀ item, Confined base binds (step item))
    (items : List α) :
    Confined base binds (items.mapM step) :=
  @Congruence.relates_mapM (confining base binds) α β step step hSteps
    items

/- Steps that may bind names, as a relation that statements keep. -/
def confiningStmts (base : Nat) : StmtCongruence where
  toCongruence := confining base true
  relates_define := Confined.define
  relates_setClassAttr _ _ _ _ _ := .of_scopes_eq ⟨rfl, rfl, rfl⟩ rfl

end Eval

------------------------------------------------------------
-- Confined Code
------------------------------------------------------------

namespace Evaluator

open Eval Congruence StmtCongruence RunCongruence

/- An evaluator whose statements alone bind names where they run. -/
structure Confined (base : Nat) (inner : Evaluator) : Prop where
  expr : ∀ expr, Eval.Confined base false (inner.expr expr)
  stmt : ∀ stmt, Eval.Confined base true (inner.stmt stmt)
  call :
    ∀ callee args keywords,
      Eval.Confined base false (inner.call callee args keywords)

namespace Confined

variable {base : Nat}
variable {inner : Evaluator}
variable (hInner : inner.Confined base)

include hInner

theorem evalExpr
    (expr : Expr) :
    Eval.Confined base false (inner.evalExpr expr) :=
  @relates_evalExpr (confining base false) inner inner hInner.expr
    hInner.call expr

theorem block
    (body : List Stmt) :
    Eval.Confined base true (inner.block body) :=
  @relates_block (confiningStmts base) inner inner hInner.stmt body

theorem whileLoop
    (test : Expr)
    (body orelse : List Stmt)
    (fuel : Nat) :
    Eval.Confined base true (inner.whileLoop test body orelse fuel) := by
  induction fuel with
  | zero => exact fun _ _ => .of_scopes_eq ⟨rfl, rfl, rfl⟩ rfl
  | succ fuel ih =>
      refine (hInner.expr test).weaken.bind ?_
      intro value
      refine Eval.Confined.bind
        (@relates_isTruthy (confining base true) value) ?_
      rintro (_ | _)
      · exact hInner.block orelse
      · refine (hInner.block body).bind ?_
        rintro (_ | value | _ | _)
        · exact ih
        · exact (confining base true).relates_pure _
        · exact (confining base true).relates_pure _
        · exact ih

/- The body of a class binds names in a scope of its own. -/
theorem classDef
    (name : String)
    (bases : List Expr)
    (body : List Stmt) :
    Eval.Confined base true (inner.classDef name bases body) := by
  let relation := confiningStmts base
  have hExpr (expr : Expr) :
      relation.Relates (inner.expr expr) (inner.expr expr) :=
    (hInner.expr expr).weaken
  rw [classDef_eq]
  refine Eval.Confined.bind (relates_baseClasses hExpr bases) ?_
  intro addresses
  refine Eval.Confined.bind (relation.relates_reading _) ?_
  intro parent
  refine Eval.Confined.bind_openScope ?_ parent []
  intro scope hNew
  have hBody : Eval.Confined base true (inScope scope (inner.block body)) :=
    (hInner.block body).inScope hNew
  refine hBody.discard.bind ?_
  intro _
  refine Eval.Confined.bind (relation.relates_reading _) ?_
  intro attrs
  have hAdd :
      Eval.Confined base true (withHeap (·.addClass name addresses attrs)) :=
    fun _ _ => .of_scopes_eq ⟨rfl, rfl, rfl⟩ rfl
  refine hAdd.bind ?_
  intro address
  exact .define name (.type address)

theorem execStmt
    (fuel : Nat)
    (stmt : Stmt) :
    Eval.Confined base true (inner.execStmt fuel stmt) := by
  let relation := confiningStmts base
  have hExpr (expr : Expr) :
      relation.Relates (inner.expr expr) (inner.expr expr) :=
    (hInner.expr expr).weaken
  refine (Eval.Confined.charge 1).bind ?_
  intro _
  have hForm :
      relation.Relates (inner.execForm fuel stmt.form)
        (inner.execForm fuel stmt.form) :=
    relates_execForm hExpr hInner.stmt stmt.form
      (fun test body orelse _ => hInner.whileLoop test body orelse fuel)
      (fun name bases body _ => hInner.classDef name.name bases body)
  exact hForm

/- The body of a function binds names in a scope of its own. -/
theorem callFunction
    (function : FunctionObject)
    (args : List Value)
    (keywords : Keywords Value) :
    Eval.Confined base false (inner.callFunction function args keywords) := by
  let relation := confining base false
  refine Eval.Confined.bind
    (@relates_bindArguments relation _ _ _ _) ?_
  intro bound
  refine Eval.Confined.bind (.mapM ?_ bound) ?_
  · rintro ⟨param, binding⟩
    refine Eval.Confined.bind
      (relates_boundValue (relation.relates_pure _) binding) ?_
    exact fun value => relation.relates_pure _
  intro bindings
  refine Eval.Confined.bind_openScope ?_ _ _
  intro scope hNew
  refine Eval.Confined.inCall hNew ?_
  cases function.body with
  | block body =>
      refine (hInner.block body).bind ?_
      intro flow
      exact (confining base true).relates_pure _
  | expr body => exact (hInner.expr body).weaken

theorem callValue
    (callee : Value)
    (args : List Value)
    (keywords : Keywords Value) :
    Eval.Confined base false (inner.callValue callee args keywords) := by
  let relation := confining base false
  have hFunction
      (function : FunctionObject)
      (args : List Value)
      (keywords : Keywords Value) :
      relation.Relates (inner.callFunction function args keywords)
        (inner.callFunction function args keywords) :=
    hInner.callFunction function args keywords
  have hExpr (expr : Expr) :
      relation.Relates (inner.expr expr) (inner.expr expr) :=
    hInner.expr expr
  have hCall
      (callee : Value)
      (args : List Value)
      (keywords : Keywords Value) :
      relation.Relates (inner.call callee args keywords)
        (inner.call callee args keywords) :=
    hInner.call callee args keywords
  exact relates_callValue_of_function hExpr hCall hFunction callee args keywords

end Confined

/- Any number of levels is confined. -/
theorem confined_levels
    (base n : Nat) :
    (levels n).Confined base := by
  induction n with
  | zero =>
      exact
        ⟨fun _ _ _ => .of_scopes_eq ⟨rfl, rfl, rfl⟩ rfl,
          fun _ _ _ => .of_scopes_eq ⟨rfl, rfl, rfl⟩ rfl,
          fun _ _ _ _ _ => .of_scopes_eq ⟨rfl, rfl, rfl⟩ rfl⟩
  | succ n ih =>
      exact
        ⟨ih.evalExpr, ih.execStmt (n + 1), ih.callValue⟩

end Evaluator

------------------------------------------------------------
-- Sessions
------------------------------------------------------------

namespace Interpreter

open Eval Evaluator

/- What a session may do with an interpreter. -/
inductive Operation where
  | execPartial (program : Program)
  | lastValue (program : Program)
  | execSource (text : String)
  | evalExpr (expr : Expr)
  | call (callee : Value) (args : List Value) (keywords : Keywords Value)
  | getAttr (object : Value) (name : String)
  | refuel

/- The state after an operation, whether it failed or not. -/
def Operation.perform (interpreter : Interpreter) :
    Operation → Interpreter
  | .execPartial program => (interpreter.execPartial program).2
  | .lastValue program => (interpreter.lastValue program).2
  | .execSource text => (interpreter.execSource text).2
  | .evalExpr expr => (interpreter.evalExpr expr).2
  | .call callee args keywords =>
      (interpreter.call callee args keywords).2
  | .getAttr object name => (interpreter.getAttr object name).2
  | .refuel => interpreter.refuel

variable {base : Nat}
variable {binds : Bool}

theorem confines_run
    {α : Type}
    (interpreter : Interpreter)
    (hBase : base ≤ interpreter.scopeCount)
    (action : Evaluator → Eval α)
    (hAction : ∀ n, Eval.Confined base binds (action (levels n))) :
    Confines base binds interpreter (interpreter.run action).2 := by
  have hRun := hAction interpreter.levelCount interpreter hBase
  unfold run
  generalize action (.levels interpreter.levelCount) interpreter = result
    at hRun
  cases result <;> exact hRun

/- Statements are run one after another. -/
theorem agrees_confiningStmts
    (base n : Nat) :
    (confiningStmts base).Agrees (levels n) (levels n) where
  expr expr := ((confined_levels base n).expr expr).weaken
  stmt := (confined_levels base n).stmt
  call callee args keywords :=
    ((confined_levels base n).call callee args keywords).weaken

/- No operation binds names outside the innermost scope. -/
theorem confines_perform
    (interpreter : Interpreter)
    (hBase : base ≤ interpreter.scopeCount)
    (operation : Operation) :
    Confines base true interpreter (operation.perform interpreter) := by
  have hCode := agrees_confiningStmts base
  have hExec (program : Program) :
      Confines base true interpreter
        (interpreter.run (execStatements · program.body)).2 :=
    interpreter.confines_run hBase (execStatements · program.body)
      fun n => relates_execStatements (hCode n) program.body
  cases operation with
  | execPartial program =>
      change Confines base true interpreter
        (interpreter.execPartial program).2
      rw [execPartial_eq]
      exact hExec program
  | lastValue program =>
      exact interpreter.confines_run hBase
        (evalStatements · program.body)
        fun n => relates_evalStatements (hCode n) program.body
  | execSource text =>
      change Confines base true interpreter (interpreter.execSource text).2
      unfold execSource
      split
      · exact hExec _
      · exact .of_scopes_eq ⟨rfl, rfl, rfl⟩ rfl
  | evalExpr expr =>
      exact interpreter.confines_run hBase (·.expr expr)
        fun n => (hCode n).expr expr
  | call callee args keywords =>
      exact interpreter.confines_run hBase (·.call callee args keywords)
        fun n => (hCode n).call callee args keywords
  | getAttr object name =>
      exact interpreter.confines_run hBase
        (fun _ => Eval.getAttr object name)
        fun _ => @Congruence.relates_getAttr (confining base true) object name
  | refuel => exact .of_scopes_eq ⟨rfl, rfl, rfl⟩ rfl

theorem samePlace_foldl_perform
    (interpreter : Interpreter)
    (operations : List Operation) :
    (operations.foldl Operation.perform interpreter).SamePlace
      interpreter := by
  induction operations generalizing interpreter with
  | nil => exact ⟨rfl, rfl, rfl⟩
  | cons operation rest ih =>
      have hFirst :=
        confines_perform interpreter (Nat.zero_le _) operation
      exact (ih _).trans hFirst.place

/- All scopes that were there before are the same, except perhaps one. -/
def KeepsScopes
    (start : Interpreter)
    (except : Option Nat)
    (last : Interpreter) :
    Prop :=
  ∀ id < start.scopeCount, except ≠ some id →
    last.store.scopes.scope id = start.store.scopes.scope id

theorem Confines.keepsScopes
    {start last : Interpreter}
    (hConfines : Confines start.scopeCount false start last) :
    start.KeepsScopes none last :=
  fun id hOld _ => hConfines.keeps id hOld nofun

theorem Confines.keepsOtherScopes
    {start last : Interpreter}
    (hConfines : Confines start.scopeCount true start last) :
    start.KeepsScopes (some start.scope) last :=
  fun id hOld hOther =>
    hConfines.keeps id hOld fun _ hSame => hOther (congrArg some hSame.symm)

end Interpreter

open Interpreter Evaluator

/-
  Code comes back to the scope and the depth that it started in,
  whether it fails or not. So after any operations on a new
  interpreter, it is in the scope of the snippet again, and in
  no call.
-/
theorem scope_and_depth_restored :
    (∀ (n : Nat) (start : Interpreter),
      (∀ stmt, (Eval.after ((levels n).stmt stmt start)).SamePlace start) ∧
        (∀ expr, (Eval.after ((levels n).expr expr start)).SamePlace start) ∧
          ∀ callee args keywords,
            (Eval.after
              ((levels n).call callee args keywords start)).SamePlace
                start) ∧
      ∀ (limits : Limits) (store : Store) (operations : List Operation),
        let last :=
          operations.foldl Operation.perform (fresh limits store)
        last.scope = last.globals ∧ last.depth = 0 := by
  refine ⟨?_, ?_⟩
  · intro n start
    have hCode := confined_levels 0 n
    have hBase := Nat.zero_le start.scopeCount
    exact
      ⟨fun stmt => (hCode.stmt stmt start hBase).place,
        fun expr => (hCode.expr expr start hBase).place,
        fun callee args keywords =>
          (hCode.call callee args keywords start hBase).place⟩
  · intro limits store operations last
    have hPlace := samePlace_foldl_perform (fresh limits store) operations
    refine ⟨?_, hPlace.depth⟩
    rw [hPlace.scope, hPlace.globals]
    rfl

/-
  Expressions and calls bind no name of a scope that was there
  before them, and a statement binds names only in the innermost
  scope. The same holds of the operations of a session.
-/
theorem only_innermost_scope_rebound
    (start : Interpreter) :
    (∀ n expr,
      start.KeepsScopes none (Eval.after ((levels n).expr expr start))) ∧
      (∀ n callee args keywords,
        start.KeepsScopes none
          (Eval.after ((levels n).call callee args keywords start))) ∧
        (∀ n stmt,
          start.KeepsScopes (some start.scope)
            (Eval.after ((levels n).stmt stmt start))) ∧
          (∀ expr, start.KeepsScopes none (start.evalExpr expr).2) ∧
            (∀ callee args keywords,
              start.KeepsScopes none
                (start.call callee args keywords).2) ∧
              ∀ operation : Operation,
                start.KeepsScopes (some start.scope)
                  (operation.perform start) := by
  have hCode := confined_levels start.scopeCount
  refine ⟨?_, ?_, ?_, ?_, ?_, ?_⟩
  · intro n expr
    exact ((hCode n).expr expr start le_rfl).keepsScopes
  · intro n callee args keywords
    exact ((hCode n).call callee args keywords start le_rfl).keepsScopes
  · intro n stmt
    exact ((hCode n).stmt stmt start le_rfl).keepsOtherScopes
  · intro expr
    exact (start.confines_run le_rfl (·.expr expr)
      fun n => (hCode n).expr expr).keepsScopes
  · intro callee args keywords
    exact (start.confines_run le_rfl (·.call callee args keywords)
      fun n => (hCode n).call callee args keywords).keepsScopes
  · intro operation
    exact (confines_perform start le_rfl operation).keepsOtherScopes

end SnippetGrader
