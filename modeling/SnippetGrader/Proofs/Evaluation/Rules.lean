import SnippetGrader.Evaluation.Session
import SnippetGrader.Proofs.Evaluation.Routines

/-
  Relations between runs that the rules of evaluation keep.

  Each rule is written over the rules for inner code. If inner
  code keeps a relation under two evaluators, then so does the
  code around it. The rules that open a scope, make a class or
  repeat a loop ask more of a relation than a step on the store
  does, and say here what they ask.

  Key definitions include:
    * `Eval.StmtCongruence`, `Eval.RunCongruence`, `Eval.LevelCongruence`
    * `Eval.Congruence.Agrees`

  Key theorems include:
    * `Eval.Congruence.relates_evalForm`
    * `Eval.StmtCongruence.relates_execForm`
    * `Eval.RunCongruence.relates_callValue`
    * `Eval.LevelCongruence.agrees_levels`
    * `Interpreter.relates_execStatements`
-/

namespace SnippetGrader.Eval

open Evaluator

------------------------------------------------------------
-- Expressions
------------------------------------------------------------

namespace Congruence

variable {relation : Congruence}
variable {inner other : Evaluator}

section Operands

variable (hExpr : ∀ expr, relation.Relates (inner.expr expr) (other.expr expr))

include hExpr

theorem relates_elements
    (found : Array Value)
    (items : List Expr) :
    relation.Relates (inner.elements found items)
      (other.elements found items) := by
  induction items generalizing found with
  | nil => exact relation.relates_pure _
  | cons first rest ih =>
      obtain ⟨span, form⟩ := first
      cases form with
      | starred items =>
          refine relation.relates_bind (hExpr items) fun value => ?_
          exact relation.relates_bind (relates_iterate value) fun values =>
            ih (found ++ values)
      | _ =>
          exact relation.relates_bind (hExpr _) fun value =>
            ih (found.push value)

theorem relates_entries
    (found : Array (Value × Value))
    (pairs : List (Expr × Expr)) :
    relation.Relates (inner.entries found pairs)
      (other.entries found pairs) := by
  induction pairs generalizing found with
  | nil => exact relation.relates_pure _
  | cons first rest ih =>
      refine relation.relates_bind (hExpr first.1) fun key => ?_
      refine relation.relates_bind (hExpr first.2) fun value => ?_
      exact relation.relates_bind (relates_addEntry found key value) ih

theorem relates_decided
    (op : BoolOp)
    (last : Value)
    (operands : List Expr) :
    relation.Relates (inner.decided op last operands)
      (other.decided op last operands) := by
  induction operands generalizing last with
  | nil => exact relation.relates_pure _
  | cons first rest ih =>
      refine relation.relates_bind (hExpr first) fun value => ?_
      refine relation.relates_bind (relates_isTruthy value) fun truth => ?_
      cases op <;> cases truth <;>
        first | exact ih value | exact relation.relates_pure value

theorem relates_chain
    (left : Value)
    (rest : List (CompareOp × Expr)) :
    relation.Relates (inner.chain left rest)
      (other.chain left rest) := by
  induction rest generalizing left with
  | nil => exact relation.relates_pure _
  | cons next rest ih =>
      refine relation.relates_bind (hExpr next.2) fun right => ?_
      refine relation.relates_bind (relates_compareBy next.1 left right)
        fun holds => ?_
      exact relates_ite (ih right) (relation.relates_pure _)

theorem relates_sliceBound
    (bound : Option Expr) :
    relation.Relates (inner.sliceBound bound)
      (other.sliceBound bound) := by
  cases bound with
  | none => exact relation.relates_pure _
  | some expr =>
      refine relation.relates_bind (hExpr expr) fun value => ?_
      cases value with
      | none | int _ | bool _ => exact relation.relates_pure _
      | _ => exact relates_mistyped _ _

theorem relates_slice
    (object : Value)
    (lower upper step : Option Expr) :
    relation.Relates (inner.slice object lower upper step)
      (other.slice object lower upper step) := by
  have hBound := relates_sliceBound hExpr
  refine relation.relates_bind (hBound lower) fun first => ?_
  refine relation.relates_bind (hBound upper) fun last => ?_
  refine relation.relates_bind (hBound step) fun stride => ?_
  exact relates_ite (relates_valueFault _) (relates_getSlice object _ _ _)

theorem relates_subscript
    (object : Value)
    (index : Expr) :
    relation.Relates (inner.subscript object index)
      (other.subscript object index) := by
  have hSlice := relates_slice hExpr
  obtain ⟨span, form⟩ := index
  cases form with
  | slice lower upper step => exact hSlice object lower upper step
  | _ => exact relation.relates_bind (hExpr _) (relates_getItem object)

omit hExpr in
theorem relates_unpackedKeywords
    (pairs : List (Value × Value)) :
    relation.Relates (unpackedKeywords pairs)
      (unpackedKeywords pairs) := by
  induction pairs with
  | nil => exact relation.relates_pure []
  | cons pair rest ih =>
      obtain ⟨key, value⟩ := pair
      cases key with
      | str key =>
          exact relation.relates_bind ih fun _ => relation.relates_pure _
      | _ => exact relates_typeFault _

theorem relates_keywordValues
    (found : Keywords Value)
    (keywords : List (KeywordArg Expr)) :
    relation.Relates (inner.keywordValues found keywords)
      (other.keywordValues found keywords) := by
  induction keywords generalizing found with
  | nil => exact relation.relates_pure _
  | cons first rest ih =>
      obtain ⟨name, expr, span⟩ := first
      refine relation.relates_bind (hExpr expr) fun value => ?_
      cases name with
      | some name => exact ih (found ++ [(name.name, value)])
      | none =>
          cases value with
          | dict address =>
              refine relation.relates_bind (relates_onHeap _) fun pairs => ?_
              exact relation.relates_bind (relates_unpackedKeywords pairs)
                fun unpacked => ih (found ++ unpacked)
          | _ => exact relates_mistyped _ _

theorem relates_defaults
    (found : Bindings Value)
    (params : List (Param Expr)) :
    relation.Relates (inner.defaults found params)
      (other.defaults found params) := by
  induction params generalizing found with
  | nil => exact relation.relates_pure _
  | cons first rest ih =>
      obtain ⟨name, kind, default, span⟩ := first
      cases default with
      | none => exact ih found
      | some default =>
          exact relation.relates_bind (hExpr default) fun value =>
            ih (found.insert name.name value)

theorem relates_makeFunction
    (name : String)
    (params : List (Param Expr))
    (body : FunctionBody) :
    relation.Relates (inner.makeFunction name params body)
      (other.makeFunction name params body) := by
  refine relation.relates_bind (relates_defaults hExpr [] params) ?_
  intro defaults
  have hAdded (scope : Nat) :
      relation.Relates
        (withHeap
          (·.addFunction ⟨name, .ofParams params, defaults, body, scope⟩))
        (withHeap
          (·.addFunction ⟨name, .ofParams params, defaults, body, scope⟩)) :=
    relation.relates_withHeap (·.steady_addFunction _)
  have hMade :=
    relation.relates_bind
      (relation.relates_reading fun _ _ scope => scope) hAdded
  exact hMade

/- A form of expression keeps a relation that its parts keep. -/
theorem relates_evalForm
    (hCall :
      ∀ callee args keywords,
        relation.Relates (inner.call callee args keywords)
          (other.call callee args keywords))
    (form : ExprForm Expr) :
    relation.Relates (inner.evalForm form) (other.evalForm form) := by
  have hElements := relates_elements hExpr
  have hEntries := relates_entries hExpr
  have hDecided := relates_decided hExpr
  have hChain := relates_chain hExpr
  have hSubscript := relates_subscript hExpr
  have hKeywords := relates_keywordValues hExpr
  have hFunction := relates_makeFunction hExpr
  cases form with
  | int _ | float _ | str _ | bool _ | none =>
      exact relation.relates_pure _
  | list items =>
      exact relation.relates_bind (hElements #[] items) relates_newList
  | tuple items =>
      exact relation.relates_bind (hElements #[] items) relates_newTuple
  | set items =>
      exact relation.relates_bind (hElements #[] items) relates_newSet
  | dict entries =>
      exact relation.relates_bind (hEntries #[] entries) relates_newDict
  | name id => exact relates_lookupName id
  | «attribute» object attr =>
      exact relation.relates_bind (hExpr object) fun value =>
        relates_getAttr value attr.name
  | subscript object index =>
      exact relation.relates_bind (hExpr object) fun value =>
        hSubscript value index
  | slice _ _ _ | starred _ => exact relation.relates_throw nofun
  | call callee args keywords =>
      refine relation.relates_bind (hExpr callee) fun function => ?_
      refine relation.relates_bind (hElements #[] args) fun values => ?_
      exact relation.relates_bind (hKeywords [] keywords) fun named =>
        hCall function values.toList named
  | binary left op right =>
      refine relation.relates_bind (hExpr left) fun first => ?_
      exact relation.relates_bind (hExpr right) (relates_binary op first)
  | unary op operand =>
      exact relation.relates_bind (hExpr operand) (relates_unary op)
  | boolean op values => exact hDecided op .none values
  | compare left rest =>
      exact relation.relates_bind (hExpr left) fun value =>
        hChain value rest
  | conditional test body orelse =>
      refine relation.relates_bind (hExpr test) fun value => ?_
      exact relation.relates_bind (relates_isTruthy value) fun _ =>
        relates_ite (hExpr body) (hExpr orelse)
  | lambda params body => exact hFunction "<lambda>" params (.expr body)

theorem relates_evalExpr
    (hCall :
      ∀ callee args keywords,
        relation.Relates (inner.call callee args keywords)
          (other.call callee args keywords))
    (expr : Expr) :
    relation.Relates (inner.evalExpr expr) (other.evalExpr expr) :=
  relation.relates_bind (relation.relates_charge 1) fun _ =>
    relates_evalForm hExpr hCall expr.form

end Operands

end Congruence

------------------------------------------------------------
-- Statements
------------------------------------------------------------

/-
  A relation that is also kept by binding a name in the innermost
  scope and by giving a class an attribute.
-/
structure StmtCongruence extends Congruence where
  relates_define (name : String) (value : Value) :
    Relates (define name value) (define name value)
  relates_setClassAttr (address : Nat) (name : String) (value : Value) :
    Relates (updateHeap (·.setClassAttr address name value))
      (updateHeap (·.setClassAttr address name value))

namespace StmtCongruence

open Congruence

variable {relation : StmtCongruence}
variable {inner other : Evaluator}

theorem relates_setAttr
    (object : Value)
    (name : String)
    (value : Value) :
    relation.Relates (setAttr object name value)
      (setAttr object name value) := by
  cases object with
  | object address =>
      exact relates_updateHeap (·.steady_setInstanceAttr address name value)
  | type address => exact relation.relates_setClassAttr address name value
  | _ => exact relates_noAttr _ name

theorem relates_distribute
    (star : Option Nat)
    (targets : Nat)
    (items : List Value) :
    relation.Relates (distribute star targets items)
      (distribute star targets items) := by
  cases star with
  | none =>
      refine relates_ite (relates_valueFault _) ?_
      exact relates_ite (relates_valueFault _) (relation.relates_pure _)
  | some place =>
      refine relates_ite (relates_valueFault _) ?_
      exact relation.relates_bind (relates_newList _) fun _ =>
        relation.relates_pure _

theorem relates_augmented
    (op : BinaryOp)
    (current operand : Value) :
    relation.Relates (augmented op current operand)
      (augmented op current operand) := by
  have hBinary :
      relation.Relates (binary op current operand)
        (binary op current operand) :=
    relates_binary op current operand
  cases op with
  | add =>
      cases current with
      | list address =>
          refine relation.relates_bind (relates_iterate operand)
            fun items => ?_
          exact relation.relates_bind (relates_extendList address items)
            fun _ => relation.relates_pure _
      | _ => exact hBinary
  | _ => exact hBinary

theorem relates_importModules
    (names : List Alias) :
    relation.Relates (importModules names) (importModules names) := by
  induction names with
  | nil => exact relation.relates_pure ()
  | cons entry rest ih =>
      have hBound (source name : String) :
          relation.Relates
            (importModule source >>= fun value =>
              define name value >>= fun _ => importModules rest)
            (importModule source >>= fun value =>
              define name value >>= fun _ => importModules rest) :=
        relation.relates_bind (relates_importModule source) fun value =>
          relation.relates_bind (relation.relates_define name value)
            fun _ => ih
      unfold importModules
      cases entry.asName with
      | some asName => exact hBound entry.name asName.name
      | none => exact hBound (topName entry.name) (topName entry.name)

theorem relates_importNames
    (sourceName : String)
    (source : Value)
    (names : List Alias) :
    relation.Relates (importNames sourceName source names)
      (importNames sourceName source names) := by
  induction names with
  | nil => exact relation.relates_pure ()
  | cons entry rest ih =>
      refine relation.relates_bind (relates_onHeap _) fun found => ?_
      cases found with
      | some value =>
          exact relation.relates_bind (relation.relates_define _ value)
            fun _ => ih
      | none => exact relation.relates_throw nofun

section Parts

variable (hExpr : ∀ expr, relation.Relates (inner.expr expr) (other.expr expr))

include hExpr

theorem relates_assign
    (target : Expr)
    (value : Value) :
    relation.Relates (inner.assign target value)
      (other.assign target value) := by
  refine assign.induct
    (fun target value =>
      relation.Relates (inner.assign target value)
        (other.assign target value))
    (fun star targets values =>
      relation.Relates (inner.assignEach star targets values)
        (other.assignEach star targets values))
    ?_ ?_ ?_ ?_ ?_ ?_ ?_ ?_ ?_ target value
  · intro _ id value
    exact relation.relates_define id value
  · intro _ object attr value
    exact relation.relates_bind (hExpr object) fun found =>
      relates_setAttr found attr.name value
  · intro _ object index value
    refine relation.relates_bind (hExpr object) fun found => ?_
    exact relation.relates_bind (hExpr index) fun place =>
      relates_setItem found place value
  · intro _ targets value star ih
    refine relation.relates_bind (relates_iterate value) fun items => ?_
    exact relation.relates_bind
      (relates_distribute star targets.length items.toList) ih
  · intro _ targets value star ih
    refine relation.relates_bind (relates_iterate value) fun items => ?_
    exact relation.relates_bind
      (relates_distribute star targets.length items.toList) ih
  · intro _ form _ hName hAttribute hSubscript hTuple hList
    cases form with
    | name id => exact (hName id rfl).elim
    | «attribute» object attr => exact (hAttribute object attr rfl).elim
    | subscript object index => exact (hSubscript object index rfl).elim
    | tuple targets => exact (hTuple targets rfl).elim
    | list targets => exact (hList targets rfl).elim
    | _ => exact relation.relates_throw nofun
  · intro _ target targets value values hTarget hRest
    exact relation.relates_bind hTarget fun _ => hRest
  · intro star target targets value values hPlain hTarget hRest
    rcases star with _ | _ | place
    · exact relation.relates_bind hTarget fun _ => hRest
    · obtain ⟨span, form⟩ := target
      cases form with
      | starred target => exact (hPlain span target rfl rfl).elim
      | _ => exact relation.relates_bind hTarget fun _ => hRest
    · exact relation.relates_bind hTarget fun _ => hRest
  · -- One of the two lists has ended.
    intro targets star values hEnd _
    cases targets with
    | nil => rcases star with _ | _ | _ <;> exact relation.relates_pure ()
    | cons target targets =>
        cases values with
        | nil =>
            obtain ⟨span, form⟩ := target
            rcases star with _ | _ | _ <;> cases form <;>
              exact relation.relates_pure ()
        | cons value values => exact (hEnd _ _ _ _ rfl rfl).elim

theorem relates_augAssign
    (op : BinaryOp)
    (operand target : Expr) :
    relation.Relates (inner.augAssign op operand target)
      (other.augAssign op operand target) := by
  obtain ⟨span, form⟩ := target
  cases form with
  | name id =>
      refine relation.relates_bind (relates_lookupName id) fun current => ?_
      refine relation.relates_bind (hExpr operand) fun value => ?_
      exact relation.relates_bind (relates_augmented op current value)
        (relation.relates_define id)
  | «attribute» object attr =>
      refine relation.relates_bind (hExpr object) fun found => ?_
      refine relation.relates_bind (relates_getAttr found attr.name)
        fun current => ?_
      refine relation.relates_bind (hExpr operand) fun value => ?_
      exact relation.relates_bind (relates_augmented op current value)
        (relates_setAttr found attr.name)
  | subscript object index =>
      refine relation.relates_bind (hExpr object) fun found => ?_
      refine relation.relates_bind (hExpr index) fun place => ?_
      refine relation.relates_bind (relates_getItem found place)
        fun current => ?_
      refine relation.relates_bind (hExpr operand) fun value => ?_
      exact relation.relates_bind (relates_augmented op current value)
        (relates_setItem found place)
  | _ => exact relation.relates_throw nofun

theorem relates_baseClasses
    (bases : List Expr) :
    relation.Relates (inner.baseClasses bases)
      (other.baseClasses bases) := by
  induction bases with
  | nil => exact relation.relates_pure []
  | cons base rest ih =>
      refine relation.relates_bind (hExpr base) fun value => ?_
      cases value with
      | type address =>
          exact relation.relates_bind ih fun _ => relation.relates_pure _
      | _ => exact relates_mistyped _ _

variable (hStmt : ∀ stmt, relation.Relates (inner.stmt stmt) (other.stmt stmt))

include hStmt

omit hExpr in
theorem relates_block
    (body : List Stmt) :
    relation.Relates (inner.block body) (other.block body) := by
  induction body with
  | nil => exact relation.relates_pure Flow.next
  | cons stmt rest ih =>
      refine relation.relates_bind (hStmt stmt) fun flow => ?_
      cases flow with
      | next => exact ih
      | _ => exact relation.relates_pure _

theorem relates_forLoop
    (target : Expr)
    (body orelse : List Stmt)
    (items : List Value) :
    relation.Relates (inner.forLoop target body orelse items)
      (other.forLoop target body orelse items) := by
  have hAssign := relates_assign hExpr
  have hBlock := relates_block hStmt
  induction items with
  | nil => exact hBlock orelse
  | cons item rest ih =>
      refine relation.relates_bind (hAssign target item) fun _ => ?_
      refine relation.relates_bind (hBlock body) fun flow => ?_
      cases flow with
      | next | continueLoop => exact ih
      | breakLoop | ret _ => exact relation.relates_pure _

/-
  A form of statement keeps a relation that its parts keep. Of a
  loop with a condition and of a class this is asked as it is.
-/
theorem relates_execForm
    {fuel otherFuel : Nat}
    (form : StmtForm Stmt)
    (hWhile :
      ∀ test body orelse,
        form = .whileLoop test body orelse →
          relation.Relates (inner.whileLoop test body orelse fuel)
            (other.whileLoop test body orelse otherFuel))
    (hClass :
      ∀ name bases body,
        form = .classDef name bases body →
          relation.Relates (inner.classDef name.name bases body)
            (other.classDef name.name bases body)) :
    relation.Relates (inner.execForm fuel form)
      (other.execForm otherFuel form) := by
  have hAssign := relates_assign hExpr
  have hAugAssign := relates_augAssign hExpr
  have hFunction := relates_makeFunction hExpr
  have hBlock := relates_block hStmt
  have hFor := relates_forLoop hExpr hStmt
  have hNext : relation.Relates (pure Flow.next) (pure Flow.next) :=
    relation.relates_pure _
  have hDone {first second : Eval Unit}
      (hSteps : relation.Relates first second) :
      relation.Relates (first >>= fun _ => pure Flow.next)
        (second >>= fun _ => pure Flow.next) :=
    relation.relates_bind hSteps fun _ => hNext
  cases form with
  | expr value => exact hDone (relates_discard (hExpr value))
  | assign targets value =>
      refine relation.relates_bind (hExpr value) fun result => ?_
      exact hDone
        (relates_forM (fun target => hAssign target result) targets)
  | augAssign target op value => exact hDone (hAugAssign op value target)
  | functionDef name params body =>
      exact relation.relates_bind (hFunction name.name params (.block body))
        fun value => hDone (relation.relates_define name.name value)
  | classDef name bases body => exact hDone (hClass name bases body rfl)
  | ret value =>
      cases value with
      | none => exact relation.relates_pure _
      | some value =>
          exact relation.relates_bind (hExpr value) fun _ =>
            relation.relates_pure _
  | branch test body orelse =>
      refine relation.relates_bind (hExpr test) fun value => ?_
      exact relation.relates_bind (relates_isTruthy value) fun _ =>
        relates_ite (hBlock body) (hBlock orelse)
  | whileLoop test body orelse => exact hWhile test body orelse rfl
  | forLoop target items body orelse =>
      refine relation.relates_bind (hExpr items) fun value => ?_
      exact relation.relates_bind (relates_iterate value) fun found =>
        hFor target body orelse found.toList
  | importModules names => exact hDone (relates_importModules names)
  | importFrom source names =>
      exact relation.relates_bind (relates_importModule source)
        fun value => hDone (relates_importNames source value names)
  | raise exception =>
      cases exception with
      | none => exact relation.relates_throw nofun
      | some exception =>
          refine relation.relates_bind (hExpr exception) fun value => ?_
          exact relation.relates_bind (relates_onHeap _) fun _ =>
            relation.relates_throw nofun
  | assert test message =>
      refine relation.relates_bind (hExpr test) fun value => ?_
      refine relation.relates_bind (relates_isTruthy value) fun _ => ?_
      refine relates_ite hNext ?_
      cases message with
      | none => exact relation.relates_throw nofun
      | some text =>
          refine relation.relates_bind (hExpr text) fun shown => ?_
          exact relation.relates_bind (relates_onHeap _) fun _ =>
            relation.relates_throw nofun
  | pass | breakLoop | continueLoop => exact relation.relates_pure _

end Parts

end StmtCongruence

------------------------------------------------------------
-- Calls
------------------------------------------------------------

namespace Congruence

variable {relation : Congruence}
variable {inner other : Evaluator}

theorem relates_bindArguments
    (callee : String)
    (signature : Signature)
    (args : List Value)
    (keywords : Keywords Value) :
    relation.Relates (bindArguments callee signature args keywords)
      (bindArguments callee signature args keywords) := by
  unfold bindArguments
  cases signature.bind args keywords with
  | ok bound => exact relation.relates_pure _
  | error fault => exact relation.relates_throw nofun

theorem relates_boundValue
    {default second : Eval Value}
    (hDefault : relation.Relates default second)
    (binding : Binding Value) :
    relation.Relates (boundValue default binding)
      (boundValue second binding) := by
  cases binding with
  | value value => exact relation.relates_pure _
  | default => exact hDefault
  | varPositional items => exact relates_newTuple _
  | varKeyword pairs => exact relates_newDict _

/- The values of arguments, with defaults evaluated where they are left out. -/
theorem relates_boundValues
    (hExpr : ∀ expr, relation.Relates (inner.expr expr) (other.expr expr))
    (bound : List (Parameter × Binding Value)) :
    relation.Relates
      (bound.mapM fun (param, binding) =>
        boundValue
          (match param.default with
            | some default => inner.expr default
            | none => return .none)
          binding)
      (bound.mapM fun (param, binding) =>
        boundValue
          (match param.default with
            | some default => other.expr default
            | none => return .none)
          binding) := by
  refine relates_mapM ?_ bound
  rintro ⟨param, binding⟩
  refine relates_boundValue ?_ binding
  cases param.default with
  | none => exact relation.relates_pure _
  | some default => exact hExpr default

theorem relates_callBuiltin
    (hExpr : ∀ expr, relation.Relates (inner.expr expr) (other.expr expr))
    (hKey :
      ∀ key item,
        relation.Relates (inner.call key [item] [])
          (other.call key [item] []))
    (routine : Builtin)
    (args : List Value)
    (keywords : Keywords Value) :
    relation.Relates (inner.callBuiltin routine args keywords)
      (other.callBuiltin routine args keywords) := by
  unfold callBuiltin
  split
  · exact relates_runBuiltin routine args keywords fun _ => hKey _
  · refine relation.relates_bind (relates_bindArguments _ _ _ _) ?_
    intro bound
    refine relation.relates_bind (relates_boundValues hExpr bound) ?_
    intro values
    exact relates_runBuiltin routine values [] fun _ => hKey _

theorem relates_instantiate
    (hInit :
      ∀ init args keywords,
        relation.Relates (inner.call init args keywords)
          (other.call init args keywords))
    (classAddress : Nat)
    (args : List Value)
    (keywords : Keywords Value) :
    relation.Relates (inner.instantiate classAddress args keywords)
      (other.instantiate classAddress args keywords) := by
  refine relation.relates_bind
    (relation.relates_withHeap (·.steady_addInstance classAddress))
    fun address => ?_
  refine relation.relates_bind (relates_onHeap _) fun found => ?_
  cases found with
  | some init =>
      refine relation.relates_bind (hInit init _ keywords) fun result => ?_
      cases result with
      | none => exact relation.relates_pure _
      | _ => exact relates_mistyped _ _
  | none =>
      refine relates_ite (relation.relates_pure _) ?_
      exact relation.relates_bind (relates_onHeap _) fun _ =>
        relates_typeFault _

/- A call keeps a relation that the bodies of functions keep. -/
theorem relates_callValue_of_function
    (hExpr : ∀ expr, relation.Relates (inner.expr expr) (other.expr expr))
    (hCall :
      ∀ callee args keywords,
        relation.Relates (inner.call callee args keywords)
          (other.call callee args keywords))
    (hFunction :
      ∀ function args keywords,
        relation.Relates (inner.callFunction function args keywords)
          (other.callFunction function args keywords))
    (callee : Value)
    (args : List Value)
    (keywords : Keywords Value) :
    relation.Relates (inner.callValue callee args keywords)
      (other.callValue callee args keywords) := by
  have hBuiltin :=
    relates_callBuiltin hExpr fun key item => hCall key [item] []
  cases callee with
  | function address =>
      exact relation.relates_bind (relates_onHeap _) fun function =>
        hFunction function args keywords
  | builtin routine => exact hBuiltin routine args keywords
  | method receiver callee =>
      cases callee with
      | function address =>
          exact relation.relates_bind (relates_onHeap _) fun function =>
            hFunction function (receiver :: args) keywords
      | builtin routine =>
          exact hBuiltin routine (receiver :: args) keywords
  | type address => exact relates_instantiate hCall address args keywords
  | placeholder path => exact relation.relates_pure _
  | _ => exact relates_mistyped _ _

end Congruence

/-
  A relation that is also kept by opening a scope, and by running
  code that keeps it in another scope or as the body of a call.
-/
structure RunCongruence extends StmtCongruence where
  relates_openScope (parent : Nat) (bindings : Bindings Value) :
    Relates (openScope parent bindings) (openScope parent bindings)
  relates_inScope
    {α : Type}
    (scope : Nat)
    {first second : Eval α} :
    Relates first second →
      Relates (inScope scope first) (inScope scope second)
  relates_inCall
    {α : Type}
    (scope : Nat)
    {first second : Eval α} :
    Relates first second →
      Relates (inCall scope first) (inCall scope second)

namespace RunCongruence

open Congruence StmtCongruence

variable {relation : RunCongruence}
variable {inner other : Evaluator}
variable (hExpr : ∀ expr, relation.Relates (inner.expr expr) (other.expr expr))
variable (hStmt : ∀ stmt, relation.Relates (inner.stmt stmt) (other.stmt stmt))

include hExpr hStmt

theorem relates_callFunction
    (function : FunctionObject)
    (args : List Value)
    (keywords : Keywords Value) :
    relation.Relates (inner.callFunction function args keywords)
      (other.callFunction function args keywords) := by
  have hBlock := relates_block hStmt
  refine relation.relates_bind (relates_bindArguments _ _ _ _) ?_
  intro bound
  refine relation.relates_bind (relates_mapM ?_ bound) ?_
  · rintro ⟨param, binding⟩
    exact relation.relates_bind
      (relates_boundValue (relation.relates_pure _) binding) fun _ =>
        relation.relates_pure _
  intro bindings
  refine relation.relates_bind (relation.relates_openScope _ _) ?_
  intro scope
  refine relation.relates_inCall scope ?_
  cases function.body with
  | block body =>
      exact relation.relates_bind (hBlock body) fun _ =>
        relation.relates_pure _
  | expr body => exact hExpr body

/- A call keeps a relation that expressions, statements and calls in it keep. -/
theorem relates_callValue
    (hCall :
      ∀ callee args keywords,
        relation.Relates (inner.call callee args keywords)
          (other.call callee args keywords))
    (callee : Value)
    (args : List Value)
    (keywords : Keywords Value) :
    relation.Relates (inner.callValue callee args keywords)
      (other.callValue callee args keywords) :=
  relates_callValue_of_function hExpr hCall
    (relates_callFunction hExpr hStmt) callee args keywords

omit hExpr hStmt in
/- The definition of a class, with what it reads of the state spelled out. -/
theorem classDef_eq
    (evaluator : Evaluator)
    (name : String)
    (bases : List Expr)
    (body : List Stmt) :
    evaluator.classDef name bases body = (do
      let addresses ← evaluator.baseClasses bases
      let parent ← reading fun _ _ scope => scope
      let scope ← openScope parent []
      discard (inScope scope (evaluator.block body))
      let attrs ← reading fun store _ _ => store.scopes.locals scope
      let address ← withHeap (·.addClass name addresses attrs)
      define name (.type address)) := rfl

theorem relates_classDef
    (hAddClass :
      ∀ name bases attrs,
        relation.Relates (withHeap (·.addClass name bases attrs))
          (withHeap (·.addClass name bases attrs)))
    (name : String)
    (bases : List Expr)
    (body : List Stmt) :
    relation.Relates (inner.classDef name bases body)
      (other.classDef name bases body) := by
  rw [classDef_eq, classDef_eq]
  refine relation.relates_bind (relates_baseClasses hExpr bases) ?_
  intro addresses
  refine relation.relates_bind (relation.relates_reading _) ?_
  intro parent
  refine relation.relates_bind (relation.relates_openScope parent []) ?_
  intro scope
  have hBody := relation.relates_inScope scope (relates_block hStmt body)
  refine relation.relates_bind (relates_discard hBody) ?_
  intro _
  refine relation.relates_bind (relation.relates_reading _) ?_
  intro attrs
  refine relation.relates_bind (hAddClass name addresses attrs) ?_
  intro address
  exact relation.relates_define name (.type address)

end RunCongruence

------------------------------------------------------------
-- Evaluators
------------------------------------------------------------

/- Two evaluators whose code keeps a relation. -/
structure Congruence.Agrees
    (relation : Congruence)
    (inner other : Evaluator) :
    Prop where
  expr : ∀ expr, relation.Relates (inner.expr expr) (other.expr expr)
  stmt : ∀ stmt, relation.Relates (inner.stmt stmt) (other.stmt stmt)
  call :
    ∀ callee args keywords,
      relation.Relates (inner.call callee args keywords)
        (other.call callee args keywords)

/-
  A relation that is also kept by adding a class, and by giving
  up for want of levels.
-/
structure LevelCongruence extends RunCongruence where
  relates_addClass
    (name : String)
    (bases : List Nat)
    (attrs : Bindings Value) :
    Relates (withHeap (·.addClass name bases attrs))
      (withHeap (·.addClass name bases attrs))
  relates_unfinished {α : Type} :
    Relates (throw .unfinished : Eval α) (throw .unfinished)

namespace LevelCongruence

open Congruence StmtCongruence RunCongruence

variable {relation : LevelCongruence}
variable {inner other : Evaluator}

theorem relates_execStmt
    {fuel otherFuel : Nat}
    (hInner : relation.Agrees inner other)
    (hWhile :
      ∀ test body orelse,
        relation.Relates (inner.whileLoop test body orelse fuel)
          (other.whileLoop test body orelse otherFuel))
    (stmt : Stmt) :
    relation.Relates (inner.execStmt fuel stmt)
      (other.execStmt otherFuel stmt) := by
  have hClass :=
    relates_classDef hInner.expr hInner.stmt relation.relates_addClass
  refine relation.relates_bind (relation.relates_charge 1) ?_
  intro _
  exact relates_execForm hInner.expr hInner.stmt stmt.form
    (fun test body orelse _ => hWhile test body orelse)
    (fun name bases body _ => hClass name.name bases body)

theorem relates_whileLoop
    (hInner : relation.Agrees inner other)
    (test : Expr)
    (body orelse : List Stmt)
    (fuel : Nat) :
    relation.Relates (inner.whileLoop test body orelse fuel)
      (other.whileLoop test body orelse fuel) := by
  have hExpr := hInner.expr
  have hBlock := relates_block hInner.stmt
  induction fuel with
  | zero => exact relation.relates_unfinished
  | succ fuel ih =>
      refine relation.relates_bind (hExpr test) fun value => ?_
      refine relation.relates_bind (relates_isTruthy value) fun _ => ?_
      refine relates_ite ?_ (hBlock orelse)
      refine relation.relates_bind (hBlock body) fun flow => ?_
      cases flow with
      | next | continueLoop => exact ih
      | breakLoop | ret _ => exact relation.relates_pure _

/- One level more keeps a relation if loops with a condition do. -/
theorem agrees_succ
    {n m : Nat}
    (hInner : relation.Agrees (levels n) (levels m))
    (hWhile :
      ∀ test body orelse,
        relation.Relates
          ((levels n).whileLoop test body orelse (n + 1))
          ((levels m).whileLoop test body orelse (m + 1))) :
    relation.Agrees (levels (n + 1)) (levels (m + 1)) where
  expr := relates_evalExpr hInner.expr hInner.call
  stmt := relates_execStmt hInner hWhile
  call := relates_callValue hInner.expr hInner.stmt hInner.call

/- Any number of levels keeps a relation. -/
theorem agrees_levels
    (n : Nat) :
    relation.Agrees (levels n) (levels n) := by
  induction n with
  | zero =>
      exact
        ⟨fun _ => relation.relates_unfinished,
          fun _ => relation.relates_unfinished,
          fun _ _ _ => relation.relates_unfinished⟩
  | succ n ih =>
      exact agrees_succ ih fun test body orelse =>
        relates_whileLoop ih test body orelse (n + 1)

end LevelCongruence

end SnippetGrader.Eval

------------------------------------------------------------
-- Programs
------------------------------------------------------------

namespace SnippetGrader.Interpreter

open Eval Eval.Congruence

variable {relation : Congruence}
variable {evaluator other : Evaluator}

theorem relates_execTopLevel
    (hEvaluator : relation.Agrees evaluator other)
    (stmt : Stmt) :
    relation.Relates (execTopLevel evaluator stmt)
      (execTopLevel other stmt) := by
  refine relation.relates_bind (hEvaluator.stmt stmt) fun flow => ?_
  cases flow with
  | next => exact relation.relates_pure ()
  | _ => exact relation.relates_throw nofun

theorem relates_execStatements
    (hEvaluator : relation.Agrees evaluator other)
    (body : List Stmt) :
    relation.Relates (execStatements evaluator body)
      (execStatements other body) := by
  induction body with
  | nil => exact relation.relates_pure ()
  | cons stmt rest ih =>
      exact relation.relates_bind
        (relates_execTopLevel hEvaluator stmt) fun _ => ih

theorem relates_evalStatements
    (hEvaluator : relation.Agrees evaluator other)
    (body : List Stmt) :
    relation.Relates (evalStatements evaluator body)
      (evalStatements other body) := by
  have hExpr := hEvaluator.expr
  have hTop := relates_execTopLevel hEvaluator
  have hTick := relation.relates_charge 1
  induction body with
  | nil => exact relation.relates_pure none
  | cons stmt rest ih =>
      have hMore :
          relation.Relates
            (execTopLevel evaluator stmt >>= fun _ =>
              evalStatements evaluator rest)
            (execTopLevel other stmt >>= fun _ =>
              evalStatements other rest) :=
        relation.relates_bind (hTop stmt) fun _ => ih
      obtain ⟨span, form⟩ := stmt
      cases rest with
      | cons next rest => cases form <;> exact hMore
      | nil =>
          cases form with
          | expr value =>
              refine relation.relates_bind hTick fun _ => ?_
              exact relation.relates_bind (hExpr value) fun _ =>
                relation.relates_pure _
          | _ => exact hMore

end SnippetGrader.Interpreter
