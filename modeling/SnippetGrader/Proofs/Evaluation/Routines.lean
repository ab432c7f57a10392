import SnippetGrader.Proofs.Evaluation.Congruence

/-
  Relations between runs that the routines keep.

  A routine reads its arguments, changes the heap, prints or
  fails, and so it keeps every relation that these steps keep. A
  routine that sorts or looks for the best item may also call a
  key function, and then keeps a relation that these calls keep.

  Key definitions include:
    * `Builtin.keyFunction`

  Key theorems include:
    * `Eval.Congruence.relates_sortValues`
    * `Eval.Congruence.relates_runBuiltin`
-/

namespace SnippetGrader

/- The function that gives the keys of items, or none if they are their own. -/
def Builtin.keyFunction
    (routine : Builtin)
    (args : List Value)
    (keywords : Keywords Value) :
    Value :=
  match routine with
  | .sorted | .listMethod .sort => argument args 1
  | .max | .min => (Eval.takeKeyword keywords "key").1.getD .none
  | _ => .none

namespace Eval.Congruence

variable {relation : Congruence}

------------------------------------------------------------
-- Arguments
------------------------------------------------------------

theorem relates_checkCount
    (callee : String)
    (least most : Nat)
    (args : List Value) :
    relation.Relates (checkCount callee least most args)
      (checkCount callee least most args) := by
  unfold checkCount
  refine relates_ite (relates_typeFault _) ?_
  exact relates_ite (relates_typeFault _) (relation.relates_pure ())

theorem relates_noKeywords
    (callee : String)
    (keywords : Keywords Value) :
    relation.Relates (noKeywords callee keywords)
      (noKeywords callee keywords) := by
  unfold noKeywords
  exact relates_ite (relation.relates_pure ()) (relates_typeFault _)

theorem relates_noOtherKeywords
    (callee : String)
    (keywords : Keywords Value) :
    relation.Relates (noOtherKeywords callee keywords)
      (noOtherKeywords callee keywords) := by
  cases keywords with
  | nil => exact relation.relates_pure ()
  | cons entry rest => exact relates_typeFault _

theorem relates_asInt
    (what : String)
    (value : Value) :
    relation.Relates (asInt what value) (asInt what value) := by
  cases value with
  | int _ | bool _ => exact relation.relates_pure _
  | _ => exact relates_mistyped _ _

theorem relates_asFloat
    (value : Value) :
    relation.Relates (asFloat value) (asFloat value) := by
  unfold asFloat
  cases Numeral.of? value with
  | some number => exact relation.relates_pure _
  | none => exact relates_mistyped value _

theorem relates_asString
    (what : String)
    (value : Value) :
    relation.Relates (asString what value)
      (asString what value) := by
  cases value with
  | str _ => exact relation.relates_pure _
  | _ => exact relates_mistyped _ _

theorem relates_receiverString
    (args : List Value) :
    relation.Relates (receiverString args)
      (receiverString args) := by
  cases args with
  | nil => exact relates_typeFault _
  | cons value rest =>
      cases value with
      | str _ => exact relation.relates_pure _
      | _ => exact relates_typeFault _

theorem relates_receiverList
    (args : List Value) :
    relation.Relates (receiverList args) (receiverList args) := by
  cases args with
  | nil => exact relates_typeFault _
  | cons value rest =>
      cases value with
      | list _ => exact relation.relates_pure _
      | _ => exact relates_typeFault _

theorem relates_receiverDict
    (args : List Value) :
    relation.Relates (receiverDict args) (receiverDict args) := by
  cases args with
  | nil => exact relates_typeFault _
  | cons value rest =>
      cases value with
      | dict _ => exact relation.relates_pure _
      | _ => exact relates_typeFault _

------------------------------------------------------------
-- Numbers
------------------------------------------------------------

theorem relates_abs
    (value : Value) :
    relation.Relates (abs value) (abs value) := by
  cases value with
  | int _ => exact relates_ofExcept (Arithmetic.finishes_fit _)
  | bool _ | float _ => exact relation.relates_pure _
  | _ => exact relates_mistyped _ _

/- The integer next to a number, as a value. -/
theorem relates_floatToInt
    (x : Float) :
    relation.Relates
      (ofExcept (Arithmetic.floatToInt x) >>= fun n => pure (Value.int n))
      (ofExcept (Arithmetic.floatToInt x) >>= fun n => pure (.int n)) :=
  relation.relates_bind
    (relates_ofExcept (Arithmetic.finishes_floatToInt x)) fun _ =>
      relation.relates_pure _

/- The rounding of a number, once the number of digits is known. -/
def roundTo (number : Value) (places : Option Int) : Eval Value :=
  match number, places with
  | .int n, none => return .int n
  | .bool b, none => return .int (if b then 1 else 0)
  | .float x, none => do
      return .int (← ofExcept (Arithmetic.floatToInt (Number.roundHalfEven x)))
  | .int n, some count =>
      if count ≥ 0 then return .int n
      else do
        let scale := tenTo (-count)
        let rounded := Number.roundHalfEven (Number.wordToFloat n / scale) * scale
        return .int (← ofExcept (Arithmetic.floatToInt rounded))
  | .float x, some count =>
      let scale := tenTo count
      let rounded := Number.roundHalfEven (x * scale) / scale
      return .float (if rounded.isFinite then rounded else x)
  | other, _ => do typeFault (.notRoundable (← typeName other))

theorem relates_round
    (number digits : Value) :
    relation.Relates (round number digits)
      (round number digits) := by
  have hRounded (places : Option Int) :
      relation.Relates (roundTo number places) (roundTo number places) := by
    cases number with
    | int n =>
        cases places with
        | none => exact relation.relates_pure _
        | some count =>
            exact relates_ite (relation.relates_pure _)
              (relates_floatToInt _)
    | bool b =>
        cases places with
        | none => exact relation.relates_pure _
        | some count => exact relates_mistyped _ _
    | float x =>
        cases places with
        | none => exact relates_floatToInt _
        | some count => exact relation.relates_pure _
    | _ => exact relates_mistyped _ _
  cases digits with
  | none => exact relation.relates_bind (relation.relates_pure none) hRounded
  | _ =>
      exact relation.relates_bind
        (relates_map (relates_asInt "ndigits" _) some) hRounded

theorem relates_pow
    (base exponent modulus : Value) :
    relation.Relates (pow base exponent modulus)
      (pow base exponent modulus) := by
  unfold pow
  refine relates_ite (relates_binary .pow base exponent) ?_
  refine relation.relates_bind (relates_asInt _ base) fun b => ?_
  refine relation.relates_bind (relates_asInt _ exponent) fun e => ?_
  refine relation.relates_bind (relates_asInt _ modulus) fun m => ?_
  refine relates_ite (relates_valueFault _) ?_
  exact relates_ite (relates_valueFault _) (relation.relates_pure _)

theorem relates_divmod
    (x y : Value) :
    relation.Relates (divmod x y) (divmod x y) := by
  refine relation.relates_bind (relates_binary .floorDiv x y) fun _ => ?_
  exact relation.relates_bind (relates_binary .mod x y) fun _ =>
    relates_newTuple _

theorem relates_nextInteger
    (side : Float → Float)
    (value : Value) :
    relation.Relates (nextInteger side value)
      (nextInteger side value) := by
  cases value with
  | int n => exact relation.relates_pure _
  | _ =>
      exact relation.relates_bind (relates_asFloat _) fun _ =>
        relates_floatToInt _

theorem relates_log
    (args : List Value) :
    relation.Relates (log args) (log args) := by
  refine relation.relates_bind (relates_checkCount "log" 1 2 args)
    fun _ => ?_
  refine relation.relates_bind (relates_asFloat _) fun x => ?_
  refine relates_ite (relates_valueFault _) ?_
  cases args[1]? with
  | none => exact relation.relates_pure _
  | some base =>
      refine relation.relates_bind (relates_asFloat base) fun b => ?_
      exact relates_ite (relates_valueFault _) (relation.relates_pure _)

theorem relates_runMath
    (function : MathFunction)
    (args : List Value)
    (keywords : Keywords Value) :
    relation.Relates (runMath function args keywords)
      (runMath function args keywords) := by
  cases function with
  | sqrt =>
      refine relation.relates_bind (relates_asFloat _) fun x => ?_
      exact relates_ite (relates_valueFault _) (relation.relates_pure _)
  | floor | ceil => exact relates_nextInteger _ _
  | exp =>
      refine relation.relates_bind (relates_asFloat _) fun x => ?_
      exact relates_ite (relation.relates_throw nofun)
        (relation.relates_pure _)
  | fabs =>
      exact relation.relates_bind (relates_asFloat _) fun _ =>
        relation.relates_pure _
  | pow =>
      refine relation.relates_bind (relates_asFloat _) fun base => ?_
      refine relation.relates_bind (relates_asFloat _) fun exponent => ?_
      exact relates_ite (relates_valueFault _) (relation.relates_pure _)
  | log =>
      exact relation.relates_bind (relates_noKeywords "log" keywords)
        fun _ => relates_log args

------------------------------------------------------------
-- Strings
------------------------------------------------------------

theorem relates_newStringList
    (parts : List (List Char)) :
    relation.Relates (newStringList parts)
      (newStringList parts) :=
  relates_newList _

theorem relates_strip
    (text : String)
    (chars : Value) :
    relation.Relates (strip text chars) (strip text chars) := by
  cases chars with
  | none => exact relation.relates_pure _
  | _ =>
      exact relation.relates_bind (relates_asString _ _) fun _ =>
        relation.relates_pure _

theorem relates_split
    (text : String)
    (separator most : Value) :
    relation.Relates (split text separator most)
      (split text separator most) := by
  refine relation.relates_bind (relates_asInt "maxsplit" most) fun count => ?_
  cases separator with
  | none => exact relates_newStringList _
  | _ =>
      refine relation.relates_bind (relates_asString _ _) fun mark => ?_
      exact relates_ite (relates_valueFault _) (relates_newStringList _)

theorem relates_joinedTexts
    (index : Nat)
    (items : List Value) :
    relation.Relates (joinedTexts index items)
      (joinedTexts index items) := by
  induction items generalizing index with
  | nil => exact relation.relates_pure []
  | cons value rest ih =>
      cases value with
      | str text =>
          exact relation.relates_bind (ih (index + 1)) fun _ =>
            relation.relates_pure _
      | _ => exact relates_mistyped _ _

theorem relates_join
    (separator : String)
    (items : Value) :
    relation.Relates (join separator items)
      (join separator items) := by
  refine relation.relates_bind (relates_iterate items) fun values => ?_
  refine relation.relates_bind (relates_joinedTexts 0 _) fun texts => ?_
  exact relation.relates_bind (relates_checkLength _) fun _ =>
    relation.relates_pure _

theorem relates_replace
    (text : String)
    (old new count : Value) :
    relation.Relates (replace text old new count)
      (replace text old new count) := by
  refine relation.relates_bind (relates_asString _ old) fun part => ?_
  refine relation.relates_bind (relates_asString _ new) fun other => ?_
  refine relation.relates_bind (relates_asInt "count" count) fun most => ?_
  exact relation.relates_bind (relates_checkLength _) fun _ =>
    relation.relates_pure _

theorem relates_anyCandidate
    (what : String)
    (test : String → Bool)
    (candidates : List Value) :
    relation.Relates (anyCandidate what test candidates)
      (anyCandidate what test candidates) := by
  induction candidates with
  | nil => exact relation.relates_pure _
  | cons candidate rest ih =>
      refine relation.relates_bind (relates_asString what candidate)
        fun text => ?_
      exact relates_ite (relation.relates_pure _) ih

theorem relates_affix
    (method : StrMethod)
    (test : List Char → List Char → Bool)
    (args : List Value)
    (keywords : Keywords Value) :
    relation.Relates (affix method test args keywords)
      (affix method test args keywords) := by
  refine relation.relates_bind (relates_noKeywords _ keywords) fun _ => ?_
  refine relation.relates_bind (relates_checkCount _ 2 2 args) fun _ => ?_
  refine relation.relates_bind (relates_receiverString args) fun text => ?_
  cases argument args 1 with
  | tuple address =>
      exact relation.relates_bind (relates_onHeap _)
        (relates_anyCandidate _ _)
  | _ =>
      exact relation.relates_bind (relation.relates_pure _)
        (relates_anyCandidate _ _)

theorem relates_runStr
    (method : StrMethod)
    (args : List Value)
    (keywords : Keywords Value) :
    relation.Relates (runStr method args keywords)
      (runStr method args keywords) := by
  have hReceiver {run : String → Eval Value}
      (hRun : ∀ text, relation.Relates (run text) (run text)) :
      relation.Relates (receiverString args >>= run)
        (receiverString args >>= run) :=
    relation.relates_bind (relates_receiverString args) hRun
  cases method with
  | upper | lower => exact hReceiver fun _ => relation.relates_pure _
  | strip => exact hReceiver fun text => relates_strip text _
  | split => exact hReceiver fun text => relates_split text _ _
  | join => exact hReceiver fun text => relates_join text _
  | replace => exact hReceiver fun text => relates_replace text _ _ _
  | startsWith | endsWith => exact relates_affix _ _ args keywords

------------------------------------------------------------
-- Conversions
------------------------------------------------------------

theorem relates_badInteger
    (text : String)
    (base : Int) :
    relation.Relates (badInteger text base)
      (badInteger text base) :=
  relates_valueFault _

theorem relates_integerInBase
    (value baseValue : Value) :
    relation.Relates (integerInBase value baseValue)
      (integerInBase value baseValue) := by
  refine relation.relates_bind (relates_asInt "base" baseValue)
    fun base => ?_
  cases value with
  | str text =>
      refine relates_ite (relates_valueFault _) ?_
      cases Number.readWord? base.toNat (Text.trim text).toList with
      | some n => exact relation.relates_pure _
      | none => exact relates_badInteger text base
  | _ => exact relates_typeFault _

theorem relates_integerOf
    (value : Value) :
    relation.Relates (integerOf value) (integerOf value) := by
  cases value with
  | int _ | bool _ => exact relation.relates_pure _
  | float x => exact relates_floatToInt _
  | str text =>
      unfold integerOf
      dsimp only
      split
      · exact relation.relates_pure _
      · exact relates_badInteger text 10
  | _ => exact relates_mistyped _ _

theorem relates_toInt
    (args : List Value) :
    relation.Relates (toInt args) (toInt args) := by
  refine relation.relates_bind (relates_checkCount "int" 0 2 args)
    fun _ => ?_
  rcases args with _ | ⟨value, _ | ⟨base, rest⟩⟩
  · exact relation.relates_pure _
  · exact relates_integerOf value
  · exact relates_integerInBase value base

theorem relates_toFloat
    (args : List Value) :
    relation.Relates (toFloat args) (toFloat args) := by
  refine relation.relates_bind (relates_checkCount "float" 0 1 args)
    fun _ => ?_
  cases args with
  | nil => exact relation.relates_pure _
  | cons value rest =>
      cases value with
      | str text =>
          dsimp only
          split
          · exact relation.relates_pure _
          · exact relates_valueFault _
      | _ =>
          exact relation.relates_bind (relates_asFloat _) fun _ =>
            relation.relates_pure _

theorem relates_toBool
    (args : List Value) :
    relation.Relates (toBool args) (toBool args) := by
  refine relation.relates_bind (relates_checkCount "bool" 0 1 args)
    fun _ => ?_
  cases args with
  | nil => exact relation.relates_pure _
  | cons value rest =>
      exact relation.relates_bind (relates_isTruthy value) fun _ =>
        relation.relates_pure _

theorem relates_toStr
    (args : List Value) :
    relation.Relates (toStr args) (toStr args) := by
  refine relation.relates_bind (relates_checkCount "str" 0 1 args)
    fun _ => ?_
  cases args with
  | nil => exact relation.relates_pure _
  | cons value rest =>
      exact relation.relates_bind (relates_onHeap _) fun _ =>
        relation.relates_pure _

theorem relates_itemsOrNone
    (callee : String)
    (args : List Value) :
    relation.Relates (itemsOrNone callee args)
      (itemsOrNone callee args) := by
  refine relation.relates_bind (relates_checkCount callee 0 1 args)
    fun _ => ?_
  cases args with
  | nil => exact relation.relates_pure _
  | cons value rest => exact relates_iterate value

theorem relates_newSet
    (items : Array Value) :
    relation.Relates (newSet items) (newSet items) :=
  relation.relates_withHeap fun heap =>
    heap.steady_addSet (heap.distinct items)

theorem relates_addEntry
    (entries : Array (Value × Value))
    (key value : Value) :
    relation.Relates (addEntry entries key value)
      (addEntry entries key value) :=
  relates_onHeap _

theorem relates_addPair
    (entries : Array (Value × Value))
    (item : Value) :
    relation.Relates (addPair entries item)
      (addPair entries item) := by
  refine relation.relates_bind (relates_iterate item) fun found => ?_
  rcases found.toList with _ | ⟨key, _ | ⟨value, _ | ⟨_, _⟩⟩⟩
  · exact relates_valueFault _
  · exact relates_valueFault _
  · exact relates_addEntry entries key value
  · exact relates_valueFault _

theorem relates_toDict
    (args : List Value)
    (keywords : Keywords Value) :
    relation.Relates (toDict args keywords)
      (toDict args keywords) := by
  have hKeywords (entries : Array (Value × Value)) :
      relation.Relates
        (keywords.foldlM
          (fun found entry => addEntry found (.str entry.1) entry.2)
          entries)
        (keywords.foldlM
          (fun found entry => addEntry found (.str entry.1) entry.2)
          entries) :=
    relates_foldlM (fun _ _ => relates_addEntry _ _ _) keywords entries
  have hEntries (entries : Array (Value × Value)) :=
    relation.relates_bind (hKeywords entries) relates_newDict
  refine relation.relates_bind (relates_checkCount "dict" 0 1 args)
    fun _ => ?_
  cases args with
  | nil => exact relation.relates_bind (relation.relates_pure #[]) hEntries
  | cons value rest =>
      cases value with
      | dict address =>
          exact relation.relates_bind (relates_onHeap _) hEntries
      | _ =>
          refine relation.relates_bind (relates_iterate _) fun items => ?_
          exact relation.relates_bind
            (relates_foldlM relates_addPair items.toList #[]) hEntries

theorem finishes_anyM
    {test : Value → Except EvalError Bool}
    (hTest : ∀ value, Finishes (test value))
    (values : List Value) :
    Finishes (anyM test values) := by
  fun_induction anyM test values with
  | case1 => nofun
  | case2 => nofun
  | case3 => assumption
  | case4 value rest fault hFault =>
      have hHere := hTest value
      rw [hFault] at hHere
      rintro ⟨⟩
      exact hHere rfl

theorem finishes_isInstance
    (heap : Heap)
    (object : Value)
    (levels : Nat)
    (types : Value) :
    Finishes (isInstance heap object levels types) := by
  -- Apart from a tuple, the number of levels makes no difference.
  have hSingle (levels : Nat) (types : Value) :
      (∀ address, types ≠ .tuple address) →
        Finishes (isInstance heap object levels types) := by
    intro hTuple
    cases types with
    | tuple address => exact (hTuple address rfl).elim
    | type address => cases levels <;> cases object <;> rintro ⟨⟩
    | builtin routine =>
        cases levels <;> (unfold isInstance; split <;> rintro ⟨⟩)
    | _ => cases levels <;> rintro ⟨⟩
  induction levels generalizing types with
  | zero =>
      cases types with
      | tuple address => rintro ⟨⟩
      | _ => exact hSingle 0 _ (by rintro _ ⟨⟩)
  | succ levels ih =>
      cases types with
      | tuple address => exact finishes_anyM ih _
      | _ => exact hSingle (levels + 1) _ (by rintro _ ⟨⟩)

theorem relates_isInstanceOf
    (object types : Value) :
    relation.Relates (isInstanceOf object types)
      (isInstanceOf object types) := by
  have hAnswer :=
    @relates_computed relation Bool _ fun heap =>
      finishes_isInstance heap object (heap.tuples.size + 1) types
  have hMapped := relates_map hAnswer Value.bool
  rw [map_bind] at hMapped
  exact hMapped

theorem relates_typeOf
    (args : List Value) :
    relation.Relates (typeOf args) (typeOf args) := by
  have hNamed (object : Value) :
      relation.Relates
        (do
          let name ← typeName object
          reading fun store builtins _ =>
            (store.scopes.get? builtins name).getD (.placeholder name))
        (do
          let name ← typeName object
          reading fun store builtins _ =>
            (store.scopes.get? builtins name).getD (.placeholder name)) :=
    relation.relates_bind (relates_typeName object) fun _ =>
      relation.relates_reading _
  refine relation.relates_bind (relates_checkCount "type" 1 1 args) ?_
  intro _
  cases argument args 0 with
  | object address => exact relates_onHeap _
  | _ => exact hNamed _

------------------------------------------------------------
-- Containers
------------------------------------------------------------

theorem relates_listSize
    (address : Nat) :
    relation.Relates (listSize address) (listSize address) :=
  relates_onHeap _

theorem relates_extendList
    (address : Nat)
    (items : Array Value) :
    relation.Relates (extendList address items)
      (extendList address items) := by
  refine relation.relates_bind (relates_listSize address) fun _ => ?_
  exact relation.relates_bind (relates_checkLength _) fun _ =>
    relates_updateHeap (·.steady_updateList address _)

theorem relates_appendItem
    (address : Nat)
    (item : Value) :
    relation.Relates (appendItem address item)
      (appendItem address item) := by
  refine relation.relates_bind (relates_listSize address) fun _ => ?_
  exact relation.relates_bind (relates_checkLength _) fun _ =>
    relates_updateHeap (·.steady_updateList address _)

theorem relates_popItem
    (address : Nat)
    (index : Value) :
    relation.Relates (popItem address index)
      (popItem address index) := by
  have hTaken (position : Nat) (item : Value) :
      relation.Relates
        (do
          updateHeap
            (·.updateList address (·.eraseIdxIfInBounds position))
          return item)
        (do
          updateHeap
            (·.updateList address (·.eraseIdxIfInBounds position))
          return item) :=
    relation.relates_bind
      (relates_updateHeap (·.steady_updateList address _)) fun _ =>
        relation.relates_pure _
  refine relation.relates_bind (relates_listSize address) fun size => ?_
  refine relates_ite (relation.relates_throw nofun) ?_
  refine relation.relates_bind (relates_asInt "index" index) fun n => ?_
  refine relation.relates_bind (relates_onHeap _) fun found => ?_
  cases found with
  | some item => exact hTaken _ item
  | none => exact relation.relates_throw nofun

theorem relates_insertItem
    (address : Nat)
    (index item : Value) :
    relation.Relates (insertItem address index item)
      (insertItem address index item) := by
  refine relation.relates_bind (relates_listSize address) fun _ => ?_
  refine relation.relates_bind (relates_checkLength _) fun _ => ?_
  exact relation.relates_bind (relates_asInt "index" index) fun _ =>
    relates_updateHeap (·.steady_updateList address _)

/- The search for an item of a list, once its start is known. -/
def searchFrom (args : List Value) (start : Nat) : Eval Value := do
  let target := argument args 1
  let address ← receiverList args
  let found ← onHeap fun heap =>
    ((heap.list address).toList.drop start).findIdx?
      (heap.equal · target)
  match found with
  | some offset => return .int (start + offset : Nat)
  | none => valueFault (.notInList (← onHeap (·.repr target)))

theorem relates_itemIndex
    (args : List Value) :
    relation.Relates (itemIndex args) (itemIndex args) := by
  have hSearch (start : Nat) :
      relation.Relates (searchFrom args start)
        (searchFrom args start) := by
    refine relation.relates_bind (relates_receiverList args)
      fun address => ?_
    refine relation.relates_bind (relates_onHeap _) fun found => ?_
    cases found with
    | some offset => exact relation.relates_pure _
    | none =>
        exact relation.relates_bind (relates_onHeap _) fun _ =>
          relates_valueFault _
  refine relation.relates_bind (relates_checkCount "index" 2 3 args) ?_
  intro _
  cases args[2]? with
  | none => exact hSearch 0
  | some value =>
      exact relation.relates_bind
        (relates_map (relates_asInt "start" value) Int.toNat) hSearch

theorem relates_onlyDict
    (method : DictMethod)
    (args : List Value)
    (keywords : Keywords Value) :
    relation.Relates (onlyDict method args keywords)
      (onlyDict method args keywords) := by
  refine relation.relates_bind (relates_noKeywords _ keywords) fun _ => ?_
  refine relation.relates_bind (relates_checkCount _ 1 1 args) fun _ => ?_
  exact relation.relates_bind (relates_receiverDict args) fun _ =>
    relates_onHeap _

theorem relates_runDict
    (method : DictMethod)
    (args : List Value)
    (keywords : Keywords Value) :
    relation.Relates (runDict method args keywords)
      (runDict method args keywords) := by
  cases method with
  | get =>
      refine relation.relates_bind (relates_receiverDict args) fun _ => ?_
      exact relation.relates_bind (relates_onHeap _) fun _ =>
        relation.relates_pure _
  | keys | values =>
      exact relation.relates_bind (relates_onlyDict _ args keywords)
        fun _ => relates_newList _
  | items =>
      refine relation.relates_bind (relates_onlyDict _ args keywords)
        fun entries => ?_
      exact relation.relates_bind
        (relates_mapM (fun _ => relates_newTuple _) entries.toList) fun _ =>
          relates_newList _

------------------------------------------------------------
-- Iteration
------------------------------------------------------------

theorem relates_length
    (value : Value) :
    relation.Relates (length value) (length value) := by
  cases value with
  | str text => exact relation.relates_pure _
  | list _ | set _ | tuple _ | dict _ =>
      unfold length
      exact relates_onHeap _
  | _ => exact relates_mistyped _ _

theorem relates_sum
    (items start : Value) :
    relation.Relates (sum items start) (sum items start) := by
  cases start with
  | str _ => exact relates_typeFault _
  | _ =>
      exact relation.relates_bind (relates_iterate items) fun values =>
        relates_foldlM (relates_binary .add) values.toList _

theorem relates_numbered
    (number : Int)
    (pairs : Array Value)
    (items : List Value) :
    relation.Relates (numbered number pairs items)
      (numbered number pairs items) := by
  induction items generalizing number pairs with
  | nil => exact relation.relates_pure pairs
  | cons item rest ih =>
      refine relation.relates_bind
        (relates_ofExcept (Arithmetic.finishes_fit number)) ?_
      intro index
      refine relation.relates_bind (relates_newTuple _) ?_
      intro pair
      exact ih (number + 1) (pairs.push pair)

theorem relates_enumerate
    (items start : Value) :
    relation.Relates (enumerate items start)
      (enumerate items start) := by
  refine relation.relates_bind (relates_asInt "start" start) fun first => ?_
  refine relation.relates_bind (relates_iterate items) fun values => ?_
  exact relation.relates_bind (relates_numbered first #[] values.toList)
    relates_newList

theorem relates_zip
    (args : List Value) :
    relation.Relates (zip args) (zip args) := by
  refine relation.relates_bind (relates_mapM relates_iterate args)
    fun columns => ?_
  exact relation.relates_bind
    (relates_mapM relates_newTuple (rows columns)) fun _ => relates_newList _

theorem relates_range
    (args : List Value) :
    relation.Relates (range args) (range args) := by
  refine relation.relates_bind (relates_checkCount "range" 1 3 args)
    fun _ => ?_
  refine relation.relates_bind (relates_mapM (relates_asInt _) args)
    fun bounds => ?_
  rcases bounds with _ | ⟨start, _ | ⟨stop, _ | ⟨step, rest⟩⟩⟩
  all_goals
    refine relation.relates_bind (relation.relates_pure _) fun _ => ?_
    refine relates_ite (relates_valueFault _) ?_
    exact relation.relates_bind (relation.relates_charge _) fun _ =>
      relates_newList _

theorem relates_printOption
    (usual : String)
    (option : Option Value) :
    relation.Relates (printOption usual option)
      (printOption usual option) := by
  cases option with
  | none => exact relation.relates_pure _
  | some value =>
      cases value with
      | none | str _ => exact relation.relates_pure _
      | _ => exact relates_mistyped _ _

theorem relates_print
    (args : List Value)
    (keywords : Keywords Value) :
    relation.Relates (print args keywords)
      (print args keywords) := by
  refine relation.relates_bind (relates_printOption " " _)
    fun separator => ?_
  refine relation.relates_bind (relates_printOption "\n" _)
    fun ending => ?_
  refine relation.relates_bind (relates_noOtherKeywords "print" _)
    fun _ => ?_
  refine relation.relates_bind
    (relates_mapM (fun _ => relates_onHeap _) args) fun texts => ?_
  refine relation.relates_bind (relation.relates_write _) fun _ => ?_
  exact relation.relates_bind (relation.relates_write ending) fun _ =>
    relation.relates_pure _

theorem relates_initException
    (args : List Value)
    (keywords : Keywords Value) :
    relation.Relates (initException args keywords)
      (initException args keywords) := by
  refine relation.relates_bind (relates_noKeywords "Exception" keywords)
    fun _ => ?_
  cases args with
  | nil => exact relation.relates_pure _
  | cons value rest =>
      cases value with
      | object address =>
          refine relation.relates_bind (relates_newTuple _) fun given => ?_
          exact relation.relates_bind
            (relates_updateHeap
              (·.steady_setInstanceAttr address "args" given)) fun _ =>
            relation.relates_pure _
      | _ => exact relation.relates_pure _

------------------------------------------------------------
-- Routines that Call a Key Function
------------------------------------------------------------

section KeyFunction

variable {call other : Caller}
variable {key : Value}

theorem relates_keyed
    (hKey :
      key.isNone = false →
        ∀ item, relation.Relates (call key [item] []) (other key [item] []))
    (item : Value) :
    relation.Relates (keyed call key item) (keyed other key item) := by
  unfold keyed
  cases hNone : key.isNone with
  | true => exact relation.relates_pure _
  | false =>
      exact relation.relates_bind (hKey hNone item) fun _ =>
        relation.relates_pure _

theorem finishes_sortKeyed
    (heap : Heap)
    (reverse : Bool)
    (items : List Keyed) :
    Finishes (sortKeyed heap reverse items) := by
  unfold sortKeyed
  split
  · nofun
  · nofun
  · rename_i left right _
    have hOrder := heap.finishes_order "<" left.key right.key
    cases hResult : heap.order "<" left.key right.key with
    | ok order => nofun
    | error fault =>
        rw [hResult] at hOrder
        rintro ⟨⟩
        exact hOrder rfl

theorem relates_sortValues
    (hKey :
      key.isNone = false →
        ∀ item, relation.Relates (call key [item] []) (other key [item] []))
    (items : Array Value)
    (reverse : Bool) :
    relation.Relates (sortValues call items key reverse)
      (sortValues other items key reverse) := by
  have hSorted (keyedItems : List Keyed) :=
    relates_map
      (@relates_computed relation _ _ fun heap =>
        finishes_sortKeyed heap reverse keyedItems)
      fun sorted => (sorted.map (·.item)).toArray
  refine relation.relates_bind
    (relates_mapM (relates_keyed hKey) items.toList) ?_
  intro keyedItems
  have hMapped := hSorted keyedItems
  rw [map_bind] at hMapped
  exact hMapped

theorem relates_sorted
    (items reverse : Value)
    (hKey :
      key.isNone = false →
        ∀ item, relation.Relates (call key [item] []) (other key [item] [])) :
    relation.Relates (sorted call items key reverse)
      (sorted other items key reverse) := by
  refine relation.relates_bind (relates_iterate items) fun found => ?_
  refine relation.relates_bind (relates_isTruthy reverse) fun truth => ?_
  exact relation.relates_bind (relates_sortValues hKey found truth)
    relates_newList

theorem relates_best
    (hKey :
      key.isNone = false →
        ∀ item, relation.Relates (call key [item] []) (other key [item] []))
    (symbol : String)
    (wanted : Ordering)
    (soFar : Option Keyed)
    (items : List Value) :
    relation.Relates (best call symbol wanted key soFar items)
      (best other symbol wanted key soFar items) := by
  induction items generalizing soFar with
  | nil => exact relation.relates_pure soFar
  | cons item rest ih =>
      refine relation.relates_bind (relates_keyed hKey item) ?_
      intro new
      cases soFar with
      | none => exact ih (some new)
      | some old =>
          refine relation.relates_bind (relates_order _ _ _) ?_
          intro order
          exact ih _

theorem relates_extremum
    (callee symbol : String)
    (wanted : Ordering)
    (args : List Value)
    (keywords : Keywords Value)
    (hKey :
      ((takeKeyword keywords "key").1.getD .none).isNone = false →
        ∀ item,
          relation.Relates
            (call ((takeKeyword keywords "key").1.getD .none) [item] [])
            (other ((takeKeyword keywords "key").1.getD .none) [item] [])) :
    relation.Relates (extremum call callee symbol wanted args keywords)
      (extremum other callee symbol wanted args keywords) := by
  have hBest := relates_best hKey symbol wanted none
  unfold extremum
  rcases hKeyed : takeKeyword keywords "key" with ⟨key, others⟩
  rcases hLeft : takeKeyword others "default" with ⟨default, left⟩
  rw [hKeyed] at hBest
  simp only [hLeft]
  refine relation.relates_bind (relates_noOtherKeywords _ _) ?_
  intro _
  rcases args with _ | ⟨value, _ | ⟨second, rest⟩⟩
  on_goal 1 => refine relation.relates_bind (relates_typeFault _) ?_
  on_goal 2 =>
    refine relation.relates_bind (relates_iterate value) ?_
    intro items
    refine relation.relates_bind (relation.relates_pure _) ?_
  on_goal 3 => refine relation.relates_bind (relation.relates_pure _) ?_
  all_goals
    intro items
    refine relation.relates_bind (hBest items) ?_
    intro found
    cases found with
    | some found => exact relation.relates_pure _
    | none =>
        cases default with
        | some value => exact relation.relates_pure _
        | none => exact relates_valueFault _

theorem relates_runList
    (method : ListMethod)
    (args : List Value)
    (keywords : Keywords Value)
    (hKey :
      ((Builtin.listMethod method).keyFunction args keywords).isNone = false →
        ∀ item,
          relation.Relates
            (call ((Builtin.listMethod method).keyFunction args keywords) [item] [])
            (other ((Builtin.listMethod method).keyFunction args keywords)
              [item] [])) :
    relation.Relates (runList call method args keywords)
      (runList other method args keywords) := by
  have hDone {step : Eval Unit} (hStep : relation.Relates step step) :
      relation.Relates (step >>= fun _ => pure Value.none)
        (step >>= fun _ => pure .none) :=
    relation.relates_bind hStep fun _ => relation.relates_pure _
  cases method with
  | sort =>
      refine relation.relates_bind (relates_receiverList args) ?_
      intro address
      refine relation.relates_bind (relates_onHeap _) ?_
      intro items
      refine relation.relates_bind (relates_isTruthy _) ?_
      intro reverse
      refine relation.relates_bind
        (relates_sortValues hKey items reverse) ?_
      intro sorted
      exact hDone
        (relates_updateHeap (·.steady_updateList address fun _ => sorted))
  | append =>
      exact relation.relates_bind (relates_receiverList args)
        fun address => hDone (relates_appendItem address _)
  | extend =>
      refine relation.relates_bind (relates_iterate _) fun items => ?_
      exact relation.relates_bind (relates_receiverList args)
        fun address => hDone (relates_extendList address items)
  | pop =>
      exact relation.relates_bind (relates_receiverList args)
        fun address => relates_popItem address _
  | insert =>
      exact relation.relates_bind (relates_receiverList args)
        fun address => hDone (relates_insertItem address _ _)
  | count =>
      exact relation.relates_bind (relates_receiverList args)
        fun address => relates_onHeap _
  | index =>
      exact relation.relates_bind (relates_noKeywords "index" keywords)
        fun _ => relates_itemIndex args
  | reverse =>
      exact relation.relates_bind (relates_receiverList args)
        fun address =>
          hDone (relates_updateHeap (·.steady_updateList address _))

/- A routine keeps a relation that the calls of its key function keep. -/
theorem relates_runBuiltin
    (routine : Builtin)
    (args : List Value)
    (keywords : Keywords Value)
    (hKey :
      (routine.keyFunction args keywords).isNone = false →
        ∀ item,
          relation.Relates
            (call (routine.keyFunction args keywords) [item] [])
            (other (routine.keyFunction args keywords) [item] [])) :
    relation.Relates (runBuiltin call routine args keywords)
      (runBuiltin other routine args keywords) := by
  have hPlain (callee : String) {run : Eval Value}
      (hRun : relation.Relates run run) :
      relation.Relates (noKeywords callee keywords >>= fun _ => run)
        (noKeywords callee keywords >>= fun _ => run) :=
    relation.relates_bind (relates_noKeywords callee keywords) fun _ => hRun
  cases routine with
  | sorted => exact relates_sorted _ _ hKey
  | max => exact relates_extremum _ _ _ args keywords hKey
  | min => exact relates_extremum _ _ _ args keywords hKey
  | listMethod method => exact relates_runList method args keywords hKey
  | len => exact relates_length _
  | sum => exact relates_sum _ _
  | abs => exact relates_abs _
  | round => exact relates_round _ _
  | enumerate => exact relates_enumerate _ _
  | pow => exact relates_pow _ _ _
  | divmod => exact relates_divmod _ _
  | repr =>
      exact relation.relates_bind (relates_onHeap _) fun _ =>
        relation.relates_pure _
  | isinstance => exact relates_isInstanceOf _ _
  | print => exact relates_print args keywords
  | dict => exact relates_toDict args keywords
  | exceptionInit => exact relates_initException args keywords
  | math function => exact relates_runMath function args keywords
  | strMethod method => exact relates_runStr method args keywords
  | dictMethod method => exact relates_runDict method args keywords
  | range => exact hPlain "range" (relates_range args)
  | zip => exact hPlain "zip" (relates_zip args)
  | str => exact hPlain "str" (relates_toStr args)
  | int => exact hPlain "int" (relates_toInt args)
  | float => exact hPlain "float" (relates_toFloat args)
  | bool => exact hPlain "bool" (relates_toBool args)
  | list =>
      exact hPlain "list" (relation.relates_bind
        (relates_itemsOrNone "list" args) relates_newList)
  | tuple =>
      exact hPlain "tuple" (relation.relates_bind
        (relates_itemsOrNone "tuple" args) relates_newTuple)
  | set =>
      exact hPlain "set" (relation.relates_bind
        (relates_itemsOrNone "set" args) relates_newSet)
  | type => exact hPlain "type" (relates_typeOf args)

end KeyFunction

end Eval.Congruence

end SnippetGrader
