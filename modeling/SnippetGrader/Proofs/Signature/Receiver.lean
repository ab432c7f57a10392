import SnippetGrader.Grading.NormalizedCall
import SnippetGrader.Proofs.Signature.WellFormed

/-
  Binding a receiver.

  A method is called with its receiver before the arguments. Its
  callers are shown a signature from which the receiver is
  dropped. Whether a call fits can be read off that signature
  only if the method has a parameter for the receiver, and no
  keyword claims that parameter.

  Key definitions include:
    * `Signature.takesReceiver`
    * `Signature.Fits`

  Key theorems include:
    * `Signature.fits_receiver_iff`
    * `method_fits_iff_shown_fits`
-/

namespace SnippetGrader

namespace Signature

variable {α : Type}

------------------------------------------------------------
-- Receivers
------------------------------------------------------------

/- Whether arguments can be bound to a signature. -/
def Fits
    (signature : Signature)
    (positional : List α)
    (keywords : Keywords α) :
    Prop :=
  ∃ bound, signature.bind positional keywords = .ok bound

/-
  Whether the first parameter takes a receiver. One that could
  be passed by name does so only if no keyword names it.
-/
def takesReceiver
    (signature : Signature)
    (keywords : Keywords α) :
    Bool :=
  match signature.params with
  | [] => false
  | first :: _ =>
      match first.kind with
      | .positionalOnly | .varPositional => true
      | .positionalOrKeyword => !keywords.has first.name
      | .keywordOnly | .varKeyword => false

------------------------------------------------------------
-- Phases with a Receiver
------------------------------------------------------------

section Phases

variable {first : Parameter}
variable {rest : List Parameter}
variable {keywords : Keywords α}

/- A positional parameter collects no keywords. -/
theorem hasVarKeyword_cons_positional
    (hKind : first.kind.isPositional = true) :
    hasVarKeyword ⟨first :: rest⟩ = hasVarKeyword ⟨rest⟩ := by
  have hOther : (first.kind == ParamKind.varKeyword) = false := by
    cases hFirst : first.kind <;> simp_all [ParamKind.isPositional]
  simp [hasVarKeyword, hOther]

/- A first parameter that takes the receiver leaves the rest alone. -/
theorem bindPositional_receiver
    (hKind : first.kind.isPositional = true)
    (hTakes : takesReceiver ⟨first :: rest⟩ keywords = true)
    (receiver : α)
    (args : List α) :
    bindPositional keywords (first :: rest) (receiver :: args) =
      (bindPositional keywords rest args).map fun bound =>
        ((first, some (.value receiver)) :: bound.1, bound.2) := by
  have hFree :
      (first.kind == .positionalOrKeyword &&
        keywords.has first.name) = false := by
    cases hFirst : first.kind <;>
      simp_all [takesReceiver, ParamKind.isPositional]
  cases hFirst : first.kind <;>
    simp only [hFirst, ParamKind.isPositional, Bool.false_eq_true]
      at hKind
  all_goals
    simp only [bindPositional, hFirst]
    rw [hFirst] at hFree
    simp only [hFree, Bool.false_eq_true, if_false]
    cases bindPositional keywords rest args <;> rfl

/- A parameter that is already bound takes no keyword. -/
theorem bindKeywords_bound
    (absorbs : Bool)
    (binding : Binding α)
    (slots : List (Parameter × Option (Binding α))) :
    bindKeywords absorbs ((first, some binding) :: slots) keywords =
      (bindKeywords absorbs slots keywords).map fun bound =>
        ((first, some binding) :: bound.1, bound.2) := by
  simp only [bindKeywords]
  cases bindKeywords absorbs slots keywords <;> rfl

/- Dropping a positional receiver, or binding one, fits alike. -/
theorem fits_positional_receiver_iff
    (hKind : first.kind.isPositional = true)
    (hTakes : takesReceiver ⟨first :: rest⟩ keywords = true)
    (receiver : α)
    (args : List α) :
    Fits ⟨first :: rest⟩ (receiver :: args) keywords ↔
      Fits ⟨rest⟩ args keywords := by
  unfold Fits bind
  cases Keywords.repeated? [] keywords with
  | some name => simp
  | none =>
      simp only [bindPositional_receiver hKind hTakes,
        hasVarKeyword_cons_positional hKind]
      rcases bindPositional keywords rest args with
        fault | ⟨slots, _ | ⟨extra, left⟩⟩
      · simp [Except.map]
      · simp only [Except.map, bindKeywords_bound]
        rcases bindKeywords (hasVarKeyword ⟨rest⟩) slots keywords with
          fault | ⟨bound, _ | ⟨⟨name, arg⟩, left⟩⟩
        · simp
        · simp
        · cases hasVarKeyword ⟨rest⟩ <;> simp
      · simp [Except.map]

/- What collects positional arguments collects a receiver too. -/
theorem fits_gathered_receiver_iff
    (hKind : first.kind = .varPositional)
    (receiver : α)
    (args : List α) :
    Fits ⟨first :: rest⟩ (receiver :: args) keywords ↔
      Fits ⟨first :: rest⟩ args keywords := by
  unfold Fits bind
  cases Keywords.repeated? [] keywords with
  | some name => simp
  | none =>
      simp only [bindPositional, hKind, bindKeywords_bound]
      rcases bindKeywords (hasVarKeyword ⟨first :: rest⟩)
          (unbound rest) keywords with
        fault | ⟨bound, _ | ⟨⟨name, arg⟩, left⟩⟩
      · simp [Except.map]
      · simp [Except.map]
      · cases hasVarKeyword ⟨first :: rest⟩ <;> simp [Except.map]

end Phases

------------------------------------------------------------
-- Calls with a Receiver
------------------------------------------------------------

/- Without a parameter for it, a receiver never fits. -/
theorem not_fits_receiver
    {signature : Signature}
    {keywords : Keywords α}
    (hTakes : signature.takesReceiver keywords = false)
    (receiver : α)
    (args : List α) :
    ¬ signature.Fits (receiver :: args) keywords := by
  rintro ⟨bound, hBind⟩
  obtain ⟨params⟩ := signature
  unfold bind at hBind
  cases hRepeated : Keywords.repeated? [] keywords with
  | some name => simp [hRepeated] at hBind
  | none =>
      simp only [hRepeated] at hBind
      cases params with
      | nil => simp [bindPositional] at hBind
      | cons first rest =>
          cases hKind : first.kind <;>
            simp_all [takesReceiver, bindPositional]

/-
  A call with a receiver fits if its signature has a place for
  the receiver and the signature without it fits.
-/
theorem fits_receiver_iff
    (signature : Signature)
    (receiver : α)
    (args : List α)
    (keywords : Keywords α) :
    signature.Fits (receiver :: args) keywords ↔
      signature.takesReceiver keywords = true ∧
        signature.withoutReceiver.Fits args keywords := by
  cases hTakes : signature.takesReceiver keywords with
  | false => simp [not_fits_receiver hTakes]
  | true =>
      simp only [true_and]
      obtain ⟨_ | ⟨first, rest⟩⟩ := signature
      · cases hTakes
      · cases hKind : first.kind.isPositional with
        | true =>
            rw [fits_positional_receiver_iff hKind hTakes]
            simp [withoutReceiver, hKind]
        | false =>
            have hGathers : first.kind = .varPositional := by
              cases hFirst : first.kind <;>
                simp_all [takesReceiver, ParamKind.isPositional]
            rw [fits_gathered_receiver_iff hGathers]
            simp [withoutReceiver, hKind]

end Signature

------------------------------------------------------------
-- Shown Signatures
------------------------------------------------------------

/- A class shows the signature of its constructor without the receiver. -/
theorem signature_type_of_init
    {heap : Heap}
    {classAddress address : Nat}
    (hInit :
      heap.classAttr? classAddress "__init__" =
        some (.function address)) :
    heap.signature? (.type classAddress) =
      some (heap.function address).signature.withoutReceiver := by
  have hClasses : heap.classes.size ≠ 0 := by
    intro hNone
    have hEmpty : heap.classes = #[] := Array.eq_empty_of_size_eq_zero hNone
    simp [Heap.classAttr?, Heap.classAt, hEmpty, Bindings.get?,
      List.findSome?] at hInit
    cases hInit
  obtain ⟨classes, hSize⟩ := Nat.exists_eq_succ_of_ne_zero hClasses
  simp [Heap.signature?, hSize, Heap.signatureIn, hInit]

/-
  A method and a class show a signature that agrees with the
  call they stand for, in which the receiver is bound before the
  arguments, exactly where that call has a place for it.
-/
theorem method_fits_iff_shown_fits
    (heap : Heap)
    (address : Nat)
    (receiver : Value)
    (args : List Value)
    (keywords : Keywords Value) :
    let declared := (heap.function address).signature
    ∃ shown,
      heap.signature? (.method receiver (.function address)) =
          some shown ∧
        (∀ classAddress,
          heap.classAttr? classAddress "__init__" =
              some (.function address) →
            heap.signature? (.type classAddress) = some shown) ∧
        (declared.Fits (receiver :: args) keywords ↔
          declared.takesReceiver keywords = true ∧
            shown.Fits args keywords) := by
  intro declared
  refine ⟨declared.withoutReceiver, ?_, ?_, ?_⟩
  · unfold Heap.signature?
    cases heap.classes.size <;> rfl
  · intro classAddress hInit
    exact signature_type_of_init hInit
  · exact declared.fits_receiver_iff receiver args keywords

/-
  A method without a parameter for the receiver, and one whose
  receiver is named by a keyword that others collect, show a
  signature that fits where their call does not.
-/
theorem shown_fits_where_method_does_not :
    let fitsOnlyShown (text : String) (keywords : Keywords Value) :=
      (parseSource "snippet.py" text).toOption.any fun program =>
        program.body.any fun stmt =>
          match stmt.form with
          | .functionDef _ params _ =>
              let declared := Signature.ofParams params
              !(declared.bind [Value.none] keywords).isOk &&
                (declared.withoutReceiver.bind [] keywords).isOk
          | _ => false
    fitsOnlyShown "def m(): pass" [] = true ∧
      fitsOnlyShown "def m(self, **rest): pass"
        [("self", .int 1)] = true := by
  decide +kernel

end SnippetGrader
