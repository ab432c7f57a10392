import SnippetGrader.Evaluation.Access

/-
  Reading the arguments of routines.

  Key definitions include:
    * `Caller`
    * `Eval.checkCount`, `Eval.noKeywords`
    * `Eval.asInt`, `Eval.asFloat`, `Eval.asString`
-/

namespace SnippetGrader

/- Calls a value with positional and keyword arguments. -/
abbrev Caller := Value → List Value → Keywords Value → Eval Value

/- The argument for a parameter. One that is missing counts as none. -/
def argument (args : List Value) (index : Nat) : Value :=
  args.getD index .none

namespace Eval

variable {α : Type}

/- Fails unless the number of arguments is in a range. -/
def checkCount (callee : String) (least most : Nat) (args : List Value) : Eval Unit :=
  if args.length < least then
    typeFault (.tooFewArguments callee least args.length)
  else if args.length > most then
    typeFault (.tooManyArguments callee most args.length)
  else pure ()

/- Fails if there are keyword arguments. -/
def noKeywords (callee : String) (keywords : Keywords Value) : Eval Unit :=
  if keywords.isEmpty then pure () else typeFault (.takesNoKeywords callee)

/- Fails if there are keyword arguments left that no one asked for. -/
def noOtherKeywords (callee : String) : Keywords Value → Eval Unit
  | [] => pure ()
  | (keyword, _) :: _ => typeFault (.unknownKeyword keyword callee)

/- Takes a keyword argument, if it is given. -/
def takeKeyword (keywords : Keywords Value) (name : String) : Option Value × Keywords Value :=
  match keywords.take? name with
  | some (value, rest) => (some value, rest)
  | none => (none, keywords)

/- An argument that must be an integer. -/
def asInt (what : String) : Value → Eval Int
  | .int n => return n
  | .bool value => return if value then 1 else 0
  | other => do typeFault (.notInteger what (← typeName other))

/- An argument that must be a number. -/
def asFloat (value : Value) : Eval Float := do
  match Numeral.of? value with
  | some number => return number.toFloat
  | none => typeFault (.notReal (← typeName value))

/- An argument that must be a string. -/
def asString (what : String) : Value → Eval String
  | .str text => return text
  | other => do typeFault (.notString what (← typeName other))

/- The receiver of a method of strings. -/
def receiverString (args : List Value) : Eval String :=
  match args with
  | .str text :: _ => return text
  | _ => typeFault (.receiver "str")

/- The receiver of a method of lists. -/
def receiverList (args : List Value) : Eval Nat :=
  match args with
  | .list address :: _ => return address
  | _ => typeFault (.receiver "list")

/- The receiver of a method of dicts. -/
def receiverDict (args : List Value) : Eval Nat :=
  match args with
  | .dict address :: _ => return address
  | _ => typeFault (.receiver "dict")

end Eval

end SnippetGrader
