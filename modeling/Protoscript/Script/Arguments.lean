import Protoscript.Script.Error

/-!
# Binding arguments

A function has a list of parameters, the first few of which are required. Positional arguments fill
the parameters from the front, keyword arguments fill those of their names.

* `bindArguments` — binds the arguments of a call;
* `BoundArguments.takeOption`, `BoundArguments.take` — takes the value of a parameter out, once.
-/

namespace Protoscript

/-- The values bound to the parameters, in their order. -/
structure BoundArguments where
  /-- for each parameter its value, if it has one that was not taken -/
  values : List (Option Value)
  deriving Inhabited

namespace BoundArguments

/-- Takes the value of a parameter, if it has one. -/
def takeOption (b : BoundArguments) (index : Nat) : Option Value × BoundArguments :=
  ((b.values[index]?).join, ⟨b.values.set index none⟩)

/-- Takes the value of a parameter; one without a value gives the absent value. -/
def take (b : BoundArguments) (index : Nat) : Value × BoundArguments :=
  let r := b.takeOption index
  (r.1.getD .absent, r.2)

/-- The value of a parameter that is taken only once. -/
def value? (b : BoundArguments) (index : Nat) : Option Value := (b.takeOption index).1

/-- The value of a parameter that is taken only once, or the absent value. -/
def value (b : BoundArguments) (index : Nat) : Value := (b.take index).1

end BoundArguments

/-- The values that positional arguments give to a number of parameters. -/
def bindPositional : (count : Nat) → List Value → List (Option Value)
  | 0, _ => []
  | count + 1, [] => none :: bindPositional count []
  | count + 1, v :: rest => some v :: bindPositional count rest

/-- Adds the keyword arguments, in order. -/
def bindKeywords (callee : String) (params : List String) :
    List (Option Value) → Keywords → Except Error (List (Option Value))
  | values, [] => .ok values
  | values, (name, value) :: rest =>
    match params.findIdx? (· == name) with
    | none => .error (.unexpectedKeyword callee name)
    | some i =>
      if (values[i]?).join.isSome then .error (.duplicateArgument callee name)
      else bindKeywords callee params (values.set i (some value)) rest

/-- The first of the required parameters that has no value. -/
def firstMissing? : (required : Nat) → List String → List (Option Value) → Option String
  | 0, _, _ => none
  | _ + 1, [], _ => none
  | _ + 1, name :: _, [] => some name
  | _ + 1, name :: _, none :: _ => some name
  | required + 1, _ :: params, some _ :: values => firstMissing? required params values

/-- Binds the arguments of a call; the first `required` parameters must get a value. -/
def bindArguments (callee : String) (args : List Value) (keywords : Keywords)
    (params : List String) (required : Nat) : Except Error BoundArguments :=
  if params.length < args.length then
    .error (.tooManyArguments callee params.length args.length)
  else
    match bindKeywords callee params (bindPositional params.length args) keywords with
    | .error e => .error e
    | .ok values =>
      match firstMissing? required params values with
      | some name => .error (.missingArgument callee name)
      | none => .ok ⟨values⟩

end Protoscript
