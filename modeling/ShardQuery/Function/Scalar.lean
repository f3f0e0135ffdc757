import ShardQuery.Function.Registry

/-!
# Functions of Values

What the functions of values compute. Functions of one argument give the absent value for
it; `concat` passes over absent values, and `coalesce` looks for the first other one.
-/

namespace ShardQuery

/-- Doubles within texts are written without an exponent and without a fraction if they are
whole; of two equally near digit strings the greater one is written. -/
def plainDoubleStyle : DecimalStyle :=
  ⟨.up, none, false⟩

/-- The text that a value contributes to a longer one, none for arrays and maps. -/
def Value.plainText? : Value → Option String
  | .null => some ""
  | .string s => some s
  | .int i => some (toString i.toInt)
  | .double d => some (d.render plainDoubleStyle)
  | .bool true => some "true"
  | .bool false => some "false"
  | .array _ | .map _ => none

/-- The absolute value of an integer: a double for the one whose absolute value is no
integer of sixty-four bits. -/
def Value.absInt (i : Int64) : Value :=
  match int64? i.toInt.natAbs with
  | some exact => .int exact
  | none => .double (Double.ofInt i.toInt.natAbs)

namespace ScalarFunction

/-- The text of all arguments in a row. -/
def concatenate : List Value → Except FunctionError String
  | [] => .ok ""
  | arg :: args =>
    match arg.plainText? with
    | some text => do return text ++ (← concatenate args)
    | none => .error (.invalidArgument .concat (.unexpectedType arg.typeName))

/-- The value of a function of one argument, which is not absent; none if the argument has
a type that the function does not take. -/
def applyOne? : ScalarFunction → Value → Option Value
  | .size, .array items => some (.int (Int64.ofNat items.length))
  | .size, .map fields => some (.int (Int64.ofNat fields.length))
  | .length, .string s => some (.int (Int64.ofNat s.length))
  | .lower, .string s => some (.string (lowerCase s))
  | .upper, .string s => some (.string (upperCase s))
  | .abs, .int i => some (Value.absInt i)
  | .abs, .double d => some (.double d.abs)
  | _, _ => none

/-- The value of a function. One of a single argument has an absent value for an absent argument,
and fails for a value of a type that it does not take. -/
def apply (function : ScalarFunction) (args : List Value) : Except FunctionError Value :=
  match function with
  | .coalesce => .ok ((args.find? fun arg => !arg.isNull).getD .null)
  | .concat => (concatenate args).map .string
  | _ =>
    match args with
    | [.null] => .ok .null
    | [arg] =>
      match function.applyOne? arg with
      | some value => .ok value
      | none => .error (.invalidArgument function (.unexpectedType arg.typeName))
    | _ => .error (.invalidArgument function (.wrongCount args.length))

end ScalarFunction

end ShardQuery
