import ShardQuery.Function.Basic
import ShardQuery.Text.Case

/-!
# Function Registry

Plans name functions by text. A `Registry` holds one signature for every name in lower
case; a signature registered later replaces one whose name differs in case only. Looking a
function up checks the number of arguments and the kind of the function.
-/

namespace ShardQuery

/-- What is wrong with the arguments of a function. -/
inductive ArgumentFault where
  /-- An argument has a type that the function does not take. -/
  | unexpectedType (typeName : String)
  /-- A function of one argument is given another number. -/
  | wrongCount (count : Nat)
deriving DecidableEq, Repr

/-- A reason why a function cannot be used. -/
inductive FunctionError where
  /-- The name is not registered. -/
  | notFound (name : String)
  /-- The number of arguments is not accepted. -/
  | arityMismatch (signature : Signature) (count : Nat)
  /-- A function of groups is used as a function of values. -/
  | notScalar (name : String)
  /-- A function of values is used as a function of groups. -/
  | notAggregate (name : String)
  /-- The arguments do not suit the function. -/
  | invalidArgument (function : ScalarFunction) (fault : ArgumentFault)
deriving DecidableEq, Repr

/-- The wording of a fault, without the function that found it. -/
def ArgumentFault.message : ArgumentFault → String
  | .unexpectedType typeName => s!"unexpected {typeName} argument"
  | .wrongCount count => s!"expects 1 argument, got {count}"

/-- The wording of an error. Names are shown as the plan writes them, except that a wrong number of
arguments shows the registered name. -/
def FunctionError.message : FunctionError → String
  | .notFound name => s!"Function not found: {name}"
  | .arityMismatch signature count =>
    s!"Function {signature.name} expects {signature.arity} argument(s), got {count}"
  | .notScalar name => s!"Function {name} is not a scalar function"
  | .notAggregate name => s!"Function {name} is not an aggregate function"
  | .invalidArgument function fault =>
    s!"Invalid argument to {function.name}: " ++ fault.message

/-- The functions that plans can name, and the version under which they are known as a set. -/
structure Registry where
  /-- The version of the set of functions. -/
  version : String
  /-- The signatures, each after its name in lower case. -/
  entries : List (String × Signature)

namespace Registry

/-- Registers a signature, in the place of one whose name differs in case only. -/
def register (registry : Registry) (signature : Signature) : Registry :=
  let key := lowerCase signature.name
  { registry with entries := (key, signature) :: registry.entries.filter (·.1 != key) }

/-- Registers signatures one after the other, so that of equal names the last one stays. -/
def registerAll (registry : Registry) (signatures : List Signature) : Registry :=
  signatures.foldl register registry

/-- The signatures of the functions that are always there. -/
def builtins : List Signature :=
  [ScalarFunction.size, .length, .lower, .upper, .abs].map
      (fun function => ⟨function.name, 1, some 1, .scalar function⟩) ++
    [ScalarFunction.concat, .coalesce].map
      (fun function => ⟨function.name, 1, none, .scalar function⟩) ++
    AggregateFunction.all.map fun function =>
      let count := if function = .countStar then 0 else 1
      ⟨function.name, count, some count, .aggregate function⟩

/-- The registry of the functions that are always there. -/
def standard (version : String) : Registry :=
  (⟨version, []⟩ : Registry).registerAll builtins

/-- The version of the registry that engines use by themselves. -/
def standardVersion : String :=
  "0.1.0"

/-- The signature of a name, provided that it accepts a number of arguments. -/
def lookup (registry : Registry) (name : String) (count : Nat) :
    Except FunctionError Signature :=
  match registry.entries.find? (·.1 == lowerCase name) with
  | none => .error (.notFound name)
  | some (_, signature) =>
    if signature.accepts count then .ok signature
    else .error (.arityMismatch signature count)

/-- The function of values of a name, for a call with a number of arguments. That number is checked
before the kind is. -/
def scalar (registry : Registry) (name : String) (count : Nat) :
    Except FunctionError ScalarFunction := do
  match (← registry.lookup name count).kind with
  | .scalar function => .ok function
  | .aggregate _ => .error (.notScalar name)

/-- The function of groups of a name, for a call with a number of arguments. That number is checked
before the kind is. -/
def aggregate (registry : Registry) (name : String) (count : Nat) :
    Except FunctionError AggregateFunction := do
  match (← registry.lookup name count).kind with
  | .aggregate function => .ok function
  | .scalar _ => .error (.notAggregate name)

/-- All signatures in the order of their names. -/
def signatures (registry : Registry) : List Signature :=
  (registry.entries.map (·.2)).mergeSort fun a b => (compare a.name b.name).isLE

end Registry

end ShardQuery
