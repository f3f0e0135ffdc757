import ShardQuery.Json.Fields
import ShardQuery.Value.Codec

/-!
# Functions

The functions that expressions and groups may use, and the signatures under which they are
registered. A signature gives a function a name and a range of argument counts; several
signatures may name one function.
-/

namespace ShardQuery

/-- A function of values, which expressions may call on the fields of a row. -/
inductive ScalarFunction where
  /-- The number of items or fields. -/
  | size
  /-- The number of characters. -/
  | length
  /-- Lower case. -/
  | lower
  /-- Upper case. -/
  | upper
  /-- The absolute value. -/
  | abs
  /-- The texts of all arguments in a row. -/
  | concat
  /-- The first argument that is not absent. -/
  | coalesce
deriving DecidableEq, Repr

/-- A function of the rows of a group. -/
inductive AggregateFunction where
  /-- The sum of numbers. -/
  | sum
  /-- The number of values that are not absent. -/
  | count
  /-- The number of rows. -/
  | countStar
  /-- The least value. -/
  | min
  /-- The greatest value. -/
  | max
  /-- The mean of numbers. -/
  | avg
  /-- All values that are not absent. -/
  | collect
deriving DecidableEq, Repr

/-- A function of either kind; the kind decides where a plan may name it. -/
inductive FunctionKind where
  /-- A function of values. -/
  | scalar (function : ScalarFunction)
  /-- A function of groups. -/
  | aggregate (function : AggregateFunction)
deriving DecidableEq, Repr

/-- A registered function, with the name and the numbers of arguments it is registered under. -/
structure Signature where
  /-- The name under which it is registered. -/
  name : String
  /-- The least number of arguments. -/
  minArgs : Nat
  /-- The greatest number of arguments, if there is one. -/
  maxArgs : Option Nat
  /-- The function. -/
  kind : FunctionKind
deriving DecidableEq, Repr

/-- The name of a function of values, under which it is registered unless it has been renamed. -/
def ScalarFunction.name : ScalarFunction → String
  | .size => "size"
  | .length => "length"
  | .lower => "lower"
  | .upper => "upper"
  | .abs => "abs"
  | .concat => "concat"
  | .coalesce => "coalesce"

/-- All functions of values, among which a name in a document is looked up. -/
def ScalarFunction.all : List ScalarFunction :=
  [.size, .length, .lower, .upper, .abs, .concat, .coalesce]

/-- The function of values of a given name. -/
def ScalarFunction.ofName? (name : String) : Option ScalarFunction :=
  ScalarFunction.all.find? fun function => function.name == name

/-- The name of a function of groups, under which it is registered unless it has been renamed. -/
def AggregateFunction.name : AggregateFunction → String
  | .sum => "sum"
  | .count => "count"
  | .countStar => "count_star"
  | .min => "min"
  | .max => "max"
  | .avg => "avg"
  | .collect => "collect"

/-- All functions of groups, among which a name in a document is looked up. -/
def AggregateFunction.all : List AggregateFunction :=
  [.sum, .count, .countStar, .min, .max, .avg, .collect]

/-- The function of groups of a given name. -/
def AggregateFunction.ofName? (name : String) : Option AggregateFunction :=
  AggregateFunction.all.find? fun function => function.name == name

namespace Signature

/-- Whether a signature accepts a number of arguments. -/
def accepts (signature : Signature) (count : Nat) : Bool :=
  decide (signature.minArgs ≤ count) && signature.maxArgs.all fun most => decide (count ≤ most)

/-- The wording of the accepted numbers of arguments. -/
def arity (signature : Signature) : String :=
  match signature.maxArgs with
  | some most =>
    if most = signature.minArgs then toString most
    else s!"{signature.minArgs}..={most}"
  | none => s!"at least {signature.minArgs}"

end Signature

/-! ### JSON -/

/-- The document of a kind: the name of the kind, and beside it the function of that kind. -/
def FunctionKind.toJson : FunctionKind → Json
  | .scalar function =>
    .object [("type", .string "scalar"), ("function", .string function.name)]
  | .aggregate function =>
    .object [("type", .string "aggregate"), ("function", .string function.name)]

/-- The kind of a document. A function that stands before its type is set aside until the
type is known. -/
def FunctionKind.ofJson? (document : Json) : Option FunctionKind := do
  let members ← document.toRecord? ⟨["type", "function"], 2⟩
  let first := members.find? fun member => member.1 == "type" || member.1 == "function"
  let buffered := first.any fun member => member.1 == "function"
  let name ← Json.required? members "function" (Json.toName? buffered)
  match ← Json.required? members "type" (Json.toName? false) with
  | "scalar" => (ScalarFunction.ofName? name).map .scalar
  | "aggregate" => (AggregateFunction.ofName? name).map .aggregate
  | _ => none

/-- The document of a signature. Without a greatest number of arguments it has a `null` there. -/
def Signature.toJson (signature : Signature) : Json :=
  .object [
    ("name", .string signature.name),
    ("min_args", .int signature.minArgs),
    ("max_args", match signature.maxArgs with | some most => .int most | none => .null),
    ("kind", signature.kind.toJson)]

/-- The signature of a document. A missing greatest number of arguments is as good as `null`, all
else must be there. -/
def Signature.ofJson? (document : Json) : Option Signature := do
  let members ← document.toRecord? ⟨["name", "min_args", "max_args", "kind"], 4⟩
  let name ← Json.required? members "name" Json.toString?
  let minArgs ← Json.required? members "min_args" Json.toWord?
  let maxArgs ← Json.optional? members "max_args" Json.toWord?
  let kind ← Json.required? members "kind" FunctionKind.ofJson?
  return ⟨name, minArgs, maxArgs, kind⟩

end ShardQuery
