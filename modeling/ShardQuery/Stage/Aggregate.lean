import ShardQuery.Error
import ShardQuery.Value.Codec
import ShardQuery.Value.Order

/-!
# Running Aggregates

What a function of groups has computed from the rows so far. Absent values do not count,
except for a function that counts rows and gets no values at all.
-/

namespace ShardQuery

/-- The state of a function of groups, all that it keeps of the rows it has seen. -/
inductive AggregateState where
  /-- The sum so far, absent before the first number. -/
  | sum (total : Value)
  /-- The count so far. -/
  | count (count : Int64)
  /-- The least value so far, absent before the first. -/
  | min (value : Value)
  /-- The greatest value so far, absent before the first. -/
  | max (value : Value)
  /-- The sum and the count so far. -/
  | avg (sum : Double) (count : Int64)
  /-- The values so far. -/
  | collect (items : List Value)

namespace AggregateState

/-- The state before the first row, which is also the state of a group without rows. -/
def start : AggregateFunction → AggregateState
  | .sum => .sum .null
  | .count | .countStar => .count 0
  | .min => .min .null
  | .max => .max .null
  | .avg => .avg (Double.zero false) 0
  | .collect => .collect []

/-- The sum of a sum so far and a value that is not absent. Integers that do not fit
sixty-four bits become doubles. -/
def addTo (total value : Value) : Except QueryError Value :=
  match total, value with
  | .int a, .int b =>
    match int64? (a.toInt + b.toInt) with
    | some exact => .ok (.int exact)
    | none => .ok (.double ((Double.ofInt a.toInt).add (Double.ofInt b.toInt)))
  | _, _ =>
    if total.isNull && value.isNumeric then .ok value
    else
      match total.asDouble?, value.asDouble? with
      | some a, some b => .ok (.double (a.add b))
      | _, _ =>
        .error (.aggregation .sum (if value.isNumeric then total.typeName else value.typeName))

/-- Takes in a value that is not absent. -/
def accept (value : Value) : AggregateState → Except QueryError AggregateState
  | .sum total => do return .sum (← addTo total value)
  | .count n => .ok (.count (n + 1))
  | .min current =>
    if current.isNull || value.compare current == .lt then .ok (.min value) else .ok (.min current)
  | .max current =>
    if current.isNull || value.compare current == .gt then .ok (.max value) else .ok (.max current)
  | .avg total n =>
    match value.asDouble? with
    | some d => .ok (.avg (total.add d) (n + 1))
    | none => .error (.aggregation .avg value.typeName)
  | .collect items => .ok (.collect (items ++ [value]))

/-- Takes in a row: its value, if the function gets values. -/
def update (input : Option Value) (state : AggregateState) : Except QueryError AggregateState :=
  match input with
  | none =>
    match state with
    | .count n => .ok (.count (n + 1))
    | state => .ok state
  | some value => if value.isNull then .ok state else state.accept value

/-- The value of the function for the rows so far; a mean of no numbers is absent. -/
def finish : AggregateState → Value
  | .sum total => total
  | .count n => .int n
  | .min value => value
  | .max value => value
  | .avg total n => if n = 0 then .null else .double (total.div (Double.ofInt n.toInt))
  | .collect items => .array items

/-- The memory that a state is charged for. -/
def sizeEstimate : AggregateState → Nat
  | .sum value | .min value | .max value => value.sizeEstimate
  | .count _ | .avg .. => Value.overhead
  | .collect items => Value.overhead + Value.itemsSize items

/-! ### JSON -/

/-- The document of a state: the function under `agg`, and behind it what the state holds. -/
def toJson : AggregateState → Json
  | .sum total => .object [("agg", .string "sum"), ("total", total.toJson)]
  | .count n => .object [("agg", .string "count"), ("count", .int n.toInt)]
  | .min value => .object [("agg", .string "min"), ("value", value.toJson)]
  | .max value => .object [("agg", .string "max"), ("value", value.toJson)]
  | .avg total n =>
    .object [("agg", .string "avg"), ("sum", (Value.double total).toJson), ("count", .int n.toInt)]
  | .collect items =>
    .object [("agg", .string "collect"), ("items", .array (Value.itemsToJson items))]

/-- A count in a state, a signed integer of sixty-four bits. -/
def countOfJson? : Json → Option Int64
  | .int i => int64? i
  | _ => none

/-- The sum in a state of a mean: any number, taken as the nearest double. -/
def sumOfJson? (document : Json) : Option Double :=
  (Value.ofJson? document).bind Value.asDouble?

/-- The values that a state has collected, in their order. -/
def itemsOfJson? : Json → Option (List Value)
  | .array items => Value.itemsOfJson? items
  | _ => none

/-- The forms of a state, by the names that functions of groups have in documents of states. -/
def variants : List Json.Variant :=
  [⟨"sum", ⟨["total"], 1⟩⟩, ⟨"count", ⟨["count"], 1⟩⟩, ⟨"min", ⟨["value"], 1⟩⟩,
    ⟨"max", ⟨["value"], 1⟩⟩, ⟨"avg", ⟨["sum", "count"], 2⟩⟩, ⟨"collect", ⟨["items"], 1⟩⟩]

/-- The state of a document. It is a part of the state of a node and thus buffered. -/
def ofJson? (document : Json) : Option AggregateState := do
  let (function, members) ← document.toTagged? "agg" variants true
  match function with
  | "sum" => return .sum (← Json.required? members "total" Value.ofJson?)
  | "count" => return .count (← Json.required? members "count" countOfJson?)
  | "min" => return .min (← Json.required? members "value" Value.ofJson?)
  | "max" => return .max (← Json.required? members "value" Value.ofJson?)
  | "avg" =>
    let sum ← Json.required? members "sum" sumOfJson?
    let count ← Json.required? members "count" countOfJson?
    return .avg sum count
  | "collect" => return .collect (← Json.required? members "items" itemsOfJson?)
  | _ => none

end AggregateState

end ShardQuery
