import ShardQuery.Execution
import ShardQuery.Proofs.Total

/-!
# The Meaning of Plans

What a plan means apart from any execution: a function from the rows of its shards to the
rows of its result. It is computed from the scan outward on whole lists, with no account, no
pages and no state.

Main definitions:

* `Meaning.merged`, `Meaning.grouped`, `Meaning.deduplicated`, `Meaning.sliced` — what single
  steps do with whole lists;
* `CompiledStep.rowsOf` — the rows behind a step;
* `Plan.rowsOf` — the rows of a plan.
-/

namespace ShardQuery

namespace Meaning

/-! ### Merging -/

/-- The list with the least first row, among lists from a place on: its place, its first row
and the rows behind. Of equal rows the one of the first list counts; `best` is the best one
before. -/
def leastFront (keys : List OrderKey) (best : Option (Nat × Row × List Row)) (index : Nat) :
    List (List Row) → Option (Nat × Row × List Row)
  | [] => best
  | [] :: lists => leastFront keys best (index + 1) lists
  | (row :: rows) :: lists =>
    match best with
    | none => leastFront keys (some (index, row, rows)) (index + 1) lists
    | some (i, least, others) =>
      if Row.compareBy keys row least = .lt then
        leastFront keys (some (index, row, rows)) (index + 1) lists
      else leastFront keys (some (i, least, others)) (index + 1) lists

/-- Takes the least first row of some lists again and again, so many times at most. -/
def mergeUpTo (keys : List OrderKey) : Nat → List (List Row) → List Row
  | 0, _ => []
  | count + 1, lists =>
    match leastFront keys none 0 lists with
    | some (index, row, rows) => row :: mergeUpTo keys count (lists.set index rows)
    | none => []

/-- The rows of lists that are merged by keys. -/
def merged (keys : List OrderKey) (lists : List (List Row)) : List Row :=
  mergeUpTo keys (total List.length lists) lists

/-! ### Grouping -/

/-- Whether a row has key values that are equal to given ones in their order. -/
def inGroup (keys : List OrderKey) (key : List Value) (row : Row) : Bool :=
  compareKeyValues keys (row.keyValues keys) key == .eq

/-- The maximal stretches of neighbouring rows that are equal under the keys to the first one
of their stretch. -/
def stretches (keys : List OrderKey) : List Row → List (List Row)
  | [] => []
  | first :: rows =>
    (first :: rows.takeWhile (inGroup keys (first.keyValues keys))) ::
      stretches keys (rows.dropWhile (inGroup keys (first.keyValues keys)))
termination_by rows => rows.length
decreasing_by
  have := (List.dropWhile_sublist (inGroup keys (first.keyValues keys)) :
    List.Sublist _ rows).length_le
  simp only [List.length_cons]
  omega

variable (bindings : Bindings)

/-- The state of an aggregation after rows, taken in one by one from the state before. It fails as
soon as one of the rows does. -/
def accumulated (aggregation : Aggregation) (state : AggregateState) (rows : List Row) :
    Except QueryError AggregateState :=
  rows.foldlM (fun state row => do
    state.update (← Stage.Aggregation.input aggregation row bindings)) state

/-- The row of a group with given key values: these, and the values of the aggregations over
its rows. -/
def summary (keys : List OrderKey) (aggregations : List Aggregation) (key : List Value)
    (rows : List Row) : Except QueryError Row := do
  let states ← aggregations.mapM fun aggregation =>
    accumulated bindings aggregation (.start aggregation.function) rows
  return Row.ofList ((keys.map (·.field)).zip key ++
    (aggregations.map (·.name)).zip (states.map AggregateState.finish))

/-- One row for every stretch of rows; without keys, one row for all of them. -/
def grouped (keys : List OrderKey) (aggregations : List Aggregation) (rows : List Row) :
    Except QueryError (List Row) :=
  if keys.isEmpty then do return [← summary bindings keys aggregations [] rows]
  else
    (stretches keys rows).mapM fun stretch =>
      summary bindings keys aggregations ((stretch.head?.map (Row.keyValues keys)).getD []) stretch

/-! ### Dropping repeated rows -/

/-- Whether a key repeats those of the rows that were kept, the latest first: that of the
latest one, or any of them. -/
def repeats (strategy : DistinctStrategy) (kept : List (List Value)) (key : List Value) : Bool :=
  match strategy with
  | .adjacent => kept.head?.any (Stage.sameKey · key)
  | .hashed => kept.any fun other => Stage.keyText other == Stage.keyText key

/-- The rows that do not repeat those kept before. -/
def deduplicated (keys : List String) (strategy : DistinctStrategy) (kept : List (List Value)) :
    List Row → List Row
  | [] => []
  | row :: rows =>
    if repeats strategy kept (Stage.distinctKey keys row) then
      deduplicated keys strategy kept rows
    else row :: deduplicated keys strategy (Stage.distinctKey keys row :: kept) rows

/-! ### Projecting and slicing -/

/-- The row that a projection makes of a row. -/
def projected (fields : List (String × Formula)) (row : Row) : Except QueryError Row := do
  return Row.ofList (← fields.mapM fun field => do
    return (field.1, ← field.2.eval row bindings))

/-- The rows behind an offset, so many at most. -/
def sliced (offset : Nat) (limit : Option Nat) (rows : List Row) : List Row :=
  match limit with
  | some most => (rows.drop offset).take most
  | none => rows.drop offset

end Meaning

/-! ### Plans -/

open Meaning

/-- The rows behind a step, given those in front of it: the meaning of the step on whole lists,
without states, signals or pages. -/
def CompiledStep.rowsOf (bindings : Bindings) (rows : List Row) :
    CompiledStep → Except QueryError (List Row)
  | .sort _ .merge => .ok rows
  | .sort keys .materialize => .ok (Row.sortBy keys rows)
  | .groupBy keys aggregations => grouped bindings keys aggregations rows
  | .distinct keys strategy => .ok (deduplicated keys strategy [] rows)
  | .project fields => rows.mapM (projected bindings fields)
  | .slice offset limit => do
    let offset ← Pipeline.bound bindings "offset" offset
    let limit ← Pipeline.bound bindings "limit" limit
    return sliced (offset.getD 0) limit rows

/-- The rows behind steps, the outermost first, each step applied to the list behind the ones inside
of it. -/
def rowsOfSteps (bindings : Bindings) (rows : List Row) :
    List CompiledStep → Except QueryError (List Row)
  | [] => .ok rows
  | step :: inner => do step.rowsOf bindings (← rowsOfSteps bindings rows inner)

/-- The rows that a scan below steps makes of the rows of its shards: one list after the
other, or merged for a merging sort. -/
def rowsOfScan (steps : List CompiledStep) (lists : List (List Row)) : List Row :=
  match steps.getLast? with
  | some (.sort keys .merge) => merged keys lists
  | _ => lists.flatten

/-- The rows of a plan over the rows of the shards. -/
def Plan.rowsOf (registry : Registry) (bindings : Bindings) (plan : Plan)
    (contents : ShardId → List Row) : Except QueryError (List Row) := do
  let steps ← (compileSteps registry plan.steps).mapError .function
  rowsOfSteps bindings (rowsOfScan steps (plan.scan.shards.map contents)) steps

end ShardQuery
