import ShardQuery.Formula
import ShardQuery.Memory
import ShardQuery.Row.Order
import ShardQuery.Stage.State

/-!
# Stages

A `Stage` is a step of a running query: the step, its functions looked up, together with
its state. Rows are pushed into it one by one, and each time it says by a `Signal` what
becomes of that: a row is sent on, the rows are at their end, or nothing is to be seen yet.

* `Stage.ready?` — what a stage does by itself, before it takes another row;
* `Stage.accept` — what it does with a row;
* `Stage.finish` — what it does at the end of the rows.

Every one of them changes the memory account by the change of `Stage.trackedBytes`, also
when it fails on the way.
-/

namespace ShardQuery

/-- What becomes visible of a stage or of a source when it has done something. -/
inductive Signal where
  /-- A row is sent on. -/
  | row (row : Row)
  /-- There are no more rows. -/
  | exhausted
  /-- Shards, by their place in the scan, must be asked for rows first. -/
  | fetch (shards : List Nat)
  /-- Nothing yet. -/
  | again

/-- A field computed from the rows of a group. -/
structure Aggregation where
  /-- The name of the field. -/
  name : String
  /-- The function. -/
  function : AggregateFunction
  /-- The argument; a function that is given none counts rows. -/
  arg : Option Formula

/-- A step with its functions looked up, before a query is started from it. -/
inductive CompiledStep where
  /-- Sorts the rows. -/
  | sort (keys : List OrderKey) (mode : SortMode)
  /-- Collects neighbouring rows with equal keys into one. -/
  | groupBy (keys : List OrderKey) (aggregations : List Aggregation)
  /-- Drops rows whose key fields have been seen before. -/
  | distinct (keys : List String) (strategy : DistinctStrategy)
  /-- Computes new rows. -/
  | project (fields : List (String × Formula))
  /-- Skips rows and limits their number. -/
  | slice (offset limit : Option Formula)

/-- A step of a running query: the step, with its functions and bounds settled, and its state. -/
inductive Stage where
  /-- Sorts the rows; for rows that come merged, there is nothing to do. -/
  | sort (keys : List OrderKey) (mode : SortMode) (state : SortState)
  /-- Collects neighbouring rows with equal keys into one. -/
  | groupBy (keys : List OrderKey) (aggregations : List Aggregation) (state : GroupState)
  /-- Drops rows whose key fields have been seen before. -/
  | distinct (keys : List String) (strategy : DistinctStrategy) (state : DistinctState)
  /-- Computes new rows. -/
  | project (fields : List (String × Formula))
  /-- Skips some rows and limits the number of the others. -/
  | slice (offset : UInt64) (limit : Option UInt64) (state : SliceState)

/-! ### Looking functions up -/

/-- Looks up the function of an aggregate call, then those of its first argument. Further
arguments are never computed. -/
def AggregateCall.compile (registry : Registry) (call : AggregateCall) :
    Except FunctionError Aggregation := do
  let function ← registry.aggregate call.function call.args.length
  match call.args with
  | [] => return ⟨call.name, function, none⟩
  | arg :: _ => return ⟨call.name, function, some (← Formula.compile registry arg)⟩

/-- Looks up the functions of an expression that may be absent. -/
def compileOptional (registry : Registry) : Option Expr → Except FunctionError (Option Formula)
  | some e => do return some (← Formula.compile registry e)
  | none => .ok none

/-- Looks up the functions of a step. The keys of sorts, groups and repeated rows name fields and no
functions. -/
def Step.compile (registry : Registry) : Step → Except FunctionError CompiledStep
  | .sort keys mode => .ok (.sort keys mode)
  | .groupBy keys aggregates => do
    return .groupBy keys (← aggregates.mapM (AggregateCall.compile registry))
  | .distinct keys strategy => .ok (.distinct keys strategy)
  | .project fields => do
    return .project (← fields.mapM fun field => do
      return (field.name, ← Formula.compile registry field.expr))
  | .slice offset limit => do
    let offset ← compileOptional registry offset
    let limit ← compileOptional registry limit
    return .slice offset limit

/-- Looks up the functions of steps, those of the innermost step first. -/
def compileSteps (registry : Registry) : List Step → Except FunctionError (List CompiledStep)
  | [] => .ok []
  | step :: inner => do
    let inner ← compileSteps registry inner
    return (← step.compile registry) :: inner

/-! ### States -/

namespace Stage

/-- The state of a stage, the part of it that a token holds. -/
def state : Stage → NodeState
  | .sort _ _ state => .sort state
  | .groupBy _ _ state => .groupBy state
  | .distinct _ _ state => .distinct state
  | .project _ => .project
  | .slice _ _ state => .slice state

/-- The memory that a stage is charged for. -/
def trackedBytes (stage : Stage) : Nat :=
  stage.state.trackedBytes

/-- The stage without the rows and keys that it held. -/
def cleared : Stage → Stage
  | .sort keys mode _ => .sort keys mode .start
  | .groupBy keys aggregations _ => .groupBy keys aggregations .start
  | .distinct keys strategy _ => .distinct keys strategy .start
  | .project fields => .project fields
  | .slice offset limit state => .slice offset limit state

/-! ### Sorting -/

/-- The next row of a sort whose rows have been sorted. -/
def popSorted (state : SortState) : Metered SortState Signal :=
  match state.buffer with
  | [] => .done state .exhausted
  | row :: rows =>
    let size := row.sizeEstimate
    let popped := { state with buffer := rows, bytes := state.bytes - size }
    .after (.release size) popped (.done popped (.row row))

/-- Keeps a row to be sorted and charges for it. If the memory does not suffice the row is lost. -/
def keepForSort (row : Row) (state : SortState) : Metered SortState Signal :=
  let size := row.sizeEstimate
  .after (.reserve size NodeKind.sort.name) state <|
    .done { state with buffer := state.buffer ++ [row], bytes := state.bytes + size } .again

/-! ### Grouping -/

/-- The value that an aggregation takes from a row: none if it counts rows. -/
def Aggregation.input (aggregation : Aggregation) (row : Row) (bindings : Bindings) :
    Except QueryError (Option Value) :=
  match aggregation.function, aggregation.arg with
  | .countStar, _ => .ok none
  | _, none => .ok none
  | _, some arg => (arg.eval row bindings).map some

/-- The states of aggregations after a row, one for each aggregation as far as there are
states. -/
def accumulate (row : Row) (bindings : Bindings) :
    List Aggregation → List AggregateState → Except QueryError (List AggregateState)
  | aggregation :: aggregations, state :: states => do
    let input ← Aggregation.input aggregation row bindings
    let state ← state.update input
    return state :: (← accumulate row bindings aggregations states)
  | [], states => .ok states
  | _, [] => .ok []

/-- A group without rows, whose aggregates have not seen any. -/
def openGroup (aggregations : List Aggregation) (key : List Value) : OpenGroup :=
  ⟨key, aggregations.map fun aggregation => .start aggregation.function⟩

/-- The row of a group: its key, then the values of its aggregates. -/
def groupRow (keys : List OrderKey) (aggregations : List Aggregation) (group : OpenGroup) : Row :=
  Row.ofList ((keys.map (·.field)).zip group.key ++
    (aggregations.map (·.name)).zip (group.aggregates.map AggregateState.finish))

/-- The change of the memory charged for the group in the making. -/
def recharge (charged wanted : Nat) : MemoryEvent :=
  if charged < wanted then .reserve (wanted - charged) NodeKind.groupBy.name
  else .release (charged - wanted)

/-- The group that a row goes into, and the row of the group that it ends. The rows must be
sorted by the keys. -/
def groupFor (keys : List OrderKey) (aggregations : List Aggregation) (key : List Value)
    (current : Option OpenGroup) : Except QueryError (OpenGroup × Option Row) :=
  match current with
  | none => .ok (openGroup aggregations key, none)
  | some group =>
    match compareKeyValues keys key group.key with
    | .eq => .ok (group, none)
    | .gt => .ok (openGroup aggregations key, some (groupRow keys aggregations group))
    | .lt => .error (.unsortedGroups (keys.map (·.field)))

/-- Takes a row into its group. Meanwhile the group is in nobody's hands. -/
def acceptGrouped (keys : List OrderKey) (aggregations : List Aggregation) (bindings : Bindings)
    (row : Row) (state : GroupState) : Metered GroupState Signal :=
  let taken := { state with current := none, seenInput := true }
  match groupFor keys aggregations (row.keyValues keys) state.current with
  | .error error => .fail taken error
  | .ok (group, ended) =>
    match accumulate row bindings aggregations group.aggregates with
    | .error error => .fail taken error
    | .ok aggregates =>
      let group : OpenGroup := { group with aggregates := aggregates }
      let size := group.sizeEstimate
      .after (recharge state.bytes size) taken <|
        .done { taken with current := some group, bytes := size }
          (match ended with
            | some row => .row row
            | none => .again)

/-- The row of the last group, if there is one. Without keys there is one group even if
there are no rows. -/
def lastGroupRow? (keys : List OrderKey) (aggregations : List Aggregation) (state : GroupState) :
    Option Row :=
  match state.current with
  | some group => some (groupRow keys aggregations group)
  | none =>
    if keys.isEmpty && !state.seenInput then
      some (groupRow keys aggregations (openGroup aggregations []))
    else none

/-- Sends on the last group and gives back the memory that was charged for it. -/
def finishGroups (keys : List OrderKey) (aggregations : List Aggregation) (state : GroupState) :
    Metered GroupState Signal :=
  let finished := { state with current := none, bytes := 0, done := true }
  .after (.release state.bytes) finished <|
    .done finished
      (match lastGroupRow? keys aggregations state with
        | some row => .row row
        | none => .exhausted)

/-! ### Dropping repeated rows -/

/-- What every remembered key is charged, on top of its text. -/
def keyOverhead : Nat :=
  32

/-- The key of a row: its values under the key fields, or all its fields, in normal form. -/
def distinctKey (keys : List String) (row : Row) : List Value :=
  match keys with
  | [] => [.map (Value.sortFields (Value.normalizedFields row.fields))]
  | keys => keys.map fun key => (row.getOrNull key).normalized

/-- The text of a key. Keys of one text are one key. -/
def keyText (key : List Value) : String :=
  (Json.array (Value.itemsToJson key)).render

/-- Whether two keys have the same place in the order of values. -/
def sameKey (a b : List Value) : Bool :=
  Value.compareItems a b == .eq

/-- Sends on a row unless its key is that of the row before. -/
def acceptAdjacent (key : List Value) (row : Row) (state : DistinctState) :
    Metered DistinctState Signal :=
  if state.last.any (sameKey · key) then .done state .again
  else
    let size := Value.itemsSize key
    let released := { state with bytes := 0 }
    .after (.release state.bytes) released <|
      .after (.reserve size NodeKind.distinct.name) released <|
        .done { state with last := some key, bytes := size } (.row row)

/-- Sends on a row unless its key has been seen. -/
def acceptHashed (key : List Value) (row : Row) (state : DistinctState) :
    Metered DistinctState Signal :=
  let text := keyText key
  if state.seen.contains text then .done state .again
  else
    let size := text.utf8ByteSize + keyOverhead
    .after (.reserve size NodeKind.distinct.name) state <|
      .done { state with seen := insertText text state.seen, bytes := state.bytes + size }
        (.row row)

/-! ### Projecting -/

/-- The fields of a new row, one after the other; the first one that fails ends the query. -/
def projectFields (row : Row) (bindings : Bindings) :
    List (String × Formula) → Except QueryError (List (String × Value))
  | [] => .ok []
  | (name, formula) :: fields => do
    let value ← formula.eval row bindings
    return (name, value) :: (← projectFields row bindings fields)

/-! ### Slicing -/

/-- Skips a row while the offset is not reached, and sends it on otherwise. -/
def acceptSliced (offset : UInt64) (row : Row) (state : SliceState) : Signal × SliceState :=
  if state.skipped < offset then (.again, { state with skipped := state.skipped + 1 })
  else (.row row, { state with emitted := state.emitted + 1 })

/-! ### Signals -/

/-- What a stage does by itself, before it takes another row. -/
def ready? : Stage → Option (Metered Stage Signal)
  | .sort keys .materialize state =>
    if state.sorted then some ((popSorted state).within (.sort keys .materialize)) else none
  | .groupBy keys aggregations state =>
    if state.done then some (.done (.groupBy keys aggregations state) .exhausted) else none
  | .slice offset limit state =>
    if limit.any (fun most => decide (most ≤ state.emitted)) then
      some (.done (.slice offset limit state) .exhausted)
    else none
  | _ => none

/-- What a stage does with a row: it sends on that row or another one, keeps it, or drops it. -/
def accept (bindings : Bindings) (row : Row) : Stage → Metered Stage Signal
  | .sort keys .merge state => .done (.sort keys .merge state) (.row row)
  | .sort keys .materialize state => (keepForSort row state).within (.sort keys .materialize)
  | .groupBy keys aggregations state =>
    (acceptGrouped keys aggregations bindings row state).within (.groupBy keys aggregations)
  | .distinct keys .adjacent state =>
    (acceptAdjacent (distinctKey keys row) row state).within (.distinct keys .adjacent)
  | .distinct keys .hashed state =>
    (acceptHashed (distinctKey keys row) row state).within (.distinct keys .hashed)
  | .project fields =>
    match projectFields row bindings fields with
    | .ok values => .done (.project fields) (.row (Row.ofList values))
    | .error error => .fail (.project fields) error
  | .slice offset limit state =>
    let (signal, state) := acceptSliced offset row state
    .done (.slice offset limit state) signal

/-- What a stage does at the end of the rows. -/
def finish : Stage → Metered Stage Signal
  | .sort keys .materialize state =>
    .done
      (.sort keys .materialize
        { state with buffer := Row.sortBy keys state.buffer, sorted := true })
      .again
  | .groupBy keys aggregations state =>
    (finishGroups keys aggregations state).within (.groupBy keys aggregations)
  | stage => .done stage .exhausted

end Stage

end ShardQuery
