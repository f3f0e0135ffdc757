import ShardQuery.Plan.Codec
import ShardQuery.Shard.Basic
import ShardQuery.Stage.Aggregate

/-!
# Node States

Everything that changes while rows flow through a plan: one `NodeState` for every node. The
states are what a continuation token holds, so they have a JSON form that reads back. Each
state also keeps count of the memory that it is charged for.
-/

namespace ShardQuery

/-- How far a shard has been read, and what has been received from it without being taken. -/
structure ShardProgress where
  /-- The shard. -/
  shard : ShardId
  /-- Where to go on. -/
  cursor : Option Cursor
  /-- The rows that have been received and not yet taken. -/
  buffer : List Row
  /-- The memory charged for them. -/
  bufferedBytes : Nat
  /-- Whether there are no more rows to be requested. -/
  exhausted : Bool

/-- The state of a sorting step, which collects rows first and sends them on afterwards. -/
structure SortState where
  /-- The rows collected, or those left to be sent on. -/
  buffer : List Row
  /-- The memory charged for them. -/
  bytes : Nat
  /-- Whether all rows have been collected and sorted. -/
  sorted : Bool

/-- A group in the making, to which the next row belongs if it has the same key. -/
structure OpenGroup where
  /-- The values of its rows under the keys. -/
  key : List Value
  /-- The states of its aggregates. -/
  aggregates : List AggregateState

/-- The state of a grouping step, which holds one group at a time. -/
structure GroupState where
  /-- The group of the latest row. -/
  current : Option OpenGroup
  /-- The memory charged for it. -/
  bytes : Nat
  /-- Whether the last group has been sent on. -/
  done : Bool
  /-- Whether there has been a row. -/
  seenInput : Bool

/-- The state of a step that drops repeated rows. -/
structure DistinctState where
  /-- The key of the latest row that was sent on. -/
  last : Option (List Value)
  /-- The texts of the keys of all rows that were sent on, in ascending order. -/
  seen : List String
  /-- The memory charged for them. -/
  bytes : Nat

/-- The state of a slicing step, which only counts. -/
structure SliceState where
  /-- How many rows were skipped. -/
  skipped : UInt64
  /-- How many rows were sent on. -/
  emitted : UInt64

/-- The state of a node, of the same kind as the node itself. -/
inductive NodeState where
  /-- The state of a scan. -/
  | receive (shards : List ShardProgress)
  /-- The state of a sort. -/
  | sort (state : SortState)
  /-- The state of a grouping. -/
  | groupBy (state : GroupState)
  /-- The state of a step that drops repeated rows. -/
  | distinct (state : DistinctState)
  /-- A projection has no state. -/
  | project
  /-- The state of a slice. -/
  | slice (state : SliceState)

/-! ### Beginnings -/

/-- The progress of a shard that has not been read. -/
def ShardProgress.start (shard : ShardId) : ShardProgress :=
  ⟨shard, none, [], 0, false⟩

/-- The state of a sort that has collected no rows. -/
def SortState.start : SortState :=
  ⟨[], 0, false⟩

/-- The state of a grouping that has seen no rows. -/
def GroupState.start : GroupState :=
  ⟨none, 0, false, false⟩

/-- The state of a step that has seen no rows and so remembers none. -/
def DistinctState.start : DistinctState :=
  ⟨none, [], 0⟩

/-- The state of a slice that has counted no rows. -/
def SliceState.start : SliceState :=
  ⟨0, 0⟩

/-- The state of a step before the first row. -/
def Step.startState : Step → NodeState
  | .sort .. => .sort .start
  | .groupBy .. => .groupBy .start
  | .distinct .. => .distinct .start
  | .project .. => .project
  | .slice .. => .slice .start

/-- The states of the nodes of a plan before the first row, in the order of its shape. -/
def Plan.startStates (plan : Plan) : List NodeState :=
  plan.steps.map Step.startState ++ [.receive (plan.scan.shards.map .start)]

/-! ### Sizes -/

/-- The memory that a group in the making is charged for. -/
def OpenGroup.sizeEstimate (group : OpenGroup) : Nat :=
  Value.itemsSize group.key + total AggregateState.sizeEstimate group.aggregates

/-- The memory charged for the rows of all shards. -/
def bufferedBytes (shards : List ShardProgress) : Nat :=
  total ShardProgress.bufferedBytes shards

namespace NodeState

/-- The kind of node that a state belongs to. -/
def kind : NodeState → NodeKind
  | .receive _ => .receive
  | .sort _ => .sort
  | .groupBy _ => .groupBy
  | .distinct _ => .distinct
  | .project => .project
  | .slice _ => .slice

/-- The memory that a state is charged for. -/
def trackedBytes : NodeState → Nat
  | .receive shards => bufferedBytes shards
  | .sort state => state.bytes
  | .groupBy state => state.bytes
  | .distinct state => state.bytes
  | .project | .slice _ => 0

end NodeState

/-! ### Writing -/

/-- The document of a cursor: its octets as numbers. -/
def cursorToJson : Option Cursor → Json
  | some octets => .array (octets.map fun b => .int b.toNat)
  | none => .null

/-- The document of rows, an array of their documents. -/
def rowsToJson (rows : List Row) : Json :=
  .array (rows.map Row.toJson)

/-- The document of a counter: its lowest sixty-four bits. -/
def counterToJson (count : Nat) : Json :=
  .int (count % UInt64.size : Nat)

/-- The document of a shard's progress, with the rows that it holds. -/
def ShardProgress.toJson (progress : ShardProgress) : Json :=
  .object [
    ("shard", .int progress.shard.toNat),
    ("continuation", cursorToJson progress.cursor),
    ("buffer", rowsToJson progress.buffer),
    ("buffered_bytes", counterToJson progress.bufferedBytes),
    ("exhausted", .bool progress.exhausted)]

/-- The document of a group in the making. -/
def OpenGroup.toJson (group : OpenGroup) : Json :=
  .object [("key", .array (Value.itemsToJson group.key)),
    ("aggs", .array (group.aggregates.map AggregateState.toJson))]

/-- The members of a state that follow its kind. -/
def NodeState.members : NodeState → List (String × Json)
  | .receive shards => [("cursors", .array (shards.map ShardProgress.toJson))]
  | .sort state =>
    [("buffer", rowsToJson state.buffer), ("bytes", counterToJson state.bytes),
      ("sorted", .bool state.sorted)]
  | .groupBy state =>
    [("current", match state.current with | some group => group.toJson | none => .null),
      ("bytes", counterToJson state.bytes), ("done", .bool state.done),
      ("seen_input", .bool state.seenInput)]
  | .distinct state =>
    [("last", match state.last with | some key => .array (Value.itemsToJson key) | none => .null),
      ("seen", .array (state.seen.map .string)), ("bytes", counterToJson state.bytes)]
  | .project => []
  | .slice state =>
    [("skipped", .int state.skipped.toNat), ("emitted", .int state.emitted.toNat)]

/-- The document of a state: its kind, as plans name it, and behind it what the state holds. -/
def NodeState.toJson (state : NodeState) : Json :=
  .object (("kind", .string state.kind.name) :: state.members)

/-! ### Reading -/

/-- An octet of a cursor, written as a number. -/
def octetOfJson? (document : Json) : Option UInt8 :=
  (document.toNatBelow? 256).map UInt8.ofNat

/-- The progress of a document, all of whose members but the cursor must be there. -/
def ShardProgress.ofJson? (document : Json) : Option ShardProgress := do
  let members ← document.toRecord?
    ⟨["shard", "continuation", "buffer", "buffered_bytes", "exhausted"], 5⟩
  let shard ← Json.required? members "shard" shardOfJson?
  let cursor ← Json.optional? members "continuation" (Json.toList? octetOfJson?)
  let buffer ← Json.required? members "buffer" (Json.toList? Row.ofJson?)
  let bufferedBytes ← Json.required? members "buffered_bytes" Json.toWord?
  let exhausted ← Json.required? members "exhausted" Json.toBool?
  return ⟨shard, cursor, buffer, bufferedBytes, exhausted⟩

/-- The group of a document. It need not have as many values or aggregates as any plan has keys or
calls. -/
def OpenGroup.ofJson? (document : Json) : Option OpenGroup := do
  let members ← document.toRecord? ⟨["key", "aggs"], 2⟩
  let key ← Json.required? members "key" (Json.toList? Value.ofJson?)
  let aggregates ← Json.required? members "aggs" (Json.toList? AggregateState.ofJson?)
  return ⟨key, aggregates⟩

/-- Puts a text into a list in ascending order, once. -/
def insertText (text : String) : List String → List String
  | [] => [text]
  | t :: texts =>
    if text < t then text :: t :: texts
    else if text = t then t :: texts
    else t :: insertText text texts

/-- The forms of a state, each with the order of its fields in an array. -/
def NodeState.variants : List Json.Variant :=
  [⟨"receive", ⟨["cursors"], 1⟩⟩, ⟨"sort", ⟨["buffer", "bytes", "sorted"], 3⟩⟩,
    ⟨"group_by", ⟨["current", "bytes", "done", "seen_input"], 4⟩⟩,
    ⟨"distinct", ⟨["last", "seen", "bytes"], 3⟩⟩, ⟨"project", ⟨[], 0⟩⟩,
    ⟨"slice", ⟨["skipped", "emitted"], 2⟩⟩]

/-- The state of a document. Remembered texts may come in any order and are put into their own. -/
def NodeState.ofJson? (document : Json) : Option NodeState := do
  let (kind, members) ← document.toTagged? "kind" NodeState.variants false
  match kind with
  | "receive" =>
    return .receive (← Json.required? members "cursors" (Json.toList? ShardProgress.ofJson?))
  | "sort" =>
    let buffer ← Json.required? members "buffer" (Json.toList? Row.ofJson?)
    let bytes ← Json.required? members "bytes" Json.toWord?
    let sorted ← Json.required? members "sorted" Json.toBool?
    return .sort ⟨buffer, bytes, sorted⟩
  | "group_by" =>
    let current ← Json.optional? members "current" OpenGroup.ofJson?
    let bytes ← Json.required? members "bytes" Json.toWord?
    let done ← Json.required? members "done" Json.toBool?
    let seenInput ← Json.required? members "seen_input" Json.toBool?
    return .groupBy ⟨current, bytes, done, seenInput⟩
  | "distinct" =>
    let last ← Json.optional? members "last" (Json.toList? Value.ofJson?)
    let seen ← Json.required? members "seen" (Json.toList? Json.toString?)
    let bytes ← Json.required? members "bytes" Json.toWord?
    return .distinct ⟨last, seen.foldl (fun texts text => insertText text texts) [], bytes⟩
  | "project" => return .project
  | "slice" =>
    let skipped ← Json.required? members "skipped" Json.toWord?
    let emitted ← Json.required? members "emitted" Json.toWord?
    return .slice ⟨UInt64.ofNat skipped, UInt64.ofNat emitted⟩
  | _ => none

end ShardQuery
