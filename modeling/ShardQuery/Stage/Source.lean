import ShardQuery.Stage.Basic

/-!
# Sources

A `Source` is the scan of a running query: the shards with the rows received from them. It
delivers the rows in one of three ways, and signals which shards must be asked before it
can go on.
-/

namespace ShardQuery

/-- How rows of several shards become one list. -/
inductive Delivery where
  /-- As they come; at most so many shards are asked at once. -/
  | anyOrder (fanOut : Nat)
  /-- One shard after the other. -/
  | inOrder
  /-- Merged by keys; of equal rows, the one of the first shard comes first. -/
  | merged (keys : List OrderKey)

/-- The scan of a running query: what it asks for, how it delivers, and how far each shard has been
read. -/
structure Source where
  /-- The table. -/
  table : String
  /-- The place of the scan among the nodes of the plan. -/
  position : Nat
  /-- The number of shards of the scan. -/
  shardCount : Nat
  /-- How the rows are delivered. -/
  delivery : Delivery
  /-- The shards. -/
  shards : List ShardProgress

namespace ShardProgress

/-- Whether the next row is not known and must be asked for. -/
def needsFetch (progress : ShardProgress) : Bool :=
  progress.buffer.isEmpty && !progress.exhausted

/-- Whether there are no more rows, neither in the buffer nor in the shard. -/
def isDrained (progress : ShardProgress) : Bool :=
  progress.buffer.isEmpty && progress.exhausted

/-- The progress after the first row of the buffer, of a given size, has been taken. -/
def afterRow (progress : ShardProgress) (rows : List Row) (size : Nat) : ShardProgress :=
  { progress with buffer := rows, bufferedBytes := progress.bufferedBytes - size }

/-- The progress after a response with rows of a given size. -/
def afterResponse (progress : ShardProgress) (response : ShardResponse) (size : Nat) :
    ShardProgress :=
  { progress with
    buffer := progress.buffer ++ response.rows
    bufferedBytes := progress.bufferedBytes + size
    exhausted := response.cursor.isNone
    cursor := response.cursor }

/-- The progress without the rows held, as it is left when the query is closed. -/
def cleared (progress : ShardProgress) : ShardProgress :=
  { progress with buffer := [], bufferedBytes := 0 }

end ShardProgress

namespace Source

/-- The state of a source, the part of it that a token holds. -/
def state (source : Source) : NodeState :=
  .receive source.shards

/-- The source without the rows that it held. -/
def cleared (source : Source) : Source :=
  { source with shards := source.shards.map ShardProgress.cleared }

/-- The places of the shards that must be asked. -/
def fetchable (source : Source) : List Nat :=
  (source.shards.zipIdx.filter fun (progress, _) => progress.needsFetch).map (·.2)

/-- The first row of the buffer of a shard, and what follows it. -/
def front? (source : Source) (index : Nat) : Option (ShardProgress × Row × List Row) :=
  match source.shards[index]? with
  | some progress =>
    match progress.buffer with
    | row :: rows => some (progress, row, rows)
    | [] => none
  | none => none

/-- Takes the first row of the buffer of a shard; without one there are no more rows. -/
def pop (source : Source) (index : Nat) : Metered Source Signal :=
  match source.front? index with
  | some (progress, row, rows) =>
    let size := row.sizeEstimate
    let popped := { source with shards := source.shards.set index (progress.afterRow rows size) }
    .after (.release size) popped (.done popped (.row row))
  | none => .done source .exhausted

/-- The place of the shard whose next row comes first, among shards from a place on; `best`
is the place and the row of the best one before. -/
def leastFrom (keys : List OrderKey) (best : Option (Nat × Row)) (index : Nat) :
    List ShardProgress → Option (Nat × Row)
  | [] => best
  | progress :: shards =>
    let best :=
      match progress.buffer, best with
      | [], best => best
      | row :: _, none => some (index, row)
      | row :: _, some (i, least) =>
        if Row.compareBy keys row least == .lt then some (index, row) else some (i, least)
    leastFrom keys best (index + 1) shards

/-- What a source does next: it delivers a row that it holds, asks for pages that it needs first, or
is at its end. -/
def next (source : Source) : Metered Source Signal :=
  if source.shards.length ≠ source.shardCount then .fail source (.scanState source.position)
  else
    match source.delivery with
    | .inOrder =>
      match source.shards.findIdx? fun progress => !progress.isDrained with
      | none => .done source .exhausted
      | some index =>
        if (source.front? index).isSome then source.pop index
        else .done source (.fetch [index])
    | .anyOrder fanOut =>
      match source.shards.findIdx? fun progress => !progress.buffer.isEmpty with
      | some index => source.pop index
      | none =>
        match source.fetchable.take fanOut with
        | [] => .done source .exhausted
        | wanted => .done source (.fetch wanted)
    | .merged keys =>
      match source.fetchable with
      | [] =>
        match leastFrom keys none 0 source.shards with
        | some (index, _) => source.pop index
        | none => .done source .exhausted
      | wanted => .done source (.fetch wanted)

/-- Takes in the responses of shards, given by their places, one after the other. Those
before a failure stay. -/
def receive (source : Source) :
    List (Nat × Except RequestError ShardResponse) → Metered Source Unit
  | [] => .done source ()
  | (_, .error error) :: _ => .fail source (.request error)
  | (index, .ok response) :: responses =>
    match source.shards[index]? with
    | none => .fail source (.scanState source.position)
    | some progress =>
      let size := Row.totalSize response.rows
      let progress := progress.afterResponse response size
      .after (.reserve size NodeKind.receive.name) source <|
        receive { source with shards := source.shards.set index progress } responses

end Source

end ShardQuery
