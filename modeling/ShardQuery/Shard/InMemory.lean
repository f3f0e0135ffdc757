import ShardQuery.Shard.Basic

/-!
# Tables in Memory

Shards whose rows are lists. A cursor is the number of rows before it, in eight octets, the
highest first. A page ends at the page size, at the limit of the request, or before the row
that would exceed what the request allows to read; it never ends before its first row.
Failures can be arranged: a shard gives some good answers and then fails for ever.
-/

namespace ShardQuery

/-- An arranged failure of a shard, by which errors can be tried out. -/
structure ArrangedFailure where
  /-- How many good answers come before. -/
  after : Nat
  /-- The failure. -/
  error : RequestError
deriving DecidableEq, Repr

/-- The rows of the shards of a table. -/
abbrev ShardRows : Type :=
  List (ShardId × List Row)

/-- Tables in memory, and what has been arranged for the requests to come. -/
structure InMemory where
  /-- The most rows of a page. -/
  pageSize : Nat
  /-- The tables. -/
  tables : List (String × ShardRows)
  /-- The failures that are still to come. -/
  failures : List (ShardId × ArrangedFailure)
  /-- How many requests were answered. -/
  requests : Nat

namespace InMemory

/-- No tables. A page has one row at least. -/
def ofPageSize (pageSize : Nat) : InMemory :=
  ⟨max pageSize 1, [], [], 0⟩

/-- Adds a table, in the place of one of the same name. Of equal shards the last counts. -/
def withTable (store : InMemory) (name : String) (shards : ShardRows) : InMemory :=
  { store with tables := (name, shards.reverse) :: store.tables }

/-- Arranges a failure, in the place of one of the same shard. -/
def withFailure (store : InMemory) (shard : ShardId) (failure : ArrangedFailure) : InMemory :=
  { store with failures := (shard, failure) :: store.failures.filter (·.1 != shard) }

/-! ### Cursors -/

/-- The cursor behind a number of rows, eight octets with the highest first. -/
def cursorOf (position : Nat) : Cursor :=
  (List.range 8).map fun i => UInt8.ofNat (position >>> (8 * (7 - i)))

/-- The number of rows before a cursor, none if it does not have the length of one. -/
def position? (cursor : Cursor) : Option Nat :=
  if cursor.length = 8 then some (cursor.foldl (fun n b => n * 256 + b.toNat) 0) else none

/-! ### Pages -/

/-- The rows of a page: as many as fit into `room` bytes, and the first one in any case. -/
def takeWithin (room : Nat) : List Row → List Row
  | [] => []
  | row :: rows => row :: go (row.sizeEstimate) rows
where
  /-- The rows that still fit behind rows of `size` bytes. -/
  go (size : Nat) : List Row → List Row
    | [] => []
    | row :: rows =>
      let size := size + row.sizeEstimate
      if room < size then [] else row :: go size rows

/-- The page that a request asks for: rows from a position on, within the bounds of the request and
the page size. -/
def page (pageSize : Nat) (rows : List Row) (position : Nat) (request : ShardRequest) :
    ShardResponse :=
  let most := min (request.limit.getD pageSize) pageSize
  let candidates := (rows.drop position).take most
  let sent :=
    match request.maxReadKb with
    | some kb => takeWithin (kb * 1024) candidates
    | none => candidates
  let next := position + sent.length
  ⟨sent, if next < rows.length then some (cursorOf next) else none⟩

/-- The page that a request asks for, if the shard and the cursor are known. -/
def lookup (store : InMemory) (request : ShardRequest) : Except RequestError ShardResponse :=
  match store.tables.find? (·.1 == request.table) with
  | none => .error (serviceError s!"table not found: {request.table}")
  | some (_, shards) =>
    match shards.find? (·.1 == request.shard) with
    | none =>
      .error (serviceError s!"shard {request.shard.toNat} not found in table {request.table}")
    | some (_, rows) =>
      match request.cursor with
      | none => .ok (page store.pageSize rows 0 request)
      | some cursor =>
        match position? cursor with
        | none => .error (serviceError "invalid shard continuation")
        | some position => .ok (page store.pageSize rows position request)

/-- One good answer less before the failure of a shard. -/
def countDown (shard : ShardId) (failures : List (ShardId × ArrangedFailure)) :
    List (ShardId × ArrangedFailure) :=
  failures.map fun (s, failure) =>
    if s = shard then (s, { failure with after := failure.after - 1 }) else (s, failure)

/-- The answer to a request. An arranged failure comes before anything else. -/
def answer (request : ShardRequest) (store : InMemory) :
    Except RequestError ShardResponse × InMemory :=
  let store := { store with requests := store.requests + 1 }
  match store.failures.find? (·.1 == request.shard) with
  | some (_, ⟨0, error⟩) => (.error error, store)
  | some _ =>
    (store.lookup request, { store with failures := countDown request.shard store.failures })
  | none => (store.lookup request, store)

/-- Tables in memory as somebody who answers requests. -/
def reader (latencyMs : Nat) : ShardReader InMemory :=
  ⟨latencyMs, answer⟩

/-- What a scan of a number of shards can get, from whatever cursors it goes on: a response
without rows is the last of its shard. -/
def supply (store : InMemory) (shards : Nat) : Supply :=
  let rows := total (fun table => total (fun shard => shard.2.length) table.2) store.tables
  ⟨shards * rows, shards * (rows + 1)⟩

end InMemory

end ShardQuery
