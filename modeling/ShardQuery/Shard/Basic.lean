import ShardQuery.Options
import ShardQuery.Plan.Basic
import ShardQuery.Row

/-!
# Shards

Rows are read from shards in pages. A request asks one shard for the rows behind a cursor,
which is opaque; the response holds some rows and the cursor behind them, or no cursor at
the end of the shard. Who answers requests is a `ShardReader`: a function of a state of its
own, and the time that it takes.
-/

namespace ShardQuery

/-- A place in a shard, in a form that only the shard understands. -/
abbrev Cursor : Type :=
  List UInt8

/-- A request for a page of rows of one shard, with the bounds that the page must keep. -/
structure ShardRequest where
  /-- The table. -/
  table : String
  /-- The shard. -/
  shard : ShardId
  /-- Where to go on; the beginning if there is no cursor. -/
  cursor : Option Cursor
  /-- The most rows to send. -/
  limit : Option Nat
  /-- The most units of 1024 bytes to read. -/
  maxReadKb : Option Nat
  /-- The most units of 1024 bytes to write. -/
  maxWriteKb : Option Nat
  /-- How recent the rows must be. -/
  consistency : Consistency
deriving DecidableEq, Repr

/-- A page of rows of a shard, and the place behind them. -/
structure ShardResponse where
  /-- The rows. -/
  rows : List Row
  /-- Where to go on; none at the end of the shard. -/
  cursor : Option Cursor

/-- Something that answers requests, such as a service or a table in memory. What it knows and what
changes with its answers is its state. -/
structure ShardReader (σ : Type) where
  /-- How long all answers take, in milliseconds. -/
  latencyMs : Nat
  /-- The answer to a request, and the state after it. -/
  answer : ShardRequest → σ → Except RequestError ShardResponse × σ

/-- The answers to requests one after the other. -/
def ShardReader.answerAll {σ : Type} (reader : ShardReader σ) :
    List ShardRequest → σ → List (Except RequestError ShardResponse) × σ
  | [], state => ([], state)
  | request :: requests, state =>
    let (response, state) := reader.answer request state
    let (responses, state) := reader.answerAll requests state
    (response :: responses, state)

/-- A bound on what shards can still send. -/
structure Supply where
  /-- The most rows. -/
  rows : Nat
  /-- The most responses. -/
  responses : Nat
deriving DecidableEq, Repr

/-- A shard that cannot do what it is asked, whenever it is asked. -/
def serviceError (message : String) : RequestError :=
  ⟨.service, message, false⟩

end ShardQuery
