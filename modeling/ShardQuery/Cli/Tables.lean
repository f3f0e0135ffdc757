import ShardQuery.Bindings
import ShardQuery.Shard.InMemory

/-!
# Tables in Files

The rows of tables as one document: an object of tables, each of them an object of shards,
each of these an array of rows. Shards are named by their numbers. Of equal names the last
one counts.
-/

namespace ShardQuery.Cli

/-- The rows of a shard, an array of objects in the order in which the shard returns them. -/
def rowsOfJson? (document : Json) : Option (List Row) :=
  document.toList? Row.ofJson?

/-- The shards of a table, named by their numbers in decimal digits as bind variables are by their
positions. -/
def shardsOfJson? (document : Json) : Option ShardRows := do
  let members ← document.toMembers?
  members.mapM fun (name, rows) => do
    return (← Bindings.positionOfName? name, ← rowsOfJson? rows)

/-- The tables of a document, with their shards, under the names that plans read them by. -/
def tablesOfJson? (document : Json) : Option (List (String × ShardRows)) := do
  let members ← document.toMembers?
  members.mapM fun (name, shards) => do
    return (name, ← shardsOfJson? shards)

/-- The tables written by a text, none if the text is no document or has a flaw anywhere. -/
def tablesOfText? (text : String) : Option (List (String × ShardRows)) :=
  (Json.parseSound? text).bind tablesOfJson?

/-- The tables as a reader in memory that returns pages of a given size; of equal names the last one
counts. -/
def storeOf (pageSize : Nat) (tables : List (String × ShardRows)) : InMemory :=
  tables.foldl (fun store (name, shards) => store.withTable name shards)
    (InMemory.ofPageSize pageSize)

end ShardQuery.Cli
