import ShardQuery.Shard.Basic

/-!
# Recorded Answers

Shards that answer from a record: the first answer of a shard to its first request and so
on, whatever else the requests ask for.
-/

namespace ShardQuery

/-- The answers of shards that are still to be given. -/
structure Recorded where
  /-- The answers of each shard. -/
  answers : List (ShardId × List (Except RequestError ShardResponse))

namespace Recorded

/-- Takes the first answer of a shard, and fails if the record has none for it. -/
def take (shard : ShardId) :
    List (ShardId × List (Except RequestError ShardResponse)) →
      Except RequestError ShardResponse × List (ShardId × List (Except RequestError ShardResponse))
  | [] => (.error (serviceError "script ended"), [])
  | (s, answers) :: entries =>
    if s = shard then
      match answers with
      | [] => (.error (serviceError "script ended"), (s, []) :: entries)
      | response :: answers => (response, (s, answers) :: entries)
    else
      let (response, entries) := take shard entries
      (response, (s, answers) :: entries)

/-- Recorded answers as somebody who answers requests, with no delay. -/
def reader : ShardReader Recorded where
  latencyMs := 0
  answer request record :=
    let (response, answers) := take request.shard record.answers
    (response, ⟨answers⟩)

/-- The rows of a response, none for a failure. -/
def rowsOf : Except RequestError ShardResponse → Nat
  | .ok response => response.rows.length
  | .error _ => 0

/-- What there is on record, and the error behind it. -/
def supply (record : Recorded) : Supply :=
  ⟨total (fun entry => total rowsOf entry.2) record.answers,
    total (fun entry => entry.2.length) record.answers + 1⟩

end Recorded

end ShardQuery
