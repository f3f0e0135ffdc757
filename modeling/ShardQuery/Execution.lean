import ShardQuery.Pipeline
import ShardQuery.Token

/-!
# Executions

An `Execution` is a query that has been started. Its rows come in batches. A batch is made
by small steps (`Batch.step`): a tick of the pipeline, or a round of shard requests when the
pipeline asks for one. It ends when it is full, when the rows are at their end, or with an
error. After a full batch the execution can go on, or be suspended in a token and go on
elsewhere; after the other two it is finished and holds nothing.

How many steps a batch takes depends on the shards, so `Execution.nextBatch` is given a
budget of steps, and tells when the budget does not suffice.

Main definitions:

* `Execution.start` — starts or resumes a query;
* `Execution.nextBatch` — the next batch;
* `Execution.token?` — the token of a suspended execution.
-/

namespace ShardQuery

/-- A query that has been started, and what it has come to: everything that the next batch depends
on, apart from the shards. -/
structure Execution where
  /-- The identity of the execution, kept when it is resumed. -/
  id : Uuid
  /-- The plan. -/
  plan : Plan
  /-- The bind variables. -/
  bindings : Bindings
  /-- The options. -/
  options : ResolvedOptions
  /-- The memory account. -/
  memory : Memory
  /-- The running plan. -/
  pipeline : Pipeline
  /-- The time taken by the batches so far, in milliseconds. -/
  elapsedMs : Nat
  /-- Whether there are no more batches. -/
  finished : Bool

/-- What is needed to start a query, apart from the engine. -/
structure Query where
  /-- The plan. -/
  plan : Plan
  /-- The bind variables. -/
  bindings : Bindings
  /-- The options. -/
  options : QueryOptions
  /-- The token of the execution to go on with. -/
  token : Option Token

/-- What queries are run with: the settings of the engine and the functions that plans can name. -/
structure Engine where
  /-- The settings. -/
  config : EngineConfig
  /-- The functions. -/
  registry : Registry

/-- The part of a query that is found or made up for a start: its identity, the time taken
so far, and the states of its nodes. -/
structure StartPoint where
  /-- The identity. -/
  id : Uuid
  /-- The time taken, in milliseconds. -/
  elapsedMs : Nat
  /-- The states. -/
  states : List NodeState

namespace Execution

/-! ### Starting -/

/-- Where a query starts: as its token says, or from the beginning with a fresh identity. -/
def startPoint (query : Query) (fresh : Uuid) : Except QueryError StartPoint :=
  match query.token with
  | none => .ok ⟨fresh, 0, query.plan.startStates⟩
  | some token =>
    match token.decode query.plan query.bindings with
    | .ok body => .ok ⟨body.executionId, body.elapsedMs, body.states⟩
    | .error fault => .error (.token fault)

/-- Starts or resumes a query. Everything about it is checked first: the options, the plan,
its functions, its bind variables, the token, and the memory and bounds that the restored
states need. -/
def start (engine : Engine) (query : Query) (fresh : Uuid) : Except QueryError Execution := do
  let options ← query.options.resolve engine.config
  query.plan.check.mapError .plan
  let steps ← (compileSteps engine.registry query.plan.steps).mapError .function
  query.plan.bindRefs.forM fun ref => do
    let _ ← query.bindings.resolve ref
  let point ← startPoint query fresh
  let opened :=
    Pipeline.openPlan query.bindings options.maxFanOut query.plan.scan steps point.states
  let (memory, _, result) := opened.run (Memory.ofLimitMb options.maxMemoryMb)
  let pipeline ← result
  return {
    id := point.id
    plan := query.plan
    bindings := query.bindings
    options := options
    memory := memory
    pipeline := pipeline
    elapsedMs := point.elapsedMs
    finished := false }

/-- What the token of an execution holds. Of the time taken it has the lowest sixty-four bits. -/
def body (execution : Execution) : TokenBody where
  executionId := execution.id
  elapsedMs := execution.elapsedMs % UInt64.size
  shape := execution.plan.shape
  states := execution.pipeline.states

/-- The token of an execution that is not finished. -/
def token? (execution : Execution) : Option Token :=
  if execution.finished then none
  else some (Token.encode execution.plan execution.bindings execution.body)

/-- The request to a shard for its next page. -/
def request (execution : Execution) (progress : ShardProgress) : ShardRequest where
  table := execution.plan.scan.table
  shard := progress.shard
  cursor := progress.cursor
  limit := execution.options.limit
  maxReadKb := execution.options.maxReadKb
  maxWriteKb := execution.options.maxWriteKb
  consistency := execution.options.consistency

/-- The places among `shards` that belong to shards, with the requests to these. -/
def requests (execution : Execution) (shards : List Nat) : List (Nat × ShardRequest) :=
  shards.filterMap fun index =>
    execution.pipeline.source.shards[index]?.map fun progress =>
      (index, execution.request progress)

end Execution

/-! ### Batches -/

/-- Rows of a query, and the token to go on with; without one they are the last. -/
structure Batch where
  /-- The rows. -/
  rows : List Row
  /-- The token to go on with. -/
  token : Option Token

/-- Why a batch ends. Only the first of these leaves an execution that can be gone on with. -/
inductive BatchEnd where
  /-- The batch is full. -/
  | full
  /-- There are no more rows. -/
  | exhausted
  /-- Something went wrong. -/
  | failed (error : QueryError)

/-- A batch in the making, with the execution and the shards as they are by now. -/
structure BatchRun (σ : Type) where
  /-- The execution. -/
  execution : Execution
  /-- The state of the shards. -/
  shards : σ
  /-- The rows so far, the latest first. -/
  rows : List Row
  /-- The size of the rows so far. -/
  bytes : Nat
  /-- The rounds of requests so far. -/
  rounds : Nat
  /-- The requests sent so far, the latest first. -/
  sent : List ShardRequest

namespace BatchRun

variable {σ : Type}

/-- Whether a batch may take no more rows. -/
def isFull (run : BatchRun σ) : Bool :=
  run.execution.options.limit.any (fun most => decide (most ≤ run.rows.length)) ||
    run.execution.options.maxBatchBytes.any fun most => decide (most ≤ run.bytes)

/-- Carries a change of the pipeline out, with its effect on the memory account. -/
def carryOut {α : Type} (run : BatchRun σ) (change : Metered Pipeline α) :
    BatchRun σ × Except QueryError α :=
  let (memory, pipeline, result) := change.run run.execution.memory
  ({ run with execution := { run.execution with memory := memory, pipeline := pipeline } }, result)

/-- How much of the time limit is left for a round, if there is a limit. -/
def remainingMs (reader : ShardReader σ) (run : BatchRun σ) : Option Nat :=
  run.execution.options.timeoutMs.map fun limit =>
    limit - (run.execution.elapsedMs + run.rounds * reader.latencyMs)

/-- A round of requests: all of them are sent and answered, then the responses are taken in
one by one. A round without requests fails. When the time is up no request is sent; when it
runs out before the answers come, none of them is taken in. -/
def fetchRound (reader : ShardReader σ) (run : BatchRun σ) (wanted : List Nat) :
    BatchRun σ × Option QueryError :=
  let requests := run.execution.requests wanted
  let sent := (requests.map (·.2)).reverse ++ run.sent
  let remaining := run.remainingMs reader
  let run := { run with rounds := run.rounds + 1 }
  if requests.isEmpty then (run, some .noRequests)
  else if remaining = some 0 then
    (run, some (.timeout (run.execution.options.timeoutMs.getD 0)))
  else if remaining.any (fun left => decide (left < reader.latencyMs)) then
    ({ run with sent := sent }, some (.timeout (run.execution.options.timeoutMs.getD 0)))
  else
    let (responses, shards) := reader.answerAll (requests.map (·.2)) run.shards
    let run := { run with sent := sent, shards := shards }
    let change := run.execution.pipeline.receive ((requests.map (·.1)).zip responses)
    match run.carryOut change with
    | (run, .ok _) => (run, none)
    | (run, .error error) => (run, some error)

/-- One step of a batch, and why it ends if it does. -/
def step (reader : ShardReader σ) (run : BatchRun σ) : BatchRun σ × Option BatchEnd :=
  if run.isFull then (run, some .full)
  else
    match run.carryOut (run.execution.pipeline.tick run.execution.bindings) with
    | (run, .error error) => (run, some (.failed error))
    | (run, .ok (.row row)) =>
      ({ run with rows := row :: run.rows, bytes := run.bytes + row.sizeEstimate }, none)
    | (run, .ok .exhausted) => (run, some .exhausted)
    | (run, .ok .again) => (run, none)
    | (run, .ok (.fetch wanted)) =>
      if run.execution.options.maxRoundTrips.any (fun most => decide (most ≤ run.rounds)) then
        (run, some .full)
      else
        match run.fetchRound reader wanted with
        | (run, some error) => (run, some (.failed error))
        | (run, none) => (run, none)

/-- The steps of a batch up to its end, `budget` steps at most. -/
def steps (reader : ShardReader σ) : Nat → BatchRun σ → Option (BatchRun σ × BatchEnd)
  | 0, _ => none
  | budget + 1, run =>
    match run.step reader with
    | (run, some reason) => some (run, reason)
    | (run, none) => run.steps reader budget

end BatchRun

/-- A number of steps in which a batch of a query with a number of stages ends, if the
stages hold `held` rows. A row, and the row that a stage may send on at the end, makes at
most one step a stage; each round of requests is one step, and so is the end of a stage. -/
def stepBudget (stages held : Nat) (supply : Supply) : Nat :=
  (held + supply.rows + stages + 2) * (stages + 2) + supply.responses + 2

/-- A number of batches in which a query ends, if every batch has a row or a request. -/
def batchBudget (stages : Nat) (supply : Supply) : Nat :=
  supply.rows + supply.responses + stages + 2

/-- A batch that has been made, or the reason why not, and everything as it is then. -/
structure BatchOutcome (σ : Type) where
  /-- The batch. -/
  result : Except QueryError Batch
  /-- The requests sent, in their order. -/
  requests : List ShardRequest
  /-- The execution after the batch. -/
  execution : Execution
  /-- The state of the shards after the batch. -/
  shards : σ

namespace Execution

variable {σ : Type}

/-- How many rows a state holds, whether received from shards or collected to be sorted. -/
def heldRowsOf : NodeState → Nat
  | .receive shards => total (fun progress => progress.buffer.length) shards
  | .sort state => state.buffer.length
  | _ => 0

/-- How many rows the states of an execution hold. -/
def heldRows (execution : Execution) : Nat :=
  total heldRowsOf execution.pipeline.states

/-- The execution that has given up everything it held. -/
def finish (execution : Execution) : Execution :=
  let (memory, pipeline, _) := execution.pipeline.close.run execution.memory
  { execution with memory := memory, pipeline := pipeline, finished := true }

/-- The execution that has failed and holds nothing. -/
def abort (execution : Execution) : Execution :=
  let execution := execution.finish
  { execution with memory := execution.memory.releaseAll }

/-- What becomes of a batch that has ended. -/
def conclude (reader : ShardReader σ) (run : BatchRun σ) (reason : BatchEnd) : BatchOutcome σ :=
  let spent := run.rounds * reader.latencyMs
  let execution := { run.execution with elapsedMs := run.execution.elapsedMs + spent }
  let (result, execution) : Except QueryError Batch × Execution :=
    match reason with
    | .failed error => (.error error, execution.abort)
    | .exhausted => (.ok ⟨run.rows.reverse, none⟩, execution.finish)
    | .full => (.ok ⟨run.rows.reverse, execution.token?⟩, execution)
  ⟨result, run.sent.reverse, execution, run.shards⟩

/-- The next batch, made in `budget` steps at most; none if they do not suffice. A finished
execution gives an empty batch. -/
def nextBatch (reader : ShardReader σ) (budget : Nat) (execution : Execution) (shards : σ) :
    Option (BatchOutcome σ) :=
  if execution.finished then some ⟨.ok ⟨[], none⟩, [], execution, shards⟩
  else
    match BatchRun.steps reader budget ⟨execution, shards, [], 0, 0, []⟩ with
    | some (run, reason) => some (conclude reader run reason)
    | none => none

end Execution

/-! ### All batches -/

/-- The rows of a whole query, or the reason why there are none, and everything as it is
then. -/
structure CollectOutcome (σ : Type) where
  /-- The rows. -/
  result : Except QueryError (List Row)
  /-- The requests sent, in their order. -/
  requests : List ShardRequest
  /-- The state of the shards. -/
  shards : σ

namespace Engine

variable {σ : Type}

/-- The rows of all batches of a query. Every batch is made by an execution of its own,
which is started with the token of the batch before. At most `batches` batches are made,
each in `budget` steps at most; none if they do not suffice. `rows` and `sent` are what
there was before. -/
def collectFrom (engine : Engine) (reader : ShardReader σ) (budget : Nat) (fresh : Uuid)
    (query : Query) (shards : σ) (rows : List Row) (sent : List ShardRequest) :
    Nat → Option (CollectOutcome σ)
  | 0 => none
  | batches + 1 =>
    match Execution.start engine query fresh with
    | .error error => some ⟨.error error, sent, shards⟩
    | .ok execution =>
      match execution.nextBatch reader budget shards with
      | none => none
      | some outcome =>
        let sent := sent ++ outcome.requests
        match outcome.result with
        | .error error => some ⟨.error error, sent, outcome.shards⟩
        | .ok batch =>
          let rows := rows ++ batch.rows
          match batch.token with
          | none => some ⟨.ok rows, sent, outcome.shards⟩
          | some token =>
            engine.collectFrom reader budget fresh { query with token := some token }
              outcome.shards rows sent batches

/-- The rows of all batches of a query. -/
def collectAll (engine : Engine) (reader : ShardReader σ) (batches budget : Nat) (fresh : Uuid)
    (query : Query) (shards : σ) : Option (CollectOutcome σ) :=
  engine.collectFrom reader budget fresh query shards [] [] batches

end Engine

end ShardQuery
