import ShardQuery.Proofs.Memory.Ledger

/-!
# Failed Batches

A batch that fails ends its execution, wherever it has been struck: all rows, groups and keys are
given up, nothing is in use any more, and there is nothing to go on with. Of several requests of
a round that fail, the first one in the order of the requests is reported, as the shard has
described it, if the answers before it can be taken in.

Main definitions:

* `Execution.Closed` — an execution that has nothing more to give;
* `BatchRun.Reaches` — the states that a batch goes through.

## Main results

* `Execution.closed_of_error`: a batch that fails leaves a closed execution.
* `BatchRun.step_of_refused`: the error of a round is that of its first failed request.
* `Execution.failed_nextBatch`: both, for whole batches.
-/

namespace ShardQuery

variable {σ τ α β : Type}

/-! ### Nothing left -/

/-- Whether a state holds no row, no group and no key. -/
def NodeState.IsVacant : NodeState → Prop
  | .receive shards => ∀ progress ∈ shards, progress.buffer = []
  | .sort state => state.buffer = []
  | .groupBy state => state.current = none
  | .distinct state => state.last = none ∧ state.seen = []
  | .project | .slice _ => True

/-- A stage that has been cleared holds nothing: each kind of state goes back to the one it starts
with, or keeps no rows at all. -/
theorem Stage.isVacant_cleared (stage : Stage) : stage.cleared.state.IsVacant := by
  cases stage with
  | sort | groupBy => rfl
  | distinct => exact ⟨rfl, rfl⟩
  | project | slice => trivial

/-- A cleared source has empty buffers for all of its shards. -/
theorem Source.isVacant_cleared (source : Source) : source.cleared.state.IsVacant :=
  List.forall_mem_map.2 fun _ _ => rfl

/-- A cleared pipeline holds nothing, whatever it held before. -/
theorem Pipeline.isVacant_cleared (pipeline : Pipeline) :
    ∀ state ∈ pipeline.cleared.states, state.IsVacant := by
  refine List.forall_mem_append.2 ⟨?_, List.forall_mem_singleton.2 (Source.isVacant_cleared _)⟩
  refine List.forall_mem_map.2 fun stage hmem => ?_
  obtain ⟨before, -, rfl⟩ := List.mem_map.1 hmem
  exact before.isVacant_cleared

/-- Whether an execution has nothing more to give: no row, no group, no key, no memory in use, no
token, and no batch but empty ones, for which no shard is asked. -/
structure Execution.Closed (execution : Execution) : Prop where
  /-- It is finished. -/
  finished : execution.finished = true
  /-- No memory is in use. -/
  used_eq : execution.memory.used = 0
  /-- Its states hold nothing. -/
  isVacant : ∀ state ∈ execution.pipeline.states, state.IsVacant
  /-- It has no token. -/
  token?_eq : execution.token? = none
  /-- Its batches are empty, and the last ones. -/
  nextBatch_eq : ∀ {τ : Type} (reader : ShardReader τ) (budget : Nat) (shards : τ),
    execution.nextBatch reader budget shards = some ⟨.ok ⟨[], none⟩, [], execution, shards⟩

namespace Execution

/-- Whatever state an execution is in, it is closed when it is aborted. -/
theorem closed_abort (execution : Execution) : execution.abort.Closed where
  finished := rfl
  used_eq := rfl
  isVacant := by
    rw [abort]
    simp only [pipeline_finish]
    exact execution.pipeline.isVacant_cleared
  token?_eq := rfl
  nextBatch_eq := nextBatch_of_finished rfl

/-- **A batch that fails leaves a closed execution**, whatever the error was and wherever in the
batch it came up: the execution is cleared before the error is returned. -/
theorem closed_of_error {execution : Execution} {reader : ShardReader σ} {budget : Nat}
    {shards : σ} {outcome : BatchOutcome σ} {error : QueryError}
    (h : execution.nextBatch reader budget shards = some outcome)
    (herror : outcome.result = .error error) : outcome.execution.Closed := by
  obtain ⟨-, before, last, -, -, rfl⟩ := failed_of_nextBatch h herror
  exact closed_abort _

end Execution

/-! ### The first error of a round -/

namespace Metered

/-- One computation after another one that has been booked. -/
theorem run_andThen {x : Metered σ α} {memory m : Memory} {s : σ} {a : α}
    (h : x.run memory = (m, s, .ok a)) (f : α → σ → Metered σ β) :
    (x.andThen f).run memory = (f a s).run m := by
  obtain ⟨hsettle, rfl, hresult⟩ := run_eq_ok_iff.1 h
  rw [andThen_of_ok hresult, run, run, Memory.settle_append, hsettle]

/-- A booking made before a computation stays in front when another computation follows. -/
theorem after_andThen (event : MemoryEvent) (s : σ) (x : Metered σ α)
    (f : α → σ → Metered σ β) :
    (after event s x).andThen f = after event s (x.andThen f) := by
  cases hresult : x.result with
  | error error =>
      rw [andThen_of_error hresult, andThen_of_error ((after_result _ _ _).trans hresult)]
      rfl
  | ok a =>
      rw [andThen_of_ok hresult, andThen_of_ok ((after_result _ _ _).trans hresult)]
      rfl

/-- What is done to a part of a state can be done to the whole. -/
theorem within_andThen {whole : σ → τ} {f : α → σ → Metered σ β} {g : α → τ → Metered τ β}
    (h : ∀ a s, g a (whole s) = (f a s).within whole) (x : Metered σ α) :
    (x.within whole).andThen g = (x.andThen f).within whole := by
  cases hresult : x.result with
  | error error =>
      rw [andThen_of_error hresult, andThen_of_error ((within_result _ _).trans hresult)]
      rfl
  | ok a =>
      rw [andThen_of_ok hresult, andThen_of_ok ((within_result _ _).trans hresult)]
      simp only [h, within, List.map_append]

end Metered

/-- Answers are taken in one after the other: taking in two lists in a row is taking in their
concatenation, up to the first failure. -/
theorem Source.receive_append (source : Source)
    (first second : List (Nat × Except RequestError ShardResponse)) :
    source.receive (first ++ second) =
      (source.receive first).andThen fun _ source => source.receive second := by
  induction first generalizing source with
  | nil => rfl
  | cons entry first ih =>
      obtain ⟨index, error | response⟩ := entry
      · rfl
      · rw [List.cons_append, receive, receive]
        split
        · rfl
        · simp only [ih, Metered.after_andThen]

/-- Answers are taken in one after the other, also by a pipeline, which passes each on to its
source. -/
theorem Pipeline.receive_append (pipeline : Pipeline)
    (first second : List (Nat × Except RequestError ShardResponse)) :
    pipeline.receive (first ++ second) =
      (pipeline.receive first).andThen fun _ pipeline => pipeline.receive second := by
  have hwhole (u : Unit) (source : Source) :
      Pipeline.receive ⟨pipeline.stages, source⟩ second =
        (source.receive second).within fun source => ⟨pipeline.stages, source⟩ := rfl
  rw [receive, Source.receive_append, receive]
  exact (Metered.within_andThen hwhole _).symm

namespace BatchRun

/-- The answers of a round, each with the place of the shard that it comes from. -/
def responses (reader : ShardReader σ) (run : BatchRun σ) (wanted : List Nat) :
    List (Nat × Except RequestError ShardResponse) :=
  ((run.execution.requests wanted).map (·.1)).zip (run.answers reader wanted).1

/-- Whether a batch asks shards next, and in time. The tick that wants them to be asked has been
booked in the account and the pipeline given. -/
structure Asks (reader : ShardReader σ) (run : BatchRun σ) (memory : Memory)
    (pipeline : Pipeline) (wanted : List Nat) : Prop where
  /-- There is room for another row. -/
  hasRoom : run.isFull = false
  /-- The tick wants shards to be asked. -/
  booked : run.booked = (memory, pipeline, .ok (.fetch wanted))
  /-- A round is left. -/
  hasRound : run.hasRound = true
  /-- There is something to ask. -/
  requests_ne : (run.moved memory pipeline).execution.requests wanted ≠ []
  /-- The time is not up. -/
  hasTime : run.remainingMs reader ≠ some 0
  /-- It suffices for the answers. -/
  inTime : run.isLate reader = false

/-- **The error of a round is that of its first failed request**, if the answers before it can be
taken in. -/
theorem step_of_refused {reader : ShardReader σ} {run : BatchRun σ} {m m' : Memory}
    {p p' : Pipeline} {wanted : List Nat}
    {before after : List (Nat × Except RequestError ShardResponse)} {index : Nat}
    {error : RequestError} (hasks : run.Asks reader m p wanted)
    (hresponses : (run.moved m p).responses reader wanted =
      before ++ (index, .error error) :: after)
    (hbefore : (p.receive before).run m = (m', p', .ok ())) :
    run.step reader = (((run.moved m p).answered reader wanted).moved m' p',
      some (.failed (.request error))) := by
  refine step_of_moves (.refused hasks.hasRoom hasks.booked hasks.hasRound hasks.requests_ne
    hasks.hasTime hasks.inTime ?_)
  change (p.receive ((run.moved m p).responses reader wanted)).run m = _
  rw [hresponses, Pipeline.receive_append, Metered.run_andThen hbefore]
  rfl

/-- The states that a batch goes through, from one to a later one by steps that do not end the
batch. -/
inductive Reaches (reader : ShardReader σ) : BatchRun σ → BatchRun σ → Prop
  /-- The one that it is in. -/
  | refl (run : BatchRun σ) : Reaches reader run run
  /-- Those after a step. -/
  | step {run next last : BatchRun σ} : run.step reader = (next, none) →
      Reaches reader next last → Reaches reader run last

/-- The end of a batch is that of any state that it goes through. -/
theorem steps_of_reaches {reader : ShardReader σ} {budget : Nat} {run next : BatchRun σ}
    {ended : BatchRun σ × BatchEnd} (h : Reaches reader run next)
    (hsteps : run.steps reader budget = some ended) :
    ∃ budget', next.steps reader budget' = some ended := by
  induction h generalizing budget with
  | refl run => exact ⟨budget, hsteps⟩
  | step hstep _ ih =>
      cases budget with
      | zero => cases hsteps
      | succ budget =>
          rw [steps_succ_of_step hstep] at hsteps
          exact ih hsteps

/-- A batch ends as the step says that ends it. -/
theorem end_of_reaches {reader : ShardReader σ} {budget : Nat} {run before last : BatchRun σ}
    {ended : BatchRun σ × BatchEnd} {reason : BatchEnd} (h : Reaches reader run before)
    (hstep : before.step reader = (last, some reason))
    (hsteps : run.steps reader budget = some ended) : ended = (last, reason) := by
  obtain ⟨budget', hsteps'⟩ := steps_of_reaches h hsteps
  cases budget' with
  | zero => cases hsteps'
  | succ budget' =>
      rw [steps_succ_of_end hstep] at hsteps'
      exact (Option.some.inj hsteps').symm

end BatchRun

namespace Execution

/-- **A batch that fails leaves nothing behind, and reports the first failed request.** Whatever
the execution, the shards and the failure are, the execution is closed. And when an open execution
comes to a round of requests in time, the answers up to an error can be taken in, and then the
batch fails with that very error, whatever answers follow. -/
theorem failed_nextBatch {execution : Execution} {reader : ShardReader σ} {budget : Nat}
    {shards : σ} {outcome : BatchOutcome σ}
    (h : execution.nextBatch reader budget shards = some outcome) :
    (∀ error, outcome.result = .error error → outcome.execution.Closed) ∧
    ∀ run m p wanted before index error after m' p',
      execution.finished = false →
      (BatchRun.start execution shards).Reaches reader run → run.Asks reader m p wanted →
      (run.moved m p).responses reader wanted = before ++ (index, .error error) :: after →
      (p.receive before).run m = (m', p', .ok ()) →
      outcome.result = .error (.request error) ∧ outcome.execution.Closed := by
  refine ⟨fun error => closed_of_error h, ?_⟩
  intro run m p wanted before index error after m' p' hopen hreaches hasks hresponses hbefore
  suffices hresult : outcome.result = .error (.request error) from
    ⟨hresult, closed_of_error h hresult⟩
  have hstep := BatchRun.step_of_refused hasks hresponses hbefore
  obtain ⟨hfinished, -⟩ | ⟨-, last, reason, hsteps, rfl⟩ := ended_of_nextBatch h
  · cases hopen.symm.trans hfinished
  · cases BatchRun.end_of_reaches hreaches hstep hsteps
    rfl

/-! ### An example -/

/-- The execution of a query for the rows of three shards in any order, at its start. -/
def threeShards : Execution where
  id := ⟨0⟩
  plan := ⟨Plan.currentVersion, [], ⟨"t", [1, 2, 3], false⟩⟩
  bindings := .empty
  options := ⟨none, none, none, 1024, none, none, .eventual, none, 4⟩
  memory := Memory.ofLimitMb 1024
  pipeline := ⟨[], ⟨"t", 0, 3, .anyOrder 4, [.start 1, .start 2, .start 3]⟩⟩
  elapsedMs := 0
  finished := false

/-- Three shards of which only the first one answers with a row. -/
def twoFailures : Recorded :=
  ⟨[(1, [.ok ⟨[Row.ofList [("a", .int 1)]], none⟩]),
    (2, [.error ⟨.throttled, "slow down", true⟩]),
    (3, [.error ⟨.network, "gone", false⟩])]⟩

/-- Both failures come in one round, and the first one is reported. The row that has been taken in
before it is given up. -/
theorem failed_twoFailures : ∃ outcome,
    threeShards.nextBatch Recorded.reader 1 twoFailures = some outcome ∧
      outcome.result = .error (.request ⟨.throttled, "slow down", true⟩) ∧
      outcome.execution.Closed := by
  have hbatch : threeShards.nextBatch Recorded.reader 1 twoFailures = some _ := rfl
  have hasks : (BatchRun.start threeShards twoFailures).Asks Recorded.reader
      (Memory.ofLimitMb 1024) threeShards.pipeline [0, 1, 2] :=
    ⟨rfl, rfl, rfl, nofun, nofun, rfl⟩
  have hfirst := (failed_nextBatch hbatch).2 _ _ _ _
    [(0, .ok ⟨[Row.ofList [("a", .int 1)]], none⟩)] 1 ⟨.throttled, "slow down", true⟩
    [(2, .error ⟨.network, "gone", false⟩)] _ _ rfl (.refl _) hasks rfl rfl
  exact ⟨_, hbatch, hfirst⟩

end Execution

end ShardQuery
