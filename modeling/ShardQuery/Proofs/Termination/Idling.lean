import ShardQuery.Proofs.Bounds
import ShardQuery.Proofs.Resume.Reencoding

/-!
# Batches without Progress

A batch that may have no rows is full before its first tick. It comes with a token, and whatever
goes on with it is where it was, so that a run makes such batches forever: no row is sent on and no
shard is asked. Callers cannot ask for no rows, but an engine can be set to it. This is also the
only way for a run to stand still.

Main definitions:

* `BatchOutcome.IsIdle` — a batch with a token, but without a row or a request;
* `Execution.Idles` — a run makes idle batches without end.

## Main results

* `Execution.limit_eq_zero_of_isIdle`: batches are idle only if they may have no rows.
* `Execution.idles_of_limit_eq_zero`, `Execution.idles_by_tokens`: then all batches are.
* `Execution.standsStill_iff_of_start`: which accepted queries stand still.
-/

namespace ShardQuery

variable {σ : Type}

/-! ### Documents of tokens at the start -/

/-- Items within some nesting, each of them, are so together. -/
theorem Json.itemsNesting_map_le {α : Type} {f : α → Json} {l : List α} {depth : Nat}
    (h : ∀ a ∈ l, (f a).nesting ≤ depth) : Json.itemsNesting (l.map f) ≤ depth := by
  induction l with
  | nil => exact Nat.zero_le depth
  | cons a l ih =>
      obtain ⟨ha, hl⟩ := List.forall_mem_cons.1 h
      exact Nat.max_le.2 ⟨ha, ih hl⟩

/-- The documents of the states at the beginning are shallow. -/
theorem Plan.nesting_of_startStates {plan : Plan} :
    ∀ state ∈ plan.startStates, state.toJson.nesting ≤ 4 := by
  refine List.forall_mem_append.2 ⟨List.forall_mem_map.2 fun step _ => ?_, ?_⟩
  · cases step <;> exact Nat.le_of_ble_eq_true rfl
  · refine List.forall_mem_singleton.2 ?_
    have hshards : Json.itemsNesting
        ((plan.scan.shards.map ShardProgress.start).map ShardProgress.toJson) ≤ 2 :=
      Json.itemsNesting_map_le (List.forall_mem_map.2 fun shard _ => by rfl)
    simp only [NodeState.toJson, NodeState.members, Json.nesting, Json.membersNesting]
    omega

namespace Execution

variable {engine : Engine} {query : Query} {fresh id : Uuid} {execution resumed : Execution}

/-- The token of an execution that has just been started without one can be read. -/
theorem isReadable_of_start (htoken : query.token = none)
    (h : start engine query fresh = .ok execution) : execution.IsReadable := by
  have hshape : Json.itemsNesting
      (execution.plan.shape.map fun kind => .string kind.name) ≤ 0 :=
    Json.itemsNesting_map_le fun _ _ => Nat.le_refl 0
  have hstates : Json.itemsNesting (execution.pipeline.states.map NodeState.toJson) ≤ 4 := by
    rw [states_of_start htoken h]
    exact Json.itemsNesting_map_le Plan.nesting_of_startStates
  simp only [IsReadable, body, TokenBody.toJson, Json.nesting, Json.membersNesting, Json.depthLimit]
  omega

/-- A query that has been started without a token can be started with the token of its execution.
The execution is another one, but it has the same token. -/
theorem exists_start_of_token (htoken : query.token = none)
    (h : start engine query fresh = .ok execution) {token : Token}
    (hhas : execution.token? = some token) (id : Uuid) :
    ∃ resumed, start engine { query with token := some token } id = .ok resumed ∧
      resumed.token? = some token := by
  obtain ⟨steps, point, hstarted⟩ := start_eq_ok_iff.1 h
  have hfounded := founded_of_start htoken h
  have hpeak : execution.memory.peak < maxAmount := by
    rw [(memory_of_start htoken h).1]
    exact Nat.zero_lt_of_lt (show 0 < maxAmount by decide)
  have hgoOn : { query with token := some token } = execution.goOn query.options token := by
    rw [goOn, hstarted.plan_eq, hstarted.bindings_eq]
  obtain ⟨resumed, hresumed, -⟩ := hfounded.start_token (hstarted.inOrder hpeak) hpeak
    (isReadable_of_start htoken h) hhas id
  refine ⟨resumed, hgoOn ▸ hresumed, ?_⟩
  -- The states at the beginning hold no values, so they are written again as they have been read.
  obtain ⟨_, hrestarted⟩ := hfounded.suspendable.started_of_token hhas hresumed
  have hordered : ∀ state ∈ execution.pipeline.states, state.IsOrdered := by
    rw [states_of_start htoken h]
    exact query.plan.isOrdered_startStates
  have hdocument := toJson_body_of_states hordered hrestarted.id_eq hrestarted.elapsedMs_eq
    hrestarted.plan_eq hrestarted.states_eq
  rw [← hhas, token?_eq hstarted.finished_eq, token?_eq hrestarted.finished_eq, Token.encode,
    Token.encode, hdocument, hrestarted.plan_eq, hrestarted.bindings_eq]
  rfl

end Execution

/-! ### Idle batches -/

/-- Whether a batch has a token, but neither a row nor a request. -/
structure BatchOutcome.IsIdle (outcome : BatchOutcome σ) : Prop where
  /-- There is a token and no row. -/
  result : ∃ token, outcome.result = .ok ⟨[], some token⟩
  /-- No shard has been asked. -/
  requests : outcome.requests = []

namespace Execution

variable {reader : ShardReader σ} {shards : σ} {goesOn : Execution → Option Execution}
  {engine : Engine} {query : Query} {fresh id : Uuid} {first execution : Execution}

/-- Whether a run makes idle batches without end, in whatever way it goes on between. -/
def Idles (reader : ShardReader σ) (goesOn : Execution → Option Execution) (execution : Execution)
    (shards : σ) : Prop :=
  ∃ chain : ℕ → Execution, chain 0 = execution ∧ ∀ n, ∃ budget outcome,
    (chain n).nextBatch reader budget shards = some outcome ∧ outcome.IsIdle ∧
      outcome.shards = shards ∧ goesOn outcome.execution = some (chain (n + 1))

/-- **A batch is idle only if it may have no rows**, the other bounds not being zero. -/
theorem limit_eq_zero_of_isIdle {budget : Nat} {outcome : BatchOutcome σ}
    (hbytes : execution.options.maxBatchBytes ≠ some 0)
    (hrounds : execution.options.maxRoundTrips ≠ some 0)
    (h : execution.nextBatch reader budget shards = some outcome) (hidle : outcome.IsIdle) :
    execution.options.limit = some 0 := by
  by_contra hlimit
  obtain ⟨⟨token, hresult⟩, hrequests⟩ := hidle
  obtain ⟨-, rfl⟩ | ⟨hopen, -⟩ := ended_of_nextBatch h
  · cases hresult
  obtain ⟨before, last, reason, hbefore, hstep, rfl⟩ := passes_of_nextBatch .start hopen h
  have hcaps : before.execution.options.Nonzero :=
    (advances_of_passes hbefore).options_eq ▸ ⟨hlimit, hbytes, hrounds⟩
  cases reason with
  | failed => cases hresult
  | exhausted =>
      have htoken : none = some token := congrArg Batch.token (Except.ok.inj hresult)
      cases htoken
  | full =>
      have hrows : last.rows.reverse = [] := congrArg Batch.rows (Except.ok.inj hresult)
      obtain hne | ⟨-, hne⟩ :=
        (counts_of_passes hbefore).hasProgressed hcaps (BatchRun.moves_of_step hstep)
      · exact hne (List.reverse_eq_nil_iff.1 hrows)
      · exact hne (List.reverse_eq_nil_iff.1 hrequests)

/-- A batch that may have no rows is full at once and leaves everything as it is. -/
theorem nextBatch_of_limit_eq_zero (hlimit : execution.options.limit = some 0)
    (hopen : execution.finished = false) (reader : ShardReader σ) (shards : σ) :
    execution.nextBatch reader 1 shards =
      some ⟨.ok ⟨[], execution.token?⟩, [], execution, shards⟩ := by
  have hfull : (BatchRun.start execution shards).isFull = true := by
    rw [BatchRun.isFull, BatchRun.start, hlimit]
    rfl
  have hsteps : (BatchRun.start execution shards).steps reader 1 =
      some (.start execution shards, .full) := by
    rw [BatchRun.steps, BatchRun.step, if_pos hfull]
  have hsame : { execution with elapsedMs := execution.elapsedMs + 0 * reader.latencyMs } =
      execution := by
    rw [Nat.zero_mul, Nat.add_zero]
  rw [nextBatch_of_steps hopen hsteps, conclude]
  simp only [BatchRun.start, hsame, List.reverse_nil]

/-- With a limit of no rows a batch can do nothing: it is full at its first step, and leaves the
execution and the shards as they are. -/
theorem exists_idle_of_limit_eq_zero (hlimit : execution.options.limit = some 0)
    (hopen : execution.finished = false) (reader : ShardReader σ) (shards : σ) :
    ∃ budget outcome, execution.nextBatch reader budget shards = some outcome ∧ outcome.IsIdle ∧
      outcome.shards = shards ∧ outcome.execution = execution := by
  have hbatch := nextBatch_of_limit_eq_zero hlimit hopen reader shards
  rw [token?_eq hopen] at hbatch
  exact ⟨1, _, hbatch, ⟨⟨_, rfl⟩, rfl⟩, rfl, rfl⟩

/-- **A run of one execution whose batches may have no rows stands still.** -/
theorem idles_of_limit_eq_zero (hlimit : execution.options.limit = some 0)
    (hopen : execution.finished = false) (reader : ShardReader σ) (shards : σ) :
    execution.Idles reader some shards := by
  obtain ⟨budget, outcome, hbatch, hidle, hshards, hsame⟩ :=
    exists_idle_of_limit_eq_zero hlimit hopen reader shards
  exact ⟨fun _ => execution, rfl, fun _ =>
    ⟨budget, outcome, hbatch, hidle, hshards, congrArg some hsame⟩⟩

/-- **So does a chain of executions**, each started with the token of the one before: all of its
tokens are one. -/
theorem idles_by_tokens (hstart : start engine query fresh = .ok execution)
    (htoken : query.token = none) (hlimit : execution.options.limit = some 0)
    (reader : ShardReader σ) (shards : σ) (id : Uuid) :
    execution.Idles reader (engine.resume? query id) shards := by
  obtain ⟨steps, point, hstarted⟩ := start_eq_ok_iff.1 hstart
  have hhas := token?_eq hstarted.finished_eq
  generalize Token.encode execution.plan execution.bindings execution.body = token at hhas
  obtain ⟨resumed, hresumed, hagain⟩ := exists_start_of_token htoken hstart hhas id
  obtain ⟨steps', point', hrestarted⟩ := start_eq_ok_iff.1 hresumed
  have hoptions : resumed.options = execution.options :=
    Except.ok.inj (hrestarted.options.symm.trans hstarted.options)
  -- Whatever has this token goes on as the same execution.
  have hgoesOn {next : Execution} (hnext : next.token? = some token) :
      engine.resume? query id next = some resumed := by
    rw [Engine.resume?, hnext, Option.bind_some, hresumed]
    rfl
  have hidles {next : Execution} (hnext : next.token? = some token)
      (hsame : next.options = execution.options) : ∃ budget outcome,
      next.nextBatch reader budget shards = some outcome ∧ outcome.IsIdle ∧
        outcome.shards = shards ∧ engine.resume? query id outcome.execution = some resumed := by
    obtain ⟨budget, outcome, hbatch, hidle, hshards, heq⟩ := exists_idle_of_limit_eq_zero
      (hsame ▸ hlimit) (unfinished_of_token? hnext) reader shards
    exact ⟨budget, outcome, hbatch, hidle, hshards, heq ▸ hgoesOn hnext⟩
  refine ⟨fun n => n.casesOn execution fun _ => resumed, rfl, fun n => ?_⟩
  cases n with
  | zero => exact hidles hhas rfl
  | succ n => exact hidles hagain hoptions

/-- **Which accepted queries stand still.** The limits of an accepted query are not zero exactly if
the caller asks for one wherever the engine is set to zero. Its runs make idle batches without end
exactly if the number of rows is zero, which is what the engine is set to where the caller asks for
none: one execution does so at any time, and so does a chain of executions from a fresh start on. -/
theorem standsStill_iff_of_start (hstart : start engine query fresh = .ok first) :
    (first.options.HasNoZero ↔ query.options.Covers engine.config) ∧
    (first.options.limit = some 0 ↔
      query.options.limit = none ∧ engine.config.defaultLimit = some 0) ∧
    (∀ (σ : Type) (reader : ShardReader σ) (shards : σ) (goesOn : Execution → Option Execution)
      (execution : Execution), first.Becomes execution →
      execution.Idles reader goesOn shards → first.options.limit = some 0) ∧
    (first.options.limit = some 0 →
      (∀ (σ : Type) (reader : ShardReader σ) (shards : σ) (execution : Execution),
        first.Becomes execution → execution.finished = false →
        execution.Idles reader some shards) ∧
      (query.token = none → ∀ (σ : Type) (reader : ShardReader σ) (shards : σ) (id : Uuid),
        first.Idles reader (engine.resume? query id) shards)) := by
  obtain ⟨steps, point, hstarted⟩ := start_eq_ok_iff.1 hstart
  obtain ⟨hasked, -, hresolved⟩ := QueryOptions.resolve_eq_ok_iff.1 hstarted.options
  refine ⟨QueryOptions.hasNoZero_iff_of_resolve hstarted.options, ?_, ?_, fun hlimit => ⟨?_, ?_⟩⟩
  · have hlimit : first.options.limit = (query.options.limit <|> engine.config.defaultLimit) := by
      rw [hresolved]
    rw [hlimit]
    cases hasks : query.options.limit with
    | none => exact ⟨fun h => ⟨rfl, h⟩, And.right⟩
    | some n => exact iff_of_false (fun h => hasked.limit (hasks.trans h)) nofun
  · rintro σ reader shards goesOn execution hbecomes ⟨chain, rfl, hchain⟩
    obtain ⟨budget, outcome, hbatch, hidle, -⟩ := hchain 0
    rw [← hbecomes.options_eq]
    refine limit_eq_zero_of_isIdle ?_ ?_ hbatch hidle <;> rw [hbecomes.options_eq, hresolved]
    · exact hasked.maxBatchBytes
    · exact hasked.maxRoundTrips
  · intro σ reader shards execution hbecomes hopen
    exact idles_of_limit_eq_zero (hbecomes.options_eq ▸ hlimit) hopen reader shards
  · exact fun htoken σ reader shards id => idles_by_tokens hstart htoken hlimit reader shards id

/-- A query of an engine that is not set to zero has no zero and never stands still. -/
theorem never_standsStill_rowByRow :
    start plainEngine rowByRow ⟨0⟩ = .ok rowByRowStart ∧ rowByRowStart.options.HasNoZero ∧
      ∀ execution, rowByRowStart.Becomes execution → ∀ goesOn,
        ¬execution.Idles Recorded.reader goesOn twoPages := by
  have hstart : start plainEngine rowByRow ⟨0⟩ = .ok rowByRowStart := rfl
  obtain ⟨hno, hzero, hidles, -⟩ := standsStill_iff_of_start hstart
  refine ⟨hstart, hno.2 ⟨by decide, by decide, by decide⟩, fun execution hbecomes goesOn h => ?_⟩
  obtain ⟨-, hlimit⟩ := hzero.1 (hidles _ _ _ goesOn execution hbecomes h)
  cases hlimit

/-- An engine that is set to batches without rows. -/
def idlingEngine : Engine :=
  ⟨{ EngineConfig.standard with defaultLimit := some 0 }, ⟨"", []⟩⟩

/-- A query for the rows of one shard that asks for no limit. -/
def plainScan : Query :=
  ⟨⟨Plan.currentVersion, [], ⟨"t", [0], false⟩⟩, .empty, .standard, none⟩

/-- The execution of `plainScan` at its start, under a configuration whose default limit is zero. -/
def plainScanStart : Execution where
  id := ⟨0⟩
  plan := plainScan.plan
  bindings := .empty
  options := ⟨some 0, none, none, 1024, none, none, .eventual, none, 4⟩
  memory := Memory.ofLimitMb 1024
  pipeline := ⟨[], ⟨"t", 0, 1, .anyOrder 4, [.start 0]⟩⟩
  elapsedMs := 0
  finished := false

/-- The engine accepts the query, and the query stands still, be it run by one execution or by a
chain of them, although the shard has a row. -/
theorem standsStill_plainScan :
    start idlingEngine plainScan ⟨0⟩ = .ok plainScanStart ∧ ¬plainScanStart.options.HasNoZero ∧
      plainScanStart.Idles Recorded.reader some twoPages ∧
      ∀ id, plainScanStart.Idles Recorded.reader (idlingEngine.resume? plainScan id) twoPages := by
  have hstart : start idlingEngine plainScan ⟨0⟩ = .ok plainScanStart := rfl
  refine ⟨hstart, fun hno => hno.limit rfl, ?_, fun id => ?_⟩
  · exact idles_of_limit_eq_zero rfl rfl Recorded.reader twoPages
  · exact idles_by_tokens hstart rfl rfl Recorded.reader twoPages id

end Execution

end ShardQuery
