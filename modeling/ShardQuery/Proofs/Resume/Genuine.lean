import ShardQuery.Proofs.Resume.Suspension

/-!
# Genuine Executions

An execution is genuine if it has been started without a token, or with the token of a genuine
execution of the same plan and bind variables, in whatever place and under whatever options, and
been brought forward by any number of batches. What genuine executions rest on is what fresh ones
do, and their counters charge at least what is held: values that have been reread may be smaller
than what was charged for them.

A token that a full batch comes with is therefore accepted wherever the query can be started at
all, with one exception: its document wraps the values of the states in some more levels, and if it
nests too deep by that, nothing can be read from it.

Main definitions:

* `Execution.Genuine` — the executions that come of fresh starts, batches and tokens.

## Main results

* `Execution.Genuine.founded`: what open genuine executions rest on.
* `Execution.Genuine.start_with_token`: the tokens that are accepted, and what is in use after that.
-/

namespace ShardQuery

/-! ### Steps -/

/-- Whether steps are the same but for their functions. -/
inductive CompiledStep.Alike : CompiledStep → CompiledStep → Prop
  /-- Sorts have no functions. -/
  | sort (keys : List OrderKey) (mode : SortMode) : Alike (.sort keys mode) (.sort keys mode)
  /-- Groups may be computed in other ways. -/
  | groupBy (keys : List OrderKey) (aggregations aggregations' : List Aggregation) :
      Alike (.groupBy keys aggregations) (.groupBy keys aggregations')
  /-- Steps that drop repeated rows have no functions. -/
  | distinct (keys : List String) (strategy : DistinctStrategy) :
      Alike (.distinct keys strategy) (.distinct keys strategy)
  /-- Rows may be computed in other ways. -/
  | project (fields fields' : List (String × Formula)) : Alike (.project fields) (.project fields')
  /-- Bounds may be computed in other ways. -/
  | slice (offset offset' limit limit' : Option Formula) :
      Alike (.slice offset limit) (.slice offset' limit')

/-- A step is compiled to the same with other functions. -/
theorem alike_of_compile {registry registry' : Registry} {step : Step}
    {compiled compiled' : CompiledStep} (h : step.compile registry = .ok compiled)
    (h' : step.compile registry' = .ok compiled') : compiled.Alike compiled' := by
  cases step with
  | sort | distinct =>
      cases h
      cases h'
      constructor
  | groupBy | project =>
      obtain ⟨_, -, h⟩ := bind_eq_ok_iff.1 h
      obtain ⟨_, -, h'⟩ := bind_eq_ok_iff.1 h'
      cases h
      cases h'
      constructor
  | slice =>
      obtain ⟨_, -, h⟩ := bind_eq_ok_iff.1 h
      obtain ⟨_, -, h⟩ := bind_eq_ok_iff.1 h
      obtain ⟨_, -, h'⟩ := bind_eq_ok_iff.1 h'
      obtain ⟨_, -, h'⟩ := bind_eq_ok_iff.1 h'
      cases h
      cases h'
      constructor

/-- Steps are compiled to the same with other functions. -/
theorem alike_of_compileSteps {registry registry' : Registry} {steps : List Step}
    {compiled compiled' : List CompiledStep} (h : compileSteps registry steps = .ok compiled)
    (h' : compileSteps registry' steps = .ok compiled') :
    List.Forall₂ CompiledStep.Alike compiled compiled' := by
  rw [compileSteps_eq_ok_iff] at h h'
  induction h generalizing compiled' with
  | nil =>
      cases h'
      exact .nil
  | cons hstep _ ih =>
      obtain ⟨⟩ | ⟨hstep', hinner'⟩ := h'
      exact .cons (alike_of_compile hstep hstep') (ih hinner')

/-! ### Counters -/

/-- The counters of a stage go on to charge at least what is held when its state is reread, also
with other functions. -/
theorem Stage.tallies_reread {bindings : Bindings} {step step' : CompiledStep}
    {state : NodeState} {stage stage' : Stage} (halike : step.Alike step')
    (hopen : Pipeline.openStage? bindings step state = some (.ok stage))
    (hopen' : Pipeline.openStage? bindings step' state.reread = some (.ok stage'))
    (hbytes : state.trackedBytes < UInt64.size) (h : stage.Tallies (· ≥ ·)) :
    stage'.Tallies (· ≥ ·) := by
  have hmod : state.trackedBytes % UInt64.size = state.trackedBytes := Nat.mod_eq_of_lt hbytes
  cases halike with
  | sort keys mode =>
      cases state <;> cases hopen
      cases hopen'
      exact Nat.le_trans (totalSize_map_reread_le _) (Nat.le_trans h hmod.ge)
  | groupBy keys aggregations =>
      cases state with
      | groupBy state =>
          cases hopen
          cases hopen'
          refine Nat.le_trans ?_ (Nat.le_trans h hmod.ge)
          cases state.current with
          | none => exact Nat.le_refl 0
          | some group => exact group.sizeEstimate_reread_le
      | receive | sort | distinct | project | slice => cases hopen
  | distinct keys strategy =>
      cases state with
      | distinct state =>
          cases hopen
          cases hopen'
          cases strategy with
          | adjacent =>
              refine ⟨Nat.le_trans ?_ (Nat.le_trans h.1 hmod.ge), h.2⟩
              cases state.last with
              | none => exact Nat.le_refl 0
              | some key => exact Value.itemsSize_reread_le key
          | hashed =>
              exact ⟨Nat.le_trans h.1 hmod.ge, congrArg (Option.map Value.rereadItems) h.2⟩
      | receive | sort | groupBy | project | slice => cases hopen
  | project fields =>
      cases state <;> cases hopen
      cases hopen'
      trivial
  | slice offset limit =>
      cases state with
      | slice state =>
          have hstate := Pipeline.state_of_openStage hopen'
          cases stage' with
          | slice => trivial
          | sort | groupBy | distinct | project => cases hstate
      | receive | sort | groupBy | distinct | project => cases hopen

/-- The counters of a source go on to charge at least what is held when its rows are reread.
Rereading may shorten rows, but never makes them longer. -/
theorem Source.tallies_reread {source source' : Source}
    (hshards : source'.shards = source.shards.map ShardProgress.reread)
    (hbytes : source.trackedBytes < UInt64.size) (h : source.Tallies (· ≥ ·)) :
    source'.Tallies (· ≥ ·) := by
  intro progress hmem
  rw [hshards] at hmem
  obtain ⟨before, hbefore, rfl⟩ := List.mem_map.1 hmem
  have hlt : before.bufferedBytes < UInt64.size :=
    Nat.lt_of_le_of_lt (le_total_of_mem ShardProgress.bufferedBytes hbefore) hbytes
  refine Nat.le_trans (totalSize_map_reread_le before.buffer) (Nat.le_trans (h before hbefore) ?_)
  exact (Nat.mod_eq_of_lt hlt).ge

/-- The counters of a pipeline go on to charge at least what is held when its states are reread,
also with other functions. -/
theorem Pipeline.Opened.tallies_reread {bindings : Bindings}
    {openSource openSource' : List ShardProgress → Source} {steps steps' : List CompiledStep}
    {states : List NodeState} {pipeline pipeline' : Pipeline}
    (hsource : ∀ shards, (openSource shards).shards = shards)
    (hsource' : ∀ shards, (openSource' shards).shards = shards)
    (halike : List.Forall₂ CompiledStep.Alike steps steps')
    (hopened : Opened bindings openSource steps states pipeline)
    (hopened' : Opened bindings openSource' steps' (states.map NodeState.reread) pipeline')
    (hbytes : total NodeState.trackedBytes states < UInt64.size) (h : pipeline.Tallies (· ≥ ·)) :
    pipeline'.Tallies (· ≥ ·) := by
  induction hopened generalizing steps' pipeline' with
  | source shards =>
      cases halike
      cases hopened' with
      | source shards' =>
          refine ⟨nofun, @Source.tallies_reread (openSource shards) _ ?_ ?_ h.source⟩
          · rw [hsource, hsource']
          · rw [Source.trackedBytes, hsource]
            exact hbytes
  | @stage step state stage steps states inner hstage hinner ih =>
      rw [total_cons] at hbytes
      obtain ⟨⟩ | ⟨hstep, hsteps⟩ := halike
      cases hopened' with
      | stage hstage' hinner' =>
          obtain ⟨hfirst, hrest⟩ := List.forall_mem_cons.1 h.stages
          exact Tallies.wrap (Stage.tallies_reread hstep hstage hstage' (by omega) hfirst)
            (ih hsteps hinner' (by omega) ⟨hrest, h.source⟩)

namespace Execution

variable {σ : Type}

/-! ### Batches -/

/-- The token that a batch comes with is that of the execution after it. -/
theorem token?_of_nextBatch {reader : ShardReader σ} {budget : Nat} {shards : σ}
    {execution : Execution} {outcome : BatchOutcome σ} {batch : Batch} {token : Token}
    (h : execution.nextBatch reader budget shards = some outcome)
    (hresult : outcome.result = .ok batch) (htoken : batch.token = some token) :
    outcome.execution.token? = some token := by
  obtain ⟨-, rfl⟩ | ⟨-, last, reason, -, rfl⟩ := ended_of_nextBatch h
  · cases hresult
    cases htoken
  · cases reason with
    | full =>
        cases hresult
        exact htoken
    | exhausted =>
        cases hresult
        cases htoken
    | failed error => cases hresult

/-- A batch that leaves an execution open comes with a token. -/
theorem exists_token_of_nextBatch {reader : ShardReader σ} {budget : Nat} {shards : σ}
    {execution : Execution} {outcome : BatchOutcome σ}
    (h : execution.nextBatch reader budget shards = some outcome)
    (hnext : outcome.execution.finished = false) :
    ∃ batch token, outcome.result = .ok batch ∧ batch.token = some token := by
  obtain ⟨-, before, last, -, -, rfl⟩ := full_of_nextBatch h hnext
  exact ⟨_, _, rfl, token?_eq hnext⟩

/-- Only an open execution has a token, so whatever has one can still be gone on with. -/
theorem unfinished_of_token? {execution : Execution} {token : Token}
    (h : execution.token? = some token) : execution.finished = false := by
  rw [token?] at h
  split at h
  · cases h
  · next hfinished => exact Bool.eq_false_iff.2 hfinished

/-! ### Lineages -/

/-- The executions of a plan under bind variables that come of fresh starts, with the engine and
the options that they have been started with last. Those that were suspended on the way have all
been `kept` in some way. -/
inductive Genuine (kept : Execution → Prop) (plan : Plan) (bindings : Bindings) :
    Engine → QueryOptions → Execution → Prop
  /-- An execution that has been started without a token. -/
  | fresh {engine : Engine} {options : QueryOptions} {id : Uuid} {execution : Execution} :
      start engine ⟨plan, bindings, options, none⟩ id = .ok execution →
      Genuine kept plan bindings engine options execution
  /-- An execution after one more batch, whatever the shards answer. -/
  | batch {σ : Type} {reader : ShardReader σ} {budget : Nat} {shards : σ} {engine : Engine}
      {options : QueryOptions} {execution : Execution} {outcome : BatchOutcome σ} :
      Genuine kept plan bindings engine options execution →
      execution.nextBatch reader budget shards = some outcome →
      Genuine kept plan bindings engine options outcome.execution
  /-- An execution that goes on with the token of a genuine one, perhaps elsewhere. -/
  | resumed {engine engine' : Engine} {options options' : QueryOptions}
      {execution next : Execution} {token : Token} {id : Uuid} :
      Genuine kept plan bindings engine options execution → kept execution →
      execution.token? = some token →
      start engine' ⟨plan, bindings, options', some token⟩ id = .ok next →
      Genuine kept plan bindings engine' options' next

namespace Genuine

variable {kept : Execution → Prop} {plan : Plan} {bindings : Bindings} {engine : Engine}
  {options : QueryOptions} {execution : Execution}

/-- **An open genuine execution rests on all checks**, also if it goes on with a token. -/
theorem founded (h : Genuine kept plan bindings engine options execution)
    (hopen : execution.finished = false) :
    execution.Founded engine options ∧ execution.plan = plan ∧ execution.bindings = bindings := by
  induction h with
  | fresh hstart =>
      obtain ⟨steps, point, hstarted⟩ := start_eq_ok_iff.1 hstart
      exact ⟨founded_of_start rfl hstart, hstarted.plan_eq, hstarted.bindings_eq⟩
  | batch _ hbatch ih =>
      obtain ⟨hfounded, hplan, hbindings⟩ := ih (passes_of_open hbatch hopen).1
      have hadvances := advances_of_nextBatch hbatch hopen
      exact ⟨hfounded.advances hadvances, hadvances.plan_eq.trans hplan,
        hadvances.bindings_eq.trans hbindings⟩
  | @resumed _ engine' _ options' execution next token id _ _ htoken hstart ih =>
      obtain ⟨hfounded, rfl, rfl⟩ := ih (unfinished_of_token? htoken)
      -- The token holds the states of the execution, reread.
      obtain ⟨steps, hstarted⟩ := hfounded.suspendable.started_of_token htoken hstart
      exact ⟨hfounded.founded_of_token htoken hstart, hstarted.plan_eq, hstarted.bindings_eq⟩

/-- If amounts have never been cut off, a genuine execution charges at least what it holds, and
what it charges is in use. -/
theorem ledger
    (h : Genuine (fun before => before.memory.peak < maxAmount) plan bindings engine options
      execution)
    (hopen : execution.finished = false) : execution.Ledger (· ≥ ·) := by
  induction h with
  | fresh hstart => exact ledger_of_start isTally_ge rfl hstart
  | batch _ hbatch ih =>
      obtain ⟨hbefore, hpass⟩ := passes_of_open hbatch hopen
      exact ledger_of_passes isTally_ge (ih hbefore) hpass
  | @resumed _ engine' _ options' execution next token id hgenuine hpeak htoken hstart ih =>
      have hsuspended := unfinished_of_token? htoken
      obtain ⟨hfounded, rfl, rfl⟩ := hgenuine.founded hsuspended
      have hledger := ih hsuspended
      obtain ⟨steps, hstarted⟩ := hfounded.suspendable.started_of_token htoken hstart
      obtain ⟨steps', hcompile, hopened⟩ := hfounded.opened
      refine ⟨?_, hstarted.inOrder⟩
      exact hopened.tallies_reread (fun _ => rfl) (fun _ => rfl)
        (alike_of_compileSteps hcompile hstarted.compile) hstarted.openedNodes
        ((hledger.inOrder hpeak).trackedBytes_lt hpeak) hledger.tallies

/-- A genuine execution is started again with its own token, if that can be read. -/
theorem exists_restored
    (h : Genuine (fun before => before.memory.peak < maxAmount) plan bindings engine options
      execution)
    (hpeak : execution.memory.peak < maxAmount) (hreadable : execution.IsReadable) {token : Token}
    (htoken : execution.token? = some token) (fresh : Uuid) :
    ∃ resumed, start engine ⟨plan, bindings, options, some token⟩ fresh = .ok resumed ∧
      execution.Restored resumed := by
  have hopen := unfinished_of_token? htoken
  obtain ⟨hfounded, rfl, rfl⟩ := h.founded hopen
  exact hfounded.start_token ((h.ledger hopen).inOrder hpeak) hpeak hreadable htoken fresh

/-- A genuine execution that is started again with its own token goes on with the pipeline that its
states open when they are reread, and is alike but for that. -/
theorem exists_alike
    (h : Genuine (fun before => before.memory.peak < maxAmount) plan bindings engine options
      execution)
    (hpeak : execution.memory.peak < maxAmount) (hreadable : execution.IsReadable)
    (htime : execution.options.timeoutMs = none) {token : Token}
    (htoken : execution.token? = some token) {steps : List CompiledStep} {pipeline : Pipeline}
    (hcompile : compileSteps engine.registry plan.steps = .ok steps)
    (hpipeline : Pipeline.Opened bindings (plan.scan.source steps execution.options.maxFanOut)
      steps (execution.pipeline.states.map NodeState.reread) pipeline) (fresh : Uuid) :
    ∃ resumed, start engine ⟨plan, bindings, options, some token⟩ fresh = .ok resumed ∧
      Alike { execution with pipeline := pipeline } resumed := by
  obtain ⟨resumed, hstart, hrestored⟩ := h.exists_restored hpeak hreadable htoken fresh
  obtain ⟨steps', point, hstarted⟩ := start_eq_ok_iff.1 hstart
  cases hstarted.compile.symm.trans hcompile
  have hoptions : resumed.options = execution.options := by rw [hrestored.eq]
  have hopened := hstarted.openedNodes
  rw [← hstarted.states_eq, hrestored.states_eq, hoptions] at hopened
  have hsame : resumed.pipeline = pipeline :=
    Except.ok.inj ((Pipeline.openNodes_eq_ok_iff.2 hopened).symm.trans
      (Pipeline.openNodes_eq_ok_iff.2 hpipeline))
  exact ⟨resumed, hstart, hsame ▸ hrestored.alike (.inl htime)⟩

/-- **A token that a batch comes with is accepted exactly if its document does not nest too deep.**
Then the query goes on, with the same engine and under the same options, as the same execution, and
exactly as much memory is in use as before. Otherwise the token is corrupt. -/
theorem start_with_token
    (h : Genuine (fun before => before.memory.peak < maxAmount) plan bindings engine options
      execution)
    {σ : Type} {reader : ShardReader σ} {budget : Nat} {shards : σ} {outcome : BatchOutcome σ}
    {batch : Batch} {token : Token}
    (hbatch : execution.nextBatch reader budget shards = some outcome)
    (hresult : outcome.result = .ok batch) (htoken : batch.token = some token)
    (hpeak : outcome.execution.memory.peak < maxAmount) (fresh : Uuid) :
    (outcome.execution.IsReadable →
      ∃ resumed, start engine ⟨plan, bindings, options, some token⟩ fresh = .ok resumed ∧
        resumed.memory.used = outcome.execution.memory.used ∧
        resumed.memory.limit = outcome.execution.memory.limit ∧
        resumed.id = outcome.execution.id) ∧
    (¬outcome.execution.IsReadable →
      start engine ⟨plan, bindings, options, some token⟩ fresh = .error (.token .corrupt)) := by
  have htoken? := token?_of_nextBatch hbatch hresult htoken
  have hgenuine := h.batch hbatch
  have hopen := unfinished_of_token? htoken?
  obtain ⟨hfounded, rfl, rfl⟩ := hgenuine.founded hopen
  have horder := (hgenuine.ledger hopen).inOrder hpeak
  refine ⟨fun hreadable => ?_, fun hdeep => hfounded.start_token_of_deep hdeep htoken? fresh⟩
  obtain ⟨resumed, hstart, hrestored⟩ :=
    hfounded.start_token horder hpeak hreadable htoken? fresh
  have hid := congrArg Execution.id hrestored.eq
  exact ⟨resumed, hstart, hrestored.used_eq, hrestored.limit_eq, hid⟩

end Genuine

/-! ### An example -/

/-- A number in so many arrays, which is what brings a token to the limit of nesting. -/
def nested : Nat → Value
  | 0 => .int 1
  | depth + 1 => .array [nested depth]

/-- A query for the rows of one shard, one at a time. -/
def rowByRow : Query :=
  ⟨⟨Plan.currentVersion, [], ⟨"t", [0], true⟩⟩, .empty,
    { QueryOptions.standard with maxBatchBytes := some 1 }, none⟩

/-- The execution of `rowByRow` at its start, with nothing read of its shard. -/
def rowByRowStart : Execution where
  id := ⟨0⟩
  plan := rowByRow.plan
  bindings := .empty
  options := ⟨none, none, none, 1024, some 1, none, .eventual, none, 4⟩
  memory := Memory.ofLimitMb 1024
  pipeline := ⟨[], ⟨"t", 0, 1, .inOrder, [.start 0]⟩⟩
  elapsedMs := 0
  finished := false

/-- A shard with a page of two rows, a number and one in so many arrays. -/
def nestedPage (depth : Nat) : Recorded :=
  ⟨[(0, [.ok ⟨[Row.ofList [("a", .int 1)], Row.ofList [("a", nested depth)]], none⟩])]⟩

/-- The example is genuine from its start on. -/
theorem genuine_rowByRow (kept : Execution → Prop) :
    Genuine kept rowByRow.plan .empty plainEngine rowByRow.options rowByRowStart :=
  @Genuine.fresh _ _ _ _ _ ⟨0⟩ _ rfl

/-- One hundred and twenty arrays around a number: the token after the first row is accepted, and
the same memory is in use. -/
theorem start_with_token_rowByRow : ∃ outcome batch token resumed,
    rowByRowStart.nextBatch Recorded.reader 3 (nestedPage 120) = some outcome ∧
      outcome.result = .ok batch ∧ batch.token = some token ∧
      start plainEngine { rowByRow with token := some token } ⟨1⟩ = .ok resumed ∧
      resumed.memory.used = 1969 := by
  have hfacts : (rowByRowStart.nextBatch Recorded.reader 3 (nestedPage 120)).any (fun outcome =>
      !outcome.execution.finished &&
        decide (outcome.execution.body.toJson.nesting ≤ Json.depthLimit) &&
        decide (outcome.execution.memory.peak < maxAmount) &&
        outcome.execution.memory.used == 1969) = true := by
    decide +kernel
  obtain ⟨outcome, hbatch, hfacts⟩ := (Option.any_eq_true _ _).1 hfacts
  simp only [Bool.and_eq_true, Bool.not_eq_true', decide_eq_true_eq, beq_iff_eq] at hfacts
  obtain ⟨⟨⟨hopen, hreadable⟩, hpeak⟩, hused⟩ := hfacts
  obtain ⟨batch, token, hresult, htoken⟩ := exists_token_of_nextBatch hbatch hopen
  obtain ⟨resumed, hstart, hsame, -⟩ :=
    ((genuine_rowByRow _).start_with_token hbatch hresult htoken hpeak ⟨1⟩).1 hreadable
  exact ⟨outcome, batch, token, resumed, hbatch, hresult, htoken, hstart, hsame.trans hused⟩

/-- One more array: the token after the first row is corrupt. -/
theorem corrupt_token_rowByRow : ∃ outcome batch token,
    start plainEngine rowByRow ⟨0⟩ = .ok rowByRowStart ∧
      rowByRowStart.nextBatch Recorded.reader 3 (nestedPage 121) = some outcome ∧
      outcome.result = .ok batch ∧ batch.token = some token ∧
      start plainEngine { rowByRow with token := some token } ⟨1⟩ = .error (.token .corrupt) := by
  have hfacts : (rowByRowStart.nextBatch Recorded.reader 3 (nestedPage 121)).any (fun outcome =>
      !outcome.execution.finished &&
        decide (Json.depthLimit < outcome.execution.body.toJson.nesting)) = true := by
    decide +kernel
  obtain ⟨outcome, hbatch, hfacts⟩ := (Option.any_eq_true _ _).1 hfacts
  simp only [Bool.and_eq_true, Bool.not_eq_true', decide_eq_true_eq] at hfacts
  obtain ⟨hopen, hdeep⟩ := hfacts
  obtain ⟨batch, token, hresult, htoken⟩ := exists_token_of_nextBatch hbatch hopen
  obtain ⟨hfounded, hplan, hbindings⟩ :=
    ((genuine_rowByRow fun _ => True).batch hbatch).founded hopen
  have hstart := hfounded.start_token_of_deep (Nat.not_le.2 hdeep)
    (token?_of_nextBatch hbatch hresult htoken) ⟨1⟩
  rw [goOn, hplan, hbindings] at hstart
  exact ⟨outcome, batch, token, rfl, hbatch, hresult, htoken, hstart⟩

end Execution

end ShardQuery
