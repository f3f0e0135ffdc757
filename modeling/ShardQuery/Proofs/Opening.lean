import ShardQuery.Execution
import ShardQuery.Proofs.Except
import ShardQuery.Proofs.Metered

/-!
# Opening Queries

What a successful start of a query has gone through, and how the pipeline that it opens
belongs to the compiled steps and to the states of the nodes.

## Main results

* `Pipeline.openNodes_eq_ok_iff`: the pipelines that can be opened, node by node.
* `Pipeline.Opened.states_eq`: a pipeline has the states that it was opened with.
* `Execution.start_eq_ok_iff`: a query starts exactly if all of its checks pass.
* `Execution.exists_started_of_start`: a query without a token starts at the beginning.
-/

namespace ShardQuery

namespace Pipeline

variable {bindings : Bindings} {openSource : List ShardProgress → Source}

/-- Whether a pipeline is the one of compiled steps over a source with the states of their
nodes. -/
inductive Opened (bindings : Bindings) (openSource : List ShardProgress → Source) :
    List CompiledStep → List NodeState → Pipeline → Prop
  /-- The scan has its state last. -/
  | source (shards : List ShardProgress) :
      Opened bindings openSource [] [.receive shards] ⟨[], openSource shards⟩
  /-- A step has its state before those of the steps inside. -/
  | stage {step : CompiledStep} {state : NodeState} {stage : Stage} {steps : List CompiledStep}
      {states : List NodeState} {inner : Pipeline} :
      openStage? bindings step state = some (.ok stage) →
      Opened bindings openSource steps states inner →
      Opened bindings openSource (step :: steps) (state :: states) (inner.wrap stage)

/-- What is reserved for a restored state: the memory that its counter claims, under the name of its
kind, and nothing if that is zero. -/
def charge (state : NodeState) : List (MemoryEvent × Unit) :=
  if state.trackedBytes = 0 then [] else [(.reserve state.trackedBytes state.kind.name, ())]

/-- Charging for a state puts its reservation in front of what follows. -/
theorem chargeRestored_events {α : Type} (state : NodeState) (x : Metered Unit α) :
    (chargeRestored state x).events = charge state ++ x.events := by
  unfold chargeRestored charge
  split <;> rfl

/-- Charging for a state leaves the result as it is, apart from the refusal of the reservation,
which shows only when it is booked. -/
@[simp] theorem chargeRestored_result {α : Type} (state : NodeState) (x : Metered Unit α) :
    (chargeRestored state x).result = x.result := by
  unfold chargeRestored
  split <;> rfl

/-- The pipelines that can be opened, node by node. -/
theorem openNodes_eq_ok_iff {steps : List CompiledStep} {states : List NodeState}
    {pipeline : Pipeline} :
    (openNodes bindings openSource steps states).result = .ok pipeline ↔
      Opened bindings openSource steps states pipeline := by
  induction steps generalizing states pipeline with
  | nil =>
      constructor
      · intro h
        unfold openNodes at h
        split at h
        · rw [chargeRestored_result] at h
          cases h
          exact .source _
        · next heq => cases heq
        · cases h
      · rintro ⟨shards⟩
        rw [openNodes, chargeRestored_result]
        rfl
  | cons step steps ih =>
      constructor
      · intro h
        cases states with
        | nil => cases h
        | cons state states =>
            rw [openNodes] at h
            split at h
            · cases h
            · rw [chargeRestored_result] at h
              cases h
            · next stage hstage =>
                rw [chargeRestored_result] at h
                cases hinner : (openNodes bindings openSource steps states).result with
                | error error =>
                    rw [Metered.andThen_of_error hinner] at h
                    cases h
                | ok inner =>
                    rw [Metered.andThen_of_ok hinner] at h
                    cases h
                    exact .stage hstage (ih.1 hinner)
      · rintro (_ | ⟨hstage, hinner⟩)
        rw [openNodes, hstage]
        simp only
        rw [chargeRestored_result, Metered.andThen_of_ok (ih.2 hinner)]
        rfl

/-- What is reserved for a pipeline: what its states are charged for, state by state. -/
theorem Opened.events_eq {steps : List CompiledStep} {states : List NodeState}
    {pipeline : Pipeline} (h : Opened bindings openSource steps states pipeline) :
    (openNodes bindings openSource steps states).events = states.flatMap charge := by
  induction h with
  | source shards =>
      rw [openNodes, chargeRestored_events]
      rfl
  | stage hstage hinner ih =>
      rw [openNodes, hstage]
      simp only
      rw [chargeRestored_events, Metered.andThen_of_ok (openNodes_eq_ok_iff.2 hinner)]
      simp only [ih, Metered.done_events, List.append_nil, List.flatMap_cons]

/-- A stage has the state that it was opened with. -/
theorem state_of_openStage {step : CompiledStep} {state : NodeState} {stage : Stage}
    (h : openStage? bindings step state = some (.ok stage)) : stage.state = state := by
  unfold openStage? at h
  split at h
  · cases h
    rfl
  · cases h
    rfl
  · cases h
    rfl
  · cases h
    rfl
  · next offset limit state =>
      simp only [Option.some.injEq] at h
      cases hoffset : bound bindings "offset" offset <;> rw [hoffset] at h
      · cases h
      · cases hlimit : bound bindings "limit" limit <;> rw [hlimit] at h <;> cases h
        rfl
  · cases h

/-- A pipeline has the states that it was opened with. -/
theorem Opened.states_eq {steps : List CompiledStep} {states : List NodeState}
    {pipeline : Pipeline} (h : Opened bindings openSource steps states pipeline)
    (hsource : ∀ shards, (openSource shards).shards = shards) : pipeline.states = states := by
  induction h with
  | source shards => exact congrArg (fun s => [NodeState.receive s]) (hsource shards)
  | stage hstage _ ih =>
      rw [← ih, ← state_of_openStage hstage]
      rfl

/-- Steps open states of one kind alike: a bound of a slice does not depend on them. -/
theorem openStage?_of_kind {step : CompiledStep} {state state' : NodeState} {stage : Stage}
    (h : openStage? bindings step state = some (.ok stage)) (hkind : state'.kind = state.kind) :
    ∃ stage', openStage? bindings step state' = some (.ok stage') := by
  cases step with
  | sort | groupBy | distinct | project =>
      cases state <;> cases h
      cases state' <;> cases hkind
      exact ⟨_, rfl⟩
  | slice offset limit =>
      cases state with
      | slice state =>
          cases state' <;> cases hkind
          simp only [openStage?, Option.some.injEq, bind_eq_ok_iff] at h ⊢
          obtain ⟨first, hfirst, most, hmost, -⟩ := h
          exact ⟨_, first, hfirst, most, hmost, rfl⟩
      | receive | sort | groupBy | distinct | project => cases h

/-- Steps that open a pipeline also open other states of the same kinds. -/
theorem Opened.reopen {steps : List CompiledStep} {states states' : List NodeState}
    {pipeline : Pipeline} (h : Opened bindings openSource steps states pipeline)
    (hkinds : states'.map NodeState.kind = states.map NodeState.kind) :
    ∃ pipeline', Opened bindings openSource steps states' pipeline' := by
  induction h generalizing states' with
  | source shards =>
      obtain ⟨state, rfl, hkind⟩ := List.map_eq_singleton_iff.1 hkinds
      cases state <;> cases hkind
      exact ⟨_, .source _⟩
  | stage hstage _ ih =>
      obtain ⟨state', rest', rfl, hkind, hrest⟩ := List.map_eq_cons_iff.1 hkinds
      obtain ⟨stage', hstage'⟩ := openStage?_of_kind hstage hkind
      obtain ⟨inner', hinner'⟩ := ih hrest
      exact ⟨_, .stage hstage' hinner'⟩

/-- The scan has the state that it was opened with. -/
theorem Opened.source_eq {steps : List CompiledStep} {states : List NodeState}
    {pipeline : Pipeline} (h : Opened bindings openSource steps states pipeline) :
    ∃ shards, states.getLast? = some (.receive shards) ∧ pipeline.source = openSource shards := by
  induction h with
  | source shards => exact ⟨shards, rfl, rfl⟩
  | stage _ _ ih =>
      obtain ⟨shards, hlast, hsource⟩ := ih
      exact ⟨shards, by rw [List.getLast?_cons, hlast]; rfl, hsource⟩

/-- The last state of a pipeline is that of its source. -/
theorem shards_of_states {pipeline : Pipeline} {states : List NodeState}
    {shards : List ShardProgress} (h : pipeline.states = states ++ [.receive shards]) :
    pipeline.source.shards = shards :=
  NodeState.receive.inj (List.cons.inj (List.append_inj_right' h rfl)).1

end Pipeline

/-! ### Plans -/

/-- Nothing is found to be repeated exactly if all items are different and none of them has been
seen before. -/
theorem firstRepeated?_eq_none_iff {α : Type} [BEq α] [LawfulBEq α] {seen l : List α} :
    firstRepeated? seen l = none ↔ l.Nodup ∧ ∀ a ∈ l, a ∉ seen := by
  induction l generalizing seen with
  | nil => simp [firstRepeated?]
  | cons a l ih =>
      unfold firstRepeated?
      split
      · next h => simp_all
      · next h =>
          have ha : a ∉ seen := by simpa using h
          rw [ih, List.nodup_cons, List.forall_mem_cons]
          simp only [List.mem_cons, not_or]
          constructor
          · rintro ⟨hnodup, hall⟩
            exact ⟨⟨fun hmem => (hall a hmem).1 rfl, hnodup⟩, ha, fun b hb => (hall b hb).2⟩
          · rintro ⟨⟨hmem, hnodup⟩, -, hall⟩
            exact ⟨hnodup, fun b hb => ⟨fun heq => hmem (heq ▸ hb), hall b hb⟩⟩

/-- A plan whose steps have no fault has none in its scan, which is looked at last. -/
theorem fault?_of_faultOfSteps? {scan : Scan} {steps : List Step}
    (h : faultOfSteps? scan steps = none) : scan.fault? = none := by
  induction steps with
  | nil => exact h
  | cons step inner ih => exact ih (Option.or_eq_none_iff.1 h).2

/-- A plan that can be run has no fault. -/
theorem Plan.faultOfSteps?_of_check {plan : Plan} (h : plan.check = .ok ()) :
    faultOfSteps? plan.scan plan.steps = none := by
  unfold check at h
  split at h
  · cases h
  · split at h
    · cases h
    · assumption

/-- A plan that can be run names every shard once. -/
theorem Plan.nodup_shards {plan : Plan} (h : plan.check = .ok ()) : plan.scan.shards.Nodup := by
  have hscan := fault?_of_faultOfSteps? (faultOfSteps?_of_check h)
  unfold Scan.fault? at hscan
  split at hscan
  · cases hscan
  · split at hscan
    · cases hscan
    · exact (firstRepeated?_eq_none_iff.1 (Option.map_eq_none_iff.1 hscan)).1

/-- Steps are compiled one by one, each to the step at its own place. -/
theorem compileSteps_eq_ok_iff {registry : Registry} {steps : List Step}
    {compiled : List CompiledStep} :
    compileSteps registry steps = .ok compiled ↔
      List.Forall₂ (fun step c => step.compile registry = .ok c) steps compiled := by
  induction steps generalizing compiled with
  | nil =>
      rw [compileSteps, List.forall₂_nil_left_iff]
      exact ⟨fun h => (Except.ok.inj h).symm, fun h => h ▸ rfl⟩
  | cons step steps ih =>
      rw [compileSteps, bind_eq_ok_iff, List.forall₂_cons_left_iff]
      simp only [bind_eq_ok_iff]
      constructor
      · rintro ⟨inner, hinner, c, hc, h⟩
        cases h
        exact ⟨c, inner, hc, ih.1 hinner, rfl⟩
      · rintro ⟨c, inner, hc, hinner, rfl⟩
        exact ⟨inner, ih.2 hinner, c, hc, rfl⟩

/-! ### Starts -/

/-- The source of the scan of a plan, below steps, with the shards read so far. -/
def Scan.source (scan : Scan) (steps : List CompiledStep) (fanOut : Nat)
    (shards : List ShardProgress) : Source :=
  ⟨scan.table, steps.length, scan.shards.length, Pipeline.deliveryOf steps scan fanOut, shards⟩

namespace Execution

/-- A query with a token starts where its token says. -/
theorem startPoint_of_token {query : Query} {token : Token} (h : query.token = some token)
    (fresh : Uuid) :
    startPoint query fresh =
      match token.decode query.plan query.bindings with
      | .ok body => .ok ⟨body.executionId, body.elapsedMs, body.states⟩
      | .error fault => .error (.token fault) := by
  obtain ⟨plan, bindings, options, _⟩ := query
  cases h
  rfl

/-- What a start of a query finds: the compiled steps, and where to go on. -/
structure Started (engine : Engine) (query : Query) (fresh : Uuid) (steps : List CompiledStep)
    (point : StartPoint) (execution : Execution) : Prop where
  /-- The options can be followed. -/
  options : query.options.resolve engine.config = .ok execution.options
  /-- The plan can be run. -/
  check : query.plan.check = .ok ()
  /-- All functions are known. -/
  compile : compileSteps engine.registry query.plan.steps = .ok steps
  /-- All variables are bound. -/
  bound : ∀ ref ∈ query.plan.bindRefs, ∃ value, query.bindings.resolve ref = .ok value
  /-- The token, if there is one, belongs to the query. -/
  start : startPoint query fresh = .ok point
  /-- The pipeline has been opened. -/
  opened : ((Pipeline.openPlan query.bindings execution.options.maxFanOut query.plan.scan steps
    point.states).run (Memory.ofLimitMb execution.options.maxMemoryMb)) =
      (execution.memory, (), .ok execution.pipeline)
  /-- The identity is that of the token. -/
  id_eq : execution.id = point.id
  /-- The plan is that of the query. -/
  plan_eq : execution.plan = query.plan
  /-- The variables are those of the query. -/
  bindings_eq : execution.bindings = query.bindings
  /-- The time is that of the token. -/
  elapsedMs_eq : execution.elapsedMs = point.elapsedMs
  /-- There are more batches. -/
  finished_eq : execution.finished = false

/-- A query starts exactly if all of its checks pass. -/
theorem start_eq_ok_iff {engine : Engine} {query : Query} {fresh : Uuid}
    {execution : Execution} :
    start engine query fresh = .ok execution ↔
      ∃ steps point, Started engine query fresh steps point execution := by
  have hresolve (ref : BindRef) :
      (do let _ ← query.bindings.resolve ref : Except QueryError Unit) = .ok () ↔
        ∃ value, query.bindings.resolve ref = .ok value := by
    rw [bind_eq_ok_iff]
    exact exists_congr fun value => and_iff_left rfl
  unfold start
  simp only [bind_eq_ok_iff, mapError_eq_ok_iff]
  constructor
  · rintro ⟨options, hoptions, ⟨⟩, hcheck, steps, hsteps, ⟨⟩, hbound, point, hpoint, pipeline,
      hpipeline, h⟩
    cases h
    refine ⟨steps, point, hoptions, hcheck, hsteps, ?_, hpoint, ?_, rfl, rfl, rfl, rfl, rfl⟩
    · exact fun ref href => (hresolve ref).1 (forM_eq_ok_iff.1 hbound ref href)
    · exact Prod.ext rfl (Prod.ext rfl hpipeline)
  · rintro ⟨steps, point, h⟩
    refine ⟨_, h.options, (), h.check, steps, h.compile, (), ?_, point, h.start,
      execution.pipeline, ?_, ?_⟩
    · exact forM_eq_ok_iff.2 fun ref href => (hresolve ref).2 (h.bound ref href)
    · rw [h.opened]
    · rw [h.opened, ← h.id_eq, ← h.plan_eq, ← h.bindings_eq, ← h.elapsedMs_eq, ← h.finished_eq]
      rfl

variable {engine : Engine} {query : Query} {fresh : Uuid} {steps : List CompiledStep}
  {point : StartPoint} {execution : Execution}

/-- A query without a token starts at the beginning, with the fresh identity. -/
theorem exists_started_of_start (htoken : query.token = none)
    (h : start engine query fresh = .ok execution) :
    ∃ steps, Started engine query fresh steps ⟨fresh, 0, query.plan.startStates⟩ execution := by
  obtain ⟨steps, point, hstarted⟩ := start_eq_ok_iff.1 h
  have hpoint := hstarted.start
  rw [startPoint, htoken] at hpoint
  cases hpoint
  exact ⟨steps, hstarted⟩

/-- The steps open the pipeline that an execution is started with. -/
theorem Started.openedNodes (h : Started engine query fresh steps point execution) :
    Pipeline.Opened query.bindings (query.plan.scan.source steps execution.options.maxFanOut) steps
      point.states execution.pipeline :=
  Pipeline.openNodes_eq_ok_iff.1 (Metered.run_eq_ok_iff.1 h.opened).2.2

/-- An execution is started with the states that have been found. -/
theorem Started.states_eq (h : Started engine query fresh steps point execution) :
    execution.pipeline.states = point.states :=
  h.openedNodes.states_eq fun _ => rfl

/-- The account that an execution is started with has allowed what its states are charged for. -/
theorem Started.settle_charges (h : Started engine query fresh steps point execution) :
    (Memory.ofLimitMb execution.options.maxMemoryMb).settle
      (point.states.flatMap Pipeline.charge) = (execution.memory, none) := by
  obtain ⟨hsettle, -, -⟩ := Metered.run_eq_ok_iff.1 h.opened
  have hevents : (Pipeline.openPlan query.bindings execution.options.maxFanOut query.plan.scan
      steps point.states).events = point.states.flatMap Pipeline.charge := h.openedNodes.events_eq
  rwa [hevents] at hsettle

/-- An execution that is started without a token has the states at the beginning. -/
theorem states_of_start (htoken : query.token = none)
    (h : start engine query fresh = .ok execution) :
    execution.pipeline.states = query.plan.startStates := by
  obtain ⟨steps, hstarted⟩ := exists_started_of_start htoken h
  exact hstarted.states_eq

/-- An execution that is started without a token reads all shards from the beginning. -/
theorem shards_of_start (htoken : query.token = none)
    (h : start engine query fresh = .ok execution) :
    execution.pipeline.source.shards = query.plan.scan.shards.map .start :=
  Pipeline.shards_of_states (states_of_start htoken h)

/-- An execution that is started without a token reads no shard twice. -/
theorem nodup_shards_of_start (htoken : query.token = none)
    (h : start engine query fresh = .ok execution) :
    (execution.pipeline.source.shards.map (·.shard)).Nodup := by
  obtain ⟨steps, hstarted⟩ := exists_started_of_start htoken h
  rw [shards_of_start htoken h, List.map_map]
  exact (List.map_id _).symm ▸ Plan.nodup_shards hstarted.check

/-- A query whose other checks pass starts as its token allows. -/
theorem start_eq_error_of_startPoint {options : ResolvedOptions} {error : QueryError}
    (hoptions : query.options.resolve engine.config = .ok options)
    (hcheck : query.plan.check = .ok ())
    (hcompile : compileSteps engine.registry query.plan.steps = .ok steps)
    (hbound : ∀ ref ∈ query.plan.bindRefs, ∃ value, query.bindings.resolve ref = .ok value)
    (hpoint : startPoint query fresh = .error error) : start engine query fresh = .error error := by
  have hvariables : (query.plan.bindRefs.forM fun ref => do
      let _ ← query.bindings.resolve ref : Except QueryError Unit) = .ok () := by
    refine forM_eq_ok_iff.2 fun ref href => ?_
    obtain ⟨value, hvalue⟩ := hbound ref href
    rw [hvalue]
    rfl
  rw [start, hoptions, hcheck, hcompile]
  simp only [Except.mapError, bind, Except.bind] at hvariables ⊢
  rw [hvariables, hpoint]

end Execution

end ShardQuery
