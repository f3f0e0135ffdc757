import ShardQuery.Proofs.Requests.Discipline
import ShardQuery.Proofs.Resume.Chain
import ShardQuery.Proofs.Trace

/-!
# Tokens That Fit

A token is accepted if the states in it are of the kinds of the nodes of the plan. What is inside
the states is not looked at: how many shards the scan has and which ones, and what the open groups
consist of. A scan with too few or too many shards is found out later: it fails as soon as it is
asked for anything, so that no request is sent. In the tokens that executions themselves give away
everything fits.

Main definitions:

* `StatesFit` — whether states fit a scan and the steps over it, also inside;
* `Execution.Descendant` — the executions that come of fresh starts, batches and tokens, with the
  same functions all the time;
* `Execution.Resumes` — what an execution that is started with a token has to do with it.

## Main results

* `Pipeline.Fits.tick`, `Pipeline.Fits.receive`: what fits goes on to fit.
* `BatchRun.idle_of_passes`: without its shards the scan is never asked.
* `Execution.Descendant.fits`: the states of descendants fit.
* `Execution.resumes_of_start`: what is started with a token.
-/

namespace ShardQuery

variable {σ : Type}

/-! ### Groups -/

namespace AggregateState

/-- The function that a state is one of, where functions with states alike are one. -/
def kind : AggregateState → AggregateFunction
  | .sum _ => .sum
  | .count _ => .count
  | .min _ => .min
  | .max _ => .max
  | .avg .. => .avg
  | .collect _ => .collect

/-- Rereading a state leaves it one of the same function. -/
@[simp] theorem kind_reread (state : AggregateState) : state.reread.kind = state.kind := by
  cases state <;> rfl

/-- A state that has accepted a value is one of the same function. -/
theorem kind_accept {value : Value} {state next : AggregateState}
    (h : state.accept value = .ok next) : next.kind = state.kind := by
  cases state with
  | sum total =>
      obtain ⟨sum, -, h⟩ := bind_eq_ok_iff.1 h
      cases h
      rfl
  | count | collect =>
      cases h
      rfl
  | min | max | avg =>
      simp only [accept] at h
      split at h <;> cases h <;> rfl

/-- A state that has taken in an input is one of the same function, with or without a value in it.
-/
theorem kind_update {input : Option Value} {state next : AggregateState}
    (h : state.update input = .ok next) : next.kind = state.kind := by
  unfold update at h
  split at h
  · split at h <;> cases h <;> rfl
  · split at h
    · cases h
      rfl
    · exact kind_accept h

end AggregateState

/-- The kind of the states of an aggregation, which is that of the state it starts with. -/
def Aggregation.stateKind (aggregation : Aggregation) : AggregateFunction :=
  (AggregateState.start aggregation.function).kind

/-- Whether a group could be one of a grouping: it has a value for every key, and for every
aggregation a state of its kind. -/
structure OpenGroup.Fits (keys : List OrderKey) (aggregations : List Aggregation)
    (group : OpenGroup) : Prop where
  /-- There is one value for each key. -/
  length_key : group.key.length = keys.length
  /-- There is one state for each aggregation, of its kind. -/
  kinds_eq : group.aggregates.map AggregateState.kind = aggregations.map Aggregation.stateKind

/-- Rereading a group leaves it one of the same grouping. -/
theorem OpenGroup.Fits.reread {keys : List OrderKey} {aggregations : List Aggregation}
    {group : OpenGroup} (h : group.Fits keys aggregations) :
    group.reread.Fits keys aggregations := by
  refine ⟨?_, ?_⟩
  · rw [OpenGroup.reread, rereadItems_eq, List.length_map, h.length_key]
  · rw [← h.kinds_eq, OpenGroup.reread, List.map_map]
    exact List.map_congr_left fun state _ => state.kind_reread

namespace Stage

/-- Taking a row in leaves the states of aggregates ones of the same functions, in the same order.
-/
theorem kinds_accumulate {row : Row} {bindings : Bindings} {aggregations : List Aggregation}
    {states next : List AggregateState}
    (h : accumulate row bindings aggregations states = .ok next) :
    next.map AggregateState.kind = states.map AggregateState.kind := by
  induction aggregations generalizing states next with
  | nil =>
      cases states <;> cases h <;> rfl
  | cons aggregation aggregations ih =>
      cases states with
      | nil =>
          cases h
          rfl
      | cons state states =>
          obtain ⟨input, -, h⟩ := bind_eq_ok_iff.1 h
          obtain ⟨state', hstate, h⟩ := bind_eq_ok_iff.1 h
          obtain ⟨rest, hrest, h⟩ := bind_eq_ok_iff.1 h
          cases h
          rw [List.map_cons, List.map_cons, AggregateState.kind_update hstate, ih hrest]

/-- The group that a row goes into fits if the one before does. -/
theorem fits_of_groupFor {keys : List OrderKey} {aggregations : List Aggregation} {row : Row}
    {current : Option OpenGroup} {group : OpenGroup} {ended : Option Row}
    (h : groupFor keys aggregations (row.keyValues keys) current = .ok (group, ended))
    (hcurrent : ∀ before ∈ current, OpenGroup.Fits keys aggregations before) :
    group.Fits keys aggregations := by
  have hopen : (openGroup aggregations (row.keyValues keys)).Fits keys aggregations := by
    refine ⟨?_, ?_⟩
    · exact List.length_map _
    · rw [openGroup, List.map_map]
      rfl
  cases goesInto_of_groupFor h with
  | first | next => exact hopen
  | same => exact hcurrent group rfl

/-- Whether the open group of a stage, if there is one, fits it. -/
def Fits : Stage → Prop
  | .groupBy keys aggregations state => ∀ group ∈ state.current, group.Fits keys aggregations
  | .sort .. | .distinct .. | .project _ | .slice .. => True

/-- Only groupings have a group, so all other stages fit. -/
theorem fits_of_kind {stage : Stage} (h : stage.state.kind ≠ .groupBy) : stage.Fits := by
  cases stage with
  | groupBy => exact absurd rfl h
  | sort | distinct | project | slice => trivial

/-- A stage that fits goes on to fit when it takes a row in, also when it fails with it. -/
theorem Fits.accept {stage : Stage} (h : stage.Fits) (bindings : Bindings) (row : Row) :
    (stage.accept bindings row).state.Fits := by
  generalize hown : stage.accept bindings row = own
  cases accept_inv hown with
  | grouped hgroup haggregates =>
      rintro _ ⟨⟩
      obtain ⟨hkey, hkinds⟩ := fits_of_groupFor hgroup h
      exact ⟨hkey, (kinds_accumulate haggregates).trans hkinds⟩
  | unsorted | refused =>
      -- A row that is refused takes its group along.
      nofun
  | merged | kept | same | changed | seen | unseen | projected | unprojected | skipped | sliced =>
      trivial

/-- A stage that fits goes on to fit when it signals by itself. -/
theorem Fits.ready {stage : Stage} {own : Metered Stage Signal} (hready : stage.ready? = some own)
    (h : stage.Fits) : own.state.Fits := by
  cases ready_inv hready with
  | ends => exact h
  | pops => trivial

/-- A stage that fits goes on to fit when it passes a signal on. -/
theorem Fits.pass {stage : Stage} (h : stage.Fits) (bindings : Bindings) (signal : Signal) :
    (Pipeline.pass bindings signal stage).state.Fits := by
  cases signal with
  | row row => exact h.accept bindings row
  | exhausted =>
      cases stage with
      | groupBy => nofun
      | sort | distinct | project | slice =>
          exact fits_of_kind ((advances_finish _).kind_eq.trans_ne nofun)
  | fetch | again => exact h

end Stage

/-! ### Pipelines -/

namespace Source

/-- The shards of a source, in the order in which it has them. -/
def ids (source : Source) : List ShardId :=
  source.shards.map (·.shard)

/-- A signal leaves a source with its shards. -/
theorem ids_next (source : Source) : source.next.state.ids = source.ids :=
  source.sameScan_next.shards.symm

/-- Responses leave a source with its shards, also if taking them in fails. -/
theorem ids_receive (source : Source)
    (responses : List (Nat × Except RequestError ShardResponse)) :
    (source.receive responses).state.ids = source.ids := by
  refine @receive_state (fun next => next.ids = source.ids) responses ?_ source rfl
  intro next index progress response hids _ hp
  have hscan := @sameScan_set next index progress
    (progress.afterResponse response (Row.totalSize response.rows)) hp rfl
  exact hscan.shards.symm.trans hids

end Source

namespace Pipeline

/-- Whether the open groups of a pipeline fit its stages, and its shards are those given. -/
structure Fits (shards : List ShardId) (pipeline : Pipeline) : Prop where
  /-- The open groups fit. -/
  stages : ∀ stage ∈ pipeline.stages, stage.Fits
  /-- The shards are those given. -/
  ids_eq : pipeline.source.ids = shards

variable {shards : List ShardId} {pipeline : Pipeline}

/-- One tick leaves stages that fit, by induction from the outermost one inwards. -/
theorem fits_tickStages (bindings : Bindings) (source : Source) {stages : List Stage}
    (h : ∀ stage ∈ stages, stage.Fits) :
    ∀ stage ∈ (tickStages bindings source stages).state.stages, stage.Fits := by
  have hleaves : (tickStages bindings source stages).Leaves
      (fun pipeline => (∀ stage ∈ pipeline.stages, stage.Fits) ∧ True) (fun _ => True) :=
    leaves_tickStages (r := fun _ => True)
      (fun hstage hready => ⟨Stage.Fits.ready hready hstage, fun _ _ => trivial⟩)
      (fun hstage _ => ⟨hstage.pass bindings _, fun _ _ => trivial⟩) trivial
      ⟨trivial, fun _ _ => trivial⟩ h
  exact hleaves.state.1

/-- **A tick leaves a pipeline that fits**, also when it fails. -/
theorem Fits.tick (h : pipeline.Fits shards) (bindings : Bindings) :
    (pipeline.tick bindings).state.Fits shards := by
  refine ⟨fits_tickStages bindings pipeline.source h.stages, ?_⟩
  obtain heq | heq := source_tickStages bindings pipeline.source pipeline.stages
  · exact (congrArg Source.ids heq).trans h.ids_eq
  · exact (congrArg Source.ids heq).trans ((Source.ids_next _).trans h.ids_eq)

/-- Answers leave a pipeline that fits, since they go to its source only. -/
theorem Fits.receive (h : pipeline.Fits shards)
    (responses : List (Nat × Except RequestError ShardResponse)) :
    (pipeline.receive responses).state.Fits shards :=
  ⟨h.stages, (pipeline.source.ids_receive responses).trans h.ids_eq⟩

/-- A pipeline fits before the first row: no group is open, and the shards are those of the plan. -/
theorem fits_of_startStates {plan : Plan} (h : pipeline.states = plan.startStates) :
    pipeline.Fits plan.scan.shards := by
  obtain ⟨hsteps, hscan⟩ := List.append_inj' h rfl
  refine ⟨fun stage hmem => ?_, ?_⟩
  · have hstate : stage.state ∈ plan.steps.map Step.startState :=
      hsteps ▸ List.mem_map_of_mem hmem
    obtain ⟨step, -, hstep⟩ := List.mem_map.1 hstate
    cases stage with
    | groupBy =>
        cases step <;> cases hstep
        nofun
    | sort | distinct | project | slice => trivial
  · rw [Source.ids, NodeState.receive.inj (List.cons.inj hscan).1, List.map_map]
    exact List.map_id _

end Pipeline

/-- A step of a batch that does not fail leaves a pipeline that fits. -/
theorem BatchRun.fits_of_moves {reader : ShardReader σ} {run next : BatchRun σ}
    {reason : Option BatchEnd} {shards : List ShardId} (hmove : Moves reader run next reason)
    (hreason : ∀ error, reason ≠ some (.failed error))
    (h : run.execution.pipeline.Fits shards) : next.execution.pipeline.Fits shards := by
  have htick {m : Memory} {p : Pipeline} {signal : Signal}
      (hb : run.booked = (m, p, .ok signal)) : p.Fits shards := by
    obtain ⟨-, rfl, -⟩ := Metered.run_eq_ok_iff.1 hb
    exact h.tick run.execution.bindings
  cases hmove with
  | full => exact h
  | row _ hb | exhausted _ hb | again _ hb | noRound _ hb => exact htick hb
  | round _ hb _ _ _ _ hi =>
      obtain ⟨-, rfl, -⟩ := Metered.run_eq_ok_iff.1 hi
      exact (htick hb).receive _
  | broken | idle | noTime | late | refused => exact absurd rfl (hreason _)

/-- The batches of an execution leave a pipeline that fits. -/
theorem Execution.fits_of_passes {reader : ShardReader σ} {execution : Execution} {first : σ}
    {run : BatchRun σ} {shards : List ShardId} (hpass : execution.Passes reader first run)
    (h : execution.pipeline.Fits shards) : run.execution.pipeline.Fits shards := by
  induction hpass with
  | start => exact h
  | step _ hstep ih => exact BatchRun.fits_of_moves (BatchRun.moves_of_step hstep) nofun ih
  | @batch _ last _ hstep ih =>
      have hlast : last.execution.pipeline.Fits shards :=
        BatchRun.fits_of_moves (BatchRun.moves_of_step hstep) nofun ih
      exact hlast

/-! ### States -/

/-- Whether a state could be one of a step: it is of its kind, and its open group fits. -/
def CompiledStep.Accepts : CompiledStep → NodeState → Prop
  | .groupBy keys aggregations, .groupBy state =>
    ∀ group ∈ state.current, group.Fits keys aggregations
  | .sort .., .sort _ | .distinct .., .distinct _ | .project _, .project | .slice .., .slice _ =>
    True
  | _, _ => False

/-- Whether states could be those of steps and of a scan of shards. -/
inductive StatesFit (shards : List ShardId) : List CompiledStep → List NodeState → Prop
  /-- The scan has its state last: one progress for each of its shards, in their order. -/
  | scan {progress : List ShardProgress} :
      progress.map (·.shard) = shards → StatesFit shards [] [.receive progress]
  /-- A step has its state before those of the steps inside. -/
  | step {step : CompiledStep} {state : NodeState} {steps : List CompiledStep}
      {states : List NodeState} :
      step.Accepts state → StatesFit shards steps states →
      StatesFit shards (step :: steps) (state :: states)

/-- Rereading a state leaves it one of the same step. -/
theorem CompiledStep.Accepts.reread {step : CompiledStep} {state : NodeState}
    (h : step.Accepts state) : step.Accepts state.reread := by
  cases step with
  | groupBy keys aggregations =>
      cases state with
      | groupBy state =>
          intro group hgroup
          obtain ⟨before, hbefore, rfl⟩ := Option.mem_map.1 hgroup
          exact (h before hbefore).reread
      | receive | sort | distinct | project | slice => exact h.elim
  | sort | distinct | project | slice => cases state <;> exact h

/-- Rereading states leaves them ones of the same steps and shards. -/
theorem StatesFit.reread {shards : List ShardId} {steps : List CompiledStep}
    {states : List NodeState} (h : StatesFit shards steps states) :
    StatesFit shards steps (states.map NodeState.reread) := by
  induction h with
  | @scan progress hids =>
      refine .scan (Eq.trans ?_ hids)
      rw [List.map_map]
      rfl
  | step hstep _ ih => exact .step hstep.reread ih

/-- A step accepts a state exactly if the stage that it opens fits. -/
theorem CompiledStep.accepts_iff {bindings : Bindings} {step : CompiledStep} {state : NodeState}
    {stage : Stage} (h : Pipeline.openStage? bindings step state = some (.ok stage)) :
    step.Accepts state ↔ stage.Fits := by
  cases step with
  | sort | groupBy | distinct | project =>
      cases state <;> cases h
      exact Iff.rfl
  | slice offset limit =>
      have hstate := Pipeline.state_of_openStage h
      cases state with
      | slice => exact iff_of_true trivial (Stage.fits_of_kind (hstate ▸ nofun))
      | receive | sort | groupBy | distinct | project => cases h

/-- States fit exactly if the pipeline that they open does. -/
theorem Pipeline.Opened.statesFit_iff {bindings : Bindings}
    {openSource : List ShardProgress → Source} {steps : List CompiledStep}
    {states : List NodeState} {pipeline : Pipeline} {shards : List ShardId}
    (h : Opened bindings openSource steps states pipeline)
    (hsource : ∀ progress, (openSource progress).shards = progress) :
    StatesFit shards steps states ↔ pipeline.Fits shards := by
  induction h with
  | source progress =>
      have hids : (openSource progress).ids = progress.map (·.shard) :=
        congrArg (List.map _) (hsource progress)
      constructor
      · rintro ⟨h⟩
        exact ⟨nofun, hids.trans h⟩
      · exact fun h => .scan (hids.symm.trans h.ids_eq)
  | stage hstage _ ih =>
      constructor
      · rintro (_ | ⟨hstep, hinner⟩)
        obtain ⟨hstages, hids⟩ := ih.1 hinner
        exact ⟨List.forall_mem_cons.2 ⟨(CompiledStep.accepts_iff hstage).1 hstep, hstages⟩, hids⟩
      · rintro ⟨hstages, hids⟩
        obtain ⟨hfirst, hrest⟩ := List.forall_mem_cons.1 hstages
        exact .step ((CompiledStep.accepts_iff hstage).2 hfirst) (ih.2 ⟨hrest, hids⟩)

/-! ### Scans without their shards -/

/-- A source with too few or too many shards fails and stays as it is. -/
theorem Source.next_of_length_ne {source : Source}
    (h : source.shards.length ≠ source.shardCount) :
    source.next = .fail source (.scanState source.position) :=
  if_pos h

/-- Whether the next tick of a pipeline gets to its source: no stage has anything to do by
itself. -/
def Pipeline.GetsToSource (pipeline : Pipeline) : Prop :=
  ∀ stage inner, stage :: inner <:+ pipeline.stages → readyOver? inner stage = none

/-- A tick that gets to a source with too few or too many shards fails and changes nothing. -/
theorem Pipeline.tick_of_length_ne {pipeline : Pipeline} (bindings : Bindings)
    (hlength : pipeline.source.shards.length ≠ pipeline.source.shardCount)
    (h : pipeline.GetsToSource) :
    pipeline.tick bindings = .fail pipeline (.scanState pipeline.source.position) := by
  obtain ⟨stages, source⟩ := pipeline
  suffices hstages : tickStages bindings source stages =
      .fail ⟨stages, source⟩ (.scanState source.position) from hstages
  induction stages with
  | nil =>
      rw [tickStages, Source.next_of_length_ne hlength]
      rfl
  | cons stage inner ih =>
      have hready := h stage inner List.suffix_rfl
      have hinner := ih hlength fun stage' inner' hsuffix =>
        h stage' inner' (hsuffix.trans (List.suffix_cons stage inner))
      rw [tickStages, hready]
      simp only
      rw [hinner]
      rfl

namespace BatchRun

/-- Whether nothing has been asked of the shards up to a point of a batch. -/
structure Idle (source : Source) (shards : σ) (run : BatchRun σ) : Prop where
  /-- The source has not moved. -/
  source_eq : run.execution.pipeline.source = source
  /-- Nor have the shards. -/
  shards_eq : run.shards = shards
  /-- No request has been sent. -/
  sent_eq : run.sent = []
  /-- There was no round. -/
  rounds_eq : run.rounds = 0

variable {source : Source} {shards : σ} {reader : ShardReader σ} {run next : BatchRun σ}
  {reason : Option BatchEnd}

/-- A tick does not move a source with too few or too many shards, and wants nothing of them. -/
theorem source_of_booked (hlength : source.shards.length ≠ source.shardCount)
    (h : run.execution.pipeline.source = source) {m : Memory} {p : Pipeline} {signal : Signal}
    (hb : run.booked = (m, p, .ok signal)) :
    p.source = source ∧ ∀ wanted, signal ≠ .fetch wanted := by
  subst h
  have hnext := Source.next_of_length_ne hlength
  obtain ⟨-, rfl, hresult⟩ := Metered.run_eq_ok_iff.1 hb
  refine ⟨?_, ?_⟩
  · obtain heq | heq := Pipeline.source_tickStages run.execution.bindings
      run.execution.pipeline.source run.execution.pipeline.stages
    · exact heq
    · exact heq.trans (congrArg Metered.state hnext)
  · rintro wanted rfl
    cases (congrArg Metered.result hnext).symm.trans (Pipeline.source_of_fetch hresult).1

/-- **No step asks anything of a source with too few or too many shards.** -/
theorem Idle.moves (h : run.Idle source shards)
    (hlength : source.shards.length ≠ source.shardCount) (hmove : Moves reader run next reason) :
    (next.shards = shards ∧ next.sent = [] ∧ next.rounds = 0) ∧
      ((∀ error, reason ≠ some (.failed error)) → next.Idle source shards) := by
  obtain ⟨hsource, hshards, hsent, hrounds⟩ := h
  have hquiet {wanted : List Nat} {m : Memory} {p : Pipeline}
      (hb : run.booked = (m, p, .ok (.fetch wanted))) : False :=
    (source_of_booked hlength hsource hb).2 wanted rfl
  cases hmove with
  | full => exact ⟨⟨hshards, hsent, hrounds⟩, fun _ => ⟨hsource, hshards, hsent, hrounds⟩⟩
  | broken => exact ⟨⟨hshards, hsent, hrounds⟩, fun hreason => absurd rfl (hreason _)⟩
  | row _ hb | exhausted _ hb | again _ hb =>
      obtain ⟨hsame, -⟩ := source_of_booked hlength hsource hb
      exact ⟨⟨hshards, hsent, hrounds⟩, fun _ => ⟨hsame, hshards, hsent, hrounds⟩⟩
  | noRound _ hb | idle _ hb | noTime _ hb | late _ hb | refused _ hb | round _ hb =>
      exact (hquiet hb).elim

/-- A step that gets to a source with too few or too many shards fails and changes nothing. -/
theorem step_of_length_ne
    (hlength : run.execution.pipeline.source.shards.length ≠
      run.execution.pipeline.source.shardCount)
    (hfull : run.isFull = false) (h : run.execution.pipeline.GetsToSource) :
    run.step reader =
      (run, some (.failed (.scanState run.execution.pipeline.source.position))) := by
  have hb : run.booked = (run.execution.memory, run.execution.pipeline,
      .error (.scanState run.execution.pipeline.source.position)) := by
    rw [booked, Pipeline.tick_of_length_ne run.execution.bindings hlength h]
    rfl
  exact step_of_moves (.broken hfull hb)

/-- Whether a batch can do no more than send on what the stages hold by themselves: a step sends no
request, and fails with an error, changing nothing, if it gets to the source. -/
structure StandsStill (reader : ShardReader σ) (error : QueryError) (run : BatchRun σ) :
    Prop where
  /-- No request has been sent. -/
  sent_eq : run.sent = []
  /-- None is sent by the next step. -/
  silent : ∀ next reason, run.step reader = (next, reason) →
    next.sent = [] ∧ next.rounds = run.rounds ∧ next.shards = run.shards
  /-- The step fails if it gets to the source. -/
  fails : run.isFull = false → run.execution.pipeline.GetsToSource →
    run.step reader = (run, some (.failed error))

/-- **Without its shards the scan is never asked**, through all batches. -/
theorem idle_of_passes {execution : Execution} (hpass : execution.Passes reader shards run)
    (hlength : execution.pipeline.source.shards.length ≠ execution.pipeline.source.shardCount) :
    run.Idle execution.pipeline.source shards := by
  induction hpass with
  | start => exact ⟨rfl, rfl, rfl, rfl⟩
  | step _ hstep ih => exact (ih.moves hlength (moves_of_step hstep)).2 nofun
  | batch _ hstep ih =>
      obtain ⟨hsource, hshards, -, -⟩ := (ih.moves hlength (moves_of_step hstep)).2 nofun
      exact ⟨hsource, hshards, rfl, rfl⟩

/-- In all batches of an execution without its shards, nothing goes on but what the stages hold by
themselves. -/
theorem standsStill_of_passes {execution : Execution}
    (hpass : execution.Passes reader shards run)
    (hlength : execution.pipeline.source.shards.length ≠ execution.pipeline.source.shardCount) :
    run.StandsStill reader (.scanState execution.pipeline.source.position) := by
  have hidle := idle_of_passes hpass hlength
  refine ⟨hidle.sent_eq, fun next reason hstep => ?_, fun hfull h => ?_⟩
  · obtain ⟨⟨hshards, hsent, hrounds⟩, -⟩ := hidle.moves hlength (moves_of_step hstep)
    exact ⟨hsent, hrounds.trans hidle.rounds_eq.symm, hshards.trans hidle.shards_eq.symm⟩
  · rw [← hidle.source_eq] at hlength ⊢
    exact step_of_length_ne hlength hfull h

end BatchRun

/-! ### Descendants -/

namespace Execution

/-- The executions of a plan under bind variables that come of fresh starts, of batches and of
their own tokens, in whatever places and under whatever options, but always with the same
functions. -/
inductive Descendant (registry : Registry) (plan : Plan) (bindings : Bindings) :
    Execution → Prop
  /-- An execution that has been started without a token. -/
  | fresh {engine : Engine} {options : QueryOptions} {id : Uuid} {execution : Execution} :
      engine.registry = registry → start engine ⟨plan, bindings, options, none⟩ id = .ok execution →
      Descendant registry plan bindings execution
  /-- An execution after one more batch, whatever the shards answer. -/
  | batch {σ : Type} {reader : ShardReader σ} {budget : Nat} {shards : σ}
      {execution : Execution} {outcome : BatchOutcome σ} :
      Descendant registry plan bindings execution →
      execution.nextBatch reader budget shards = some outcome →
      Descendant registry plan bindings outcome.execution
  /-- An execution that goes on with the token of a descendant. -/
  | resumed {engine : Engine} {options : QueryOptions} {execution next : Execution}
      {token : Token} {id : Uuid} :
      Descendant registry plan bindings execution → execution.token? = some token →
      engine.registry = registry →
      start engine ⟨plan, bindings, options, some token⟩ id = .ok next →
      Descendant registry plan bindings next

variable {registry : Registry} {plan : Plan} {bindings : Bindings} {execution : Execution}

/-- Descendants are genuine, with some engine of the same functions and some options. -/
theorem Descendant.genuine (h : Descendant registry plan bindings execution) :
    ∃ engine options, engine.registry = registry ∧
      Genuine (fun _ => True) plan bindings engine options execution := by
  induction h with
  | fresh hregistry hstart => exact ⟨_, _, hregistry, .fresh hstart⟩
  | batch _ hbatch ih =>
      obtain ⟨engine, options, hregistry, hgenuine⟩ := ih
      exact ⟨engine, options, hregistry, hgenuine.batch hbatch⟩
  | resumed _ htoken hregistry hstart ih =>
      obtain ⟨engine, options, -, hgenuine⟩ := ih
      exact ⟨_, _, hregistry, hgenuine.resumed trivial htoken hstart⟩

/-- **The pipeline of a descendant fits** as long as it is open, by induction over starts, batches
and tokens. -/
theorem Descendant.pipeline_fits (h : Descendant registry plan bindings execution)
    (hopen : execution.finished = false) : execution.pipeline.Fits plan.scan.shards := by
  induction h with
  | fresh _ hstart =>
      obtain ⟨steps, point, hstarted⟩ := start_eq_ok_iff.1 hstart
      cases hstarted.start
      exact Pipeline.fits_of_startStates hstarted.states_eq
  | batch _ hbatch ih =>
      obtain ⟨hbefore, hpass⟩ := passes_of_open hbatch hopen
      exact fits_of_passes hpass (ih hbefore)
  | @resumed engine _ before next token _ hbefore htoken hregistry hstart ih =>
      have hsuspended := unfinished_of_token? htoken
      obtain ⟨engine', options', hregistry', hgenuine⟩ := hbefore.genuine
      obtain ⟨hfounded, rfl, rfl⟩ := hgenuine.founded hsuspended
      obtain ⟨steps, hstarted⟩ := hfounded.suspendable.started_of_token htoken hstart
      obtain ⟨steps', hcompile, hopened⟩ := hfounded.opened
      -- The same steps open both pipelines, since the functions are the same.
      rw [hregistry', ← hregistry] at hcompile
      cases hcompile.symm.trans hstarted.compile
      have hstates := (hopened.statesFit_iff fun _ => rfl).2 (ih hsuspended)
      exact (hstarted.openedNodes.statesFit_iff fun _ => rfl).1 hstates.reread

/-- The states of a descendant fit the plan, which is what its tokens carry over to the next start.
-/
theorem Descendant.fits (h : Descendant registry plan bindings execution)
    (hopen : execution.finished = false) :
    ∃ steps, compileSteps registry plan.steps = .ok steps ∧
      StatesFit plan.scan.shards steps execution.pipeline.states := by
  obtain ⟨engine, options, rfl, hgenuine⟩ := h.genuine
  obtain ⟨hfounded, rfl, rfl⟩ := hgenuine.founded hopen
  obtain ⟨steps, hcompile, hopened⟩ := hfounded.opened
  exact ⟨steps, hcompile, (hopened.statesFit_iff fun _ => rfl).2 (h.pipeline_fits hopen)⟩

/-! ### Starts with a token -/

/-- What an execution that has been started with a token has to do with it. -/
structure Resumes (engine : Engine) (query : Query) (token : Token) (execution : Execution) :
    Prop where
  /-- The token is one of the plan and the bind variables, and the execution goes on with the
  states in it: for every node one of its kind. -/
  holds : ∃ body, token.Holds query.plan query.bindings body ∧
    execution.pipeline.states = body.states
  /-- If the scan has too few or too many shards, it fails as soon as it is asked for anything, and
  no request is ever sent. -/
  stands_still : execution.pipeline.source.shards.length ≠ query.plan.scan.shards.length →
    ∀ {σ : Type} (reader : ShardReader σ) (shards : σ) (run : BatchRun σ),
      execution.Passes reader shards run →
      run.StandsStill reader (.scanState query.plan.steps.length)
  /-- If the token is the one of a descendant with the same functions, everything fits, also inside
  the states. -/
  fits : ∀ before, Descendant engine.registry query.plan query.bindings before →
    before.token? = some token →
    ∃ steps, compileSteps engine.registry query.plan.steps = .ok steps ∧
      StatesFit query.plan.scan.shards steps execution.pipeline.states

/-- **What is started with a token goes on with states of the kinds of the nodes**, or any other
token is refused. A scan with too few or too many shards is found out when it is asked for
something, and in the tokens of descendants everything fits. -/
theorem resumes_of_start {engine : Engine} {query : Query} {token : Token} {fresh : Uuid}
    {execution : Execution} (htoken : query.token = some token)
    (hstart : start engine query fresh = .ok execution) :
    execution.Resumes engine query token := by
  obtain ⟨steps, point, hstarted⟩ := start_eq_ok_iff.1 hstart
  refine ⟨?_, fun hlength σ reader shards run hpass => ?_, fun before hbefore hsuspended => ?_⟩
  · have hpoint := hstarted.start
    rw [startPoint_of_token htoken] at hpoint
    split at hpoint
    · next body hdecode =>
        cases hpoint
        exact ⟨body, Token.decode_eq_ok_iff.1 hdecode, hstarted.states_eq⟩
    · cases hpoint
  · obtain ⟨progress, -, hsource⟩ := hstarted.openedNodes.source_eq
    have hposition : execution.pipeline.source.position = query.plan.steps.length := by
      rw [hsource]
      exact (compileSteps_eq_ok_iff.1 hstarted.compile).length_eq.symm
    rw [← hposition]
    refine BatchRun.standsStill_of_passes hpass ?_
    rw [hsource] at hlength ⊢
    exact hlength
  · obtain ⟨plan, bindings, options, _⟩ := query
    subst htoken
    exact (hbefore.resumed hsuspended rfl hstart).fits hstarted.finished_eq

/-! ### Examples -/

open Engine in
/-- A body for `groupedScan` with shards that have not been read, and with an open group of a count
and no key. -/
def misfitBody (ids : List ShardId) : TokenBody :=
  ⟨⟨5⟩, 0, groupedScan.plan.shape,
    [.groupBy ⟨some ⟨[], [.count 5]⟩, 0, false, true⟩, .receive (ids.map .start)]⟩

open Engine in
/-- The query that goes on with such a body. -/
def misfitScan (ids : List ShardId) : Query :=
  { groupedScan with
    token := some (.encode groupedScan.plan groupedScan.bindings (misfitBody ids)) }

open Engine in
/-- The execution of such a query at its start. -/
def misfitStart (ids : List ShardId) : Execution :=
  { groupedScanStart with
    id := ⟨5⟩
    pipeline :=
      ⟨[.groupBy [⟨"a", false, false⟩] [] ⟨some ⟨[], [.count 5]⟩, 0, false, true⟩],
        ⟨"t", 1, 1, .inOrder, ids.map .start⟩⟩ }

/-- The query starts without a shard, and also with another one than that of the plan. -/
theorem start_misfitScan {ids : List ShardId} (h : ids = [] ∨ ids = [7]) :
    start plainEngine (misfitScan ids) ⟨0⟩ = .ok (misfitStart ids) := by
  have htime : 0 < UInt64.size := by decide
  have hregular : (misfitBody ids).IsRegular :=
    ⟨List.forall_mem_cons.2 ⟨trivial, List.forall_mem_singleton.2 trivial⟩, htime⟩
  have hnesting : (misfitBody ids).toJson.nesting ≤ Json.depthLimit := by
    rcases h with rfl | rfl <;> decide +kernel
  have hpoint : startPoint (misfitScan ids) ⟨0⟩ = .ok ⟨⟨5⟩, 0, (misfitBody ids).reread.states⟩ := by
    have hdecode := @Token.decode_encode Engine.groupedScan.plan _ Engine.groupedScan.bindings
      hregular hnesting rfl rfl
    rw [startPoint_of_token rfl]
    rw [show (misfitScan ids).plan = Engine.groupedScan.plan from rfl,
      show (misfitScan ids).bindings = Engine.groupedScan.bindings from rfl, hdecode]
    rfl
  refine start_eq_ok_iff.2 ⟨[.groupBy [⟨"a", false, false⟩] []], _, rfl, rfl, rfl, nofun, hpoint,
    ?_, rfl, rfl, rfl, rfl, rfl⟩
  rcases h with rfl | rfl <;> rfl

/-- Without a shard the query fails at its first step, and no request is sent. With its own token,
suspended while a group is open, everything fits. -/
theorem resumes_groupedScan :
    (∃ execution token, (misfitScan []).token = some token ∧
      start plainEngine (misfitScan []) ⟨0⟩ = .ok execution ∧
      execution.Resumes plainEngine (misfitScan []) token ∧
      (BatchRun.start execution Engine.groupedPage).step Recorded.reader =
        (.start execution Engine.groupedPage, some (.failed (.scanState 1)))) ∧
    (∃ before token resumed,
      Descendant plainEngine.registry Engine.groupedScan.plan .empty before ∧
      before.token? = some token ∧
      start plainEngine { Engine.groupedScan with token := some token } ⟨1⟩ = .ok resumed ∧
      (∃ steps, compileSteps plainEngine.registry Engine.groupedScan.plan.steps = .ok steps ∧
        StatesFit [1] steps resumed.pipeline.states)) := by
  refine ⟨?_, ?_⟩
  · have hstart := start_misfitScan (.inl rfl)
    have hresumes := resumes_of_start rfl hstart
    have hstill := hresumes.stands_still (by decide) Recorded.reader Engine.groupedPage _ .start
    refine ⟨_, _, rfl, hstart, hresumes, hstill.fails rfl fun stage inner hsuffix => ?_⟩
    rcases List.suffix_cons_iff.1 hsuffix with heq | hnil
    · cases heq
      rfl
    · cases List.suffix_nil.1 hnil
  · have hfacts : (Engine.groupedScanStart.nextBatch Recorded.reader 9 Engine.groupedPage).any
        (fun outcome => !outcome.execution.finished &&
          decide (outcome.execution.body.toJson.nesting ≤ Json.depthLimit) &&
          decide (outcome.execution.memory.peak < maxAmount)) = true := by
      decide +kernel
    obtain ⟨outcome, hbatch, hfacts⟩ := (Option.any_eq_true _ _).1 hfacts
    simp only [Bool.and_eq_true, Bool.not_eq_true', decide_eq_true_eq] at hfacts
    obtain ⟨⟨hopen, hreadable⟩, hpeak⟩ := hfacts
    have hfresh : start plainEngine Engine.groupedScan ⟨0⟩ = .ok Engine.groupedScanStart := rfl
    have hdescendant : Descendant plainEngine.registry Engine.groupedScan.plan .empty
        outcome.execution := .batch (.fresh rfl hfresh) hbatch
    have htoken := token?_eq hopen
    have hgenuine : Genuine (fun before => before.memory.peak < maxAmount)
        Engine.groupedScan.plan .empty plainEngine Engine.groupedScan.options outcome.execution :=
      .batch (.fresh hfresh) hbatch
    obtain ⟨resumed, hstart, -⟩ := hgenuine.exists_restored hpeak hreadable htoken ⟨1⟩
    exact ⟨_, _, resumed, hdescendant, htoken, hstart,
      (resumes_of_start rfl hstart).fits _ hdescendant htoken⟩

/-- What is inside the states of a token is not looked at: neither how many shards the scan has, nor
which ones, nor what the open groups consist of. -/
theorem start_with_misfits :
    (∃ execution, start plainEngine (misfitScan []) ⟨0⟩ = .ok execution ∧
      execution.pipeline.source.shards.length ≠ Engine.groupedScan.plan.scan.shards.length) ∧
    (∃ execution, start plainEngine (misfitScan [7]) ⟨0⟩ = .ok execution ∧
      execution.pipeline.source.ids ≠ Engine.groupedScan.plan.scan.shards ∧
      ∀ stage ∈ execution.pipeline.stages, ¬stage.Fits) := by
  refine ⟨⟨_, start_misfitScan (.inl rfl), by decide⟩, _, start_misfitScan (.inr rfl), by decide,
    ?_⟩
  refine List.forall_mem_singleton.2 fun hfits => ?_
  obtain ⟨hkey, -⟩ := hfits _ rfl
  cases hkey

end Execution

end ShardQuery
