import ShardQuery.Proofs.Memory.Ledger
import ShardQuery.Proofs.Resume.Advances

/-!
# What Executions Rest On

An open execution rests on the checks of its start: the options can be followed, the plan can be
run, the functions are known and the variables bound, and the pipeline is the one that the
compiled steps open with the states of the nodes. Batches change none of this. It is what a token
may count on when the query is started again.

Main definitions:

* `Execution.Founded` — what an open execution of an engine rests on.

## Main results

* `Execution.founded_of_start`: an execution that is started without a token is founded.
* `Execution.Founded.advances`: an execution further on is founded as well.
-/

namespace ShardQuery

variable {σ : Type}

/-! ### States at the beginning -/

/-- The states at the beginning are of the kinds of the nodes. -/
theorem Plan.kinds_startStates (plan : Plan) :
    plan.startStates.map NodeState.kind = plan.shape := by
  have hstep (step : Step) : step.startState.kind = step.kind := by cases step <;> rfl
  rw [startStates, shape, List.map_append, List.map_map]
  refine congrArg (· ++ [NodeKind.receive]) (List.map_congr_left fun step _ => hstep step)

/-- The states at the beginning fit the plan: all shards are there, and nothing is remembered yet.
-/
theorem Plan.fits_startStates (plan : Plan) :
    ∀ state ∈ plan.startStates, state.Fits plan.scan.shards.length := by
  have hstep (step : Step) : step.startState.Fits plan.scan.shards.length := by
    cases step with
    | distinct => exact List.Pairwise.nil
    | sort | groupBy | project | slice => trivial
  refine List.forall_mem_append.2 ⟨List.forall_mem_map.2 fun step _ => hstep step, ?_⟩
  exact List.forall_mem_singleton.2 (List.length_map _)

namespace Execution

variable {engine : Engine} {query : Query} {fresh : Uuid}

/-! ### Foundations -/

/-- What an open execution rests on that has been started by an engine under options. -/
structure Founded (engine : Engine) (options : QueryOptions) (execution : Execution) :
    Prop where
  /-- The options can be followed. -/
  options : options.resolve engine.config = .ok execution.options
  /-- The plan can be run. -/
  check : execution.plan.check = .ok ()
  /-- All variables are bound. -/
  bound : ∀ ref ∈ execution.plan.bindRefs, ∃ value, execution.bindings.resolve ref = .ok value
  /-- All functions are known, and the steps open the pipeline with its own states. -/
  opened : ∃ steps, compileSteps engine.registry execution.plan.steps = .ok steps ∧
    Pipeline.Opened execution.bindings
      (execution.plan.scan.source steps execution.options.maxFanOut) steps
      execution.pipeline.states execution.pipeline
  /-- The states are of the kinds of the nodes. -/
  kinds_eq : execution.pipeline.states.map NodeState.kind = execution.plan.shape
  /-- The states fit the plan. -/
  fits : ∀ state ∈ execution.pipeline.states, state.Fits execution.plan.scan.shards.length
  /-- The limit of the account is that of the options. -/
  limit_eq : execution.memory.limit = (Memory.ofLimitMb execution.options.maxMemoryMb).limit
  /-- The limit has been kept. -/
  peak_le : execution.memory.peak ≤ execution.memory.limit
  /-- There are more batches. -/
  unfinished : execution.finished = false

section Started

variable {steps : List CompiledStep} {point : StartPoint} {execution : Execution}

/-- An execution is founded at its start, if it starts with states that belong to the plan. -/
theorem Started.founded (h : Started engine query fresh steps point execution)
    (hkinds : point.states.map NodeState.kind = query.plan.shape)
    (hfits : ∀ state ∈ point.states, state.Fits query.plan.scan.shards.length) :
    execution.Founded engine query.options := by
  have hmemory : ((Memory.ofLimitMb execution.options.maxMemoryMb).settle
      (point.states.flatMap Pipeline.charge)).1 = execution.memory := by rw [h.settle_charges]
  refine ⟨h.options, ?_, ?_, ⟨steps, ?_, ?_⟩, ?_, ?_, ?_, ?_, h.finished_eq⟩
  · exact h.plan_eq ▸ h.check
  · rw [h.plan_eq, h.bindings_eq]
    exact h.bound
  · exact h.plan_eq ▸ h.compile
  · rw [h.states_eq, h.plan_eq, h.bindings_eq]
    exact h.openedNodes
  · rw [h.states_eq, h.plan_eq, hkinds]
  · rw [h.states_eq, h.plan_eq]
    exact hfits
  · rw [← hmemory, Memory.settle_limit]
  · rw [← hmemory]
    exact Memory.peak_settle_le_limit (Nat.zero_le _) _

end Started

/-- An execution that is started without a token is founded. -/
theorem founded_of_start {execution : Execution} (htoken : query.token = none)
    (h : start engine query fresh = .ok execution) : execution.Founded engine query.options := by
  obtain ⟨steps, hstarted⟩ := exists_started_of_start htoken h
  exact hstarted.founded query.plan.kinds_startStates query.plan.fits_startStates

/-- Batches do not touch what an execution rests on. -/
theorem Founded.advances {options : QueryOptions} {execution next : Execution}
    (h : execution.Founded engine options) (hnext : execution.Advances next) :
    next.Founded engine options := by
  obtain ⟨steps, hcompile, hopened⟩ := h.opened
  refine ⟨?_, ?_, ?_, ⟨steps, ?_, ?_⟩, ?_, ?_, ?_, hnext.peak_le h.peak_le,
    hnext.finished_eq.trans h.unfinished⟩
  · exact hnext.options_eq ▸ h.options
  · exact hnext.plan_eq ▸ h.check
  · rw [hnext.plan_eq, hnext.bindings_eq]
    exact h.bound
  · exact hnext.plan_eq ▸ hcompile
  · rw [hnext.plan_eq, hnext.bindings_eq, hnext.options_eq]
    exact hnext.pipeline.opened hopened fun _ _ => rfl
  · rw [hnext.pipeline.kinds_eq, hnext.plan_eq, h.kinds_eq]
  · rw [hnext.plan_eq]
    exact hnext.pipeline.fits h.fits
  · rw [hnext.limit_eq, hnext.options_eq, h.limit_eq]

end Execution

end ShardQuery
