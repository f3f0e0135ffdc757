import ShardQuery.Proofs.Failure
import ShardQuery.Proofs.Memory.Limit

/-!
# Memory Budgets

The budget of a query has one effect and no other. Under a smaller one the query makes the same
batches up to the one in which the peak of the account is first beyond the smaller budget, and this
batch fails.

Main definitions:

* `BatchRun.Exceeds`, `Execution.Exceeds` — the peak of a batch, which may never end, is beyond an
  amount;
* `Execution.startPeak` — the most that a start has in use.

## Main results

* `BatchRun.steps_withBudget`, `BatchRun.exists_steps_of_exceeds`: what another limit does to the
  steps of a batch.
* `Execution.Makes.withBudget`: a run that keeps to another limit.
* `Execution.budget_only_fails`: starts, runs and the batch that fails.
-/

namespace ShardQuery

variable {σ : Type}

namespace BatchRun

variable {reader : ShardReader σ} {run next : BatchRun σ} {reason : Option BatchEnd}
  {megabytes limit : Nat}

/-- Whether the peak of the account is beyond an amount at some time of a batch, which may never
end. -/
def Exceeds (reader : ShardReader σ) (run : BatchRun σ) (amount : Nat) : Prop :=
  ∃ before, run.Reaches reader before ∧ amount < (before.step reader).1.execution.memory.peak

/-- The account grows over all steps of a batch, and so does every bound on its peak. -/
theorem grows_of_steps {budget : Nat} {last : BatchRun σ} {reason : BatchEnd}
    (h : run.steps reader budget = some (last, reason)) :
    run.execution.memory.Grows last.execution.memory := by
  obtain ⟨before, hbefore, hlast⟩ := last_move_of_steps
    (P := fun next => run.execution.memory.Grows next.execution.memory)
    (fun _ _ hbefore hmove => hbefore.trans (grows_of_moves hmove)) (.refl _) h
  exact hbefore.trans (grows_of_moves hlast)

/-- The peak of a batch that ends is the one at its end. -/
theorem exceeds_iff_of_steps {budget amount : Nat} {last : BatchRun σ} {reason : BatchEnd}
    (h : run.steps reader budget = some (last, reason)) :
    run.Exceeds reader amount ↔ amount < last.execution.memory.peak := by
  induction budget generalizing run with
  | zero => cases h
  | succ budget ih =>
      rw [steps] at h
      rcases hs : run.step reader with ⟨next, _ | reason⟩ <;> rw [hs] at h
      · rw [← ih h]
        constructor
        · rintro ⟨before, _ | ⟨hstep, hreaches⟩, hlt⟩
          · rw [hs] at hlt
            have hle := (grows_of_moves (moves_of_step (Prod.ext rfl rfl : next.step reader =
              ((next.step reader).1, (next.step reader).2)))).peak_le
            exact ⟨next, .refl next, Nat.lt_of_lt_of_le hlt hle⟩
          · cases hs.symm.trans hstep
            exact ⟨before, hreaches, hlt⟩
        · rintro ⟨before, hreaches, hlt⟩
          exact ⟨before, .step hs hreaches, hlt⟩
      · cases h
        constructor
        · rintro ⟨before, _ | ⟨hstep, -⟩, hlt⟩
          · rwa [hs] at hlt
          · cases hs.symm.trans hstep
        · exact fun hlt => ⟨run, .refl run, by rwa [hs]⟩

section

variable (hnever : ∀ budget last excess,
  run.steps reader budget ≠ some (last, .failed (.memory excess)))

include hnever

/-- The next step of a batch that never runs out of memory, and the batch after it. -/
theorem never_of_step (hstep : run.step reader = (next, reason)) :
    (∀ excess, reason ≠ some (.failed (.memory excess))) ∧
      (reason = none → ∀ budget last excess,
        next.steps reader budget ≠ some (last, .failed (.memory excess))) := by
  constructor
  · rintro excess rfl
    exact hnever 1 next excess (steps_succ_of_end hstep 0)
  · rintro rfl budget last excess h
    exact hnever (budget + 1) last excess ((steps_succ_of_step hstep budget).trans h)

/-- A batch that keeps to another limit is the same under it, even if it never ends. -/
theorem steps_withBudget (megabytes : Nat) (h : ¬ run.Exceeds reader limit) (budget : Nat) :
    (run.withBudget megabytes limit).steps reader budget =
      (run.steps reader budget).map fun ended => (ended.1.withBudget megabytes limit, ended.2) := by
  induction budget generalizing run with
  | zero => rfl
  | succ budget ih =>
      rcases hs : run.step reader with ⟨next, reason⟩
      obtain ⟨hreason, hnext⟩ := never_of_step hnever hs
      have hpeak : next.execution.memory.peak ≤ limit :=
        Nat.le_of_not_lt fun hlt => h ⟨run, .refl run, by rwa [hs]⟩
      have hs' := step_of_moves (moves_withBudget megabytes (moves_of_step hs) hreason hpeak)
      rw [steps, steps, hs, hs']
      cases reason with
      | some reason => rfl
      | none =>
          refine ih (hnext rfl) ?_
          rintro ⟨before, hreaches, hlt⟩
          exact h ⟨before, .step hs hreaches, hlt⟩

/-- A batch whose peak is beyond another limit at some time runs out of memory under it. -/
theorem exists_steps_of_exceeds (megabytes : Nat)
    (hbefore : run.execution.memory.peak ≤ limit)
    (h : run.Exceeds reader limit) : ∃ budget last excess,
      (run.withBudget megabytes limit).steps reader budget =
        some (last, .failed (.memory excess)) := by
  obtain ⟨before, hreaches, hlt⟩ := h
  induction hreaches with
  | refl run =>
      have hs : run.step reader = ((run.step reader).1, (run.step reader).2) := rfl
      obtain ⟨last, excess, hmove⟩ := moves_of_lt_peak megabytes (moves_of_step hs)
        (never_of_step hnever hs).1 hbefore hlt
      exact ⟨1, last, excess, steps_succ_of_end (step_of_moves hmove) 0⟩
  | @step run next before hs hreaches ih =>
      obtain ⟨hreason, hnext⟩ := never_of_step hnever hs
      -- The peak may be beyond the limit in this step already.
      rcases Nat.lt_or_ge limit next.execution.memory.peak with hover | hwithin
      · obtain ⟨last, excess, hmove⟩ :=
          moves_of_lt_peak megabytes (moves_of_step hs) hreason hbefore hover
        exact ⟨1, last, excess, steps_succ_of_end (step_of_moves hmove) 0⟩
      · obtain ⟨budget, last, excess, hsteps⟩ := ih (hnext rfl) hwithin hlt
        have hs' := step_of_moves (moves_withBudget megabytes (moves_of_step hs) hreason hwithin)
        exact ⟨budget + 1, last, excess, (steps_succ_of_step hs' budget).trans hsteps⟩

end

end BatchRun

/-! ### Batches -/

/-- What becomes of a batch, with another memory limit. -/
def BatchOutcome.withBudget (outcome : BatchOutcome σ) (megabytes limit : Nat) : BatchOutcome σ :=
  { outcome with execution := outcome.execution.withBudget megabytes limit }

namespace Execution

/-- A budget has no influence on whether an execution is at its end. -/
theorem finished_withBudget (execution : Execution) (megabytes limit : Nat) :
    (execution.withBudget megabytes limit).finished = execution.finished := rfl

/-- Coming to the end gives back the same bytes under every budget. -/
theorem finish_withBudget (execution : Execution) (megabytes limit : Nat) :
    (execution.withBudget megabytes limit).finish =
      execution.finish.withBudget megabytes limit := by
  simp only [finish, Pipeline.run_close]
  rfl

/-- Breaking off gives back the same bytes under every budget. -/
theorem abort_withBudget (execution : Execution) (megabytes limit : Nat) :
    (execution.withBudget megabytes limit).abort =
      execution.abort.withBudget megabytes limit := by
  rw [abort, abort, finish_withBudget]
  rfl

/-- The limit plays no part in what becomes of a batch that has ended. -/
theorem conclude_withBudget (reader : ShardReader σ) (run : BatchRun σ) (reason : BatchEnd)
    (megabytes limit : Nat) :
    conclude reader (run.withBudget megabytes limit) reason =
      (conclude reader run reason).withBudget megabytes limit := by
  have hlater (elapsedMs : Nat) :
      { (run.withBudget megabytes limit).execution with elapsedMs := elapsedMs } =
        Execution.withBudget { run.execution with elapsedMs := elapsedMs } megabytes limit := rfl
  cases reason with
  | full => rfl
  | exhausted =>
      simp only [conclude]
      rw [hlater, finish_withBudget]
      rfl
  | failed error =>
      simp only [conclude]
      rw [hlater, abort_withBudget]
      rfl

/-- What becomes of a batch that has ended leaves the peak of its account: memory is only given back
then. -/
theorem memory_conclude (reader : ShardReader σ) (run : BatchRun σ) (reason : BatchEnd) :
    run.execution.memory.Grows (conclude reader run reason).execution.memory ∧
      (conclude reader run reason).execution.memory.peak = run.execution.memory.peak := by
  cases reason with
  | full => exact ⟨.refl _, rfl⟩
  | exhausted =>
      simp only [conclude, memory_finish]
      exact ⟨⟨rfl, Nat.le_refl _, fun h => h⟩, rfl⟩
  | failed error =>
      simp only [conclude, abort, memory_finish]
      exact ⟨⟨rfl, Nat.le_refl _, fun h => h⟩, rfl⟩

variable {reader : ShardReader σ} {execution : Execution} {shards : σ}

/-- Whether the peak of the account is beyond an amount at some time of the next batch, which may
never end. -/
def Exceeds (reader : ShardReader σ) (execution : Execution) (shards : σ) (amount : Nat) : Prop :=
  execution.finished = false ∧ (BatchRun.start execution shards).Exceeds reader amount

/-- The peak of a batch that ends is the one at its end. -/
theorem exceeds_iff_of_nextBatch {budget amount : Nat} {outcome : BatchOutcome σ}
    (h : execution.nextBatch reader budget shards = some outcome)
    (hbefore : execution.memory.peak ≤ amount) :
    execution.Exceeds reader shards amount ↔ amount < outcome.execution.memory.peak := by
  obtain ⟨hfinished, rfl⟩ | ⟨hopen, last, reason, hsteps, rfl⟩ := ended_of_nextBatch h
  · refine iff_of_false ?_ (Nat.not_lt.2 hbefore)
    rintro ⟨hopen, -⟩
    cases hopen.symm.trans hfinished
  · rw [(memory_conclude reader last reason).2, ← BatchRun.exceeds_iff_of_steps hsteps]
    exact and_iff_right hopen

/-- A batch leaves the limit alone, and the peak within the limit. -/
theorem grows_of_nextBatch {budget : Nat} {outcome : BatchOutcome σ}
    (h : execution.nextBatch reader budget shards = some outcome) :
    execution.memory.Grows outcome.execution.memory := by
  obtain ⟨-, rfl⟩ | ⟨-, last, reason, hsteps, rfl⟩ := ended_of_nextBatch h
  · exact .refl _
  · exact (BatchRun.grows_of_steps hsteps).trans (memory_conclude reader last reason).1

section

variable (hnever : ∀ budget outcome, execution.nextBatch reader budget shards = some outcome →
  ¬ OutOfMemory outcome.result)

include hnever

/-- The steps of a batch that never runs out of memory. -/
theorem never_of_nextBatch (hopen : execution.finished = false) (budget : Nat)
    (last : BatchRun σ) (excess : MemoryExcess) :
    (BatchRun.start execution shards).steps reader budget ≠
      some (last, .failed (.memory excess)) := by
  intro hsteps
  refine hnever budget (conclude reader last (.failed (.memory excess))) ?_ ⟨excess, rfl⟩
  rw [nextBatch_of_open hopen, hsteps]
  rfl

/-- A batch that keeps to another limit is the same under it, even if it never ends. -/
theorem nextBatch_withBudget (megabytes : Nat) {limit : Nat}
    (h : ¬ execution.Exceeds reader shards limit) (budget : Nat) :
    (execution.withBudget megabytes limit).nextBatch reader budget shards =
      (execution.nextBatch reader budget shards).map
        fun outcome => outcome.withBudget megabytes limit := by
  cases hopen : execution.finished with
  | true =>
      rw [nextBatch_of_finished hopen,
        nextBatch_of_finished ((finished_withBudget _ _ _).trans hopen)]
      rfl
  | false =>
      have hsteps := BatchRun.steps_withBudget (never_of_nextBatch hnever hopen) megabytes
        (fun hexceeds => h ⟨hopen, hexceeds⟩) budget
      have hstart : BatchRun.start (execution.withBudget megabytes limit) shards =
        (BatchRun.start execution shards).withBudget megabytes limit := rfl
      rw [nextBatch_of_open hopen, nextBatch_of_open ((finished_withBudget _ _ _).trans hopen),
        hstart, hsteps, Option.map_map, Option.map_map]
      refine congrArg (Option.map · _) (funext fun ended => ?_)
      exact conclude_withBudget reader ended.1 ended.2 megabytes limit

/-- A batch whose peak is beyond another limit at some time runs out of memory under it. -/
theorem outOfMemory_of_exceeds (megabytes : Nat) {limit : Nat}
    (hbefore : execution.memory.peak ≤ limit) (h : execution.Exceeds reader shards limit) :
    ∃ budget outcome, (execution.withBudget megabytes limit).nextBatch reader budget shards =
      some outcome ∧ OutOfMemory outcome.result := by
  obtain ⟨hopen, hexceeds⟩ := h
  obtain ⟨budget, last, excess, hsteps⟩ := BatchRun.exists_steps_of_exceeds
    (never_of_nextBatch hnever hopen) megabytes hbefore hexceeds
  have hstart : BatchRun.start (execution.withBudget megabytes limit) shards =
    (BatchRun.start execution shards).withBudget megabytes limit := rfl
  refine ⟨budget, conclude reader last (.failed (.memory excess)), ?_, excess, rfl⟩
  rw [nextBatch_of_open ((finished_withBudget _ _ _).trans hopen), hstart, hsteps]
  rfl

end

/-! ### Runs -/

variable {last : Execution} {lastShards : σ} {outcomes : List (BatchOutcome σ)}

/-- The account grows over all batches of a run, so the peak after the last one bounds the peaks of
all. -/
theorem Makes.grows (h : execution.Makes reader shards outcomes last lastShards) :
    execution.memory.Grows last.memory := by
  induction h with
  | none => exact .refl _
  | batch hbatch _ ih => exact (grows_of_nextBatch hbatch).trans ih

/-- A run whose peak keeps to another limit is the same under it. -/
theorem Makes.withBudget (h : execution.Makes reader shards outcomes last lastShards)
    (hnever : ∀ outcome ∈ outcomes, ¬ OutOfMemory outcome.result) (megabytes : Nat) {limit : Nat}
    (hpeak : last.memory.peak ≤ limit) :
    (execution.withBudget megabytes limit).Makes reader shards
      (outcomes.map fun outcome => outcome.withBudget megabytes limit)
      (last.withBudget megabytes limit) lastShards := by
  induction h with
  | none => exact .none _ _
  | @batch execution last shards lastShards budget outcome outcomes hbatch hrest ih =>
      obtain ⟨houtcome, houtcomes⟩ := List.forall_mem_cons.1 hnever
      have hbefore := (grows_of_nextBatch hbatch).trans hrest.grows
      have hexceeds : ¬ execution.Exceeds reader shards limit := by
        rw [exceeds_iff_of_nextBatch hbatch (Nat.le_trans hbefore.peak_le hpeak)]
        exact Nat.not_lt.2 (Nat.le_trans hrest.grows.peak_le hpeak)
      have hbatch' := nextBatch_withBudget (fun budget' outcome' hbatch' =>
        nextBatch_unique hbatch hbatch' ▸ houtcome) megabytes hexceeds budget
      rw [hbatch] at hbatch'
      exact .batch hbatch' (ih houtcomes hpeak)

/-! ### Starts -/

variable {engine : Engine} {query : Query} {fresh : Uuid} {resolved options : ResolvedOptions}
  {roomy : Execution}

/-- What a query opens once its options are resolved: where it starts, and its pipeline. -/
def opening (registry : Registry) (query : Query) (fresh : Uuid) (maxFanOut : Nat) :
    Except QueryError (StartPoint × Metered Unit Pipeline) := do
  query.plan.check.mapError .plan
  let steps ← (compileSteps registry query.plan.steps).mapError .function
  query.plan.bindRefs.forM fun ref => do
    let _ ← query.bindings.resolve ref
  let point ← startPoint query fresh
  return (point, Pipeline.openPlan query.bindings maxFanOut query.plan.scan steps point.states)

/-- The execution with the account and the pipeline that have been opened. -/
def ofOpening (query : Query) (options : ResolvedOptions) (point : StartPoint) (memory : Memory)
    (pipeline : Pipeline) : Execution :=
  ⟨point.id, query.plan, query.bindings, options, memory, pipeline, point.elapsedMs, false⟩

/-- A start books what the query opens on an account with the limit of the options. -/
theorem start_eq_opening (h : query.options.resolve engine.config = .ok options) :
    start engine query fresh =
      opening engine.registry query fresh options.maxFanOut >>= fun opened =>
        (opened.2.run (Memory.ofLimitMb options.maxMemoryMb)).2.2.map
          (ofOpening query options opened.1
            (opened.2.run (Memory.ofLimitMb options.maxMemoryMb)).1) := by
  rw [start, h, opening]
  simp only [bind_assoc, pure_bind]
  rfl

/-- The most that a start has in use at once, whether it succeeds or not. -/
def startPeak (engine : Engine) (query : Query) (fresh : Uuid) : Nat :=
  match query.options.resolve engine.config with
  | .error _ => 0
  | .ok options =>
    match opening engine.registry query fresh options.maxFanOut with
    | .error _ => 0
    | .ok opened => (opened.2.run (Memory.ofLimitMb options.maxMemoryMb)).1.peak

/-- The account of an execution at its start: its peak is that of the start, and its limit that of
the options, which it keeps to. -/
theorem memory_start (hresolved : query.options.resolve engine.config = .ok resolved)
    (h : start engine query fresh = .ok roomy) :
    startPeak engine query fresh = roomy.memory.peak ∧
      (Memory.ofLimitMb resolved.maxMemoryMb).Grows roomy.memory := by
  rw [start_eq_opening hresolved, bind_eq_ok_iff] at h
  obtain ⟨opened, hopening, hroomy⟩ := h
  simp only [startPeak, hresolved, hopening]
  rcases hrun : opened.2.run (Memory.ofLimitMb resolved.maxMemoryMb) with ⟨m, ⟨⟩, error | pipeline⟩
  · rw [hrun] at hroomy
    cases hroomy
  · rw [hrun] at hroomy
    cases hroomy
    exact ⟨rfl, Metered.grows_of_run hrun⟩

/-- A start that keeps to another limit is the same under it, and one that does not runs out of
memory. -/
theorem start_withBudget (hresolved : query.options.resolve engine.config = .ok resolved)
    {config : EngineConfig} {asked : QueryOptions} {megabytes : Nat}
    (hasked : asked.resolve config = .ok (resolved.withMemoryMb megabytes))
    (hnever : ¬ OutOfMemory (start engine query fresh)) :
    (startPeak engine query fresh ≤ (Memory.ofLimitMb megabytes).limit →
      start { engine with config := config } { query with options := asked } fresh =
        (start engine query fresh).map fun execution =>
          execution.withBudget megabytes (Memory.ofLimitMb megabytes).limit) ∧
    ((Memory.ofLimitMb megabytes).limit < startPeak engine query fresh → OutOfMemory
      (start { engine with config := config } { query with options := asked } fresh)) := by
  have hlimit : Memory.ofLimitMb (resolved.withMemoryMb megabytes).maxMemoryMb =
    (Memory.ofLimitMb resolved.maxMemoryMb).withLimit (Memory.ofLimitMb megabytes).limit := rfl
  rw [@start_eq_opening { engine with config := config } { query with options := asked } _ _
    hasked, hlimit]
  generalize (Memory.ofLimitMb megabytes).limit = limit
  have hopen : opening engine.registry { query with options := asked } fresh
    (resolved.withMemoryMb megabytes).maxFanOut =
      opening engine.registry query fresh resolved.maxFanOut := rfl
  rw [hopen]
  rw [start_eq_opening hresolved] at hnever ⊢
  simp only [startPeak, hresolved]
  cases hopening : opening engine.registry query fresh resolved.maxFanOut with
  | error error => exact ⟨fun _ => rfl, fun h => absurd h (Nat.not_lt_zero _)⟩
  | ok opened =>
      rw [hopening] at hnever
      simp only [bind, Except.bind] at hnever ⊢
      rcases hrun : opened.2.run (Memory.ofLimitMb resolved.maxMemoryMb) with ⟨m, ⟨⟩, result⟩
      rw [hrun] at hnever
      have hresult : ¬ OutOfMemory result := by
        rintro ⟨excess, rfl⟩
        exact hnever ⟨excess, rfl⟩
      constructor
      · intro hle
        rw [Metered.run_withLimit hrun hresult hle]
        cases result <;> rfl
      · intro hlt
        obtain ⟨m', ⟨⟩, excess, hrefused⟩ := Metered.run_of_lt_peak hrun hresult (Nat.zero_le _) hlt
        rw [hrefused]
        exact ⟨excess, rfl⟩

/-- **A memory budget changes nothing but failure.** A query is asked again under options that only
differ in the memory limit. Its start is the same if the most that the first start has in use keeps
to the new limit; otherwise it runs out of memory. After a run that does not run out of memory and
whose peak keeps to the new limit, the other run has made the same batches, with the same requests
and the same failures, and has come to the same execution. The next batch, as long as it does not
run out of memory, is then the same again if its peak keeps to the new limit, even if it never ends,
and otherwise it runs out of memory under the new limit. And under a limit that is not smaller all
of the run is the same. -/
theorem budget_only_fails (hresolved : query.options.resolve engine.config = .ok resolved)
    {config : EngineConfig} {asked : QueryOptions} {megabytes limit : Nat}
    (hasked : asked.resolve config = .ok (resolved.withMemoryMb megabytes))
    (hlimit : limit = (Memory.ofLimitMb megabytes).limit)
    (hstart : ¬ OutOfMemory (start engine query fresh)) :
    let again := start { engine with config := config } { query with options := asked } fresh
    (startPeak engine query fresh ≤ limit → again =
      (start engine query fresh).map fun execution => execution.withBudget megabytes limit) ∧
    (limit < startPeak engine query fresh → OutOfMemory again) ∧
    ∀ roomy, start engine query fresh = .ok roomy →
      ∀ (reader : ShardReader σ) (first : σ) outcomes last shards,
      roomy.Makes reader first outcomes last shards →
      (∀ outcome ∈ outcomes, ¬ OutOfMemory outcome.result) →
      (last.memory.peak ≤ limit ∨ resolved.maxMemoryMb ≤ megabytes →
        again = .ok (roomy.withBudget megabytes limit) ∧
        (roomy.withBudget megabytes limit).Makes reader first
          (outcomes.map fun outcome => outcome.withBudget megabytes limit)
          (last.withBudget megabytes limit) shards) ∧
      (last.memory.peak ≤ limit →
        (∀ budget outcome, last.nextBatch reader budget shards = some outcome →
          ¬ OutOfMemory outcome.result) →
        (¬ last.Exceeds reader shards limit → ∀ budget,
          (last.withBudget megabytes limit).nextBatch reader budget shards =
            (last.nextBatch reader budget shards).map
              fun outcome => outcome.withBudget megabytes limit) ∧
        (last.Exceeds reader shards limit → ∃ budget outcome,
          (last.withBudget megabytes limit).nextBatch reader budget shards = some outcome ∧
            OutOfMemory outcome.result)) := by
  subst hlimit
  obtain ⟨hsame, hfails⟩ := start_withBudget hresolved hasked hstart
  refine ⟨hsame, hfails, fun roomy hroomy reader first outcomes last shards hmakes hnever => ?_⟩
  obtain ⟨hpeak, hgrows⟩ := memory_start hresolved hroomy
  rw [hpeak, hroomy] at hsame
  refine ⟨fun hkeeps => ?_, fun hbefore hnext =>
    ⟨nextBatch_withBudget hnext megabytes, outOfMemory_of_exceeds hnext megabytes hbefore⟩⟩
  have hle : last.memory.peak ≤ (Memory.ofLimitMb megabytes).limit := by
    refine hkeeps.elim (fun h => h) fun hmore => ?_
    have hlast := hgrows.trans hmakes.grows
    refine Nat.le_trans (hlast.limit_eq ▸ hlast.peak_le_limit (Nat.zero_le _)) ?_
    exact Nat.le_min.2 ⟨Nat.le_trans (Nat.min_le_left _ _) (Nat.mul_le_mul_right _ hmore),
      Nat.min_le_right _ _⟩
  exact ⟨hsame (Nat.le_trans hmakes.grows.peak_le hle), hmakes.withBudget hnever megabytes hle⟩

/-- A query for the rows of one shard in the order of a field. -/
def sortedScan : Query :=
  ⟨⟨Plan.currentVersion, [.sort [⟨"a", false, false⟩] .materialize], ⟨"t", [1], true⟩⟩, .empty,
    .standard, none⟩

/-- The execution of `sortedScan` at its start, under the usual budget. -/
def sortedScanStart : Execution where
  id := ⟨0⟩
  plan := sortedScan.plan
  bindings := .empty
  options := ⟨none, none, none, 1024, none, none, .eventual, none, 4⟩
  memory := Memory.ofLimitMb 1024
  pipeline :=
    ⟨[.sort [⟨"a", false, false⟩] .materialize .start], ⟨"t", 1, 1, .inOrder, [.start 1]⟩⟩
  elapsedMs := 0
  finished := false

/-- A shard with one row on one page, which is all that a sort has to hold. -/
def onePage : Recorded :=
  ⟨[(1, [.ok ⟨[Row.ofList [("a", .int 1)]], none⟩])]⟩

/-- A page with one row fits a budget of one unit, and the batch fails under a budget of none. -/
theorem budget_of_onePage : ∃ outcome,
    sortedScanStart.nextBatch Recorded.reader 8 onePage = some outcome ∧
    (start plainEngine
        { sortedScan with options := { QueryOptions.standard with maxMemoryMb := some 1 } } ⟨0⟩ =
      .ok (sortedScanStart.withBudget 1 Memory.bytesPerMb) ∧
      (sortedScanStart.withBudget 1 Memory.bytesPerMb).Makes Recorded.reader onePage
        [outcome.withBudget 1 Memory.bytesPerMb]
        (outcome.execution.withBudget 1 Memory.bytesPerMb) outcome.shards) ∧
    (start ⟨{ EngineConfig.standard with maxMemoryMb := 0 }, ⟨"", []⟩⟩ sortedScan ⟨0⟩ =
      .ok (sortedScanStart.withBudget 0 0) ∧
      ∃ budget failed, (sortedScanStart.withBudget 0 0).nextBatch Recorded.reader budget onePage =
        some failed ∧ OutOfMemory failed.result) := by
  have hstart : start plainEngine sortedScan ⟨0⟩ = .ok sortedScanStart := rfl
  have hroom : ¬ OutOfMemory (start plainEngine sortedScan ⟨0⟩) := not_outOfMemory_ok _
  have hends : (sortedScanStart.nextBatch Recorded.reader 8 onePage).any (fun outcome =>
      outcome.result.isOk && decide (outcome.execution.memory.peak = 49)) = true := by
    decide +kernel
  obtain ⟨outcome, hbatch, houtcome⟩ := (Option.any_eq_true _ _).1 hends
  obtain ⟨hok, hpeak⟩ := Bool.and_eq_true_iff.1 houtcome
  have hpeak := of_decide_eq_true hpeak
  have hnever : ¬ OutOfMemory outcome.result := by
    rintro ⟨excess, herror⟩
    rw [herror] at hok
    cases hok
  have hsmall := (@budget_only_fails Recorded plainEngine sortedScan ⟨0⟩ sortedScanStart.options rfl
    .standard { QueryOptions.standard with maxMemoryMb := some 1 } 1 Memory.bytesPerMb rfl rfl
    hroom).2.2 _ hstart Recorded.reader onePage [outcome] outcome.execution outcome.shards
    (.batch hbatch (.none _ _)) (List.forall_mem_singleton.2 hnever)
  have hnone := (@budget_only_fails Recorded plainEngine sortedScan ⟨0⟩ sortedScanStart.options rfl
    { EngineConfig.standard with maxMemoryMb := 0 } .standard 0 0 rfl rfl hroom).2.2 _ hstart
    Recorded.reader onePage [] sortedScanStart onePage (.none _ _) (List.forall_mem_nil _)
  have hexceeds : sortedScanStart.Exceeds Recorded.reader onePage 0 :=
    (exceeds_iff_of_nextBatch hbatch (Nat.le_refl _)).2 (hpeak ▸ by decide)
  refine ⟨outcome, hbatch, hsmall.1 (.inl (hpeak ▸ by decide)), ⟨(hnone.1 (.inl ?_)).1, ?_⟩⟩
  · exact Nat.le_refl _
  · exact (hnone.2 (Nat.le_refl _) fun budget outcome' hbatch' =>
      nextBatch_unique hbatch hbatch' ▸ hnever).2 hexceeds

end Execution

end ShardQuery
