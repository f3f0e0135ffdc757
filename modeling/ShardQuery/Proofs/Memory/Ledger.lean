import ShardQuery.Proofs.Memory.Contents
import ShardQuery.Proofs.Opening
import ShardQuery.Proofs.Run
import ShardQuery.Shard.Recorded

/-!
# The Memory of Executions

An execution that is started without a token keeps its account in agreement with what its
pipeline holds, through every tick, every response and every batch. The invariant is
`Execution.Ledger`: the counters of the pipeline tally, and their sum is what is in use. Amounts
are counted up to `maxAmount`; an account whose peak is less has never been cut off there.

## Main results

* `Execution.ledger_of_start`: the invariant holds at the start.
* `BatchRun.ledger_of_moves`: one step of a batch keeps it.
* `Execution.used_eq_heldBytes_of_passes`: through all batches exactly what is held is in use,
  and never more than the limit.
-/

namespace ShardQuery

variable {σ : Type}

namespace Execution

/-- Whether exactly the memory of what an execution holds is in use, and no more than its
options allow. -/
structure Settled (execution : Execution) : Prop where
  /-- What is held is in use, and nothing else. -/
  used_eq : execution.memory.used = execution.pipeline.heldBytes
  /-- The limit is kept. -/
  used_le : execution.memory.used ≤ execution.options.maxMemoryMb * Memory.bytesPerMb

/-- Whether the account of an execution is in order: no more is in use than the limit and the
peak say, and the limit is that of the options. -/
structure InOrder (execution : Execution) : Prop where
  /-- The account is sound. -/
  sound : execution.memory.Sound
  /-- The limit is that of the options. -/
  limit_le : execution.memory.limit ≤ execution.options.maxMemoryMb * Memory.bytesPerMb
  /-- What the pipeline is charged for is in use. -/
  used_eq : execution.memory.used = execution.pipeline.trackedBytes

/-- Whether the counters of an execution tally, and its account is in order unless amounts have
been cut off. -/
structure Ledger (agree : Nat → Nat → Prop) (execution : Execution) : Prop where
  /-- The counters say what is held. -/
  tallies : execution.pipeline.Tallies agree
  /-- The account is in order. -/
  inOrder : execution.memory.peak < maxAmount → execution.InOrder

variable {agree : Nat → Nat → Prop}

/-- Exact counters say what is in use, as long as the peak has stayed below the greatest amount,
where counting stops. -/
theorem Ledger.settled {execution : Execution} (h : execution.Ledger (· = ·))
    (hpeak : execution.memory.peak < maxAmount) : execution.Settled :=
  ⟨(h.inOrder hpeak).used_eq.trans h.tallies.trackedBytes_eq,
    Nat.le_trans (h.inOrder hpeak).sound.used_le_limit (h.inOrder hpeak).limit_le⟩

/-- What a balanced change of the pipeline leaves in order. -/
theorem InOrder.carryOut {execution : Execution} (h : execution.InOrder) {α : Type}
    {change : Metered Pipeline α}
    (hchange : change.Balanced Pipeline.trackedBytes execution.pipeline.trackedBytes)
    {m : Memory} {p : Pipeline} {result : Except QueryError α}
    (hrun : change.run execution.memory = (m, p, result)) (hpeak : m.peak < maxAmount) :
    execution.memory.Covers change.events ∧
      InOrder { execution with memory := m, pipeline := p } := by
  have hm : (change.run execution.memory).1 = m := by rw [hrun]
  have hp : (change.run execution.memory).2.1 = p := by rw [hrun]
  rw [← h.used_eq] at hchange
  refine ⟨Metered.covers_of_balanced hchange (hm ▸ hpeak), ?_, ?_, ?_⟩
  · rw [← hm, Metered.run_memory]
    exact h.sound.settle _
  · have hlimit : m.limit = execution.memory.limit := by
      rw [← hm, Metered.run_memory, Memory.settle_limit]
    exact hlimit ▸ h.limit_le
  · have hused := Metered.run_used hchange (hm ▸ hpeak)
    rwa [hm, hp] at hused

/-! ### Starts -/

/-- Reserving what states are charged for, as long as amounts can be counted. -/
theorem used_of_settle_charges {memory m : Memory} {states : List NodeState}
    (h : memory.settle (states.flatMap Pipeline.charge) = (m, none)) (hpeak : m.peak < maxAmount) :
    m.used = memory.used + total NodeState.trackedBytes states := by
  induction states generalizing memory with
  | nil =>
      cases h
      rfl
  | cons state states ih =>
      rw [List.flatMap_cons, Pipeline.charge] at h
      rw [total_cons]
      split at h
      · next hzero => rw [ih h, hzero, Nat.zero_add]
      · rw [List.singleton_append, Memory.settle] at h
        rcases hr : memory.reserve state.trackedBytes state.kind.name with excess | m'
        · rw [hr] at h
          cases h
        · rw [hr] at h
          simp only at h
          -- The peak tells that the sum has not been cut off.
          have hle : m'.peak ≤ m.peak := by
            have hle := Memory.peak_le_settle m' (states.flatMap Pipeline.charge)
            rwa [h] at hle
          obtain ⟨-, rfl⟩ := Memory.reserve_eq_ok hr
          rw [ih h]
          simp only at hle ⊢
          omega

/-- The account of an execution is in order at its start. -/
theorem Started.inOrder {engine : Engine} {query : Query} {fresh : Uuid}
    {steps : List CompiledStep} {point : StartPoint} {execution : Execution}
    (h : Started engine query fresh steps point execution)
    (hpeak : execution.memory.peak < maxAmount) : execution.InOrder := by
  have hsettle := h.settle_charges
  have hmemory : ((Memory.ofLimitMb execution.options.maxMemoryMb).settle
      (point.states.flatMap Pipeline.charge)).1 = execution.memory := by rw [hsettle]
  refine ⟨?_, ?_, ?_⟩
  · rw [← hmemory]
    exact (Memory.sound_ofLimit _).settle _
  · rw [← hmemory, Memory.settle_limit]
    exact Nat.min_le_left _ _
  · rw [used_of_settle_charges hsettle hpeak, Pipeline.trackedBytes, h.states_eq]
    exact Nat.zero_add _

/-- A stage with the state of the beginning tallies, as both its counter and its contents are empty.
-/
theorem tallies_of_startState (ht : IsTally agree) {stage : Stage} {step : Step}
    (h : stage.state = step.startState) : stage.Tallies agree := by
  cases stage with
  | distinct keys strategy state =>
      cases step <;> cases h
      cases strategy <;> exact ⟨ht.refl 0, rfl⟩
  | sort | groupBy =>
      cases step <;> cases h
      exact ht.refl 0
  | project | slice => trivial

/-- The nodes of a pipeline whose states are those at the beginning. -/
theorem startStates_of_states {pipeline : Pipeline} {plan : Plan}
    (h : pipeline.states = plan.startStates) :
    (∀ stage ∈ pipeline.stages, ∃ step : Step, stage.state = step.startState) ∧
      pipeline.source.shards = plan.scan.shards.map .start := by
  obtain ⟨hstages, hsource⟩ := List.append_inj' h rfl
  refine ⟨fun stage hmem => ?_, ?_⟩
  · have hstate : stage.state ∈ plan.steps.map Step.startState :=
      hstages ▸ List.mem_map_of_mem hmem
    obtain ⟨step, -, hstep⟩ := List.mem_map.1 hstate
    exact ⟨step, hstep.symm⟩
  · simpa only [Source.state, List.cons.injEq, NodeState.receive.injEq, and_true] using hsource

/-- A pipeline whose states are those at the beginning holds nothing. -/
theorem tallies_of_startStates (ht : IsTally agree) {pipeline : Pipeline} {plan : Plan}
    (h : pipeline.states = plan.startStates) : pipeline.Tallies agree := by
  obtain ⟨hstages, hshards⟩ := startStates_of_states h
  refine ⟨fun stage hmem => ?_, fun progress hmem => ?_⟩
  · obtain ⟨step, hstep⟩ := hstages stage hmem
    exact tallies_of_startState ht hstep
  · rw [hshards] at hmem
    obtain ⟨shard, -, rfl⟩ := List.mem_map.1 hmem
    exact ht.refl 0

/-- Nothing is charged at the beginning, in none of the states of a plan. -/
theorem trackedBytes_of_startStates {plan : Plan} :
    ∀ state ∈ plan.startStates, state.trackedBytes = 0 := by
  intro state hstate
  rcases List.mem_append.1 hstate with hmem | hmem
  · obtain ⟨step, -, rfl⟩ := List.mem_map.1 hmem
    cases step <;> rfl
  · obtain rfl := List.mem_singleton.1 hmem
    refine total_eq_zero fun progress hprogress => ?_
    obtain ⟨shard, -, rfl⟩ := List.mem_map.1 hprogress
    rfl

/-- The account of an execution that is started without a token is unused, and nothing is charged
for its pipeline. -/
theorem memory_of_start {engine : Engine} {query : Query} {fresh : Uuid} {execution : Execution}
    (htoken : query.token = none) (h : start engine query fresh = .ok execution) :
    execution.memory = Memory.ofLimitMb execution.options.maxMemoryMb ∧
      execution.pipeline.trackedBytes = 0 := by
  obtain ⟨steps, hstarted⟩ := exists_started_of_start htoken h
  have hcharges : query.plan.startStates.flatMap Pipeline.charge = [] :=
    List.flatMap_eq_nil_iff.2 fun state hstate =>
      if_pos (trackedBytes_of_startStates state hstate)
  have hsettle := hstarted.settle_charges
  rw [hcharges] at hsettle
  refine ⟨(congrArg Prod.fst hsettle).symm, ?_⟩
  rw [Pipeline.trackedBytes, hstarted.states_eq]
  exact total_eq_zero trackedBytes_of_startStates

/-- An execution that is started without a token begins with counters that tally. -/
theorem ledger_of_start (ht : IsTally agree) {engine : Engine} {query : Query} {fresh : Uuid}
    {execution : Execution} (htoken : query.token = none)
    (h : start engine query fresh = .ok execution) : execution.Ledger agree := by
  obtain ⟨steps, point, hstarted⟩ := start_eq_ok_iff.1 h
  exact ⟨tallies_of_startStates ht (states_of_start htoken h), hstarted.inOrder⟩

end Execution

/-! ### Steps -/

namespace BatchRun

open Execution

/-- A booked tick keeps the account in order. If it succeeds, the counters tally again. -/
theorem ledger_of_booked (ht : IsTally agree) {run : BatchRun σ}
    (h : run.execution.Ledger agree) {m : Memory} {p : Pipeline}
    {result : Except QueryError Signal} (hb : run.booked = (m, p, result)) :
    (m.peak < maxAmount →
      run.execution.memory.Covers (run.execution.pipeline.tick run.execution.bindings).events ∧
        (run.moved m p).execution.InOrder) ∧
      ∀ signal, result = .ok signal → (run.moved m p).execution.Ledger agree := by
  have horder (hpeak : m.peak < maxAmount) :=
    (h.inOrder (Nat.lt_of_le_of_lt (Metered.peak_le_of_run hb) hpeak)).carryOut
      (Pipeline.balanced_tick ht h.tallies run.execution.bindings) hb hpeak
  refine ⟨horder, ?_⟩
  rintro signal rfl
  obtain ⟨-, rfl, hresult⟩ := Metered.run_eq_ok_iff.1 hb
  exact ⟨Pipeline.tallies_tick ht h.tallies hresult, fun hpeak => (horder hpeak).2⟩

/-- Responses that are taken in keep the account in order and the counters tallying, however
far they get. -/
theorem ledger_of_receive (ht : IsTally agree) {run : BatchRun σ}
    (h : run.execution.Ledger agree)
    {responses : List (Nat × Except RequestError ShardResponse)} {m : Memory} {p : Pipeline}
    {result : Except QueryError Unit}
    (hr : (run.execution.pipeline.receive responses).run run.execution.memory = (m, p, result)) :
    (m.peak < maxAmount →
      run.execution.memory.Covers (run.execution.pipeline.receive responses).events) ∧
      (run.moved m p).execution.Ledger agree := by
  have horder (hpeak : m.peak < maxAmount) :=
    (h.inOrder (Nat.lt_of_le_of_lt (Metered.peak_le_of_run hr) hpeak)).carryOut
      (Pipeline.balanced_receive ht h.tallies responses) hr hpeak
  have htallies := Pipeline.tallies_receive ht h.tallies responses run.execution.memory
  rw [hr] at htallies
  exact ⟨fun hpeak => (horder hpeak).1, htallies, fun hpeak => (horder hpeak).2⟩

/-- One step of a batch keeps the account in order. Unless it fails, the counters tally
again. -/
theorem ledger_of_moves (ht : IsTally agree) {reader : ShardReader σ} {run next : BatchRun σ}
    {reason : Option BatchEnd} (h : run.execution.Ledger agree)
    (hmove : Moves reader run next reason) :
    (next.execution.memory.peak < maxAmount → next.execution.InOrder) ∧
      ((∀ error, reason ≠ some (.failed error)) → next.execution.Ledger agree) := by
  cases hmove with
  | full => exact ⟨h.inOrder, fun _ => h⟩
  | broken _ hb =>
      obtain ⟨horder, -⟩ := ledger_of_booked ht h hb
      exact ⟨fun hpeak => (horder hpeak).2, fun hne => absurd rfl (hne _)⟩
  | row _ hb | exhausted _ hb | again _ hb | noRound _ hb | idle _ hb | noTime _ hb
  | late _ hb =>
      obtain ⟨horder, hledger⟩ := ledger_of_booked ht h hb
      exact ⟨fun hpeak => (horder hpeak).2, fun _ => hledger _ rfl⟩
  | refused _ hb _ _ _ _ hi | round _ hb _ _ _ _ hi =>
      obtain ⟨-, hledger⟩ := ledger_of_booked ht h hb
      obtain ⟨-, hledger⟩ := ledger_of_receive ht (hledger _ rfl) hi
      exact ⟨hledger.inOrder, fun _ => hledger⟩

end BatchRun

/-! ### Runs -/

namespace Execution

/-- At the end of an execution, all that its pipeline is charged for is given back. -/
theorem memory_finish (execution : Execution) :
    execution.finish.memory = execution.memory.release execution.pipeline.trackedBytes := by
  simp only [finish, Pipeline.run_close]

/-- At the end of an execution, its pipeline is cleared. -/
theorem pipeline_finish (execution : Execution) :
    execution.finish.pipeline = execution.pipeline.cleared := by
  simp only [finish, Pipeline.run_close]

/-- Giving everything up gives back nothing that is not in use, and leaves nothing in use. -/
theorem InOrder.finish {execution : Execution} (h : execution.InOrder)
    (hpeak : execution.memory.peak < maxAmount) :
    execution.memory.Covers execution.pipeline.close.events ∧
      execution.finish.memory.used = 0 := by
  constructor
  · refine Metered.covers_of_balanced (h.used_eq ▸ Pipeline.balanced_close execution.pipeline) ?_
    rw [Pipeline.run_close]
    exact hpeak
  · rw [memory_finish, Memory.release, h.used_eq, Nat.sub_self]

/-- An execution that has given everything up, and has nothing in use. -/
theorem settled_of_cleared {execution : Execution} (hused : execution.memory.used = 0)
    {p : Pipeline} (hp : execution.pipeline = p.cleared) : execution.Settled := by
  refine ⟨?_, hused ▸ Nat.zero_le _⟩
  rw [hused, hp, Pipeline.heldBytes_cleared]

/-- A full batch leaves the counters and the account as they are. -/
theorem Ledger.conclude_full {reader : ShardReader σ} {last : BatchRun σ}
    (h : last.execution.Ledger agree) :
    (conclude reader last .full).execution.Ledger agree :=
  ⟨h.tallies, fun hpeak => ⟨(h.inOrder hpeak).sound, (h.inOrder hpeak).limit_le,
    (h.inOrder hpeak).used_eq⟩⟩

/-- The invariant holds in all states of all batches. -/
theorem ledger_of_passes (ht : IsTally agree) {execution : Execution}
    (h : execution.Ledger agree) {reader : ShardReader σ} {shards : σ} {run : BatchRun σ}
    (hpass : execution.Passes reader shards run) : run.execution.Ledger agree := by
  induction hpass with
  | start => exact h
  | step _ hstep ih =>
      exact (BatchRun.ledger_of_moves ht ih (BatchRun.moves_of_step hstep)).2 nofun
  | batch _ hstep ih =>
      exact ((BatchRun.ledger_of_moves ht ih (BatchRun.moves_of_step hstep)).2
        nofun).conclude_full

/-- **Through all batches exactly what is held is in use.** In every state of every batch of
an execution that was started without a token, after every tick, after all responses that
have been taken in and behind every batch, the bytes in use are those of the rows, groups and
keys that the pipeline holds, and no more than the options allow. Nothing is ever given back
that is not in use, and a batch that does not leave the execution open gives everything back
by itself. -/
theorem used_eq_heldBytes_of_passes {engine : Engine} {query : Query} {fresh : Uuid}
    {execution : Execution} (htoken : query.token = none)
    (hstart : start engine query fresh = .ok execution) {reader : ShardReader σ} {shards : σ}
    {run : BatchRun σ} (hpass : execution.Passes reader shards run)
    (hpeak : run.execution.memory.peak < maxAmount) :
    run.execution.Settled ∧
    (∀ m p result, run.booked = (m, p, result) → m.peak < maxAmount →
      run.execution.memory.Covers (run.execution.pipeline.tick run.execution.bindings).events ∧
      ∀ signal, result = .ok signal →
        (run.moved m p).execution.Settled ∧
        ∀ responses m' p' result', (p.receive responses).run m = (m', p', result') →
          m'.peak < maxAmount →
          m.Covers (p.receive responses).events ∧ (run.moved m' p').execution.Settled) ∧
    ∀ last reason, run.step reader = (last, some reason) →
      last.execution.memory.peak < maxAmount →
      (conclude reader last reason).execution.Settled ∧
      (reason ≠ .full →
        last.execution.memory.Covers last.execution.pipeline.close.events ∧
        last.execution.finish.memory.used = 0 ∧
        (conclude reader last reason).execution.memory = last.execution.finish.memory) := by
  have hledger := ledger_of_passes isTally_eq (ledger_of_start isTally_eq htoken hstart) hpass
  refine ⟨hledger.settled hpeak, ?_, ?_⟩
  · intro m p result hb hm
    obtain ⟨horder, htick⟩ := BatchRun.ledger_of_booked isTally_eq hledger hb
    refine ⟨(horder hm).1, fun signal hsignal => ⟨(htick signal hsignal).settled hm, ?_⟩⟩
    intro responses m' p' result' hr hm'
    obtain ⟨hcovers, hreceive⟩ :=
      BatchRun.ledger_of_receive isTally_eq (htick signal hsignal) hr
    exact ⟨hcovers hm', hreceive.settled hm'⟩
  · intro last reason hstep hlast
    obtain ⟨horder, hgood⟩ :=
      BatchRun.ledger_of_moves isTally_eq hledger (BatchRun.moves_of_step hstep)
    obtain ⟨hcovers, hzero⟩ := (horder hlast).finish hlast
    cases reason with
    | full =>
        have hsettled := (hgood nofun).settled hlast
        exact ⟨⟨hsettled.used_eq, hsettled.used_le⟩, fun hne => absurd rfl hne⟩
    | exhausted =>
        have hmemory : (conclude reader last .exhausted).execution.memory =
            last.execution.finish.memory := by
          rw [conclude, memory_finish, memory_finish]
        refine ⟨settled_of_cleared (hmemory ▸ hzero) (p := last.execution.pipeline) ?_,
          fun _ => ⟨hcovers, hzero, hmemory⟩⟩
        rw [conclude, pipeline_finish]
    | failed error =>
        have hmemory : (conclude reader last (.failed error)).execution.memory =
            last.execution.finish.memory := by
          rw [conclude, abort, memory_finish, ← Memory.releaseAll_of_used hzero, memory_finish]
        refine ⟨settled_of_cleared rfl (p := last.execution.pipeline) ?_,
          fun _ => ⟨hcovers, hzero, hmemory⟩⟩
        rw [conclude, abort]
        exact pipeline_finish _

/-! ### An example -/

/-- An engine without functions under the usual settings, for queries that use none. -/
def plainEngine : Engine :=
  ⟨.standard, ⟨"", []⟩⟩

/-- A query for the groups of those rows of a shard that differ in another field. Its inner step
remembers keys, and its outer one holds the group in the making. -/
def dedupedGroups : Query :=
  ⟨⟨Plan.currentVersion, [.groupBy [⟨"a", false, false⟩] [], .distinct ["b"] .hashed],
    ⟨"t", [1], true⟩⟩, .empty, .standard, none⟩

/-- The execution of `dedupedGroups` at its start, with both of its states empty. -/
def dedupedGroupsStart : Execution where
  id := ⟨0⟩
  plan := dedupedGroups.plan
  bindings := .empty
  options := ⟨none, none, none, 1024, none, none, .eventual, none, 4⟩
  memory := Memory.ofLimitMb 1024
  pipeline :=
    ⟨[.groupBy [⟨"a", false, false⟩] [] .start, .distinct ["b"] .hashed .start],
      ⟨"t", 2, 1, .inOrder, [.start 1]⟩⟩
  elapsedMs := 0
  finished := false

/-- A shard with four rows on one page, the third of which has nothing new in the field `b`. -/
def fourRows : Recorded :=
  ⟨[(1, [.ok ⟨[Row.ofList [("a", .int 1), ("b", .bool true)],
    Row.ofList [("a", .int 1), ("b", .null)], Row.ofList [("a", .int 1), ("b", .bool true)],
    Row.ofList [("a", .int 2), ("b", .bool false)]], none⟩])]⟩

/-- The page arrives, two rows go into one group, and the third one is dropped. What is held then
is paid for in all three nodes: the group, the two keys that are remembered, and the row that the
scan has not sent on. -/
theorem used_eq_heldBytes_of_fourRows : ∃ run,
    start plainEngine dedupedGroups ⟨0⟩ = .ok dedupedGroupsStart ∧
      dedupedGroupsStart.Passes Recorded.reader fourRows run ∧ run.execution.Settled ∧
      run.execution.pipeline.states.map NodeState.trackedBytes = [16, 76, 66] ∧
      run.execution.memory.used = 158 := by
  have hstart : start plainEngine dedupedGroups ⟨0⟩ = .ok dedupedGroupsStart := rfl
  have hfirst : dedupedGroupsStart.Passes Recorded.reader fourRows
      (.start dedupedGroupsStart fourRows) :=
    .start
  have hpass := (((hfirst.next rfl).next rfl).next rfl).next rfl
  exact ⟨_, hstart, hpass, (used_eq_heldBytes_of_passes rfl hstart hpass (by decide +kernel)).1,
    rfl, rfl⟩

end Execution

end ShardQuery
