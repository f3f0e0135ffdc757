import ShardQuery.Proofs.Run

/-!
# Executions Alike

The peak of an account is only recorded, and without a time limit so is the time taken, of which
tokens hold a word. What a query does does not depend on them, so executions that differ in nothing
else do the same: the same rows, the same requests, the same tokens and the same failures. This
matters where a query goes on elsewhere, because its account is a new one there.

## Main results

* `Metered.run_of_alike`: a computation does the same to accounts alike.
* `BatchRun.moves_of_alike`: one step does the same to batches alike.
* `Execution.nextBatch_alike`: so does a whole batch.
-/

namespace ShardQuery

variable {σ α : Type}

/-! ### Accounts -/

namespace Memory

/-- Whether an account is another one up to what was ever in use at once. -/
def Alike (memory other : Memory) : Prop :=
  ∃ peak, other = { memory with peak := peak }

/-- An account is like itself. -/
theorem Alike.refl (memory : Memory) : memory.Alike memory :=
  ⟨memory.peak, rfl⟩

/-- Accounts alike have the same number of bytes in use. -/
theorem Alike.used_eq {memory other : Memory} (h : memory.Alike other) :
    other.used = memory.used := by
  obtain ⟨_, rfl⟩ := h
  rfl

/-- Giving bytes back keeps accounts alike. -/
theorem Alike.release {memory other : Memory} (h : memory.Alike other) (bytes : Nat) :
    (memory.release bytes).Alike (other.release bytes) := by
  obtain ⟨peak, rfl⟩ := h
  exact ⟨peak, rfl⟩

/-- Giving everything back keeps accounts alike. -/
theorem Alike.releaseAll {memory other : Memory} (h : memory.Alike other) :
    memory.releaseAll.Alike other.releaseAll := by
  obtain ⟨peak, rfl⟩ := h
  exact ⟨peak, rfl⟩

/-- Accounts alike refuse the same reservations, in the same words. -/
theorem Alike.reserve {memory other : Memory} (h : memory.Alike other) (bytes : Nat)
    (context : String) :
    (∃ excess, memory.reserve bytes context = .error excess ∧
      other.reserve bytes context = .error excess) ∨
    ∃ m m', memory.reserve bytes context = .ok m ∧ other.reserve bytes context = .ok m' ∧
      m.Alike m' := by
  obtain ⟨peak, rfl⟩ := h
  simp only [Memory.reserve]
  split
  · exact .inl ⟨_, rfl, rfl⟩
  · exact .inr ⟨_, _, rfl, rfl, _, rfl⟩

/-- Booking does the same to accounts alike: it goes through on both or is refused at the same
event, for the same excess. -/
theorem Alike.settle {memory other : Memory} (h : memory.Alike other)
    (events : List (MemoryEvent × σ)) :
    (memory.settle events).1.Alike (other.settle events).1 ∧
      (other.settle events).2 = (memory.settle events).2 := by
  induction events generalizing memory other with
  | nil => exact ⟨h, rfl⟩
  | cons entry events ih =>
      obtain ⟨event, s⟩ := entry
      cases event with
      | release bytes => exact ih (h.release bytes)
      | reserve bytes context =>
          rw [Memory.settle, Memory.settle]
          obtain ⟨excess, hm, hm'⟩ | ⟨m, m', hm, hm', hnext⟩ := h.reserve bytes context
          · rw [hm, hm']
            exact ⟨h, rfl⟩
          · rw [hm, hm']
            exact ih hnext

end Memory

/-- A computation does the same to accounts alike, with one state and one result. -/
theorem Metered.run_of_alike {memory other m : Memory} {x : Metered σ α} {s : σ}
    {result : Except QueryError α} (h : memory.Alike other)
    (hrun : x.run memory = (m, s, result)) :
    ∃ m', m.Alike m' ∧ x.run other = (m', s, result) := by
  obtain ⟨halike, hexcess⟩ := h.settle x.events
  unfold run at hrun ⊢
  rcases hs : memory.settle x.events with ⟨m₁, excess⟩
  rcases hs' : other.settle x.events with ⟨m₂, excess'⟩
  rw [hs, hs'] at halike hexcess
  obtain rfl : excess' = excess := hexcess
  rw [hs] at hrun
  rcases excess' with _ | ⟨excess, s'⟩
  · simp only [Prod.mk.injEq] at hrun
    obtain ⟨rfl, rfl, rfl⟩ := hrun
    exact ⟨m₂, halike, rfl⟩
  · simp only [Prod.mk.injEq] at hrun
    obtain ⟨rfl, rfl, rfl⟩ := hrun
    exact ⟨m₂, halike, rfl⟩

/-! ### Batches in the making -/

/-- Whether a time can stand for the one that an execution has taken: it is the same one, or the
same word if there is no time limit. -/
structure Execution.TimeAlike (execution : Execution) (elapsedMs : Nat) : Prop where
  /-- It is the same word. -/
  mod_eq : elapsedMs % UInt64.size = execution.elapsedMs % UInt64.size
  /-- It is the same time if there is a time limit. -/
  eq_or : elapsedMs = execution.elapsedMs ∨ execution.options.timeoutMs = none

/-- Whether an execution is another one up to the peak of its account and the time taken. -/
def Execution.Alike (execution other : Execution) : Prop :=
  ∃ memory elapsedMs, execution.memory.Alike memory ∧ execution.TimeAlike elapsedMs ∧
    other = { execution with memory := memory, elapsedMs := elapsedMs }

/-- An execution's own time can stand for itself. -/
theorem Execution.TimeAlike.refl (execution : Execution) :
    execution.TimeAlike execution.elapsedMs :=
  ⟨rfl, .inl rfl⟩

/-- An execution is like itself. -/
theorem Execution.Alike.refl (execution : Execution) : execution.Alike execution :=
  ⟨execution.memory, execution.elapsedMs, .refl _, .refl _, rfl⟩

namespace BatchRun

/-- Whether a batch is one of an execution alike. -/
def Alike (run other : BatchRun σ) : Prop :=
  ∃ execution, run.execution.Alike execution ∧ other = { run with execution := execution }

/-- Executions alike begin batches alike. -/
theorem alike_start {execution other : Execution} (h : execution.Alike other) (shards : σ) :
    (BatchRun.start execution shards).Alike (.start other shards) :=
  ⟨other, h, rfl⟩

/-- Batches alike stay so when they are moved to one pipeline and to accounts alike. -/
theorem Alike.moved {run other : BatchRun σ} (h : run.Alike other) {m m' : Memory}
    (hm : m.Alike m') (p : Pipeline) : (run.moved m p).Alike (other.moved m' p) := by
  obtain ⟨_, ⟨_, elapsedMs, -, htime, rfl⟩, rfl⟩ := h
  exact ⟨_, ⟨m', elapsedMs, hm, ⟨htime.mod_eq, htime.eq_or⟩, rfl⟩, rfl⟩

/-- Booked ticks of batches alike have one pipeline and one result, and their accounts are alike. -/
theorem Alike.booked {run other : BatchRun σ} (h : run.Alike other) {m : Memory} {p : Pipeline}
    {result : Except QueryError Signal} (hb : run.booked = (m, p, result)) :
    ∃ m', m.Alike m' ∧ other.booked = (m', p, result) := by
  obtain ⟨_, ⟨_, _, hmemory, -, rfl⟩, rfl⟩ := h
  exact Metered.run_of_alike hmemory hb

/-- Installing the answers of one round does the same to batches alike. -/
theorem Alike.installed {run other : BatchRun σ} (h : run.Alike other)
    {reader : ShardReader σ} {wanted : List Nat} {m : Memory} {p : Pipeline}
    {result : Except QueryError Unit} (hi : run.installed reader wanted = (m, p, result)) :
    ∃ m', m.Alike m' ∧ other.installed reader wanted = (m', p, result) := by
  obtain ⟨_, ⟨_, _, hmemory, -, rfl⟩, rfl⟩ := h
  exact Metered.run_of_alike hmemory hi

/-- Batches alike send the same requests, get the same answers and stay alike. -/
theorem Alike.answered {run other : BatchRun σ} (h : run.Alike other) (reader : ShardReader σ)
    (wanted : List Nat) : (run.answered reader wanted).Alike (other.answered reader wanted) := by
  obtain ⟨_, ⟨_, _, hmemory, htime, rfl⟩, rfl⟩ := h
  exact ⟨_, ⟨_, _, hmemory, ⟨htime.mod_eq, htime.eq_or⟩, rfl⟩, rfl⟩

/-- Batches alike have the same time left. Where the times differ there is no limit, and so nothing
to be left. -/
theorem Alike.remainingMs_eq {run other : BatchRun σ} (h : run.Alike other)
    (reader : ShardReader σ) : other.remainingMs reader = run.remainingMs reader := by
  obtain ⟨_, ⟨_, _, -, htime, rfl⟩, rfl⟩ := h
  rw [remainingMs, remainingMs]
  rcases htime.eq_or with rfl | hnone
  · rfl
  · rw [hnone]
    rfl

/-- One step does the same to batches alike, in each of the ways in which it may go. -/
theorem moves_of_alike {reader : ShardReader σ} {run other next : BatchRun σ}
    {reason : Option BatchEnd} (h : run.Alike other) (hmove : Moves reader run next reason) :
    ∃ next', next.Alike next' ∧ Moves reader other next' reason := by
  -- The moves ask an account for nothing but what booking says and the time for nothing but what
  -- is left, and the rest of both batches is one and the same.
  have hsame := h
  have htime := h.remainingMs_eq reader
  have hleft (h : run.remainingMs reader ≠ some 0) : other.remainingMs reader ≠ some 0 := htime ▸ h
  have hisLate : other.isLate reader = run.isLate reader := by rw [isLate, isLate, htime]
  obtain ⟨_, ⟨_, _, -, hsameTime, rfl⟩, rfl⟩ := hsame
  have hthen {m : Memory} {p : Pipeline} :
      Execution.TimeAlike (run.moved m p).execution _ := ⟨hsameTime.mod_eq, hsameTime.eq_or⟩
  cases hmove with
  | full hfull => exact ⟨_, h, .full hfull⟩
  | broken hfull hb =>
      obtain ⟨m', hm, hb'⟩ := h.booked hb
      exact ⟨_, h.moved hm _, .broken hfull hb'⟩
  | row hfull hb =>
      obtain ⟨m', hm, hb'⟩ := h.booked hb
      exact ⟨_, ⟨_, ⟨m', _, hm, hthen, rfl⟩, rfl⟩, .row hfull hb'⟩
  | exhausted hfull hb =>
      obtain ⟨m', hm, hb'⟩ := h.booked hb
      exact ⟨_, h.moved hm _, .exhausted hfull hb'⟩
  | again hfull hb =>
      obtain ⟨m', hm, hb'⟩ := h.booked hb
      exact ⟨_, h.moved hm _, .again hfull hb'⟩
  | noRound hfull hb hround =>
      obtain ⟨m', hm, hb'⟩ := h.booked hb
      exact ⟨_, h.moved hm _, .noRound hfull hb' hround⟩
  | idle hfull hb hround hrequests =>
      obtain ⟨m', hm, hb'⟩ := h.booked hb
      exact ⟨_, ⟨_, ⟨m', _, hm, hthen, rfl⟩, rfl⟩, .idle hfull hb' hround hrequests⟩
  | noTime hfull hb hround hrequests hnone =>
      obtain ⟨m', hm, hb'⟩ := h.booked hb
      exact ⟨_, ⟨_, ⟨m', _, hm, hthen, rfl⟩, rfl⟩,
        .noTime hfull hb' hround hrequests (htime.trans hnone)⟩
  | late hfull hb hround hrequests hsome hlate =>
      obtain ⟨m', hm, hb'⟩ := h.booked hb
      exact ⟨_, ⟨_, ⟨m', _, hm, hthen, rfl⟩, rfl⟩,
        .late hfull hb' hround hrequests (hleft hsome) (hisLate.trans hlate)⟩
  | refused hfull hb hround hrequests hsome hlate hi =>
      obtain ⟨m', hm, hb'⟩ := h.booked hb
      obtain ⟨m'', hm', hi'⟩ := (h.moved hm _).installed hi
      exact ⟨_, ((h.moved hm _).answered reader _).moved hm' _,
        .refused hfull hb' hround hrequests (hleft hsome) (hisLate.trans hlate) hi'⟩
  | round hfull hb hround hrequests hsome hlate hi =>
      obtain ⟨m', hm, hb'⟩ := h.booked hb
      obtain ⟨m'', hm', hi'⟩ := (h.moved hm _).installed hi
      exact ⟨_, ((h.moved hm _).answered reader _).moved hm' _,
        .round hfull hb' hround hrequests (hleft hsome) (hisLate.trans hlate) hi'⟩

/-- The same, said of the step as a function: one end, or none, and batches alike. -/
theorem step_of_alike {reader : ShardReader σ} {run other next : BatchRun σ}
    {reason : Option BatchEnd} (h : run.Alike other) (hstep : run.step reader = (next, reason)) :
    ∃ next', next.Alike next' ∧ other.step reader = (next', reason) := by
  obtain ⟨next', hnext, hmove⟩ := moves_of_alike h (moves_of_step hstep)
  exact ⟨next', hnext, step_of_moves hmove⟩

/-- The steps of batches alike end in batches alike, for the same reason or not at all. -/
theorem steps_alike (reader : ShardReader σ) (budget : Nat) {run other : BatchRun σ}
    (h : run.Alike other) :
    Option.Rel (fun ended ended' => ended.1.Alike ended'.1 ∧ ended'.2 = ended.2)
      (run.steps reader budget) (other.steps reader budget) := by
  induction budget generalizing run other with
  | zero => exact .none
  | succ budget ih =>
      rw [steps, steps]
      rcases hs : run.step reader with ⟨next, _ | reason⟩
      · obtain ⟨next', hnext, hs'⟩ := step_of_alike h hs
        rw [hs']
        exact ih hnext
      · obtain ⟨next', hnext, hs'⟩ := step_of_alike h hs
        rw [hs']
        exact .some ⟨hnext, rfl⟩

end BatchRun

/-! ### Batches -/

/-- Whether what becomes of a batch is the same as of another one, up to executions alike. -/
structure BatchOutcome.Alike (outcome other : BatchOutcome σ) : Prop where
  /-- The batch is the same, or the failure. -/
  result_eq : other.result = outcome.result
  /-- The requests are the same. -/
  requests_eq : other.requests = outcome.requests
  /-- The shards are left in the same state. -/
  shards_eq : other.shards = outcome.shards
  /-- The executions are alike. -/
  execution : outcome.execution.Alike other.execution

namespace Execution

/-- Executions alike come to their ends alike. -/
theorem Alike.finish {execution other : Execution} (h : execution.Alike other) :
    execution.finish.Alike other.finish := by
  obtain ⟨memory, elapsedMs, hmemory, htime, rfl⟩ := h
  rcases hrun : execution.pipeline.close.run execution.memory with ⟨m, p, result⟩
  obtain ⟨m', hm, hrun'⟩ := Metered.run_of_alike hmemory hrun
  refine ⟨m', elapsedMs, ?_, ⟨htime.mod_eq, htime.eq_or⟩, ?_⟩
  · rw [Execution.finish, hrun]
    exact hm
  · rw [Execution.finish, Execution.finish, hrun, hrun']

/-- Executions alike are broken off alike. -/
theorem Alike.abort {execution other : Execution} (h : execution.Alike other) :
    execution.abort.Alike other.abort := by
  obtain ⟨memory, elapsedMs, hmemory, htime, heq⟩ := h.finish
  rw [Execution.abort, Execution.abort, heq]
  exact ⟨_, elapsedMs, hmemory.releaseAll, ⟨htime.mod_eq, htime.eq_or⟩, rfl⟩

/-- Executions alike have the same token, since a token has neither the peak nor the time beyond a
word. -/
theorem Alike.token?_eq {execution other : Execution} (h : execution.Alike other) :
    other.token? = execution.token? := by
  obtain ⟨memory, elapsedMs, -, htime, rfl⟩ := h
  rw [token?, token?, body, body, htime.mod_eq]

/-- What becomes of batches alike is alike, for every way of ending. -/
theorem conclude_alike (reader : ShardReader σ) {run other : BatchRun σ} (h : run.Alike other)
    (reason : BatchEnd) : (conclude reader run reason).Alike (conclude reader other reason) := by
  obtain ⟨_, ⟨memory, elapsedMs, hmemory, htime, rfl⟩, rfl⟩ := h
  have hlater (spent : Nat) :
      Execution.Alike { run.execution with elapsedMs := run.execution.elapsedMs + spent }
        { run.execution with memory := memory, elapsedMs := elapsedMs + spent } := by
    refine ⟨memory, _, hmemory, ⟨?_, htime.eq_or.imp_left (congrArg (· + spent))⟩, rfl⟩
    simp only [Nat.add_mod _ spent, htime.mod_eq]
  cases reason with
  | full =>
      refine ⟨?_, rfl, rfl, hlater _⟩
      have htoken := (hlater (run.rounds * reader.latencyMs)).token?_eq
      simp only [conclude]
      rw [htoken]
  | exhausted => exact ⟨rfl, rfl, rfl, (hlater _).finish⟩
  | failed error => exact ⟨rfl, rfl, rfl, (hlater _).abort⟩

/-- **Executions alike make the same batches**, and are left alike. -/
theorem nextBatch_alike (reader : ShardReader σ) (budget : Nat) {execution other : Execution}
    (h : execution.Alike other) (shards : σ) :
    Option.Rel BatchOutcome.Alike (execution.nextBatch reader budget shards)
      (other.nextBatch reader budget shards) := by
  have hfinished : other.finished = execution.finished := by
    obtain ⟨_, _, -, -, rfl⟩ := h
    rfl
  rw [nextBatch, nextBatch, hfinished]
  split
  · exact .some ⟨rfl, rfl, rfl, h⟩
  · have hsteps := BatchRun.steps_alike reader budget (BatchRun.alike_start h shards)
    simp only [BatchRun.start] at hsteps
    generalize BatchRun.steps reader budget _ = ended,
      BatchRun.steps reader budget ⟨other, _, _, _, _, _⟩ = ended' at hsteps ⊢
    cases hsteps with
    | none => exact .none
    | some hended =>
        obtain ⟨hrun, hreason⟩ := hended
        simp only [hreason]
        exact .some (conclude_alike reader hrun _)

end Execution

end ShardQuery
