import ShardQuery.Proofs.Options
import ShardQuery.Proofs.Termination.Runs

/-!
# Bounds of Batches

A batch is bounded by the number of its rows, by their size and by the rounds of its requests, each
bound being optional. The bounds on rows are looked at before every tick, the bound on rounds only
when a tick wants shards to be asked. All of them are kept, and a batch that ends without the rows
being at their end has reached one of them.

Main definitions:

* `BatchRun.Proceeds` — the states of a batch that goes on, with the requests round by round;
* `BatchRun.KeepsBounds` — a batch in the making within the bounds of its options;
* `BatchRun.ReachesBound` — a batch may not go on because of a bound;
* `Execution.Becomes` — an execution after some batches;
* `Execution.EndsBatch` — why a batch ends that is made well.

## Main results

* `BatchRun.KeepsBounds.quiet`, `BatchRun.KeepsBounds.round`: a step that goes on keeps the bounds.
* `BatchRun.KeepsBounds.reachesBound`: a batch is full only if it has reached a bound.
* `Execution.exists_rounds_of_nextBatch`: batches are within their bounds, and end for a reason.
-/

namespace ShardQuery

variable {σ : Type}

namespace BatchRun

/-! ### Rounds -/

/-- The states that a batch goes through from a first one on, with the requests that have been sent
since, round by round. -/
inductive Proceeds (reader : ShardReader σ) (first : BatchRun σ) :
    List (List ShardRequest) → BatchRun σ → Prop
  /-- The first state. -/
  | start : Proceeds reader first [] first
  /-- A step that sends nothing. -/
  | quiet {rounds : List (List ShardRequest)} {run next : BatchRun σ} :
      Proceeds reader first rounds run → run.step reader = (next, none) →
      next.sent = run.sent → Proceeds reader first rounds next
  /-- A step that sends requests. -/
  | round {rounds : List (List ShardRequest)} {requests : List ShardRequest}
      {run next : BatchRun σ} :
      Proceeds reader first rounds run → run.step reader = (next, none) → requests ≠ [] →
      next.sent = requests.reverse ++ run.sent → Proceeds reader first (rounds ++ [requests]) next

variable {reader : ShardReader σ} {first run next last : BatchRun σ}
  {rounds : List (List ShardRequest)} {budget : Nat} {reason : BatchEnd}

/-- A step that goes on belongs to the rounds so far, or adds one. -/
theorem Proceeds.moves (h : Proceeds reader first rounds run) (hmove : Moves reader run next none) :
    ∃ rounds', Proceeds reader first rounds' next := by
  have hstep := step_of_moves hmove
  cases hmove with
  | row | again => exact ⟨rounds, h.quiet hstep rfl⟩
  | @round m m' p p' wanted _ _ _ hrequests =>
      have hne : (run.moved m p).wantedRequests wanted ≠ [] := mt List.map_eq_nil_iff.1 hrequests
      exact ⟨_, h.round hstep hne rfl⟩

/-- The options stay throughout a batch, so the bounds are those of its beginning. -/
theorem Proceeds.options_eq (h : Proceeds reader first rounds run) :
    run.execution.options = first.execution.options := by
  induction h with
  | start => rfl
  | quiet _ hstep _ ih | round _ hstep _ _ ih =>
      exact (Execution.advances_of_step hstep nofun).options_eq.trans ih

/-! ### Kept bounds -/

/-- Whether a batch has counted what it has done, and has kept within the bounds of its options. -/
structure KeepsBounds (rounds : List (List ShardRequest)) (run : BatchRun σ) : Prop where
  /-- The size is that of the rows. -/
  bytes_eq : run.bytes = Row.totalSize run.rows
  /-- The rounds are counted. -/
  rounds_eq : run.rounds = rounds.length
  /-- The requests are those of the rounds. -/
  sent_eq : run.sent.reverse = rounds.flatten
  /-- There are not too many rows. -/
  rows_le : ∀ most, run.execution.options.limit = some most → run.rows.length ≤ most
  /-- The rows before the latest had room for another one. -/
  size_lt : ∀ most, run.execution.options.maxBatchBytes = some most →
    Row.totalSize run.rows.tail < most
  /-- There are not too many rounds. -/
  rounds_le : ∀ most, run.execution.options.maxRoundTrips = some most → rounds.length ≤ most

/-- A batch that has not begun has kept its bounds, if there is a size that it may have. -/
theorem keepsBounds_start {execution : Execution} {shards : σ}
    (h : execution.options.maxBatchBytes ≠ some 0) :
    (BatchRun.start execution shards).KeepsBounds [] where
  bytes_eq := rfl
  rounds_eq := rfl
  sent_eq := rfl
  rows_le _ _ := Nat.zero_le _
  size_lt _ hmost := Nat.pos_of_ne_zero fun hzero => h (hzero ▸ hmost)
  rounds_le _ _ := Nat.zero_le _

/-- There is room for another row as long as the batch is not full, under both bounds that rows
have. -/
theorem hasRoom_of_not_full (h : run.isFull = false) :
    (∀ most, run.execution.options.limit = some most → run.rows.length < most) ∧
      ∀ most, run.execution.options.maxBatchBytes = some most → run.bytes < most := by
  rw [isFull, Bool.or_eq_false_iff] at h
  obtain ⟨hrows, hbytes⟩ := h
  refine ⟨fun most hmost => ?_, fun most hmost => ?_⟩
  · rw [hmost, Option.any_some, decide_eq_false_iff_not] at hrows
    exact Nat.lt_of_not_le hrows
  · rw [hmost, Option.any_some, decide_eq_false_iff_not] at hbytes
    exact Nat.lt_of_not_le hbytes

/-- There is room for another round where the step has found so. -/
theorem rounds_lt_of_hasRound (h : run.hasRound = true) {most : Nat}
    (hmost : run.execution.options.maxRoundTrips = some most) : run.rounds < most := by
  rw [hasRound, hmost, Option.any_some, Bool.not_eq_true', decide_eq_false_iff_not] at h
  exact Nat.lt_of_not_le h

/-- A step that sends nothing keeps the bounds: it adds a row only where there is room for it, or
nothing. -/
theorem KeepsBounds.quiet (h : run.KeepsBounds rounds) (hmove : Moves reader run next none)
    (hsent : next.sent = run.sent) : next.KeepsBounds rounds := by
  cases hmove with
  | @row m p r hfull =>
      obtain ⟨hrows, hbytes⟩ := hasRoom_of_not_full hfull
      refine ⟨?_, h.rounds_eq, h.sent_eq, hrows, fun most hmost => ?_, h.rounds_le⟩
      · change run.bytes + r.sizeEstimate = Row.totalSize (r :: run.rows)
        rw [h.bytes_eq, Row.totalSize, Row.totalSize, total_cons, Nat.add_comm]
      · have hlt := hbytes most hmost
        rwa [h.bytes_eq] at hlt
  | again =>
      exact ⟨h.bytes_eq, h.rounds_eq, h.sent_eq, h.rows_le, h.size_lt, h.rounds_le⟩
  | @round m m' p p' wanted _ _ _ hrequests =>
      have hnil := List.append_left_eq_self.1 hsent
      rw [List.reverse_eq_nil_iff, wantedRequests, List.map_eq_nil_iff] at hnil
      exact absurd hnil hrequests

/-- A step that sends requests is a round, and keeps the bounds. -/
theorem KeepsBounds.round {requests : List ShardRequest} (h : run.KeepsBounds rounds)
    (hmove : Moves reader run next none) (hne : requests ≠ [])
    (hsent : next.sent = requests.reverse ++ run.sent) :
    next.KeepsBounds (rounds ++ [requests]) := by
  cases hmove with
  | row | again =>
      have hnil := List.append_left_eq_self.1 hsent.symm
      exact absurd (List.reverse_eq_nil_iff.1 hnil) hne
  | @round m m' p p' wanted _ _ hround =>
      refine ⟨h.bytes_eq, ?_, ?_, h.rows_le, h.size_lt, fun most hmost => ?_⟩
      · rw [List.length_append, List.length_singleton, ← h.rounds_eq]
        rfl
      · rw [hsent, List.reverse_append, List.reverse_reverse, h.sent_eq, List.flatten_append,
          List.flatten_singleton]
      · have hlt := rounds_lt_of_hasRound hround hmost
        rw [h.rounds_eq] at hlt
        rwa [List.length_append, List.length_singleton]

/-- **All states of a batch keep the bounds**, by induction over its steps. -/
theorem Proceeds.keepsBounds (h : Proceeds reader first rounds run)
    (hfirst : first.KeepsBounds []) : run.KeepsBounds rounds := by
  induction h with
  | start => exact hfirst
  | quiet _ hstep hsent ih => exact ih.quiet (moves_of_step hstep) hsent
  | round _ hstep hne hsent ih => exact ih.round (moves_of_step hstep) hne hsent

/-! ### Reached bounds -/

/-- Whether a batch may not go on because of a bound. -/
inductive ReachesBound (run : BatchRun σ) : Prop
  /-- There are as many rows as there may be. -/
  | rows : run.execution.options.limit = some run.rows.length → ReachesBound run
  /-- The rows have the size at which a batch ends. -/
  | size {most : Nat} : run.execution.options.maxBatchBytes = some most →
      most ≤ Row.totalSize run.rows → ReachesBound run
  /-- There are as many rounds as there may be, and shards must be asked. -/
  | rounds {m : Memory} {p : Pipeline} {wanted : List Nat} :
      run.execution.options.maxRoundTrips = some run.rounds →
      run.booked = (m, p, .ok (.fetch wanted)) → ReachesBound run

/-- **A batch is full only if it has reached a bound.** -/
theorem KeepsBounds.reachesBound (h : run.KeepsBounds rounds)
    (hmove : Moves reader run last (some .full)) : run.ReachesBound := by
  cases hmove with
  | full hfull =>
      simp only [isFull, Bool.or_eq_true, Option.any_eq_true, decide_eq_true_eq] at hfull
      obtain ⟨most, hmost, hle⟩ | ⟨most, hmost, hle⟩ := hfull
      · exact .rows (hmost.trans (congrArg some (hle.antisymm (h.rows_le most hmost))))
      · exact .size hmost (h.bytes_eq ▸ hle)
  | noRound _ hb hround =>
      simp only [hasRound, Bool.not_eq_false', Option.any_eq_true, decide_eq_true_eq] at hround
      obtain ⟨most, hmost, hle⟩ := hround
      have hrounds : run.rounds ≤ most := h.rounds_eq ▸ h.rounds_le most hmost
      exact .rounds (hmost.trans (congrArg some (hle.antisymm hrounds))) hb

/-- The step that ends a batch well sends nothing and adds no row. -/
theorem kept_of_last (hmove : Moves reader run last (some reason))
    (hreason : ∀ error, reason ≠ .failed error) :
    last.rows = run.rows ∧ last.sent = run.sent := by
  cases hmove with
  | full | noRound | exhausted => exact ⟨rfl, rfl⟩
  | broken | idle | noTime | late | refused => exact absurd rfl (hreason _)

end BatchRun

/-! ### Batches -/

/-- Whether what a batch has is within bounds: its rows, their size, and the rounds of its
requests. -/
structure BatchOutcome.IsWithin (outcome : BatchOutcome σ) (batch : Batch)
    (options : ResolvedOptions) (rounds : List (List ShardRequest)) : Prop where
  /-- The requests are those of the rounds. -/
  requests_eq : outcome.requests = rounds.flatten
  /-- There are not too many rows. -/
  rows_le : ∀ most, options.limit = some most → batch.rows.length ≤ most
  /-- The rows before the last had room for another one. -/
  size_lt : ∀ most, options.maxBatchBytes = some most → Row.totalSize batch.rows.dropLast < most
  /-- There are not too many rounds. -/
  rounds_le : ∀ most, options.maxRoundTrips = some most → rounds.length ≤ most

/-- What a batch in the making has is within its bounds. -/
theorem BatchRun.KeepsBounds.isWithin {run : BatchRun σ} {rounds : List (List ShardRequest)}
    (h : run.KeepsBounds rounds) {outcome : BatchOutcome σ} {batch : Batch}
    (hrequests : outcome.requests = run.sent.reverse) (hrows : batch.rows = run.rows.reverse) :
    outcome.IsWithin batch run.execution.options rounds where
  requests_eq := hrequests.trans h.sent_eq
  rows_le most hmost := by
    rw [hrows, List.length_reverse]
    exact h.rows_le most hmost
  size_lt most hmost := by
    rw [hrows, List.dropLast_reverse, Row.totalSize, total_perm _ (List.reverse_perm run.rows.tail)]
    exact h.size_lt most hmost
  rounds_le := h.rounds_le

namespace Execution

variable {reader : ShardReader σ} {budget : Nat} {first execution : Execution} {shards : σ}
  {outcome : BatchOutcome σ}

/-- The executions that one becomes batch by batch, whatever shards the batches are read from. -/
inductive Becomes (first : Execution) : Execution → Prop
  /-- No batch. -/
  | refl : Becomes first first
  /-- One more batch. -/
  | batch {σ : Type} {reader : ShardReader σ} {budget : Nat} {shards : σ} {execution : Execution}
      {outcome : BatchOutcome σ} :
      Becomes first execution → execution.nextBatch reader budget shards = some outcome →
      Becomes first outcome.execution

/-- Whether an execution is what its last batch has left, one that has come to the end of the rows
or has failed. -/
def IsLeftBehind (first execution : Execution) : Prop :=
  ∃ (σ : Type) (reader : ShardReader σ) (budget : Nat) (shards : σ) (before : Execution)
    (outcome : BatchOutcome σ), first.Becomes before ∧ before.finished = false ∧
    before.nextBatch reader budget shards = some outcome ∧ outcome.execution = execution ∧
    ((∃ error, outcome.result = .error error) ∨ ∃ rows, outcome.result = .ok ⟨rows, none⟩)

/-- What has been decided at the start stays, also if a batch fails. -/
theorem options_conclude (reader : ShardReader σ) (run : BatchRun σ) (reason : BatchEnd) :
    (conclude reader run reason).execution.options = run.execution.options := by
  cases reason <;> rfl

/-- No step changes the options, not even a failing one. -/
theorem options_of_moves {run next : BatchRun σ} {reason : Option BatchEnd}
    (h : BatchRun.Moves reader run next reason) :
    next.execution.options = run.execution.options := by
  cases h <;> rfl

/-- A batch leaves the options of its execution as they are. -/
theorem options_of_nextBatch (h : execution.nextBatch reader budget shards = some outcome) :
    outcome.execution.options = execution.options := by
  obtain ⟨-, rfl⟩ | ⟨-, last, reason, hsteps, rfl⟩ := ended_of_nextBatch h
  · rfl
  · obtain ⟨before, hbefore, hlast⟩ :=
      BatchRun.last_move_of_steps (P := fun run => run.execution.options = execution.options)
        (fun _ _ hbefore hmove => (options_of_moves hmove).trans hbefore) rfl hsteps
    rw [options_conclude, options_of_moves hlast, hbefore]

/-- The options stay in all that becomes of an execution. -/
theorem Becomes.options_eq (h : first.Becomes execution) : execution.options = first.options := by
  induction h with
  | refl => rfl
  | batch _ hbatch ih => exact (options_of_nextBatch hbatch).trans ih

/-- **A finished execution has been left behind** by a batch without a token or by a failure. -/
theorem Becomes.isLeftBehind (h : first.Becomes execution) (hfirst : first.finished = false)
    (hfinished : execution.finished = true) : first.IsLeftBehind execution := by
  induction h with
  | refl => cases hfirst.symm.trans hfinished
  | @batch τ reader budget shards execution outcome hbecomes hbatch ih =>
      obtain ⟨hopen, rfl⟩ | ⟨hopen, last, reason, hsteps, rfl⟩ := ended_of_nextBatch hbatch
      · exact ih hopen
      · refine ⟨τ, reader, budget, shards, execution, _, hbecomes, hopen, hbatch, rfl, ?_⟩
        cases reason with
        | failed error => exact .inl ⟨error, rfl⟩
        | exhausted => exact .inr ⟨_, rfl⟩
        | full => cases (open_of_full hopen hsteps).symm.trans hfinished

/-- Why a batch that is made well ends, from the first execution of a query on. -/
inductive EndsBatch (reader : ShardReader σ) (first execution : Execution) (shards : σ)
    (rounds : List (List ShardRequest)) (batch : Batch) (after : Execution) : Prop
  /-- A bound has been reached. The batch has a token, and the execution stays open. -/
  | bounded {run : BatchRun σ} : execution.finished = false →
      BatchRun.Proceeds reader (.start execution shards) rounds run →
      batch.rows = run.rows.reverse → run.ReachesBound → batch.token ≠ none →
      after.finished = false → EndsBatch reader first execution shards rounds batch after
  /-- The rows are at their end. The batch has no token, and the execution is finished. -/
  | exhausted {run : BatchRun σ} {m : Memory} {p : Pipeline} : execution.finished = false →
      BatchRun.Proceeds reader (.start execution shards) rounds run →
      batch.rows = run.rows.reverse → run.booked = (m, p, .ok .exhausted) → batch.token = none →
      after.finished = true → EndsBatch reader first execution shards rounds batch after
  /-- The execution was finished before, and the batch is empty. -/
  | finished : execution.finished = true → first.IsLeftBehind execution → rounds = [] →
      batch = ⟨[], none⟩ → after = execution →
      EndsBatch reader first execution shards rounds batch after

/-- **Batches are within their bounds, and end for a reason.** Whatever an accepted query has come
to, and whatever shards its next batch is read from: a batch that is made well is within all bounds
of the resolved options, with the requests of so many rounds, and has a token only if one of the
bounds has been reached. -/
theorem exists_rounds_of_nextBatch {engine : Engine} {query : Query} {fresh : Uuid} {batch : Batch}
    (hstart : start engine query fresh = .ok first) (hbecomes : first.Becomes execution)
    (h : execution.nextBatch reader budget shards = some outcome)
    (hresult : outcome.result = .ok batch) :
    query.options.resolve engine.config = .ok execution.options ∧
      ∃ rounds, outcome.IsWithin batch execution.options rounds ∧
        EndsBatch reader first execution shards rounds batch outcome.execution := by
  obtain ⟨steps, point, hstarted⟩ := start_eq_ok_iff.1 hstart
  have hoptions : query.options.resolve engine.config = .ok execution.options :=
    hbecomes.options_eq ▸ hstarted.options
  have hbytes : execution.options.maxBatchBytes ≠ some 0 := by
    obtain ⟨hasked, -, hresolved⟩ := QueryOptions.resolve_eq_ok_iff.1 hoptions
    rw [hresolved]
    exact hasked.maxBatchBytes
  have hnone : (BatchRun.start execution shards).KeepsBounds [] := BatchRun.keepsBounds_start hbytes
  refine ⟨hoptions, ?_⟩
  obtain ⟨hfinished, rfl⟩ | ⟨hopen, last, reason, hsteps, rfl⟩ := ended_of_nextBatch h
  · cases hresult
    exact ⟨[], ⟨rfl, hnone.rows_le, hnone.size_lt, hnone.rounds_le⟩,
      .finished hfinished (hbecomes.isLeftBehind hstarted.finished_eq hfinished) rfl rfl rfl⟩
  obtain ⟨run, ⟨rounds, hproceeds⟩, hlast⟩ :=
    BatchRun.last_move_of_steps
      (P := fun run => ∃ rounds, BatchRun.Proceeds reader (.start execution shards) rounds run)
      (fun _ _ ⟨_, hrun⟩ hmove => hrun.moves hmove) ⟨[], .start⟩ hsteps
  have hkeeps := hproceeds.keepsBounds hnone
  have hsame : run.execution.options = execution.options := hproceeds.options_eq
  rw [← hsame]
  have hwell : ∀ error, reason ≠ .failed error := by
    rintro error rfl
    cases hresult
  obtain ⟨hlastRows, hsent⟩ := BatchRun.kept_of_last hlast hwell
  have hrows : batch.rows = run.rows.reverse := by
    rw [← hlastRows]
    cases reason <;> cases hresult <;> rfl
  have hrequests : (conclude reader last reason).requests = run.sent.reverse :=
    congrArg List.reverse hsent
  refine ⟨rounds, hkeeps.isWithin hrequests hrows, ?_⟩
  cases reason with
  | failed error => exact absurd rfl (hwell error)
  | exhausted =>
      cases hresult
      cases hlast with
      | exhausted _ hb => exact .exhausted hopen hproceeds hrows hb rfl rfl
  | full =>
      have hstill := open_of_full hopen hsteps
      have htoken : (conclude reader last .full).execution.token? ≠ none := by
        rw [token?_eq hstill]
        exact Option.some_ne_none _
      cases hresult
      exact .bounded hopen hproceeds hrows (hkeeps.reachesBound hlast) htoken hstill

/-- A query for the rows of one shard, a round of requests a batch. -/
def pageByPage : Query :=
  ⟨⟨Plan.currentVersion, [], ⟨"t", [0], true⟩⟩, .empty,
    { QueryOptions.standard with limit := some 2, maxRoundTrips := some 1 }, none⟩

/-- The execution of `pageByPage` at its start, with both of its bounds. -/
def pageByPageStart : Execution where
  id := ⟨0⟩
  plan := pageByPage.plan
  bindings := .empty
  options := ⟨some 2, none, none, 1024, none, some 1, .eventual, none, 4⟩
  memory := Memory.ofLimitMb 1024
  pipeline := ⟨[], ⟨"t", 0, 1, .inOrder, [.start 0]⟩⟩
  elapsedMs := 0
  finished := false

/-- Of a page of one row and an empty one each batch reads one: the first batch has reached the
bound on rounds, the second one has come to the end of the rows. -/
theorem exists_rounds_of_pageByPage :
    ∃ (outcome outcome' : BatchOutcome Recorded) (batch batch' : Batch)
      (rounds rounds' : List (List ShardRequest)) (run run' : BatchRun Recorded),
      pageByPageStart.nextBatch Recorded.reader 9 twoPages = some outcome ∧
      outcome.result = .ok batch ∧ outcome.IsWithin batch pageByPageStart.options rounds ∧
      batch.rows = run.rows.reverse ∧ batch.token ≠ none ∧ run.ReachesBound ∧
      outcome.execution.nextBatch Recorded.reader 9 outcome.shards = some outcome' ∧
      outcome'.result = .ok batch' ∧ outcome'.IsWithin batch' outcome.execution.options rounds' ∧
      batch'.rows = run'.rows.reverse ∧ batch'.token = none ∧
      ∃ m p, run'.booked = (m, p, .ok .exhausted) := by
  have hstart : start plainEngine pageByPage ⟨0⟩ = .ok pageByPageStart := rfl
  have hfacts : ((pageByPageStart.nextBatch Recorded.reader 9 twoPages).bind fun outcome =>
      (outcome.execution.nextBatch Recorded.reader 9 outcome.shards).bind fun outcome' =>
        outcome.result.toOption.bind fun batch => outcome'.result.toOption.map fun batch' =>
          (batch.token.isSome, batch'.token.isSome, outcome.execution.finished)) =
      some (true, false, false) := by
    decide +kernel
  simp only [Option.bind_eq_some_iff, Option.map_eq_some_iff, Prod.mk.injEq] at hfacts
  obtain ⟨outcome, hbatch, outcome', hbatch', batch, hresult, batch', hresult', htoken, htoken',
    hopen⟩ := hfacts
  have hok {result : Except QueryError Batch} {batch : Batch}
      (h : result.toOption = some batch) : result = .ok batch := by
    cases result <;> cases h
    rfl
  obtain ⟨-, rounds, hwithin, hends⟩ :=
    exists_rounds_of_nextBatch hstart .refl hbatch (hok hresult)
  obtain ⟨-, rounds', hwithin', hends'⟩ :=
    exists_rounds_of_nextBatch hstart (.batch .refl hbatch) hbatch' (hok hresult')
  cases hends with
  | finished hfinished => cases hfinished
  | exhausted _ _ _ _ hnone => simp [hnone] at htoken
  | bounded _ _ hrows hreaches hsome =>
      cases hends' with
      | finished hfinished => cases hopen.symm.trans hfinished
      | bounded _ _ _ _ hsome' => simp [hsome'] at htoken'
      | exhausted _ _ hrows' hexhausted hnone' =>
          exact ⟨outcome, outcome', batch, batch', rounds, rounds', _, _, hbatch, hok hresult,
            hwithin, hrows, hsome, hreaches, hbatch', hok hresult', hwithin', hrows', hnone', _, _,
            hexhausted⟩

end Execution

end ShardQuery
