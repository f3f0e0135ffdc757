import ShardQuery.Execution
import ShardQuery.Proofs.Metered

/-!
# Runs

What an execution goes through while batch after batch is made. `BatchRun.Moves` says once
and for all what one step of a batch can do, so that no other proof has to open
`BatchRun.step`; `Execution.Passes` collects all states of all batches of an execution, and
`Execution.Makes` the batches.

## Main results

* `BatchRun.moves_of_step`, `BatchRun.step_of_moves`: the steps are the moves.
* `BatchRun.last_move_of_steps`: what every step keeps holds until the last one.
* `Execution.passes_of_nextBatch`: what `Execution.nextBatch` gives is the end of a batch all
  of whose states are passed.
* `Execution.nextBatch_unique`: it does not depend on how many steps are allowed.
-/

namespace ShardQuery

variable {σ : Type}

namespace BatchRun

/-- A batch of which nothing has been done yet. -/
def start (execution : Execution) (shards : σ) : BatchRun σ :=
  ⟨execution, shards, [], 0, 0, []⟩

/-- A batch with another account and another pipeline, as it is after something has been booked. -/
def moved (run : BatchRun σ) (memory : Memory) (pipeline : Pipeline) : BatchRun σ :=
  { run with execution := { run.execution with memory := memory, pipeline := pipeline } }

/-- One tick of the pipeline, booked: the account and the pipeline after it, and the signal or the
error. -/
def booked (run : BatchRun σ) : Memory × Pipeline × Except QueryError Signal :=
  (run.execution.pipeline.tick run.execution.bindings).run run.execution.memory

/-- The requests of a round, in the order in which they are sent. -/
def wantedRequests (run : BatchRun σ) (wanted : List Nat) : List ShardRequest :=
  (run.execution.requests wanted).map (·.2)

/-- The answers to the requests of a round, and the shards after them. -/
def answers (reader : ShardReader σ) (run : BatchRun σ) (wanted : List Nat) :
    List (Except RequestError ShardResponse) × σ :=
  reader.answerAll (run.wantedRequests wanted) run.shards

/-- The answers of a round taken in, booked: this is where a round may run out of memory. -/
def installed (reader : ShardReader σ) (run : BatchRun σ) (wanted : List Nat) :
    Memory × Pipeline × Except QueryError Unit :=
  (run.execution.pipeline.receive
    (((run.execution.requests wanted).map (·.1)).zip (run.answers reader wanted).1)).run
    run.execution.memory

/-- A batch after the requests of a round have been answered. -/
def answered (reader : ShardReader σ) (run : BatchRun σ) (wanted : List Nat) : BatchRun σ :=
  { run with
    rounds := run.rounds + 1
    sent := (run.wantedRequests wanted).reverse ++ run.sent
    shards := (run.answers reader wanted).2 }

/-- The error of a query whose time is up. -/
def timeUp (run : BatchRun σ) : QueryError :=
  .timeout (run.execution.options.timeoutMs.getD 0)

/-- Whether one more round of requests may be made. -/
def hasRound (run : BatchRun σ) : Bool :=
  !run.execution.options.maxRoundTrips.any fun most => decide (most ≤ run.rounds)

/-- Whether the time does not suffice for the answers of a round. -/
def isLate (reader : ShardReader σ) (run : BatchRun σ) : Bool :=
  (run.remainingMs reader).any fun left => decide (left < reader.latencyMs)

/-- A batch after a round, and why it ends if it does. -/
def ofRound : BatchRun σ × Option QueryError → BatchRun σ × Option BatchEnd
  | (run, some error) => (run, some (.failed error))
  | (run, none) => (run, none)

/-- What one step of a batch can do: the batch as it is then, and why it ends if it does. -/
inductive Moves (reader : ShardReader σ) (run : BatchRun σ) :
    BatchRun σ → Option BatchEnd → Prop
  /-- There is no room for another row. -/
  | full : run.isFull = true → Moves reader run run (some .full)
  /-- The tick fails. -/
  | broken {m : Memory} {p : Pipeline} {e : QueryError} :
      run.isFull = false → run.booked = (m, p, .error e) →
      Moves reader run (run.moved m p) (some (.failed e))
  /-- The tick gives a row. -/
  | row {m : Memory} {p : Pipeline} {r : Row} :
      run.isFull = false → run.booked = (m, p, .ok (.row r)) →
      Moves reader run
        { run.moved m p with rows := r :: run.rows, bytes := run.bytes + r.sizeEstimate } none
  /-- There are no more rows. -/
  | exhausted {m : Memory} {p : Pipeline} :
      run.isFull = false → run.booked = (m, p, .ok .exhausted) →
      Moves reader run (run.moved m p) (some .exhausted)
  /-- Nothing is to be seen of the tick. -/
  | again {m : Memory} {p : Pipeline} :
      run.isFull = false → run.booked = (m, p, .ok .again) → Moves reader run (run.moved m p) none
  /-- Shards must be asked, but no round is left. -/
  | noRound {m : Memory} {p : Pipeline} {wanted : List Nat} :
      run.isFull = false → run.booked = (m, p, .ok (.fetch wanted)) → run.hasRound = false →
      Moves reader run (run.moved m p) (some .full)
  /-- Shards must be asked, but there is nothing to ask. -/
  | idle {m : Memory} {p : Pipeline} {wanted : List Nat} :
      run.isFull = false → run.booked = (m, p, .ok (.fetch wanted)) → run.hasRound = true →
      (run.moved m p).execution.requests wanted = [] →
      Moves reader run { run.moved m p with rounds := run.rounds + 1 }
        (some (.failed .noRequests))
  /-- Shards must be asked, but the time is up. -/
  | noTime {m : Memory} {p : Pipeline} {wanted : List Nat} :
      run.isFull = false → run.booked = (m, p, .ok (.fetch wanted)) → run.hasRound = true →
      (run.moved m p).execution.requests wanted ≠ [] → run.remainingMs reader = some 0 →
      Moves reader run { run.moved m p with rounds := run.rounds + 1 }
        (some (.failed run.timeUp))
  /-- Shards are asked, but the time runs out before the answers come. -/
  | late {m : Memory} {p : Pipeline} {wanted : List Nat} :
      run.isFull = false → run.booked = (m, p, .ok (.fetch wanted)) → run.hasRound = true →
      (run.moved m p).execution.requests wanted ≠ [] → run.remainingMs reader ≠ some 0 →
      run.isLate reader = true →
      Moves reader run
        { run.moved m p with
          rounds := run.rounds + 1
          sent := ((run.moved m p).wantedRequests wanted).reverse ++ run.sent }
        (some (.failed run.timeUp))
  /-- An answer is an error, or there is no memory for it. -/
  | refused {m m' : Memory} {p p' : Pipeline} {wanted : List Nat} {e : QueryError} :
      run.isFull = false → run.booked = (m, p, .ok (.fetch wanted)) → run.hasRound = true →
      (run.moved m p).execution.requests wanted ≠ [] → run.remainingMs reader ≠ some 0 →
      run.isLate reader = false →
      (run.moved m p).installed reader wanted = (m', p', .error e) →
      Moves reader run (((run.moved m p).answered reader wanted).moved m' p') (some (.failed e))
  /-- The answers are taken in. -/
  | round {m m' : Memory} {p p' : Pipeline} {wanted : List Nat} :
      run.isFull = false → run.booked = (m, p, .ok (.fetch wanted)) → run.hasRound = true →
      (run.moved m p).execution.requests wanted ≠ [] → run.remainingMs reader ≠ some 0 →
      run.isLate reader = false →
      (run.moved m p).installed reader wanted = (m', p', .ok ()) →
      Moves reader run (((run.moved m p).answered reader wanted).moved m' p') none

/-- A round without requests ends the batch with an error, as it would otherwise go on for ever. -/
theorem fetchRound_of_idle {reader : ShardReader σ} {run : BatchRun σ} {wanted : List Nat}
    (h : run.execution.requests wanted = []) :
    run.fetchRound reader wanted = ({ run with rounds := run.rounds + 1 }, some .noRequests) := by
  simp only [fetchRound, h, List.isEmpty_nil, if_true]

/-- A round without time: no request is sent, and the batch ends with the timeout. -/
theorem fetchRound_of_noTime {reader : ShardReader σ} {run : BatchRun σ} {wanted : List Nat}
    (hrequests : run.execution.requests wanted ≠ []) (h : run.remainingMs reader = some 0) :
    run.fetchRound reader wanted = ({ run with rounds := run.rounds + 1 }, some run.timeUp) := by
  simp only [fetchRound, List.isEmpty_iff, if_neg hrequests, if_pos h]
  rfl

/-- A round whose answers come too late. Its requests have been sent, but what they were answered is
not taken in. -/
theorem fetchRound_of_isLate {reader : ShardReader σ} {run : BatchRun σ} {wanted : List Nat}
    (hrequests : run.execution.requests wanted ≠ []) (h : run.remainingMs reader ≠ some 0)
    (hlate : run.isLate reader = true) :
    run.fetchRound reader wanted =
      ({ run with
        rounds := run.rounds + 1
        sent := (run.wantedRequests wanted).reverse ++ run.sent }, some run.timeUp) := by
  rw [isLate] at hlate
  simp only [fetchRound, List.isEmpty_iff, if_neg hrequests, if_neg h, if_pos hlate]
  rfl

/-- A round in time: the answers are taken in. -/
theorem fetchRound_of_inTime {reader : ShardReader σ} {run : BatchRun σ} {wanted : List Nat}
    (hrequests : run.execution.requests wanted ≠ []) (h : run.remainingMs reader ≠ some 0)
    (hlate : run.isLate reader = false) :
    run.fetchRound reader wanted =
      ((run.answered reader wanted).moved (run.installed reader wanted).1
        (run.installed reader wanted).2.1,
        match (run.installed reader wanted).2.2 with
        | .ok _ => none
        | .error error => some error) := by
  have hlate : ¬ (run.remainingMs reader).any
      (fun left => decide (left < reader.latencyMs)) = true := by
    rw [isLate] at hlate
    simp only [hlate, Bool.false_eq_true, not_false_eq_true]
  simp only [fetchRound, List.isEmpty_iff, if_neg hrequests, if_neg h, if_neg hlate, carryOut]
  rcases hi : run.installed reader wanted with ⟨m, p, e | u⟩ <;>
    simp only [installed, answers, wantedRequests] at hi <;> simp only [hi] <;> rfl

/-- What becomes of a round that is still allowed is one of the moves, in the order in which the
reasons against carrying it out are asked for. -/
theorem moves_of_fetchRound {reader : ShardReader σ} {run next : BatchRun σ}
    {reason : Option BatchEnd} {m : Memory} {p : Pipeline} {wanted : List Nat}
    (hfull : run.isFull = false) (hb : run.booked = (m, p, .ok (.fetch wanted)))
    (hround : run.hasRound = true)
    (h : ofRound ((run.moved m p).fetchRound reader wanted) = (next, reason)) :
    Moves reader run next reason := by
  by_cases hrequests : (run.moved m p).execution.requests wanted = []
  · rw [fetchRound_of_idle hrequests] at h
    cases h
    exact .idle hfull hb hround hrequests
  by_cases htime : (run.moved m p).remainingMs reader = some 0
  · rw [fetchRound_of_noTime hrequests htime] at h
    cases h
    exact .noTime hfull hb hround hrequests htime
  cases hlate : (run.moved m p).isLate reader with
  | true =>
      rw [fetchRound_of_isLate hrequests htime hlate] at h
      cases h
      exact .late hfull hb hround hrequests htime hlate
  | false =>
      rw [fetchRound_of_inTime hrequests htime hlate] at h
      rcases hi : (run.moved m p).installed reader wanted with ⟨m', p', e | u⟩ <;>
        rw [hi] at h <;> cases h
      · exact .refused hfull hb hround hrequests htime hlate hi
      · exact .round hfull hb hround hrequests htime hlate hi

/-- Every step is one of the moves, so a property of steps can be proved by cases that name what has
happened. -/
theorem moves_of_step {reader : ShardReader σ} {run next : BatchRun σ}
    {reason : Option BatchEnd} (h : run.step reader = (next, reason)) :
    Moves reader run next reason := by
  unfold step at h
  split at h
  · next hfull =>
      cases h
      exact .full hfull
  · next hfull =>
      have hfull : run.isFull = false := by simpa using hfull
      unfold carryOut at h
      rcases hb : run.booked with ⟨m, p, e | signal⟩ <;> rw [booked] at hb <;>
        simp only [hb] at h
      · cases h
        exact .broken hfull hb
      · cases signal with
        | row r =>
            cases h
            exact .row hfull hb
        | exhausted =>
            cases h
            exact .exhausted hfull hb
        | again =>
            cases h
            exact .again hfull hb
        | fetch wanted =>
            change (if _ then (run.moved m p, some BatchEnd.full) else
              ofRound ((run.moved m p).fetchRound reader wanted)) = _ at h
            split at h
            · next hrounds =>
                cases h
                exact .noRound hfull hb (by simpa [hasRound] using hrounds)
            · next hrounds =>
                exact moves_of_fetchRound hfull hb (by simpa [hasRound] using hrounds) h

/-- Every move is what the step does, so runs can be put together from moves. -/
theorem step_of_moves {reader : ShardReader σ} {run next : BatchRun σ}
    {reason : Option BatchEnd} (h : Moves reader run next reason) :
    run.step reader = (next, reason) := by
  have hround : ∀ {m p wanted}, run.isFull = false → run.booked = (m, p, .ok (.fetch wanted)) →
      run.hasRound = true →
      run.step reader = ofRound ((run.moved m p).fetchRound reader wanted) := by
    intro m p wanted hfull hb hround
    rw [booked] at hb
    rw [hasRound, Bool.not_eq_true'] at hround
    simp only [step, hfull, carryOut, hb]
    exact if_neg (Bool.eq_false_iff.1 hround)
  cases h with
  | full hfull => rw [step, if_pos hfull]
  | broken hfull hb | row hfull hb | exhausted hfull hb | again hfull hb =>
      rw [booked] at hb
      simp only [step, hfull, carryOut, hb]
      rfl
  | noRound hfull hb hround =>
      rw [booked] at hb
      rw [hasRound, Bool.not_eq_false'] at hround
      simp only [step, hfull, carryOut, hb]
      exact if_pos hround
  | idle hfull hb hrounds hrequests =>
      rw [hround hfull hb hrounds, fetchRound_of_idle hrequests]
      rfl
  | @noTime m p wanted hfull hb hrounds hrequests htime =>
      rw [hround hfull hb hrounds, @fetchRound_of_noTime _ _ (run.moved m p) _ hrequests htime]
      rfl
  | @late m p wanted hfull hb hrounds hrequests htime hlate =>
      rw [hround hfull hb hrounds,
        @fetchRound_of_isLate _ _ (run.moved m p) _ hrequests htime hlate]
      rfl
  | @refused m m' p p' wanted e hfull hb hrounds hrequests htime hlate hi =>
      rw [hround hfull hb hrounds,
        @fetchRound_of_inTime _ _ (run.moved m p) _ hrequests htime hlate, hi]
      rfl
  | @round m m' p p' wanted hfull hb hrounds hrequests htime hlate hi =>
      rw [hround hfull hb hrounds,
        @fetchRound_of_inTime _ _ (run.moved m p) _ hrequests htime hlate, hi]
      rfl

/-- **What every step that goes on keeps holds until the last step**, the one that ends the
batch. -/
theorem last_move_of_steps {reader : ShardReader σ} {P : BatchRun σ → Prop} {budget : Nat}
    {run last : BatchRun σ} {reason : BatchEnd}
    (hmoves : ∀ before next, P before → Moves reader before next none → P next) (hrun : P run)
    (h : run.steps reader budget = some (last, reason)) :
    ∃ before, P before ∧ Moves reader before last (some reason) := by
  induction budget generalizing run with
  | zero => cases h
  | succ budget ih =>
      rw [steps] at h
      rcases hs : run.step reader with ⟨next, _ | reason'⟩ <;> rw [hs] at h
      · exact ih (hmoves _ _ hrun (moves_of_step hs)) h
      · cases h
        exact ⟨run, hrun, moves_of_step hs⟩

/-- After a step that goes on, a batch has one step less left and ends as it does from there. -/
theorem steps_succ_of_step {reader : ShardReader σ} {run next : BatchRun σ}
    (h : run.step reader = (next, none)) (budget : Nat) :
    run.steps reader (budget + 1) = next.steps reader budget := by
  rw [steps, h]

/-- After a step that ends it, a batch needs no more steps, however many are allowed for it. -/
theorem steps_succ_of_end {reader : ShardReader σ} {run last : BatchRun σ} {reason : BatchEnd}
    (h : run.step reader = (last, some reason)) (budget : Nat) :
    run.steps reader (budget + 1) = some (last, reason) := by
  rw [steps, h]

/-- More steps than a batch needs do not change how it ends. -/
theorem steps_mono {reader : ShardReader σ} {run : BatchRun σ} {budget budget' : Nat}
    {ended : BatchRun σ × BatchEnd} (h : run.steps reader budget = some ended)
    (hle : budget ≤ budget') : run.steps reader budget' = some ended := by
  induction budget generalizing budget' run with
  | zero => cases h
  | succ budget ih =>
      cases budget' with
      | zero => cases Nat.not_succ_le_zero budget hle
      | succ budget' =>
          rw [steps] at h ⊢
          rcases hs : run.step reader with ⟨next, _ | reason⟩ <;> rw [hs] at h
          · exact ih h (Nat.le_of_succ_le_succ hle)
          · exact h

/-- A batch ends in one way, however many steps are allowed for it. -/
theorem steps_unique {reader : ShardReader σ} {run : BatchRun σ} {budget budget' : Nat}
    {ended ended' : BatchRun σ × BatchEnd}
    (h : run.steps reader budget = some ended) (h' : run.steps reader budget' = some ended') :
    ended = ended' :=
  Option.some.inj ((steps_mono h (Nat.le_max_left budget budget')).symm.trans
    (steps_mono h' (Nat.le_max_right budget budget')))

end BatchRun

/-! ### All batches -/

/-- Whether a batch has failed with an error, as a test that evaluates on an example. -/
def BatchOutcome.failsWith (error : QueryError) (outcome : BatchOutcome σ) : Bool :=
  match outcome.result with
  | .ok _ => false
  | .error found => decide (found = error)

/-- What the test finds is the result of the batch. -/
theorem map_result_of_failsWith {outcome? : Option (BatchOutcome σ)} {error : QueryError}
    (h : outcome?.any (BatchOutcome.failsWith error) = true) :
    outcome?.map (·.result) = some (.error error) := by
  obtain ⟨outcome, rfl, hfails⟩ := (Option.any_eq_true _ _).1 h
  unfold BatchOutcome.failsWith at hfails
  split at hfails
  · cases hfails
  · next hresult => rw [Option.map_some, hresult, of_decide_eq_true hfails]

namespace Execution

/-- Whether an open execution is at the same place of the same query as another one, under
whatever options, with whatever account and after whatever time. -/
structure Continues (execution : Execution) (next : Execution) : Prop where
  /-- The plan is the same. -/
  plan : next.plan = execution.plan
  /-- The variables are the same. -/
  bindings : next.bindings = execution.bindings
  /-- The pipeline is the same. -/
  pipeline : next.pipeline = execution.pipeline
  /-- There are more batches. -/
  unfinished : next.finished = false

/-- The states of all batches of an execution, whatever the shards answer. -/
inductive Passes (reader : ShardReader σ) (execution : Execution) (shards : σ) :
    BatchRun σ → Prop
  /-- The first batch. -/
  | start : Passes reader execution shards (.start execution shards)
  /-- A step of a batch that goes on. -/
  | step {run next : BatchRun σ} : Passes reader execution shards run →
      run.step reader = (next, none) → Passes reader execution shards next
  /-- The batch after one that was full. -/
  | batch {run last : BatchRun σ} : Passes reader execution shards run →
      run.step reader = (last, some .full) →
      Passes reader execution shards
        (.start (conclude reader last .full).execution (conclude reader last .full).shards)

/-- A state that a run has passed is followed by the one after it, unless the step ends the batch.
-/
theorem Passes.next {reader : ShardReader σ} {execution : Execution} {shards : σ}
    {run : BatchRun σ} (hrun : Passes reader execution shards run)
    (h : (run.step reader).2 = none) : Passes reader execution shards (run.step reader).1 :=
  hrun.step (Prod.ext rfl h)

/-- What the steps of a batch give is the end of a batch all of whose states are passed. -/
theorem passes_of_steps {reader : ShardReader σ} {execution : Execution} {shards : σ}
    {budget : Nat} {run last : BatchRun σ} {reason : BatchEnd}
    (hrun : Passes reader execution shards run)
    (h : run.steps reader budget = some (last, reason)) :
    ∃ before, Passes reader execution shards before ∧
      before.step reader = (last, some reason) := by
  obtain ⟨before, hbefore, hlast⟩ := BatchRun.last_move_of_steps
    (fun _ _ hbefore hmove => hbefore.step (BatchRun.step_of_moves hmove)) hrun h
  exact ⟨before, hbefore, BatchRun.step_of_moves hlast⟩

/-- A finished execution makes no more batches: all that follow are empty, ask no shard and leave it
as it is. -/
theorem nextBatch_of_finished {execution : Execution} (h : execution.finished = true)
    (reader : ShardReader σ) (budget : Nat) (shards : σ) :
    execution.nextBatch reader budget shards = some ⟨.ok ⟨[], none⟩, [], execution, shards⟩ :=
  if_pos h

variable {reader : ShardReader σ} {budget : Nat} {execution : Execution} {shards : σ}
  {outcome : BatchOutcome σ}

/-- The next batch of an open execution is what becomes of its steps. -/
theorem nextBatch_of_open (h : execution.finished = false) (budget : Nat) :
    execution.nextBatch reader budget shards =
      ((BatchRun.start execution shards).steps reader budget).map
        fun ended => conclude reader ended.1 ended.2 := by
  rw [nextBatch, if_neg (by simp [h]), BatchRun.start]
  rcases BatchRun.steps reader budget _ with _ | ended <;> rfl

/-- A batch whose steps have come to an end is what becomes of this end. -/
theorem nextBatch_of_steps (h : execution.finished = false) {budget : Nat} {last : BatchRun σ}
    {reason : BatchEnd}
    (hsteps : (BatchRun.start execution shards).steps reader budget = some (last, reason)) :
    execution.nextBatch reader budget shards = some (conclude reader last reason) := by
  rw [nextBatch_of_open h, hsteps]
  rfl

/-- A batch that ends: it is an empty one of a finished execution, or what becomes of the steps of
an open one. -/
theorem ended_of_nextBatch (h : execution.nextBatch reader budget shards = some outcome) :
    execution.finished = true ∧ outcome = ⟨.ok ⟨[], none⟩, [], execution, shards⟩ ∨
      execution.finished = false ∧ ∃ last reason,
        (BatchRun.start execution shards).steps reader budget = some (last, reason) ∧
          outcome = conclude reader last reason := by
  cases hopen : execution.finished with
  | true =>
      rw [nextBatch_of_finished hopen] at h
      exact .inl ⟨rfl, (Option.some.inj h).symm⟩
  | false =>
      rw [nextBatch_of_open hopen, Option.map_eq_some_iff] at h
      obtain ⟨⟨last, reason⟩, hsteps, rfl⟩ := h
      exact .inr ⟨rfl, last, reason, hsteps, rfl⟩

/-- What `Execution.nextBatch` gives is the end of a batch all of whose states are passed. -/
theorem passes_of_nextBatch {start : Execution} {first : σ}
    (hpass : Passes reader start first (.start execution shards))
    (hfin : execution.finished = false)
    (h : execution.nextBatch reader budget shards = some outcome) :
    ∃ before last reason, Passes reader start first before ∧
      before.step reader = (last, some reason) ∧ outcome = conclude reader last reason := by
  obtain ⟨hfinished, -⟩ | ⟨-, last, reason, hsteps, rfl⟩ := ended_of_nextBatch h
  · cases hfin.symm.trans hfinished
  · obtain ⟨before, hbefore, hstep⟩ := passes_of_steps hpass hsteps
    exact ⟨before, last, reason, hbefore, hstep, rfl⟩

/-- A batch is made in one way, however many steps are allowed for it. -/
theorem nextBatch_unique {budget' : Nat} {outcome' : BatchOutcome σ}
    (h : execution.nextBatch reader budget shards = some outcome)
    (h' : execution.nextBatch reader budget' shards = some outcome') : outcome = outcome' := by
  obtain ⟨hfinished, rfl⟩ | ⟨hopen, last, reason, hsteps, rfl⟩ := ended_of_nextBatch h
  · rw [nextBatch_of_finished hfinished] at h'
    exact Option.some.inj h'
  · obtain ⟨hfinished, -⟩ | ⟨-, last', reason', hsteps', rfl⟩ := ended_of_nextBatch h'
    · cases hopen.symm.trans hfinished
    · cases BatchRun.steps_unique hsteps hsteps'
      rfl

/-- An execution that is open after a batch has been open before it, and the batch is full. -/
theorem full_of_nextBatch (h : execution.nextBatch reader budget shards = some outcome)
    (hnext : outcome.execution.finished = false) :
    execution.finished = false ∧ ∃ before last, execution.Passes reader shards before ∧
      before.step reader = (last, some .full) ∧ outcome = conclude reader last .full := by
  obtain ⟨hfinished, rfl⟩ | ⟨hopen, last, reason, hsteps, rfl⟩ := ended_of_nextBatch h
  · cases hfinished.symm.trans hnext
  · cases reason with
    | full =>
        obtain ⟨before, hbefore, hstep⟩ := passes_of_steps .start hsteps
        exact ⟨hopen, before, last, hbefore, hstep, rfl⟩
    | exhausted | failed => cases hnext

/-- An execution that is open after a batch has been open before it, and its next batch can be made
from there. -/
theorem passes_of_open (h : execution.nextBatch reader budget shards = some outcome)
    (hnext : outcome.execution.finished = false) :
    execution.finished = false ∧
      execution.Passes reader shards (.start outcome.execution outcome.shards) := by
  obtain ⟨hopen, before, last, hpass, hstep, rfl⟩ := full_of_nextBatch h hnext
  exact ⟨hopen, hpass.batch hstep⟩

/-- A batch that fails is one of an open execution, and ends with its error. -/
theorem failed_of_nextBatch {error : QueryError}
    (h : execution.nextBatch reader budget shards = some outcome)
    (herror : outcome.result = .error error) :
    execution.finished = false ∧ ∃ before last, execution.Passes reader shards before ∧
      before.step reader = (last, some (.failed error)) ∧
      outcome = conclude reader last (.failed error) := by
  obtain ⟨-, rfl⟩ | ⟨hopen, last, reason, hsteps, rfl⟩ := ended_of_nextBatch h
  · cases herror
  · cases reason with
    | full | exhausted => cases herror
    | failed fault =>
        cases herror
        obtain ⟨before, hbefore, hstep⟩ := passes_of_steps .start hsteps
        exact ⟨hopen, before, last, hbefore, hstep, rfl⟩

/-- The batches that an execution makes, one after the other, and what it has come to then. -/
inductive Makes (reader : ShardReader σ) :
    Execution → σ → List (BatchOutcome σ) → Execution → σ → Prop
  /-- No batch. -/
  | none (execution : Execution) (shards : σ) : Makes reader execution shards [] execution shards
  /-- A batch before others. -/
  | batch {execution last : Execution} {shards lastShards : σ} {budget : Nat}
      {outcome : BatchOutcome σ} {outcomes : List (BatchOutcome σ)} :
      execution.nextBatch reader budget shards = some outcome →
      Makes reader outcome.execution outcome.shards outcomes last lastShards →
      Makes reader execution shards (outcome :: outcomes) last lastShards

end Execution

end ShardQuery
