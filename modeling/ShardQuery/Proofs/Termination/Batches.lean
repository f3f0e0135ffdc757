import ShardQuery.Proofs.Termination.Pages
import ShardQuery.Proofs.Termination.Work

/-!
# Batches End

A step of a batch that does not end it either reads pages or takes from the work that is left until
the next pages are read. The work cannot fall forever; so every batch ends if its pages do. A batch
that ends because it is full has got somewhere: if no limit is zero, it has sent on a row or has
asked the shards, and it has made a step at least.

Main definitions:

* `BatchRun.standing` — where a batch stands: the pages to be read, then the work that is left;
* `ResolvedOptions.Nonzero` — no limit of batches is zero;
* `BatchRun.HasProgressed` — a batch has sent on a row or has asked the shards.

## Main results

* `BatchRun.nearer_of_moves`: every step that does not end a batch brings it nearer to the end.
* `BatchRun.exists_steps`: every batch ends.
* `Execution.exists_batch`: the next batch is made, and gets nearer to the end if it is full.
-/

namespace ShardQuery

variable {σ : Type}

/-! ### Standings -/

/-- Whether something that stands at a place and has some work left is nearer to the end than
something else: pages have been read, or there is less work. -/
def ShardReader.Nearer (reader : ShardReader σ) (ask : Place → ShardRequest) :
    (σ × List Place) × ℕ → (σ × List Place) × ℕ → Prop :=
  Prod.Lex (Relation.TransGen fun later earlier => reader.Reads ask earlier later) (· < ·)

/-- Where pages cannot be read without end, nothing comes nearer without end. -/
theorem ShardReader.Ends.acc_nearer {reader : ShardReader σ} {ask : Place → ShardRequest} {s : σ}
    {places : List Place} (h : reader.Ends ask s places) (work : ℕ) :
    Acc (reader.Nearer ask) ((s, places), work) :=
  Prod.lexAccessible h.acc.transGen (fun work => wellFounded_lt.apply work) work

/-- What a batch asks for depends only on what stays as it is. -/
theorem Execution.Advances.ask_eq {execution next : Execution} (h : execution.Advances next) :
    next.ask = execution.ask := by
  funext place
  rw [ask, ask, h.plan_eq, h.options_eq]

namespace Pipeline

/-- A tick leaves the places: it takes rows out of buffers, and reads no page. -/
theorem places_tick (bindings : Bindings) (pipeline : Pipeline) :
    (pipeline.tick bindings).state.source.places = pipeline.source.places := by
  obtain heq | heq := source_tickStages bindings pipeline.source pipeline.stages
  · exact congrArg Source.places heq
  · exact (congrArg Source.places heq).trans pipeline.source.places_next

end Pipeline

namespace BatchRun

variable {reader : ShardReader σ} {run next : BatchRun σ}

/-- Where a batch stands: how far the shards have been read, and the work that is left. -/
def standing (run : BatchRun σ) : (σ × List Place) × ℕ :=
  ((run.shards, run.execution.pipeline.source.places), run.execution.pipeline.work)

/-- A booked tick leaves the places, and takes from the work what its signal is worth. -/
theorem work_of_booked {m : Memory} {p : Pipeline} {signal : Signal}
    (hb : run.booked = (m, p, .ok signal)) :
    p.source.places = run.execution.pipeline.source.places ∧
      p.work + signal.cost 0 ≤ run.execution.pipeline.work := by
  obtain ⟨-, rfl, hresult⟩ := Metered.run_eq_ok_iff.1 hb
  exact ⟨Pipeline.places_tick .., Pipeline.work_tick hresult⟩

/-- **Every step that does not end a batch brings it nearer to the end.** -/
theorem nearer_of_moves (h : Moves reader run next none) :
    reader.Nearer run.execution.ask next.standing run.standing := by
  have hless {m : Memory} {p : Pipeline} {signal : Signal}
      (hb : run.booked = (m, p, .ok signal)) (hcost : 0 < signal.cost 0) :
      reader.Nearer run.execution.ask ((run.shards, p.source.places), p.work) run.standing := by
    obtain ⟨hplaces, hwork⟩ := work_of_booked hb
    rw [hplaces]
    exact .right _ (by omega)
  cases h with
  | row _ hb => exact hless hb Nat.one_pos
  | again _ hb => exact hless hb Nat.one_pos
  | @round m m' p p' wanted _ hb _ _ _ _ hi =>
      refine .left _ _ (Relation.transGen_swap.2 ?_)
      obtain ⟨hnext, hsame⟩ := next_of_booked hb
      obtain ⟨hnodup, hneeds⟩ := needsFetch_of_booked hb
      obtain ⟨-, hne, -⟩ := Source.next_of_fetch hnext
      obtain ⟨-, rfl, hresult⟩ := Metered.run_eq_ok_iff.1 hi
      have hreads := @Source.reads_of_round _ reader run.execution.ask p.source run.shards wanted
        hnodup hne hneeds hresult
      exact hsame ▸ hreads

/-- A batch that is full stands where it stood, or nearer to the end. -/
theorem standing_of_full (h : Moves reader run next (some .full)) :
    Relation.ReflTransGen (reader.Nearer run.execution.ask) next.standing run.standing := by
  cases h with
  | full => exact .refl
  | @noRound m p wanted _ hb =>
      obtain ⟨hplaces, hwork⟩ := work_of_booked hb
      have hstanding : (run.moved m p).standing =
          ((run.shards, run.execution.pipeline.source.places), p.work) :=
        congrArg (fun places => ((run.shards, places), p.work)) hplaces
      rw [hstanding]
      obtain heq | hlt := Nat.eq_or_lt_of_le (Nat.le_of_add_right_le hwork)
      · rw [heq]
        exact .refl
      · exact .single (.right _ hlt)

/-- **Every batch ends.** If it does so because it is full, it stands where it stood, or nearer to
the end. -/
theorem exists_steps {ask : Place → ShardRequest} (hacc : Acc (reader.Nearer ask) run.standing)
    (hask : run.execution.ask = ask) :
    ∃ budget last reason, run.steps reader budget = some (last, reason) ∧
      (reason = .full → Relation.ReflTransGen (reader.Nearer ask) last.standing run.standing) := by
  generalize hstanding : run.standing = standing at hacc
  induction hacc generalizing run with
  | intro standing _ ih =>
      subst hstanding
      rcases hstep : run.step reader with ⟨next, _ | reason⟩
      · have hmove := moves_of_step hstep
        have hnear := hask ▸ nearer_of_moves hmove
        have hask' := (advances_of_moves hmove nofun).ask_eq.trans hask
        obtain ⟨budget, last, reason, hsteps, hfull⟩ := ih _ hnear hask' rfl
        exact ⟨budget + 1, last, reason, (steps_succ_of_step hstep budget).trans hsteps,
          fun heq => (hfull heq).tail hnear⟩
      · refine ⟨1, next, reason, steps_succ_of_end hstep 0, ?_⟩
        rintro rfl
        exact hask ▸ standing_of_full (moves_of_step hstep)

/-! ### What full batches have -/

end BatchRun

/-- Whether no limit of batches is zero, so that each batch has room for something. -/
structure ResolvedOptions.Nonzero (options : ResolvedOptions) : Prop where
  /-- A batch may have a row. -/
  limit : options.limit ≠ some 0
  /-- A batch may have a row that has a size. -/
  maxBatchBytes : options.maxBatchBytes ≠ some 0
  /-- A batch may ask the shards. -/
  maxRoundTrips : options.maxRoundTrips ≠ some 0

namespace BatchRun

variable {reader : ShardReader σ} {run next : BatchRun σ}

/-- Whether a batch has sent on a row or has asked the shards. -/
def HasProgressed (run : BatchRun σ) : Prop :=
  run.rows ≠ [] ∨ run.rounds ≠ 0 ∧ run.sent ≠ []

/-- A batch that has progressed counts for at least one row or round. -/
theorem HasProgressed.one_le (h : run.HasProgressed) : 1 ≤ run.rows.length + run.rounds := by
  obtain hrows | ⟨hrounds, -⟩ := h
  · have hpos := List.length_pos_of_ne_nil hrows
    omega
  · omega

/-- Whether what a batch counts has been counted: the size is that of rows, and the rounds have
sent requests. -/
structure Counts (run : BatchRun σ) : Prop where
  /-- Nothing has no size. -/
  bytes_eq_zero : run.rows = [] → run.bytes = 0
  /-- A round sends a request. -/
  rounds_eq_zero : run.sent = [] → run.rounds = 0

/-- A step that does not end the batch keeps what has been counted right. -/
theorem Counts.moves (h : run.Counts) (hmove : Moves reader run next none) : next.Counts := by
  cases hmove with
  | row => exact ⟨nofun, h.rounds_eq_zero⟩
  | again => exact ⟨h.bytes_eq_zero, h.rounds_eq_zero⟩
  | @round m m' p p' wanted _ _ _ hrequests =>
      refine ⟨h.bytes_eq_zero, fun hnil => ?_⟩
      have hsent := (List.append_eq_nil_iff.1 hnil).1
      rw [List.reverse_eq_nil_iff, wantedRequests, List.map_eq_nil_iff] at hsent
      exact absurd hsent hrequests

/-- **A full batch has sent on a row or has asked the shards**, if no limit is zero. -/
theorem Counts.hasProgressed (h : run.Counts) (hcaps : run.execution.options.Nonzero)
    (hmove : Moves reader run next (some .full)) : next.HasProgressed := by
  cases hmove with
  | full hfull =>
      refine .inl fun hnil => ?_
      simp only [isFull, Bool.or_eq_true, Option.any_eq_true, decide_eq_true_eq, hnil,
        h.bytes_eq_zero hnil, List.length_nil, Nat.le_zero] at hfull
      obtain ⟨most, hmost, rfl⟩ | ⟨most, hmost, rfl⟩ := hfull
      · exact hcaps.limit hmost
      · exact hcaps.maxBatchBytes hmost
  | noRound _ _ hround =>
      have hrounds : run.rounds ≠ 0 := by
        intro hzero
        simp only [hasRound, hzero, Nat.le_zero, Bool.not_eq_false', Option.any_eq_true,
          decide_eq_true_eq] at hround
        obtain ⟨most, hmost, rfl⟩ := hround
        exact hcaps.maxRoundTrips hmost
      exact .inr ⟨hrounds, fun hnil => hrounds (h.rounds_eq_zero hnil)⟩

/-- A batch of which nothing has been done yet is not full, if no limit is zero. -/
theorem not_full_of_start {execution : Execution} {shards : σ}
    (hcaps : execution.options.Nonzero) :
    ¬Moves reader (.start execution shards) next (some .full) := by
  have hcounts : (BatchRun.start execution shards).Counts := ⟨fun _ => rfl, fun _ => rfl⟩
  intro hmove
  have hprogressed := hcounts.hasProgressed hcaps hmove
  cases hmove with
  | full | noRound =>
      obtain hrows | ⟨hrounds, -⟩ := hprogressed
      · exact hrows rfl
      · exact hrounds rfl

end BatchRun

namespace Execution

variable {reader : ShardReader σ} {execution : Execution} {shards : σ}

/-- All batches of an execution have counted what they have done, as each begins with nothing. -/
theorem counts_of_passes {run : BatchRun σ} (h : execution.Passes reader shards run) :
    run.Counts := by
  induction h with
  | start | batch => exact ⟨fun _ => rfl, fun _ => rfl⟩
  | step _ hstep ih => exact ih.moves (BatchRun.moves_of_step hstep)

/-- **The next batch is made.** If it is full it has sent on a row or has asked the shards, and it
has come nearer to the end. -/
theorem exists_batch (hcaps : execution.options.Nonzero) {ask : Place → ShardRequest}
    (hask : execution.ask = ask)
    (hacc : Acc (reader.Nearer ask) (BatchRun.start execution shards).standing) :
    ∃ budget last reason,
      (BatchRun.start execution shards).steps reader budget = some (last, reason) ∧
        (reason = .full → last.HasProgressed ∧ execution.Advances last.execution ∧
          Relation.TransGen (reader.Nearer ask) last.standing
            (BatchRun.start execution shards).standing) := by
  rcases hstep : (BatchRun.start execution shards).step reader with ⟨next, _ | reason⟩
  · have hmove := BatchRun.moves_of_step hstep
    have hnear := hask ▸ BatchRun.nearer_of_moves hmove
    have hask' := (BatchRun.advances_of_moves hmove fun _ => by simp).ask_eq.trans hask
    obtain ⟨budget, last, reason, hsteps, hfull⟩ := BatchRun.exists_steps (hacc.inv hnear) hask'
    have hsteps' : (BatchRun.start execution shards).steps reader (budget + 1) =
        some (last, reason) :=
      (BatchRun.steps_succ_of_step hstep budget).trans hsteps
    refine ⟨budget + 1, last, reason, hsteps', ?_⟩
    rintro rfl
    obtain ⟨before, hbefore, hlast⟩ := passes_of_steps .start hsteps'
    have hadvances := advances_of_passes hbefore
    refine ⟨(counts_of_passes hbefore).hasProgressed ?_ (BatchRun.moves_of_step hlast),
      hadvances.trans (advances_of_step hlast fun _ => by simp), .tail' (hfull rfl) hnear⟩
    exact hadvances.options_eq ▸ hcaps
  · refine ⟨1, next, reason, BatchRun.steps_succ_of_end hstep 0, ?_⟩
    rintro rfl
    exact absurd (BatchRun.moves_of_step hstep) (BatchRun.not_full_of_start hcaps)

end Execution

end ShardQuery
