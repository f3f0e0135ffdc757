import ShardQuery.Proofs.Meaning.Runs
import ShardQuery.Proofs.Memory.Room
import ShardQuery.Proofs.Termination.Runs

/-!
# Sorting Scans

The rows of a scan can be sorted in two ways: all of them are taken and then sorted, or, if those
of every shard are sorted already, they are merged as they come. Both mean the same, the stable
sorting of the rows of all shards; and both come to it. For this, nothing may fail on the way: a
pipeline that only sorts never needs more memory than its rows, wherever these are just now.

Main definitions:

* `Pipeline.SortsWithin` — a pipeline only sorts, within a limit;
* `Execution.Affords` — an execution that only sorts has room for all rows and no limit of time;
* `Query.sorting` — the query that sorts a scan, in one of the two ways.

## Main results

* `Pipeline.SortsWithin.tick`: a tick that sorts needs no more room than there was.
* `BatchRun.affords_of_moves`: no step of an execution that affords its rows fails.
* `Execution.Affords.collects`: so it collects all of them, if it comes to its end.
* `Query.rowsOf_sorting`: both ways to sort mean the same if the shards are sorted.
-/

namespace ShardQuery

variable {σ : Type}

/-! ### Room -/

namespace Source

/-- A source reserves nothing when it hands a row over: it only gives back the memory of the row. -/
theorem isReserve_of_next (source : Source) :
    ∀ e ∈ source.next.events, e.1.isReserve = false := by
  cases source.next_inv with
  | gives _ _ _ h =>
      rw [h]
      exact List.forall_mem_singleton.2 rfl
  | incomplete _ h | ends _ h | wants _ _ h =>
      rw [h]
      exact List.forall_mem_nil _

/-- Taking responses in only reserves memory, and gives none of it back. -/
theorem isReserve_of_receive (source : Source)
    (responses : List (Nat × Except RequestError ShardResponse)) :
    ∀ e ∈ (source.receive responses).events, e.1.isReserve = true := by
  induction responses generalizing source with
  | nil => exact List.forall_mem_nil _
  | cons entry responses ih =>
      obtain ⟨index, error | response⟩ := entry
      · exact List.forall_mem_nil _
      · unfold receive
        split
        · exact List.forall_mem_nil _
        · exact List.forall_mem_cons.2 ⟨rfl, ih _⟩

variable {ahead : ShardId → Option Cursor → List Row → Prop} {source : Source}
  {lists : List (List Row)}

/-- However rows are delivered, they have the size that they have in the shards. -/
theorem totalSize_rowsOf (delivery : Delivery) (lists : List (List Row)) :
    Row.totalSize (delivery.rowsOf lists) = Row.totalSize lists.flatten := by
  cases delivery with
  | merged keys => exact total_perm _ (Meaning.perm_merged keys lists)
  | inOrder | anyOrder => rfl

/-- A source is charged for rows that it still delivers. -/
theorem Tallies.trackedBytes_le (h : source.Tallies (· = ·)) (hahead : source.Ahead ahead lists) :
    source.trackedBytes ≤ Row.totalSize lists.flatten := by
  have hshards := hahead.forall₂
  unfold Tallies at h
  unfold trackedBytes bufferedBytes
  clear hahead
  generalize source.shards = shards at h hshards
  induction hshards with
  | nil => exact Nat.le_refl _
  | @cons progress list shards lists hlist _ ih =>
      obtain ⟨hprogress, hothers⟩ := List.forall_mem_cons.1 h
      obtain ⟨others, rfl, -⟩ := hlist
      have hcount : progress.bufferedBytes = Row.totalSize progress.buffer := hprogress
      have hrest := ih hothers
      simp only [Row.totalSize, total_cons, List.flatten_cons, total_append] at hcount hrest ⊢
      omega

end Source

/-- The size of the row of a signal, as it is charged to the one who holds the row; nothing without
a row. -/
def Signal.size : Signal → Nat
  | .row r => r.sizeEstimate
  | .exhausted | .fetch _ | .again => 0

/-- Between the rows before and after a signal stands its row. -/
theorem Signal.Yields.totalSize_eq {signal : Signal} {rows rows' : List Row}
    (h : signal.Yields rows rows') :
    Row.totalSize rows = signal.size + Row.totalSize rows' := by
  cases signal with
  | row row =>
      obtain rfl : rows = row :: rows' := h
      rfl
  | exhausted =>
      obtain ⟨rfl, rfl⟩ := h
      rfl
  | fetch | again =>
      obtain rfl : rows = rows' := h
      exact (Nat.zero_add _).symm

namespace Stage

variable {keys : List OrderKey} {mode : SortMode} {state : SortState}

/-- A sort that goes on by itself sends on its rows, and is charged for no more than before. -/
theorem sort_of_ready {own : Metered Stage Signal}
    (h : ready? (.sort keys mode state) = some own) :
    ∃ signal state', own.result = .ok signal ∧ own.state = .sort keys mode state' ∧
      state'.bytes ≤ state.bytes ∧ ∀ e ∈ own.events, e.1.isReserve = false := by
  cases ready_inv h with
  | ends => exact ⟨_, _, rfl, rfl, Nat.le_refl _, List.forall_mem_nil _⟩
  | pops => exact ⟨_, _, rfl, rfl, Nat.sub_le _ _, List.forall_mem_singleton.2 rfl⟩

/-- A sort that gets a signal is charged at most for its row, too. -/
theorem sort_of_pass (bindings : Bindings) (below : Signal) :
    ∃ signal state', (Pipeline.pass bindings below (.sort keys mode state)).result = .ok signal ∧
      (Pipeline.pass bindings below (.sort keys mode state)).state = .sort keys mode state' ∧
      state'.bytes ≤ state.bytes + below.size ∧
      ∀ e ∈ (Pipeline.pass bindings below (.sort keys mode state)).events,
        e.1.isReserve = true := by
  have hsame (signal : Signal) : ∃ signal' state',
      (Metered.done (Stage.sort keys mode state) signal).result = .ok signal' ∧
      (Metered.done (Stage.sort keys mode state) signal).state = .sort keys mode state' ∧
      state'.bytes ≤ state.bytes + below.size ∧
      ∀ e ∈ (Metered.done (Stage.sort keys mode state) signal).events, e.1.isReserve = true :=
    ⟨signal, state, rfl, rfl, Nat.le_add_right _ _, List.forall_mem_nil _⟩
  cases below with
  | fetch | again => exact hsame _
  | exhausted =>
      cases mode with
      | merge => exact hsame _
      | materialize => exact ⟨_, _, rfl, rfl, Nat.le_refl _, List.forall_mem_nil _⟩
  | row row =>
      cases mode with
      | merge => exact hsame _
      | materialize => exact ⟨_, _, rfl, rfl, Nat.le_refl _, List.forall_mem_singleton.2 rfl⟩

end Stage

namespace Pipeline

variable {ahead : ShardId → Option Cursor → List Row → Prop} {limit : Nat} {pipeline : Pipeline}

/-- Whether a pipeline only sorts a scan, and all the rows that it holds and that still come take up
no more than a limit. -/
def SortsWithin (ahead : ShardId → Option Cursor → List Row → Prop) (limit : Nat)
    (pipeline : Pipeline) : Prop :=
  ∃ keys mode state lists, pipeline.stages = [.sort keys mode state] ∧
    pipeline.source.Ahead ahead lists ∧ state.bytes + Row.totalSize lists.flatten ≤ limit

/-- What a pipeline that sorts is charged for keeps to the limit. -/
theorem SortsWithin.trackedBytes_le (h : pipeline.SortsWithin ahead limit)
    (htallies : pipeline.source.Tallies (· = ·)) : pipeline.trackedBytes ≤ limit := by
  obtain ⟨keys, mode, state, lists, hstages, hahead, hfits⟩ := h
  have hsource := htallies.trackedBytes_le hahead
  have hstage : Stage.trackedBytes (.sort keys mode state) = state.bytes := rfl
  rw [trackedBytes_eq, hstages, total_cons, total_nil, hstage]
  omega

/-- **A tick of a pipeline that sorts succeeds**, and needs no more room than there was. -/
theorem SortsWithin.tick (h : pipeline.SortsWithin ahead limit)
    (hordered : ∀ n, pipeline.source.delivery ≠ .anyOrder n)
    (hlength : pipeline.source.shards.length = pipeline.source.shardCount)
    (bindings : Bindings) :
    ∃ signal, (pipeline.tick bindings).result = .ok signal ∧
      (pipeline.tick bindings).state.SortsWithin ahead limit ∧
      ReleasesFirst (pipeline.tick bindings).events := by
  obtain ⟨keys, mode, state, lists, hstages, hahead, hfits⟩ := h
  obtain ⟨stages, source⟩ := pipeline
  obtain rfl : stages = [.sort keys mode state] := hstages
  rw [Pipeline.tick]
  cases hready : readyOver? [] (.sort keys mode state) with
  | some own =>
      rw [tickStages_of_ready hready]
      rw [readyOver?_nil] at hready
      obtain ⟨signal, state', hresult, hstate, hbytes, hevents⟩ := Stage.sort_of_ready hready
      refine ⟨signal, hresult, ⟨keys, mode, state', lists, ?_, hahead, by omega⟩, ?_⟩
      · exact congrArg (fun stage => [stage]) hstate
      · exact releasesFirst_of_releases (List.forall_mem_map.2 hevents)
  | none =>
      cases hnext : source.next.result with
      | error error => exact absurd hnext (Source.ne_error_of_next hlength error)
      | ok below =>
          obtain ⟨lists', hyields⟩ := Source.yields_of_next hordered hahead hnext
          have hsize := hyields.rows.totalSize_eq
          rw [Source.totalSize_rowsOf, Source.totalSize_rowsOf] at hsize
          obtain ⟨signal, state', hresult, hstate, hbytes, hevents⟩ :=
            @Stage.sort_of_pass keys mode state bindings below
          have hbelow : (tickStages bindings source []).result = .ok below := hnext
          obtain ⟨hresult', hstate'⟩ := tickStages_of_ok hready hbelow
          rw [hresult', hstate', hstate, events_tickStages_of_ok hready hbelow]
          refine ⟨signal, hresult, ⟨keys, mode, state', lists', rfl, hyields.ahead, by omega⟩, ?_⟩
          -- The source gives its row back before the sort takes it.
          refine releasesFirst_append ?_ (List.forall_mem_map.2 hevents)
          exact List.forall_mem_map.2 (List.forall_mem_map.2 source.isReserve_of_next)

end Pipeline

/-! ### Batches -/

/-- Whether an open execution only sorts a scan, has no limit of time, and has room for all the rows
that it holds and that still come. -/
structure Execution.Affords (table : String)
    (ahead : σ → ShardId → Option Cursor → List Row → Prop) (execution : Execution) (shards : σ) :
    Prop where
  /-- The execution goes on. -/
  unfinished : execution.finished = false
  /-- The rows come from the table. -/
  table_eq : execution.plan.scan.table = table
  /-- They come in order. -/
  ordered (n : Nat) : execution.pipeline.source.delivery ≠ .anyOrder n
  /-- No shard is read twice. -/
  distinct : (execution.pipeline.source.shards.map (·.shard)).Nodup
  /-- The source has all of its shards. -/
  length_eq : execution.pipeline.source.shards.length = execution.pipeline.source.shardCount
  /-- The counters say what is held. -/
  tallies : execution.pipeline.Tallies (· = ·)
  /-- What the pipeline is charged for is in use. -/
  used_eq : execution.memory.used = execution.pipeline.trackedBytes
  /-- The limit can be counted. -/
  counted : execution.memory.limit ≤ maxAmount
  /-- The rows are sorted within the limit. -/
  sorts : execution.pipeline.SortsWithin (ahead shards) execution.memory.limit
  /-- There is no limit of time. -/
  timeless : execution.options.timeoutMs = none

namespace BatchRun

open Execution

variable {reader : ShardReader σ} {table : String}
  {ahead : σ → ShardId → Option Cursor → List Row → Prop} {run next : BatchRun σ}

/-- Changing the pipeline of an execution that affords its rows, by a change that releases first and
within the room that there was. -/
theorem affords_of_run (h : run.execution.Affords table ahead run.shards) {α : Type}
    {change : Metered Pipeline α}
    (hbalanced : change.Balanced Pipeline.trackedBytes run.execution.pipeline.trackedBytes)
    (hevents : ReleasesFirst change.events) (htallies : change.state.Tallies (· = ·))
    (hscan : run.execution.pipeline.source.SameScan change.state.source) {shards : σ}
    (hsorts : change.state.SortsWithin (ahead shards) run.execution.memory.limit) :
    ∃ m, change.run run.execution.memory = (m, change.state, change.result) ∧
      (run.moved m change.state).execution.Affords table ahead shards := by
  rw [← h.used_eq] at hbalanced
  obtain ⟨peak, hrun⟩ := Metered.run_of_room hbalanced hevents h.counted
    (hsorts.trackedBytes_le htallies.source)
  have hlength : run.execution.pipeline.source.shards.length =
      change.state.source.shards.length := by
    simpa only [List.length_map] using congrArg List.length hscan.shards
  refine ⟨_, hrun, h.unfinished, h.table_eq, ?_, ?_, ?_, htallies, rfl, h.counted, hsorts,
    h.timeless⟩
  · exact fun n => hscan.delivery ▸ h.ordered n
  · exact hscan.shards ▸ h.distinct
  · exact hlength.symm.trans (h.length_eq.trans hscan.shardCount)

/-- A tick of an execution that affords its rows is booked. -/
theorem affords_of_booked (h : run.execution.Affords table ahead run.shards) :
    ∃ m p signal, run.booked = (m, p, .ok signal) ∧
      (run.moved m p).execution.Affords table ahead run.shards := by
  obtain ⟨signal, hresult, hsorts, hevents⟩ :=
    h.sorts.tick h.ordered h.length_eq run.execution.bindings
  have hscan : run.execution.pipeline.source.SameScan
      (run.execution.pipeline.tick run.execution.bindings).state.source := by
    obtain heq | heq := Pipeline.source_tickStages run.execution.bindings
      run.execution.pipeline.source run.execution.pipeline.stages
    · exact heq ▸ .refl _
    · exact heq ▸ Source.sameScan_next _
  obtain ⟨m, hrun, haffords⟩ := affords_of_run h
    (Pipeline.balanced_tick isTally_eq h.tallies run.execution.bindings) hevents
    (Pipeline.tallies_tick isTally_eq h.tallies hresult) hscan hsorts
  exact ⟨m, _, signal, hresult ▸ hrun, haffords⟩

/-- The answers of a round are taken in by an execution that affords its rows. -/
theorem affords_of_installed (hserves : reader.Serves table ahead)
    (hanswers : reader.Answers table ahead) (h : run.execution.Affords table ahead run.shards)
    {wanted : List Nat} (hnodup : wanted.Nodup)
    (hwanted : ∀ index ∈ wanted, ∃ progress,
      run.execution.pipeline.source.shards[index]? = some progress ∧ progress.needsFetch = true) :
    ∃ m p, run.installed reader wanted = (m, p, .ok ()) ∧
      ((run.answered reader wanted).moved m p).execution.Affords table ahead
        (run.answered reader wanted).shards := by
  obtain ⟨keys, mode, state, lists, hstages, hahead, hfits⟩ := h.sorts
  have hrequest (progress : ShardProgress) :
      (run.execution.request progress).table = table ∧
        (run.execution.request progress).shard = progress.shard ∧
        (run.execution.request progress).cursor = progress.cursor := ⟨h.table_eq, rfl, rfl⟩
  have hresult := Source.ok_of_round hserves hanswers hrequest hahead h.distinct hnodup hwanted
  obtain ⟨hahead', hscan⟩ := Source.ahead_of_round hserves hrequest hahead h.distinct hnodup
    hwanted hresult
  have hreceive (responses : List (Nat × Except RequestError ShardResponse)) :
      (run.execution.pipeline.receive responses).Balanced Pipeline.trackedBytes
          run.execution.pipeline.trackedBytes ∧
        ReleasesFirst (run.execution.pipeline.receive responses).events ∧
        (run.execution.pipeline.receive responses).state.Tallies (· = ·) :=
    ⟨Pipeline.balanced_receive isTally_eq h.tallies responses,
      releasesFirst_of_reserves (List.forall_mem_map.2 (Source.isReserve_of_receive _ responses)),
      h.tallies.stages, (Source.balanced_receive isTally_eq h.tallies.source responses).2.1⟩
  obtain ⟨hbalanced, hevents, htallies⟩ :=
    hreceive (((run.execution.requests wanted).map (·.1)).zip (run.answers reader wanted).1)
  obtain ⟨m, hrun, haffords⟩ := @affords_of_run _ table ahead run h Unit _ hbalanced hevents
    htallies hscan (run.answered reader wanted).shards
    ⟨keys, mode, state, lists, hstages, hahead', hfits⟩
  exact ⟨m, _, hrun.trans (congrArg (fun result => (m, _, result)) hresult), haffords⟩

/-- **No step of an execution that affords its rows fails**, if every shard answers that has rows
ahead. -/
theorem affords_of_moves (hserves : reader.Serves table ahead)
    (hanswers : reader.Answers table ahead) {reason : Option BatchEnd}
    (h : run.execution.Affords table ahead run.shards) (hmove : Moves reader run next reason) :
    (∀ error, reason ≠ some (.failed error)) ∧
      next.execution.Affords table ahead next.shards := by
  obtain ⟨m, p, signal, hbooked, haffords⟩ := affords_of_booked h
  have hremaining : run.remainingMs reader = none := by
    rw [remainingMs, h.timeless]
    rfl
  have hround {m' : Memory} {p' : Pipeline} {wanted : List Nat}
      (hb : run.booked = (m', p', .ok (.fetch wanted))) :
      ∃ m₂ p₂, (run.moved m' p').installed reader wanted = (m₂, p₂, .ok ()) ∧
        (((run.moved m' p').answered reader wanted).moved m₂ p₂).execution.Affords table ahead
          ((run.moved m' p').answered reader wanted).shards := by
    cases hbooked.symm.trans hb
    obtain ⟨hnodup, hneeds⟩ := needsFetch_of_booked hb
    exact affords_of_installed hserves hanswers haffords hnodup hneeds
  cases hmove with
  | full => exact ⟨fun _ => by simp, h⟩
  | broken _ hb => cases hbooked.symm.trans hb
  | row _ hb | exhausted _ hb | again _ hb | noRound _ hb =>
      cases hbooked.symm.trans hb
      exact ⟨fun _ => by simp, haffords⟩
  | idle _ hb _ hrequests => exact absurd hrequests (requests_ne_nil_of_booked hb)
  | noTime _ _ _ _ htime => cases hremaining.symm.trans htime
  | late _ _ _ _ _ hlate =>
      rw [isLate, hremaining] at hlate
      cases hlate
  | refused _ hb _ _ _ _ hi =>
      obtain ⟨m₂, p₂, hinstalled, -⟩ := hround hb
      cases hinstalled.symm.trans hi
  | round _ hb _ _ _ _ hi =>
      obtain ⟨m₂, p₂, hinstalled, haffords'⟩ := hround hb
      cases hinstalled.symm.trans hi
      exact ⟨fun _ => by simp, haffords'⟩

end BatchRun

namespace Execution

variable {reader : ShardReader σ} {table : String}
  {ahead : σ → ShardId → Option Cursor → List Row → Prop} {execution : Execution} {shards : σ}

/-- An execution goes on to afford its rows, in all of its batches. -/
theorem Affords.passes (hserves : reader.Serves table ahead) (hanswers : reader.Answers table ahead)
    (h : execution.Affords table ahead shards) {run : BatchRun σ}
    (hpasses : execution.Passes reader shards run) :
    run.execution.Affords table ahead run.shards := by
  induction hpasses with
  | start => exact h
  | step _ hstep ih =>
      exact (BatchRun.affords_of_moves hserves hanswers ih (BatchRun.moves_of_step hstep)).2
  | batch _ hstep ih =>
      obtain ⟨-, hlast⟩ :=
        BatchRun.affords_of_moves hserves hanswers ih (BatchRun.moves_of_step hstep)
      exact ⟨hlast.unfinished, hlast.table_eq, hlast.ordered, hlast.distinct, hlast.length_eq,
        hlast.tallies, hlast.used_eq, hlast.counted, hlast.sorts, hlast.timeless⟩

/-- **An execution that affords its rows collects them**, if it comes to its end. -/
theorem Affords.collects (hserves : reader.Serves table ahead)
    (hanswers : reader.Answers table ahead) (h : execution.Affords table ahead shards)
    {ended : List (EndedBatch σ)} (hcompletes : execution.Completes reader some shards ended) :
    ∃ rows, execution.Collects reader shards rows := by
  induction hcompletes with
  | @last execution shards budget last reason hsteps hreason =>
      obtain ⟨before, hbefore, hlast⟩ := passes_of_steps .start hsteps
      obtain ⟨hnot, -⟩ := BatchRun.affords_of_moves hserves hanswers
        (h.passes hserves hanswers hbefore) (BatchRun.moves_of_step hlast)
      have hbatch := nextBatch_of_steps h.unfinished hsteps
      cases reason with
      | full => cases hreason rfl
      | failed error => exact absurd rfl (hnot error)
      | exhausted => exact ⟨_, .last hbatch rfl⟩
  | @more execution next shards budget last ended hsteps hnext _ ih =>
      obtain rfl := Option.some.inj hnext
      obtain ⟨before, hbefore, hlast⟩ := passes_of_steps .start hsteps
      have hafter := h.passes hserves hanswers (.batch hbefore hlast)
      have hbatch := nextBatch_of_steps h.unfinished hsteps
      have hopen : (conclude reader last .full).execution.finished = false := hafter.unfinished
      have hresult : (conclude reader last .full).result =
          .ok ⟨last.rows.reverse, (conclude reader last .full).execution.token?⟩ := rfl
      rw [token?_eq hopen] at hresult
      obtain ⟨rows, hrows⟩ := ih hafter
      exact ⟨_, .more hbatch hresult ⟨rfl, rfl, rfl, hopen⟩ hrows⟩

/-! ### Starts -/

/-- A stage that sorts, at its start, still sends on rows of the size of those that come. -/
theorem totalSize_restOfStages {bindings : Bindings} {stage : Stage} {rows out : List Row}
    (hstate : stage.state = .sort .start)
    (h : Pipeline.restOfStages bindings rows [stage] = .ok out) :
    Row.totalSize out = Row.totalSize rows := by
  cases stage with
  | groupBy | distinct | project | slice => cases hstate
  | sort keys mode state =>
      cases hstate
      cases mode <;> cases h
      · rfl
      · exact Stage.totalSize_sortBy keys rows

/-- An execution that only sorts a scan affords its rows at the start if they fit into its account
and it has no limit of time. -/
theorem affords_of_start {engine : Engine} {query : Query} {fresh : Uuid}
    {contents : ShardId → List Row} {keys : List OrderKey} {mode : SortMode} {rows : List Row}
    (htoken : query.token = none) (hstart : start engine query fresh = .ok execution)
    (hsteps : query.plan.steps = [.sort keys mode]) (hordered : query.plan.scan.ordered = true)
    (hcontents : ∀ shard ∈ query.plan.scan.shards, ahead shards shard none (contents shard))
    (hrows : query.plan.rowsOf engine.registry query.bindings contents = .ok rows)
    (htime : execution.options.timeoutMs = none)
    (hroom : Row.totalSize rows ≤ execution.memory.limit) :
    execution.Affords query.plan.scan.table ahead shards := by
  have howes := owes_of_start htoken hstart hordered hcontents hrows
  have hfounded := founded_of_start htoken hstart
  obtain ⟨hmemory, htracked⟩ := memory_of_start htoken hstart
  obtain ⟨hstages, -⟩ := List.append_inj' (states_of_start htoken hstart) rfl
  rw [hsteps] at hstages
  obtain ⟨stage, hstage, hstate⟩ := List.map_eq_singleton_iff.1 hstages
  obtain ⟨lists, hahead, hrest⟩ := howes.rows
  rw [hstage] at hrest
  have hsize := totalSize_restOfStages hstate hrest
  rw [Source.totalSize_rowsOf] at hsize
  refine ⟨howes.unfinished, howes.table, howes.ordered, howes.distinct, hfounded.sound.length_eq,
    (ledger_of_start isTally_eq htoken hstart).tallies, ?_, ?_, ?_, htime⟩
  · rw [htracked, hmemory]
    rfl
  · rw [hmemory]
    exact Nat.min_le_right _ _
  · cases stage with
    | groupBy | distinct | project | slice => cases hstate
    | sort keys mode state =>
        cases hstate
        exact ⟨keys, mode, .start, lists, hstage, hahead, by
          rw [← hsize]
          exact (Nat.zero_add _).symm ▸ hroom⟩

end Execution

/-! ### Merging and sorting -/

/-- The query for the rows of a scan in the order of keys, in one of the ways to sort. -/
def Query.sorting (keys : List OrderKey) (scan : Scan) (bindings : Bindings)
    (options : QueryOptions) (mode : SortMode) : Query :=
  ⟨⟨Plan.currentVersion, [.sort keys mode], scan⟩, bindings, options, none⟩

/-- Both ways to sort mean the same if the shards are sorted. -/
theorem Query.rowsOf_sorting {keys : List OrderKey} {p : Row → Prop} (hkeys : Row.Coherent keys p)
    {scan : Scan} {contents : ShardId → List Row}
    (h : Meaning.AreSorted keys p (scan.shards.map contents)) (registry : Registry)
    (bindings : Bindings) (options : QueryOptions) (mode : SortMode) :
    (Query.sorting keys scan bindings options mode).plan.rowsOf registry bindings contents =
      .ok (Row.sortBy keys (scan.shards.flatMap contents)) := by
  cases mode with
  | materialize => rfl
  | merge => exact congrArg Except.ok (Meaning.merged_eq_sortBy hkeys h)

namespace Execution

variable {reader : ShardReader σ} {ahead : σ → ShardId → Option Cursor → List Row → Prop}
  {shards : σ} {keys : List OrderKey} {scan : Scan} {contents : ShardId → List Row}

/-- **Merging the shards of an ordered scan gives what sorting all of its rows gives**: the one
stable sorting of the rows of the shards in the order of the plan, if the rows of every shard are
sorted under keys without doubles. However the shards cut their rows into pages and the options cut
the run into batches, a run in either way that comes to its end has exactly these rows; and it comes
to its end if the shards answer and come to theirs, no limit of batches is zero, there is no limit
of time and the memory suffices for the rows. -/
theorem merges_as_sorted (hordered : scan.ordered = true) (hserves : reader.Serves scan.table ahead)
    (hcontents : ∀ shard ∈ scan.shards, ahead shards shard none (contents shard))
    (hkeys : ∀ shard ∈ scan.shards, ∀ row ∈ contents shard, row.KeysHold keys fun _ => False)
    (hsorted : ∀ shard ∈ scan.shards,
      (contents shard).Pairwise fun a b => Row.compareBy keys a b ≠ .gt) :
    ∃ rows, Row.StablySorts keys (scan.shards.flatMap contents) rows ∧
      ∀ mode engine bindings options fresh execution,
        start engine (.sorting keys scan bindings options mode) fresh = .ok execution →
        (∀ out, execution.Collects reader shards out → out = rows) ∧
        (reader.Answers scan.table ahead →
          reader.Ends execution.ask shards execution.pipeline.source.places →
          execution.options.Nonzero → execution.options.timeoutMs = none →
          Row.totalSize rows ≤ execution.memory.limit →
          execution.Collects reader shards rows) := by
  have hcoherent := Row.coherent_of_no_doubles keys
  have hlists : Meaning.AreSorted keys (Row.KeysHold keys fun _ => False)
      (scan.shards.map contents) :=
    ⟨List.forall_mem_map.2 hkeys, List.forall_mem_map.2 hsorted⟩
  refine ⟨_, Row.stablySorts_sortBy hcoherent hlists.holds_flatten, ?_⟩
  intro mode engine bindings options fresh execution hstart
  have hrows := Query.rowsOf_sorting hcoherent hlists engine.registry bindings options mode
  have hcollected (out : List Row) (hcollects : execution.Collects reader shards out) :
      out = Row.sortBy keys (scan.shards.flatMap contents) :=
    rows_eq_of_collects rfl hstart hordered hserves hcontents hrows hcollects
  refine ⟨hcollected, fun hanswers hends hcaps htime hroom => ?_⟩
  have haffords : execution.Affords scan.table ahead shards :=
    affords_of_start rfl hstart rfl hordered hcontents hrows htime hroom
  obtain ⟨ended, hcompletes, -⟩ := completes_of_ends hcaps hends
  obtain ⟨out, hcollects⟩ := haffords.collects hserves hanswers hcompletes
  exact hcollected out hcollects ▸ hcollects

/-! ### An example -/

/-- A row with a number and a letter, the letter telling apart rows with equal numbers. -/
def letteredRow (i : Int64) (letter : String) : Row :=
  Row.ofList [("a", .int i), ("b", .string letter)]

/-- A row with a letter only, which comes last under the keys of the example. -/
def letterRow (letter : String) : Row :=
  Row.ofList [("b", .string letter)]

/-- The numbers from the greatest on, and none last. -/
def fallingNumbers : List OrderKey :=
  [⟨"a", true, false⟩]

/-- Two sorted shards with numbers that occur in both, one of them with an empty page. -/
def letteredPages : Recorded where
  answers := [
    (1, [.ok ⟨[letteredRow 3 "p"], some [0]⟩, .ok ⟨[], some [1]⟩,
      .ok ⟨[letteredRow 2 "q", letteredRow 1 "r"], none⟩]),
    (2, [.ok ⟨[letteredRow 2 "s", letteredRow 1 "t", letterRow "u"], none⟩])]

/-- The query for the rows of both shards, sorted in one mode or the other. -/
def letteredQuery : SortMode → Query :=
  .sorting fallingNumbers ⟨"t", [1, 2], true⟩ .empty .standard

/-- The executions of `letteredQuery` at their start, which differ in the mode of the sort and in
the delivery that goes with it. -/
def letteredStart (mode : SortMode) : Execution where
  id := ⟨0⟩
  plan := (letteredQuery mode).plan
  bindings := .empty
  options := ⟨none, none, none, 1024, none, none, .eventual, none, 4⟩
  memory := Memory.ofLimitMb 1024
  pipeline := {
    stages := [.sort fallingNumbers mode .start]
    source :=
      ⟨"t", 1, 2, Pipeline.deliveryOf [.sort fallingNumbers mode] ⟨"t", [1, 2], true⟩ 4,
        [.start 1, .start 2]⟩ }
  elapsedMs := 0
  finished := false

/-- The rows of both shards with the numbers from the greatest on, those of the first shard before
equal ones of the second. -/
def letteredRows : List Row :=
  [letteredRow 3 "p", letteredRow 2 "q", letteredRow 2 "s", letteredRow 1 "r", letteredRow 1 "t",
    letterRow "u"]

/-- Both ways to sort give the same rows, over several pages, with equal keys in both shards and a
row without the key. -/
theorem merges_as_sorted_letters :
    Row.StablySorts fallingNumbers ([1, 2].flatMap letteredPages.contents) letteredRows ∧
      (letteredStart .merge).Collects Recorded.reader letteredPages letteredRows ∧
      (letteredStart .materialize).Collects Recorded.reader letteredPages letteredRows := by
  have hstart (mode : SortMode) :
      start plainEngine (letteredQuery mode) ⟨0⟩ = .ok (letteredStart mode) := by
    cases mode <;> rfl
  have hcontents : ∀ shard ∈ [1, 2], Recorded.aheadComplete letteredPages shard none
      (letteredPages.contents shard) :=
    List.forall_mem_cons.2 ⟨⟨rfl, fun _ _ => nofun⟩, List.forall_mem_singleton.2 ⟨rfl, nofun⟩⟩
  have hkeys : ∀ shard ∈ [1, 2], ∀ row ∈ letteredPages.contents shard,
      row.KeysHold fallingNumbers fun _ => False := by
    have hkey {row : Row} (h : (row.getOrNull "a").Holds fun _ => False) :
        row.KeysHold fallingNumbers fun _ => False := List.forall_mem_singleton.2 h
    refine List.forall_mem_cons.2 ⟨?_, List.forall_mem_singleton.2 ?_⟩
    · exact List.forall_mem_cons.2 ⟨hkey trivial, List.forall_mem_cons.2 ⟨hkey trivial,
        List.forall_mem_singleton.2 (hkey trivial)⟩⟩
    · exact List.forall_mem_cons.2 ⟨hkey trivial, List.forall_mem_cons.2 ⟨hkey trivial,
        List.forall_mem_singleton.2 (hkey trivial)⟩⟩
  have hsorted : ∀ shard ∈ [1, 2], (letteredPages.contents shard).Pairwise
      fun a b => Row.compareBy fallingNumbers a b ≠ .gt :=
    List.forall_mem_cons.2 ⟨by decide +kernel, List.forall_mem_singleton.2 (by decide +kernel)⟩
  obtain ⟨rows, hrows, hmodes⟩ := @merges_as_sorted _ Recorded.reader Recorded.aheadComplete
    letteredPages fallingNumbers ⟨"t", [1, 2], true⟩ letteredPages.contents rfl
    (Recorded.serves_complete "t") hcontents hkeys hsorted
  have hbatch : ((letteredStart .merge).nextBatch Recorded.reader 20 letteredPages).map
      (·.result) = some (.ok ⟨letteredRows, none⟩) := rfl
  obtain ⟨outcome, houtcome, hresult⟩ := Option.map_eq_some_iff.1 hbatch
  obtain rfl : letteredRows = rows :=
    (hmodes _ _ _ _ _ _ (hstart .merge)).1 _ (.last houtcome hresult)
  have hroom : Row.totalSize letteredRows ≤ (Memory.ofLimitMb 1024).limit := by decide +kernel
  have hcollects (mode : SortMode) :
      (letteredStart mode).Collects Recorded.reader letteredPages letteredRows :=
    (hmodes _ _ _ _ _ _ (hstart mode)).2 (Recorded.answers_complete "t")
      (Recorded.ends _ (fun _ => rfl) _ _) ⟨nofun, nofun, nofun⟩ rfl hroom
  exact ⟨hrows, hcollects .merge, hcollects .materialize⟩

end Execution

end ShardQuery
