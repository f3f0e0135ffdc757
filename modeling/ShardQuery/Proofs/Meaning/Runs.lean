import ShardQuery.Proofs.Meaning.Sources
import ShardQuery.Proofs.Opening
import ShardQuery.Proofs.Run
import ShardQuery.Proofs.Shard.Recorded

/-!
# Executions Compute the Meaning of Plans

An execution *owes* the rows that its pipeline makes of what its source still delivers. A
tick pays its row off, a round of requests and the end of a batch leave what is owed. So an
execution that comes to its end has given the rows that it owed at the start, which are those
of the plan, however its run was cut into batches.

## Main results

* `Pipeline.yields_of_tick`: one tick of a pipeline.
* `BatchRun.owes_of_moves`: one step of a batch.
* `Execution.owes_of_start`: what is owed at the start.
* `Execution.rows_eq_of_collects`: the rows of all batches are those of the plan.
-/

namespace ShardQuery

variable {σ : Type}

namespace Pipeline

/-- What stages still send on, given the rows that are still delivered to the innermost. -/
def restOfStages (bindings : Bindings) (rows : List Row) :
    List Stage → Except QueryError (List Row)
  | [] => .ok rows
  | stage :: inner => do stage.rest bindings (← restOfStages bindings rows inner)

/-- Whether rows are what a pipeline still sends on. -/
def Owes (bindings : Bindings) (ahead : ShardId → Option Cursor → List Row → Prop)
    (pipeline : Pipeline) (rows : List Row) : Prop :=
  ∃ lists, pipeline.source.Ahead ahead lists ∧
    restOfStages bindings (pipeline.source.delivery.rowsOf lists) pipeline.stages = .ok rows

variable {bindings : Bindings} {ahead : ShardId → Option Cursor → List Row → Prop}

/-- The signals of a pipeline are the rows that it still sends on. If it wants to ask shards,
they are different ones that have to be asked. -/
theorem yields_of_tickStages {source : Source} {stages : List Stage} {lists : List (List Row)}
    {signal : Signal} {out : List Row} (hordered : ∀ n, source.delivery ≠ .anyOrder n)
    (hahead : source.Ahead ahead lists)
    (hsignal : (tickStages bindings source stages).result = .ok signal)
    (hrest : restOfStages bindings (source.delivery.rowsOf lists) stages = .ok out) :
    ∃ out', (tickStages bindings source stages).state.Owes bindings ahead out' ∧
      source.SameScan (tickStages bindings source stages).state.source ∧
      signal.Yields out out' ∧
      ∀ wanted, signal = .fetch wanted → wanted.Nodup ∧ ∀ index ∈ wanted,
        ∃ progress, (tickStages bindings source stages).state.source.shards[index]? =
          some progress ∧ progress.needsFetch = true := by
  induction stages generalizing signal out with
  | nil =>
      cases hrest
      obtain ⟨lists', hyields⟩ := Source.yields_of_next hordered hahead hsignal
      refine ⟨_, ⟨lists', hyields.ahead, rfl⟩, hyields.scan, ?_, fun _ => hyields.wanted⟩
      rw [tickStages, Metered.within_state]
      simp only
      rw [← hyields.scan.delivery]
      exact hyields.rows
  | cons stage inner ih =>
      obtain ⟨rows, hrows, hstage⟩ := bind_eq_ok_iff.1 hrest
      cases tickStages_inv hsignal with
      | own hready hown hnext =>
          have hready := ready?_of_result hready hown
          obtain ⟨out', hout', hyields⟩ := Stage.yields_of_ready hready hown hstage
          rw [hnext]
          refine ⟨out', ⟨lists, hahead, ?_⟩, .refl source, hyields, ?_⟩
          · exact bind_eq_ok_iff.2 ⟨rows, hrows, hout'⟩
          · rintro wanted rfl
            exact absurd hown (Stage.ne_fetch_of_ready hready wanted)
      | passed hready hbelow hpass hnext =>
          obtain ⟨rows', ⟨lists', hahead', hrows'⟩, hscan, hyields, hwanted⟩ := ih hbelow hrows
          obtain ⟨out', hout', hyields'⟩ :=
            Stage.yields_of_pass (ready?_of_readyOver? hready) hyields hpass hstage
          rw [hnext]
          refine ⟨out', ⟨lists', hahead', ?_⟩, hscan, hyields', ?_⟩
          · exact bind_eq_ok_iff.2 ⟨rows', hrows', hout'⟩
          · rintro wanted rfl
            exact hwanted wanted (Stage.eq_fetch_of_pass hpass)

/-- The signals of a pipeline are the rows that it still sends on. -/
theorem yields_of_tick {pipeline : Pipeline} {signal : Signal} {out : List Row}
    (hordered : ∀ n, pipeline.source.delivery ≠ .anyOrder n)
    (howes : pipeline.Owes bindings ahead out)
    (hsignal : (pipeline.tick bindings).result = .ok signal) :
    ∃ out', (pipeline.tick bindings).state.Owes bindings ahead out' ∧
      pipeline.source.SameScan (pipeline.tick bindings).state.source ∧
      signal.Yields out out' ∧
      ∀ wanted, signal = .fetch wanted → wanted.Nodup ∧ ∀ index ∈ wanted,
        ∃ progress, (pipeline.tick bindings).state.source.shards[index]? = some progress ∧
          progress.needsFetch = true := by
  obtain ⟨lists, hahead, hrest⟩ := howes
  exact yields_of_tickStages hordered hahead hsignal hrest

end Pipeline

/-! ### Steps -/

/-- Whether an open execution owes rows, read from a table in a state of the shards. -/
structure Execution.Owes (table : String)
    (ahead : σ → ShardId → Option Cursor → List Row → Prop) (execution : Execution) (shards : σ)
    (rows : List Row) : Prop where
  /-- The execution goes on. -/
  unfinished : execution.finished = false
  /-- The rows come from the table. -/
  table : execution.plan.scan.table = table
  /-- They come in order. -/
  ordered (n : Nat) : execution.pipeline.source.delivery ≠ .anyOrder n
  /-- No shard is read twice. -/
  distinct : (execution.pipeline.source.shards.map (·.shard)).Nodup
  /-- The pipeline still sends the rows on. -/
  rows : execution.pipeline.Owes execution.bindings (ahead shards) rows

namespace BatchRun

open Execution

variable {reader : ShardReader σ} {table : String}
  {ahead : σ → ShardId → Option Cursor → List Row → Prop}

/-- A booked tick pays its row off: a row that it sends on is the first that was owed, and it asks
only shards that have to be asked. -/
theorem owes_of_booked {run : BatchRun σ} {out : List Row} {m : Memory} {p : Pipeline}
    {signal : Signal} (howes : run.execution.Owes table ahead run.shards out)
    (hb : run.booked = (m, p, .ok signal)) :
    ∃ out', (run.moved m p).execution.Owes table ahead run.shards out' ∧
      signal.Yields out out' ∧
      ∀ wanted, signal = .fetch wanted → wanted.Nodup ∧ ∀ index ∈ wanted,
        ∃ progress, p.source.shards[index]? = some progress ∧ progress.needsFetch = true := by
  obtain ⟨-, rfl, hsignal⟩ := Metered.run_eq_ok_iff.1 hb
  obtain ⟨out', hrows, hscan, hyields, hwanted⟩ :=
    Pipeline.yields_of_tick howes.ordered howes.rows hsignal
  refine ⟨out', ⟨howes.unfinished, howes.table, ?_, ?_, hrows⟩, hyields, hwanted⟩
  · exact fun n => hscan.delivery ▸ howes.ordered n
  · exact hscan.shards ▸ howes.distinct

/-- The answers of a round, all of them taken in, leave the rows that are still delivered, and do
not touch the stages. -/
theorem ahead_of_installed (hserves : reader.Serves table ahead) {run : BatchRun σ}
    {lists : List (List Row)} {m : Memory} {p : Pipeline} {wanted : List Nat}
    (htable : run.execution.plan.scan.table = table)
    (hdistinct : (run.execution.pipeline.source.shards.map (·.shard)).Nodup)
    (hahead : run.execution.pipeline.source.Ahead (ahead run.shards) lists)
    (hnodup : wanted.Nodup)
    (hwanted : ∀ index ∈ wanted, ∃ progress,
      run.execution.pipeline.source.shards[index]? = some progress ∧ progress.needsFetch = true)
    (hi : run.installed reader wanted = (m, p, .ok ())) :
    p.source.Ahead (ahead (run.answered reader wanted).shards) lists ∧
      run.execution.pipeline.source.SameScan p.source ∧
      p.stages = run.execution.pipeline.stages := by
  obtain ⟨-, rfl, hresult⟩ := Metered.run_eq_ok_iff.1 hi
  have hrequest (progress : ShardProgress) :
      (run.execution.request progress).table = table ∧
        (run.execution.request progress).shard = progress.shard ∧
        (run.execution.request progress).cursor = progress.cursor := ⟨htable, rfl, rfl⟩
  obtain ⟨hahead', hscan⟩ := Source.ahead_of_round hserves hrequest hahead hdistinct hnodup
    hwanted hresult
  exact ⟨hahead', hscan, rfl⟩

/-- The answers of a round, all of them taken in, leave what is owed. -/
theorem owes_of_installed (hserves : reader.Serves table ahead) {run : BatchRun σ}
    {out : List Row} {m : Memory} {p : Pipeline} {wanted : List Nat}
    (howes : run.execution.Owes table ahead run.shards out) (hnodup : wanted.Nodup)
    (hwanted : ∀ index ∈ wanted, ∃ progress,
      run.execution.pipeline.source.shards[index]? = some progress ∧ progress.needsFetch = true)
    (hi : run.installed reader wanted = (m, p, .ok ())) :
    ((run.answered reader wanted).moved m p).execution.Owes table ahead
      (run.answered reader wanted).shards out := by
  obtain ⟨lists, hahead, hrest⟩ := howes.rows
  obtain ⟨hahead', hscan, hstages⟩ :=
    ahead_of_installed hserves howes.table howes.distinct hahead hnodup hwanted hi
  refine ⟨howes.unfinished, howes.table, ?_, ?_, lists, hahead', ?_⟩
  · exact fun n => hscan.delivery ▸ howes.ordered n
  · exact hscan.shards ▸ howes.distinct
  · exact hstages ▸ hscan.delivery ▸ hrest

/-- One step of a batch leaves what it has sent on and what is still owed, taken together. At
the end of the rows nothing is owed. -/
theorem owes_of_moves (hserves : reader.Serves table ahead) {run next : BatchRun σ}
    {reason : Option BatchEnd} {out : List Row}
    (howes : run.execution.Owes table ahead run.shards out)
    (hmove : Moves reader run next reason) (hreason : ∀ error, reason ≠ some (.failed error)) :
    ∃ out', next.execution.Owes table ahead next.shards out' ∧
      run.rows.reverse ++ out = next.rows.reverse ++ out' ∧
      (reason = some .exhausted → out' = []) := by
  cases hmove with
  | full => exact ⟨out, howes, rfl, nofun⟩
  | broken | idle | noTime | late | refused => exact absurd rfl (hreason _)
  | row _ hb =>
      obtain ⟨out', howes', rfl, -⟩ := owes_of_booked howes hb
      refine ⟨out', howes', ?_, nofun⟩
      simp only [List.reverse_cons, List.append_assoc, List.singleton_append]
  | exhausted _ hb =>
      obtain ⟨out', howes', ⟨rfl, rfl⟩, -⟩ := owes_of_booked howes hb
      exact ⟨[], howes', rfl, fun _ => rfl⟩
  | again _ hb =>
      obtain ⟨out', howes', rfl, -⟩ := owes_of_booked howes hb
      exact ⟨_, howes', rfl, nofun⟩
  | noRound _ hb =>
      obtain ⟨out', howes', rfl, -⟩ := owes_of_booked howes hb
      exact ⟨_, howes', rfl, nofun⟩
  | round _ hb _ _ _ _ hi =>
      obtain ⟨out', howes', rfl, hwanted⟩ := owes_of_booked howes hb
      obtain ⟨hnodup, hneeds⟩ := hwanted _ rfl
      exact ⟨_, owes_of_installed hserves howes' hnodup hneeds hi, rfl, nofun⟩

/-- All steps of a batch leave what it has sent on and what is still owed, taken together. -/
theorem owes_of_steps (hserves : reader.Serves table ahead) {budget : Nat}
    {run last : BatchRun σ} {reason : BatchEnd} {out : List Row}
    (howes : run.execution.Owes table ahead run.shards out)
    (h : run.steps reader budget = some (last, reason))
    (hreason : ∀ error, reason ≠ .failed error) :
    ∃ out', last.execution.Owes table ahead last.shards out' ∧
      run.rows.reverse ++ out = last.rows.reverse ++ out' ∧ (reason = .exhausted → out' = []) := by
  obtain ⟨before, ⟨middle, howes', hrows⟩, hlast⟩ := last_move_of_steps
    (P := fun next => ∃ out', next.execution.Owes table ahead next.shards out' ∧
      run.rows.reverse ++ out = next.rows.reverse ++ out')
    (by
      rintro before next ⟨middle, howes', hrows⟩ hmove
      obtain ⟨out', howes', hrows', -⟩ := owes_of_moves hserves howes' hmove (by simp)
      exact ⟨out', howes', hrows.trans hrows'⟩)
    ⟨out, howes, rfl⟩ h
  obtain ⟨out', howes', hrows', hend⟩ := owes_of_moves hserves howes' hlast
    fun error heq => hreason error (Option.some.inj heq)
  exact ⟨out', howes', hrows.trans hrows', fun heq => hend (congrArg some heq)⟩

end BatchRun

/-! ### Runs -/

namespace Execution

/-- The rows of all batches of an execution up to its last one. Every batch may be made under
options of its own. -/
inductive Collects (reader : ShardReader σ) : Execution → σ → List Row → Prop
  /-- The last batch. -/
  | last {execution : Execution} {shards : σ} {budget : Nat} {outcome : BatchOutcome σ}
      {rows : List Row} :
      execution.nextBatch reader budget shards = some outcome →
      outcome.result = .ok ⟨rows, none⟩ → Collects reader execution shards rows
  /-- A batch, and those that come after it. -/
  | more {execution next : Execution} {shards : σ} {budget : Nat} {outcome : BatchOutcome σ}
      {rows others : List Row} {token : Token} :
      execution.nextBatch reader budget shards = some outcome →
      outcome.result = .ok ⟨rows, some token⟩ → outcome.execution.Continues next →
      Collects reader next outcome.shards others →
      Collects reader execution shards (rows ++ others)

variable {reader : ShardReader σ} {table : String}
  {ahead : σ → ShardId → Option Cursor → List Row → Prop}

/-- Going on under other options leaves what is owed as it is, since the pipeline and the variables
stay the same. -/
theorem Owes.continues {execution next : Execution} {shards : σ} {rows : List Row}
    (h : execution.Owes table ahead shards rows) (hnext : execution.Continues next) :
    next.Owes table ahead shards rows := by
  obtain ⟨hplan, hbindings, hpipeline, hunfinished⟩ := hnext
  refine ⟨hunfinished, hplan ▸ h.table, ?_, ?_, ?_⟩ <;> rw [hpipeline]
  · exact h.ordered
  · exact h.distinct
  · exact hbindings ▸ h.rows

/-- A batch without an error gives the first of the rows that are owed. The last one gives
all of them, and after any other the rest of them is owed. -/
theorem owes_of_nextBatch (hserves : reader.Serves table ahead) {execution : Execution}
    {shards : σ} {budget : Nat} {outcome : BatchOutcome σ} {out : List Row} {batch : Batch}
    (howes : execution.Owes table ahead shards out)
    (h : execution.nextBatch reader budget shards = some outcome)
    (hresult : outcome.result = .ok batch) :
    (batch.token = none ∧ out = batch.rows) ∨
      ∃ out', batch.token ≠ none ∧ out = batch.rows ++ out' ∧
        outcome.execution.Owes table ahead outcome.shards out' := by
  obtain ⟨hfinished, -⟩ | ⟨-, last, reason, hs, rfl⟩ := ended_of_nextBatch h
  · cases howes.unfinished.symm.trans hfinished
  cases reason with
  | failed error => cases hresult
  | exhausted =>
      obtain ⟨out', -, hrows, hend⟩ := BatchRun.owes_of_steps hserves howes hs (by simp)
      cases hresult
      refine .inl ⟨rfl, ?_⟩
      rw [hend rfl, List.append_nil] at hrows
      exact hrows
  | full =>
      obtain ⟨out', howes', hrows, -⟩ := BatchRun.owes_of_steps hserves howes hs (by simp)
      cases hresult
      refine .inr ⟨out', ?_, hrows, ?_⟩
      · simp [token?, howes'.unfinished]
      · exact ⟨howes'.unfinished, howes'.table, howes'.ordered, howes'.distinct, howes'.rows⟩

/-- An execution that comes to its end without an error has given what it owed. -/
theorem eq_of_collects (hserves : reader.Serves table ahead) {execution : Execution}
    {shards : σ} {rows out : List Row} (h : execution.Collects reader shards out)
    (howes : execution.Owes table ahead shards rows) : out = rows := by
  induction h generalizing rows with
  | last hbatch hresult =>
      obtain ⟨-, rfl⟩ | ⟨_, htoken, -⟩ := owes_of_nextBatch hserves howes hbatch hresult
      · rfl
      · exact absurd rfl htoken
  | more hbatch hresult hnext _ ih =>
      obtain ⟨htoken, -⟩ | ⟨out', -, rfl, howes'⟩ :=
        owes_of_nextBatch hserves howes hbatch hresult
      · cases htoken
      · rw [ih (howes'.continues hnext)]

/-! ### The start -/

/-- At the start, stages still send on the rows of their steps. -/
theorem restOfStages_of_opened {bindings : Bindings} {openSource : List ShardProgress → Source}
    {steps : List CompiledStep} {states : List NodeState} {pipeline : Pipeline}
    {rows out : List Row} (h : Pipeline.Opened bindings openSource steps states pipeline)
    (hstart : ∀ state ∈ states,
      (∃ step : Step, state = step.startState) ∨ ∃ shards, state = .receive shards)
    (hrows : rowsOfSteps bindings rows steps = .ok out) :
    Pipeline.restOfStages bindings rows pipeline.stages = .ok out := by
  induction h generalizing out with
  | source shards => exact hrows
  | @stage step state stage steps states inner hopen hinner ih =>
      obtain ⟨hhere, hothers⟩ := List.forall_mem_cons.1 hstart
      obtain ⟨rows', hrows', hout⟩ := bind_eq_ok_iff.1 hrows
      refine bind_eq_ok_iff.2 ⟨rows', ih hothers hrows', ?_⟩
      obtain ⟨step', rfl⟩ | ⟨shards, rfl⟩ := hhere
      · exact Stage.rest_of_start hopen hout
      · cases step <;> cases hopen

/-- The delivery that is chosen for a scan gives the rows on which the meaning of the plan rests:
merged under a merging sort, and shard by shard otherwise. -/
theorem rowsOf_deliveryOf (steps : List CompiledStep) (scan : Scan) (fanOut : Nat)
    (lists : List (List Row)) :
    (Pipeline.deliveryOf steps scan fanOut).rowsOf lists = rowsOfScan steps lists := by
  unfold Pipeline.deliveryOf
  split
  · next keys hlast =>
      rw [rowsOfScan, hlast]
      rfl
  · next hlast =>
      have hflatten : rowsOfScan steps lists = lists.flatten := by
        unfold rowsOfScan
        split
        · next keys hmerge => exact absurd hmerge (hlast keys)
        · rfl
      rw [hflatten]
      split <;> rfl

/-- Ordered scans are never read in any order, so their rows are determined by the shards alone. -/
theorem deliveryOf_ne_anyOrder (steps : List CompiledStep) {scan : Scan}
    (hordered : scan.ordered = true) (fanOut n : Nat) :
    Pipeline.deliveryOf steps scan fanOut ≠ .anyOrder n := by
  unfold Pipeline.deliveryOf
  split
  · nofun
  · rw [if_pos hordered]
    nofun

/-- At the start, all rows of all shards are still to come. -/
theorem ahead_of_start {engine : Engine} {query : Query} {fresh : Uuid} {execution : Execution}
    {shards : σ} {contents : ShardId → List Row} (htoken : query.token = none)
    (hstart : start engine query fresh = .ok execution)
    (hcontents : ∀ shard ∈ query.plan.scan.shards, ahead shards shard none (contents shard)) :
    execution.pipeline.source.Ahead (ahead shards) (query.plan.scan.shards.map contents) := by
  refine Source.ahead_of_forall₂ ?_
  rw [shards_of_start htoken hstart, List.forall₂_map_left_iff, List.forall₂_map_right_iff,
    List.forall₂_same]
  exact fun shard hmem => ⟨contents shard, rfl, hcontents shard hmem⟩

/-- At the start, the rows of the plan are owed. -/
theorem owes_of_start {engine : Engine} {query : Query} {fresh : Uuid} {execution : Execution}
    {shards : σ} {contents : ShardId → List Row} {rows : List Row} (htoken : query.token = none)
    (hstart : start engine query fresh = .ok execution)
    (hordered : query.plan.scan.ordered = true)
    (hcontents : ∀ shard ∈ query.plan.scan.shards, ahead shards shard none (contents shard))
    (hrows : query.plan.rowsOf engine.registry query.bindings contents = .ok rows) :
    execution.Owes query.plan.scan.table ahead shards rows := by
  obtain ⟨steps, hstarted⟩ := exists_started_of_start htoken hstart
  have hdelivery : execution.pipeline.source.delivery =
      Pipeline.deliveryOf steps query.plan.scan execution.options.maxFanOut := by
    obtain ⟨_, -, hsource⟩ := hstarted.openedNodes.source_eq
    rw [hsource, Scan.source]
  obtain ⟨steps', hsteps', hrows'⟩ := bind_eq_ok_iff.1 hrows
  cases hstarted.compile.symm.trans (mapError_eq_ok_iff.1 hsteps')
  refine ⟨hstarted.finished_eq, by rw [hstarted.plan_eq], ?_, nodup_shards_of_start htoken hstart,
    query.plan.scan.shards.map contents, ahead_of_start htoken hstart hcontents, ?_⟩
  · rw [hdelivery]
    exact deliveryOf_ne_anyOrder steps hordered _
  · rw [hdelivery, hstarted.bindings_eq]
    refine restOfStages_of_opened hstarted.openedNodes ?_ ?_
    · intro state hstate
      rcases List.mem_append.1 hstate with hmem | hmem
      · obtain ⟨step, -, rfl⟩ := List.mem_map.1 hmem
        exact .inl ⟨step, rfl⟩
      · exact .inr ⟨_, List.mem_singleton.1 hmem⟩
    · rw [rowsOf_deliveryOf]
      exact hrows'

/-- **Executions compute the meaning of plans.** If the shards of an ordered scan serve their
rows in order, in whatever pages, and no expression and no aggregate of the plan fails on
them, then an execution that comes to its last batch without an error has given exactly the
rows of the plan, whatever the options of its batches. -/
theorem rows_eq_of_collects {engine : Engine} {query : Query} {fresh : Uuid}
    {execution : Execution} {shards : σ} {contents : ShardId → List Row} {rows out : List Row}
    (htoken : query.token = none) (hstart : start engine query fresh = .ok execution)
    (hordered : query.plan.scan.ordered = true)
    (hserves : reader.Serves query.plan.scan.table ahead)
    (hcontents : ∀ shard ∈ query.plan.scan.shards, ahead shards shard none (contents shard))
    (hrows : query.plan.rowsOf engine.registry query.bindings contents = .ok rows)
    (hcollects : execution.Collects reader shards out) : out = rows :=
  eq_of_collects hserves hcollects (owes_of_start htoken hstart hordered hcontents hrows)

/-! ### An example -/

/-- A row with one number, which is both what is sorted by and what makes a row different. -/
def numberRow (i : Int64) : Row :=
  Row.ofList [("a", .int i)]

/-- A query for the different numbers of two sorted shards. -/
def differentNumbers : Query where
  plan := ⟨Plan.currentVersion,
    [.distinct ["a"] .adjacent, .sort [⟨"a", false, false⟩] .merge], ⟨"t", [1, 2], true⟩⟩
  bindings := .empty
  options := .standard
  token := none

/-- Two shards with numbers, one of them with an empty page. -/
def numberPages : Recorded where
  answers := [
    (1, [.ok ⟨[numberRow 1], some [0]⟩, .ok ⟨[], some [1]⟩, .ok ⟨[numberRow 3], none⟩]),
    (2, [.ok ⟨[numberRow 1, numberRow 2], none⟩])]

/-- The execution of `differentNumbers` at its start, under the usual settings. -/
def differentNumbersStart : Execution where
  id := ⟨0⟩
  plan := differentNumbers.plan
  bindings := .empty
  options := ⟨none, none, none, 1024, none, none, .eventual, none, 4⟩
  memory := Memory.ofLimitMb 1024
  pipeline := {
    stages := [.distinct ["a"] .adjacent .start, .sort [⟨"a", false, false⟩] .merge .start]
    source :=
      ⟨"t", 2, 2, .merged [⟨"a", false, false⟩], [ShardProgress.start 1, ShardProgress.start 2]⟩ }
  elapsedMs := 0
  finished := false

/-- The pages of both shards are merged, and a number that comes twice is sent on once. -/
theorem collects_numberPages :
    differentNumbersStart.Collects Recorded.reader numberPages
        [numberRow 1, numberRow 2, numberRow 3] ∧
      differentNumbers.plan.rowsOf ⟨"", []⟩ .empty (Recorded.contents numberPages) =
        .ok [numberRow 1, numberRow 2, numberRow 3] := by
  have hstart : start ⟨.standard, ⟨"", []⟩⟩ differentNumbers ⟨0⟩ = .ok differentNumbersStart := rfl
  have hbatch : (differentNumbersStart.nextBatch Recorded.reader 20 numberPages).map (·.result) =
      some (.ok ⟨[numberRow 1, numberRow 2, numberRow 3], none⟩) := rfl
  obtain ⟨outcome, houtcome, hresult⟩ := Option.map_eq_some_iff.1 hbatch
  obtain ⟨rows, hrows⟩ : ∃ rows, differentNumbers.plan.rowsOf ⟨"", []⟩ .empty
      (Recorded.contents numberPages) = .ok rows := ⟨_, rfl⟩
  have hcollects := Collects.last houtcome hresult
  have heq := rows_eq_of_collects rfl hstart rfl (Recorded.serves "t") (fun _ _ => rfl) hrows
    hcollects
  exact ⟨hcollects, heq ▸ hrows⟩

end Execution

end ShardQuery
