import ShardQuery.Proofs.Meaning.Runs
import ShardQuery.Proofs.Pagination.Dues
import ShardQuery.Proofs.Resume.Chain
import ShardQuery.Proofs.Resume.Genuine
import ShardQuery.Proofs.Shard.InMemory

/-!
# Pagination Equivalence

The limit of a query goes into the requests to its shards. So it changes the pages, and with them
the order in which the rows of several shards arrive. A query of rowwise steps gives the images of
all rows all the same: the rows of all of its batches are the same ones, but for their order,
whatever the limit is and whatever the pages are. Steps that group rows, drop repeated rows or cut
rows off go by the order of arrival, and with them the limit decides which rows are given.

Main definitions:

* `imagesOfSteps` — what rowwise steps make of rows;
* `Execution.Due` — what an open execution still gives;
* `Engine.Returns` — the rows of all batches of a query over tables in memory.

## Main results

* `BatchRun.due_of_moves`: one step of a batch.
* `Execution.due_of_token`: a resumption.
* `Engine.images_of_collectFrom`: all batches of a query.
* `Engine.perm_of_returns`: the same rows are given whatever the limit is.
* `Engine.limit_matters`: the limit matters if a step goes by the order of arrival.
-/

namespace ShardQuery

variable {σ : Type}

open Image

/-! ### Rowwise steps -/

/-- Whether steps of a kind are rowwise: those that send on every row, in whatever order and with
whatever fields, and look at no others for it. -/
def NodeKind.IsRowwise (kind : NodeKind) : Prop :=
  kind = .sort ∨ kind = .project

/-- What a rowwise step makes of images: a projection computes each of them anew, and a sort changes
only their order, which multisets do not have. -/
def CompiledStep.imagesOf (bindings : Bindings) (images : Multiset Image) :
    CompiledStep → Multiset Image
  | .project fields => images.map (· >>= Meaning.projected bindings fields)
  | .sort .. | .groupBy .. | .distinct .. | .slice .. => images

/-- What rowwise steps make of rows, the outermost step first. -/
def imagesOfSteps (bindings : Bindings) (rows : List Row) : List CompiledStep → Multiset Image
  | [] => ofRows rows
  | step :: inner => step.imagesOf bindings (imagesOfSteps bindings rows inner)

/-- At the start a rowwise stage holds nothing, and its dues are the images that its step makes. -/
theorem Stage.due_of_start {registry : Registry} {bindings : Bindings} {step : Step}
    {compiled : CompiledStep} {stage : Stage} (hcompile : step.compile registry = .ok compiled)
    (hopen : Pipeline.openStage? bindings compiled step.startState = some (.ok stage))
    (hkind : step.kind.IsRowwise) (hplain : ∀ e ∈ step.exprs, e.IsPlain) :
    stage.IsRowwise ∧ ∀ below, due bindings below stage = compiled.imagesOf bindings below := by
  cases step with
  | sort keys mode =>
      cases hcompile
      cases hopen
      refine ⟨nofun, fun below => ?_⟩
      cases mode with
      | merge => rfl
      | materialize => exact zero_add below
  | project fields =>
      obtain ⟨formulas, hformulas, heq⟩ := bind_eq_ok_iff.1 hcompile
      cases heq
      cases hopen
      refine ⟨fun formula hmem => ?_, fun below => rfl⟩
      obtain ⟨field, hfield, hformula⟩ :=
        exists_of_forall₂ (mapM_eq_ok_iff.1 hformulas).flip hmem
      obtain ⟨inner, hinner, heq⟩ := bind_eq_ok_iff.1 hformula
      cases heq
      exact Formula.isPlain_of_compile (hplain field.expr (List.mem_map_of_mem hfield)) hinner
  | groupBy | distinct | slice => exact absurd hkind (by simp [Step.kind, NodeKind.IsRowwise])

/-- At the start the dues of a pipeline are the images that its steps make. -/
theorem Pipeline.Opened.due_of_start {registry : Registry} {bindings : Bindings}
    {openSource : List ShardProgress → Source} {steps : List Step} {compiled : List CompiledStep}
    {shards : List ShardProgress} {pipeline : Pipeline}
    (hopened : Opened bindings openSource compiled
      (steps.map Step.startState ++ [.receive shards]) pipeline)
    (hcompile : compileSteps registry steps = .ok compiled)
    (hkinds : ∀ step ∈ steps, step.kind.IsRowwise)
    (hplain : ∀ step ∈ steps, ∀ e ∈ step.exprs, e.IsPlain) (rows : List Row) :
    (∀ stage ∈ pipeline.stages, stage.IsRowwise) ∧
      dueOfStages bindings rows pipeline.stages = imagesOfSteps bindings rows compiled := by
  rw [compileSteps_eq_ok_iff] at hcompile
  induction hcompile generalizing pipeline with
  | nil =>
      cases hopened
      exact ⟨nofun, rfl⟩
  | cons hstep _ ih =>
      cases hopened with
      | stage hstage hinner =>
          obtain ⟨hkind, hkinds⟩ := List.forall_mem_cons.1 hkinds
          obtain ⟨hexprs, hplain⟩ := List.forall_mem_cons.1 hplain
          obtain ⟨hrowwise, hdue⟩ := Stage.due_of_start hstep hstage hkind hexprs
          obtain ⟨hrowwise', hdues⟩ := ih hinner hkinds hplain
          refine ⟨List.forall_mem_cons.2 ⟨hrowwise, hrowwise'⟩, ?_⟩
          exact (hdue _).trans (congrArg (CompiledStep.imagesOf bindings · _) hdues)

/-! ### Steps of batches -/

/-- Whether images are what an open execution still gives, read from a table in a state of the
shards. -/
structure Execution.Due (table : String)
    (ahead : σ → ShardId → Option Cursor → List Row → Prop) (execution : Execution) (shards : σ)
    (images : Multiset Image) : Prop where
  /-- The execution goes on. -/
  unfinished : execution.finished = false
  /-- The rows come from the table. -/
  table : execution.plan.scan.table = table
  /-- Shards can be asked. -/
  fair : execution.pipeline.source.delivery ≠ .anyOrder 0
  /-- No shard is read twice. -/
  distinct : (execution.pipeline.source.shards.map (·.shard)).Nodup
  /-- The variables are plain. -/
  plain : execution.bindings.IsPlain
  /-- The pipeline still sends on rows with these images. -/
  images : execution.pipeline.Due execution.bindings (ahead shards) images

/-- Over a tick, the source of a pipeline goes on with the same scan. -/
theorem Pipeline.sameScan_tick (bindings : Bindings) (pipeline : Pipeline) :
    pipeline.source.SameScan (pipeline.tick bindings).state.source := by
  obtain heq | heq := source_tickStages bindings pipeline.source pipeline.stages
  · rw [tick, heq]
    exact .refl _
  · rw [tick, heq]
    exact pipeline.source.sameScan_next

namespace BatchRun

open Execution

variable {reader : ShardReader σ} {table : String}
  {ahead : σ → ShardId → Option Cursor → List Row → Prop}

/-- A booked tick is taken off the dues: a row that is sent on was among them, and nothing else
goes. -/
theorem due_of_booked {run : BatchRun σ} {images : Multiset Image} {m : Memory} {p : Pipeline}
    {signal : Signal} (hdue : run.execution.Due table ahead run.shards images)
    (hb : run.booked = (m, p, .ok signal)) :
    ∃ images', (run.moved m p).execution.Due table ahead run.shards images' ∧
      signal.Pays images images' := by
  obtain ⟨-, rfl, hsignal⟩ := Metered.run_eq_ok_iff.1 hb
  obtain ⟨images', himages, hpays⟩ :=
    Pipeline.pays_of_tickStages hdue.plain hdue.fair hdue.images hsignal
  have hscan := run.execution.pipeline.sameScan_tick run.execution.bindings
  refine ⟨images', ⟨hdue.unfinished, hdue.table, ?_, ?_, hdue.plain, himages⟩, hpays⟩
  · exact hscan.delivery ▸ hdue.fair
  · exact hscan.shards ▸ hdue.distinct

/-- The answers of a round, all of them taken in, leave the dues. -/
theorem due_of_installed (hserves : reader.Serves table ahead) {run : BatchRun σ}
    {images : Multiset Image} {m : Memory} {p : Pipeline} {wanted : List Nat}
    (hdue : run.execution.Due table ahead run.shards images) (hnodup : wanted.Nodup)
    (hwanted : ∀ index ∈ wanted, ∃ progress,
      run.execution.pipeline.source.shards[index]? = some progress ∧ progress.needsFetch = true)
    (hi : run.installed reader wanted = (m, p, .ok ())) :
    ((run.answered reader wanted).moved m p).execution.Due table ahead
      (run.answered reader wanted).shards images := by
  obtain ⟨hrowwise, lists, hahead, hplain, hdues⟩ := hdue.images
  obtain ⟨hahead', hscan, hstages⟩ :=
    ahead_of_installed hserves hdue.table hdue.distinct hahead hnodup hwanted hi
  refine ⟨hdue.unfinished, hdue.table, ?_, ?_, hdue.plain, ?_, lists, hahead', hplain, ?_⟩
  · exact hscan.delivery ▸ hdue.fair
  · exact hscan.shards ▸ hdue.distinct
  · exact hstages ▸ hrowwise
  · exact hstages ▸ hdues

/-- One step of a batch leaves what it has sent on and what is still due, taken together. At the
end of the rows nothing is due. -/
theorem due_of_moves (hserves : reader.Serves table ahead) {run next : BatchRun σ}
    {reason : Option BatchEnd} {images : Multiset Image}
    (hdue : run.execution.Due table ahead run.shards images)
    (hmove : Moves reader run next reason) (hreason : ∀ error, reason ≠ some (.failed error)) :
    ∃ images', next.execution.Due table ahead next.shards images' ∧
      ofRows run.rows + images = ofRows next.rows + images' ∧
      (reason = some .exhausted → images' = 0) := by
  cases hmove with
  | full => exact ⟨images, hdue, rfl, nofun⟩
  | broken | idle | noTime | late | refused => exact absurd rfl (hreason _)
  | row _ hb =>
      obtain ⟨images', hdue', rfl⟩ := due_of_booked hdue hb
      refine ⟨images', hdue', ?_, nofun⟩
      rw [Multiset.add_cons, ofRows_cons, Multiset.cons_add]
  | exhausted _ hb =>
      obtain ⟨images', hdue', rfl, rfl⟩ := due_of_booked hdue hb
      exact ⟨0, hdue', rfl, fun _ => rfl⟩
  | again _ hb | noRound _ hb =>
      obtain ⟨images', hdue', rfl⟩ := due_of_booked hdue hb
      exact ⟨_, hdue', rfl, nofun⟩
  | round _ hb _ _ _ _ hi =>
      obtain ⟨images', hdue', rfl⟩ := due_of_booked hdue hb
      obtain ⟨hnodup, hneeds⟩ := needsFetch_of_booked hb
      exact ⟨_, due_of_installed hserves hdue' hnodup hneeds hi, rfl, nofun⟩

/-- All steps of a batch leave what it has sent on and what is still due, taken together. -/
theorem due_of_steps (hserves : reader.Serves table ahead) {budget : Nat} {run last : BatchRun σ}
    {reason : BatchEnd} {images : Multiset Image}
    (hdue : run.execution.Due table ahead run.shards images)
    (h : run.steps reader budget = some (last, reason))
    (hreason : ∀ error, reason ≠ .failed error) :
    ∃ images', last.execution.Due table ahead last.shards images' ∧
      ofRows run.rows + images = ofRows last.rows + images' ∧
      (reason = .exhausted → images' = 0) := by
  obtain ⟨before, ⟨middle, hdue', hrows⟩, hlast⟩ := last_move_of_steps
    (P := fun next => ∃ images', next.execution.Due table ahead next.shards images' ∧
      ofRows run.rows + images = ofRows next.rows + images')
    (by
      rintro before next ⟨middle, hdue', hrows⟩ hmove
      obtain ⟨images', hdue', hrows', -⟩ := due_of_moves hserves hdue' hmove (by simp)
      exact ⟨images', hdue', hrows.trans hrows'⟩)
    ⟨images, hdue, rfl⟩ h
  obtain ⟨images', hdue', hrows', hend⟩ := due_of_moves hserves hdue' hlast
    fun error heq => hreason error (Option.some.inj heq)
  exact ⟨images', hdue', hrows.trans hrows', fun heq => hend (congrArg some heq)⟩

end BatchRun

/-! ### Batches -/

namespace Execution

variable {reader : ShardReader σ} {table : String}
  {ahead : σ → ShardId → Option Cursor → List Row → Prop}

/-- A batch without an error is taken off the dues. After the last one nothing is due. -/
theorem due_of_nextBatch (hserves : reader.Serves table ahead) {execution : Execution}
    {shards : σ} {budget : Nat} {outcome : BatchOutcome σ} {images : Multiset Image}
    {batch : Batch} (hdue : execution.Due table ahead shards images)
    (h : execution.nextBatch reader budget shards = some outcome)
    (hresult : outcome.result = .ok batch) :
    (batch.token = none ∧ images = ofRows batch.rows) ∨
      ∃ images', batch.token ≠ none ∧ images = ofRows batch.rows + images' ∧
        outcome.execution.Due table ahead outcome.shards images' := by
  obtain ⟨hfinished, -⟩ | ⟨-, last, reason, hs, rfl⟩ := ended_of_nextBatch h
  · cases hdue.unfinished.symm.trans hfinished
  cases reason with
  | failed error => cases hresult
  | exhausted =>
      obtain ⟨images', -, hrows, hend⟩ := BatchRun.due_of_steps hserves hdue hs (by simp)
      cases hresult
      refine .inl ⟨rfl, ?_⟩
      rw [hend rfl, add_zero] at hrows
      rw [ofRows_eq_iff.2 (List.reverse_perm last.rows), ← hrows]
      exact (zero_add images).symm
  | full =>
      obtain ⟨images', hdue', hrows, -⟩ := BatchRun.due_of_steps hserves hdue hs (by simp)
      cases hresult
      refine .inr ⟨images', ?_, ?_, ?_⟩
      · simp [token?, hdue'.unfinished]
      · rw [ofRows_eq_iff.2 (List.reverse_perm last.rows), ← hrows]
        exact (zero_add images).symm
      · exact ⟨hdue'.unfinished, hdue'.table, hdue'.fair, hdue'.distinct, hdue'.plain,
          hdue'.images⟩

/-! ### Starts -/

variable {engine : Engine} {options : QueryOptions}

/-- Shards can be asked, since a fan-out of zero is refused. -/
theorem Founded.fair {execution : Execution} (h : execution.Founded engine options) :
    execution.pipeline.source.delivery ≠ .anyOrder 0 := by
  have hfanOut : execution.options.maxFanOut ≠ 0 := by
    obtain ⟨_, -, hresolve⟩ := bind_eq_ok_iff.1 h.options
    obtain ⟨_, hpositive, hresolve⟩ := bind_eq_ok_iff.1 hresolve
    intro hzero
    rw [← Except.ok.inj hresolve] at hzero
    rw [QueryOptions.requirePositive, if_pos (congrArg some hzero)] at hpositive
    cases hpositive
  rw [h.delivery_eq, Plan.delivery]
  split
  · simp
  · split
    · simp
    · simpa using hfanOut

end Execution

/-- Whether all that a plan is run on is plain. -/
structure Plan.IsPlain (plan : Plan) (bindings : Bindings) (contents : ShardId → List Row) :
    Prop where
  /-- The constants of the plan are plain. -/
  constants : ∀ step ∈ plan.steps, ∀ e ∈ step.exprs, e.IsPlain
  /-- The values of the variables are plain. -/
  values : bindings.IsPlain
  /-- The rows of the shards are plain. -/
  rows : ∀ shard ∈ plan.scan.shards, ∀ row ∈ contents shard, row.IsPlain

/-- What a plan of rowwise steps makes of the rows of its shards. -/
def Plan.imagesOf (registry : Registry) (bindings : Bindings) (contents : ShardId → List Row)
    (plan : Plan) : Multiset Image :=
  match compileSteps registry plan.steps with
  | .ok compiled => imagesOfSteps bindings (plan.scan.shards.map contents).flatten compiled
  | .error _ => 0

namespace Execution

variable {reader : ShardReader σ} {table : String}
  {ahead : σ → ShardId → Option Cursor → List Row → Prop} {engine : Engine}
  {options : QueryOptions}

/-- At the start the images of the rows of all shards are due. -/
theorem due_of_start {query : Query} {fresh : Uuid} {execution : Execution} {shards : σ}
    {contents : ShardId → List Row} (htoken : query.token = none)
    (hstart : start engine query fresh = .ok execution)
    (hkinds : ∀ step ∈ query.plan.steps, step.kind.IsRowwise)
    (hplain : query.plan.IsPlain query.bindings contents)
    (hcontents : ∀ shard ∈ query.plan.scan.shards, ahead shards shard none (contents shard)) :
    execution.Due query.plan.scan.table ahead shards
      (query.plan.imagesOf engine.registry query.bindings contents) := by
  obtain ⟨steps, hstarted⟩ := exists_started_of_start htoken hstart
  obtain ⟨hrowwise, hdue⟩ := hstarted.openedNodes.due_of_start hstarted.compile hkinds
    hplain.constants (query.plan.scan.shards.map contents).flatten
  refine ⟨hstarted.finished_eq, by rw [hstarted.plan_eq], (founded_of_start htoken hstart).fair,
    nodup_shards_of_start htoken hstart, ?_, hrowwise, query.plan.scan.shards.map contents,
    ahead_of_start htoken hstart hcontents, ?_, ?_⟩
  · rw [hstarted.bindings_eq]
    exact hplain.values
  · rintro row hmem
    obtain ⟨_, hlist, hrow⟩ := List.mem_flatten.1 hmem
    obtain ⟨shard, hshard, rfl⟩ := List.mem_map.1 hlist
    exact hplain.rows shard hshard row hrow
  · rw [hstarted.bindings_eq, hdue, Plan.imagesOf, hstarted.compile]

/-- An execution that goes on with a token gives what was due, the forms of rows aside. -/
theorem due_of_token {execution next : Execution} {shards : σ} {images : Multiset Image}
    {token : Token} {fresh : Uuid} (hfounded : execution.Founded engine options)
    (hdue : execution.Due table ahead shards images) (htoken : execution.token? = some token)
    (hstart : start engine (execution.goOn options token) fresh = .ok next) :
    ∃ images', next.Due table ahead shards images' ∧
      images'.map Image.canonical = images.map Image.canonical := by
  obtain ⟨steps, hstarted⟩ := hfounded.suspendable.started_of_token htoken hstart
  obtain ⟨_, hcompile, hopened⟩ := hfounded.opened
  cases hcompile.symm.trans hstarted.compile
  have hshards : next.pipeline.source.shards =
      execution.pipeline.source.shards.map ShardProgress.reread :=
    Pipeline.shards_of_states (hstarted.states_eq.trans List.map_append)
  obtain ⟨images', hdue', himages⟩ := hopened.due_reread hstarted.openedNodes hshards hdue.images
  refine ⟨images', ⟨hstarted.finished_eq, ?_, ?_, ?_, ?_, ?_⟩, himages⟩
  · rw [hstarted.plan_eq]
    exact hdue.table
  · exact (hfounded.founded_of_token htoken hstart).fair
  · rw [hshards, List.map_map]
    exact hdue.distinct
  · rw [hstarted.bindings_eq]
    exact hdue.plain
  · rw [hstarted.bindings_eq]
    exact hdue'

end Execution

/-! ### Whole queries -/

namespace Engine

open Execution

variable {reader : ShardReader σ} {table : String}
  {ahead : σ → ShardId → Option Cursor → List Row → Prop} {engine : Engine}

/-- Whether images are due at the start of a query, the forms of rows aside. -/
def DueAtStart (engine : Engine) (table : String)
    (ahead : σ → ShardId → Option Cursor → List Row → Prop) (query : Query) (fresh : Uuid)
    (shards : σ) (images : Multiset Image) : Prop :=
  ∀ execution, start engine query fresh = .ok execution →
    execution.Founded engine query.options ∧ ∃ images', execution.Due table ahead shards images' ∧
      images'.map Image.canonical = images.map Image.canonical

/-- After a batch with a token, what is due is due at the start with that token. -/
theorem dueAtStart_of_token {budget : Nat} {fresh : Uuid} {query : Query} {shards : σ}
    {execution : Execution} {outcome : BatchOutcome σ} {batch : Batch} {token : Token}
    {images : Multiset Image} (hstart : start engine query fresh = .ok execution)
    (hfounded : execution.Founded engine query.options)
    (hbatch : execution.nextBatch reader budget shards = some outcome)
    (hresult : outcome.result = .ok batch) (htoken : batch.token = some token)
    (hdue : outcome.execution.Due table ahead outcome.shards images) :
    engine.DueAtStart table ahead { query with token := some token } fresh outcome.shards
      images := by
  intro resumed hresumed
  have hadvances := advances_of_nextBatch hbatch hdue.unfinished
  have htoken? := token?_of_nextBatch hbatch hresult htoken
  obtain ⟨steps, point, hstarted⟩ := start_eq_ok_iff.1 hstart
  have hgoOn : { query with token := some token } =
      outcome.execution.goOn query.options token := by
    rw [goOn, hadvances.plan_eq, hadvances.bindings_eq, hstarted.plan_eq, hstarted.bindings_eq]
  rw [hgoOn] at hresumed
  have hfounded' := hfounded.advances hadvances
  exact ⟨hfounded'.founded_of_token htoken? hresumed,
    due_of_token hfounded' hdue htoken? hresumed⟩

/-- The batches of a query add what is due at its start to the rows that there were before. -/
theorem images_of_collectFrom (hserves : reader.Serves table ahead) {batches budget : Nat}
    {fresh : Uuid} {query : Query} {shards : σ} {rows out : List Row} {sent : List ShardRequest}
    {outcome : CollectOutcome σ} {images : Multiset Image}
    (hdue : engine.DueAtStart table ahead query fresh shards images)
    (h : engine.collectFrom reader budget fresh query shards rows sent batches = some outcome)
    (hresult : outcome.result = .ok out) :
    (ofRows out).map Image.canonical = (ofRows rows + images).map Image.canonical := by
  induction batches generalizing query shards rows sent images with
  | zero => cases h
  | succ batches ih =>
      rw [collectFrom] at h
      cases hstart : start engine query fresh with
      | error error =>
          rw [hstart] at h
          cases h
          cases hresult
      | ok execution =>
          obtain ⟨hfounded, images', hdue', himages⟩ := hdue execution hstart
          rw [Multiset.map_add, ← himages, ← Multiset.map_add]
          cases hbatch : execution.nextBatch reader budget shards with
          | none =>
              simp only [hstart, hbatch] at h
              cases h
          | some next =>
              cases hnext : next.result with
              | error error =>
                  simp only [hstart, hbatch, hnext] at h
                  cases h
                  cases hresult
              | ok batch =>
                  simp only [hstart, hbatch, hnext] at h
                  obtain ⟨htoken, rfl⟩ | ⟨later, htoken, rfl, hlater⟩ :=
                    due_of_nextBatch hserves hdue' hbatch hnext
                  · rw [htoken] at h
                    cases h
                    cases hresult
                    rw [ofRows_append]
                  · obtain ⟨token, htoken⟩ := Option.ne_none_iff_exists'.1 htoken
                    rw [htoken] at h
                    rw [← add_assoc, ← ofRows_append]
                    exact ih (dueAtStart_of_token hstart hfounded hbatch hnext htoken hlater) h

/-- Whether a query over tables in memory comes to its end with these rows, in however many batches
and whatever an answer takes. -/
def Returns (engine : Engine) (query : Query) (store : InMemory) (rows : List Row) : Prop :=
  ∃ latencyMs batches budget fresh outcome,
    engine.collectAll (InMemory.reader latencyMs) batches budget fresh query store = some outcome ∧
      outcome.result = .ok rows

/-- The rows of two batches are put together. The second batch goes on with the pipeline that the
states after the first one open when they are reread. -/
theorem returns_of_two_batches {query : Query} {store : InMemory} {budget : Nat}
    {first : Execution} {rows others : List Row} {states : List NodeState}
    {steps : List CompiledStep} {pipeline : Pipeline} (htoken : query.token = none)
    (hstart : start engine query ⟨0⟩ = .ok first) (htime : first.options.timeoutMs = none)
    (hcompile : compileSteps engine.registry query.plan.steps = .ok steps)
    (hopen : (first.nextBatch (InMemory.reader 0) budget store).any (fun outcome =>
      !outcome.execution.finished &&
        decide (outcome.execution.body.toJson.nesting ≤ Json.depthLimit) &&
        decide (outcome.execution.memory.peak < maxAmount)) = true)
    (hrows : (first.nextBatch (InMemory.reader 0) budget store).map (fun outcome =>
      outcome.result.map (·.rows)) = some (.ok rows))
    (hstates : (first.nextBatch (InMemory.reader 0) budget store).map (fun outcome =>
      outcome.execution.pipeline.states.map NodeState.reread) = some states)
    (hpipeline : Pipeline.Opened query.bindings
      (query.plan.scan.source steps first.options.maxFanOut) steps states pipeline)
    (hothers : (first.nextBatch (InMemory.reader 0) budget store).bind (fun outcome =>
      (Execution.nextBatch (InMemory.reader 0) budget
        { outcome.execution with pipeline := pipeline } outcome.shards).map (·.result)) =
      some (.ok ⟨others, none⟩)) :
    engine.Returns query store (rows ++ others) := by
  obtain ⟨plan, bindings, options, _⟩ := query
  subst htoken
  obtain ⟨outcome, hbatch, hopen⟩ := (Option.any_eq_true _ _).1 hopen
  simp only [Bool.and_eq_true, Bool.not_eq_true', decide_eq_true_eq] at hopen
  obtain ⟨⟨hopen, hreadable⟩, hpeak⟩ := hopen
  simp only [hbatch, Option.map_some, Option.bind_some, Option.some.injEq] at hrows hstates hothers
  obtain ⟨batch, token, hresult, htoken⟩ := exists_token_of_nextBatch hbatch hopen
  obtain ⟨later, hlater, hend⟩ := Option.map_eq_some_iff.1 hothers
  rw [hresult] at hrows
  obtain rfl := Except.ok.inj hrows
  have hgenuine : Genuine (fun before => before.memory.peak < maxAmount) plan bindings engine
      options outcome.execution := .batch (.fresh hstart) hbatch
  have hoptions := (advances_of_nextBatch hbatch hopen).options_eq
  rw [← hoptions] at htime
  rw [← hoptions, ← hstates] at hpipeline
  obtain ⟨resumed, hresumed, halike⟩ := hgenuine.exists_alike hpeak hreadable htime
    (token?_of_nextBatch hbatch hresult htoken) hcompile hpipeline ⟨0⟩
  have hfirst : engine.executeBatch (InMemory.reader 0) budget ⟨plan, bindings, options, none⟩ ⟨0⟩
      store = some (outcome.report, outcome.shards) := by
    rw [executeBatch_eq budget hstart (.refl _), hbatch, Option.map_some]
  have hsecond : engine.executeBatch (InMemory.reader 0) budget
      ⟨plan, bindings, options, some token⟩ ⟨0⟩ outcome.shards =
        some (later.report, later.shards) := by
    rw [executeBatch_eq budget hresumed halike, hlater, Option.map_some]
  refine ⟨0, 2, budget, ⟨0⟩, ⟨_, outcome.requests ++ later.requests, later.shards⟩, ?_, rfl⟩
  rw [collectAll, collectFrom_succ, hfirst]
  simp only [Option.bind_some, BatchOutcome.report, hresult, htoken]
  rw [collectFrom_succ, hsecond]
  simp only [Option.bind_some, BatchOutcome.report, hend, List.nil_append]

/-- A query of rowwise steps returns the images of the rows of all shards. -/
theorem images_of_returns {query : Query} {store : InMemory} {rows : List Row}
    (htoken : query.token = none) (hkinds : ∀ step ∈ query.plan.steps, step.kind.IsRowwise)
    (hplain : query.plan.IsPlain query.bindings (store.contents query.plan.scan.table))
    (hcount : ∀ shard ∈ query.plan.scan.shards,
      (store.contents query.plan.scan.table shard).length ≤ UInt64.size)
    (h : engine.Returns query store rows) :
    (ofRows rows).map Image.canonical =
      (query.plan.imagesOf engine.registry query.bindings
        (store.contents query.plan.scan.table)).map Image.canonical := by
  obtain ⟨latencyMs, batches, budget, fresh, outcome, hcollect, hresult⟩ := h
  refine (images_of_collectFrom (InMemory.serves latencyMs query.plan.scan.table)
    (fun execution hstart => ?_) hcollect hresult).trans (congrArg _ (zero_add _))
  exact ⟨founded_of_start htoken hstart, _, due_of_start htoken hstart hkinds hplain
    fun shard hmem => ⟨hcount shard hmem, rfl⟩, rfl⟩

/-- **The limit does not matter to rowwise steps.** If a plan consists of sorts and projections
alone, then whenever all of its batches succeed, they return the images of all rows of the shards,
and so the same rows, but for their order and for the bits of non-numbers, which no document shows.
This holds whatever the limit and the other options are, however long the pages are, and whatever
answers take. -/
theorem perm_of_returns {engine engine' : Engine} {store store' : InMemory} {plan : Plan}
    {bindings : Bindings} {options options' : QueryOptions} {rows rows' : List Row}
    (hregistry : engine'.registry = engine.registry) (htables : store'.tables = store.tables)
    (hkinds : ∀ step ∈ plan.steps, step.kind.IsRowwise)
    (hplain : plan.IsPlain bindings (store.contents plan.scan.table))
    (hcount : ∀ shard ∈ plan.scan.shards,
      (store.contents plan.scan.table shard).length ≤ UInt64.size)
    (h : engine.Returns ⟨plan, bindings, options, none⟩ store rows)
    (h' : engine'.Returns ⟨plan, bindings, options', none⟩ store' rows') :
    (ofRows rows).map Image.canonical =
        (plan.imagesOf engine.registry bindings (store.contents plan.scan.table)).map
          Image.canonical ∧
      (rows.map Row.canonical).Perm (rows'.map Row.canonical) ∧
      (rows.map Row.render).Perm (rows'.map Row.render) := by
  have hcontents : store'.contents = store.contents := by
    funext table shard
    rw [InMemory.contents, InMemory.contents, htables]
  have himages := images_of_returns rfl hkinds hplain hcount h
  have himages' := images_of_returns rfl hkinds (hcontents ▸ hplain) (hcontents ▸ hcount) h'
  rw [hregistry, hcontents, ← himages, map_canonical_ofRows, map_canonical_ofRows] at himages'
  have hperm := (ofRows_eq_iff.1 himages').symm
  have hrender (rows : List Row) : (rows.map Row.canonical).map Row.render = rows.map Row.render :=
    List.map_map.trans (List.map_congr_left fun row _ => row.render_canonical)
  exact ⟨himages, hperm, hrender rows ▸ hrender rows' ▸ hperm.map Row.render⟩

/-! ### Examples -/

/-- An engine with the functions that are always there. -/
def collecting : Engine :=
  ⟨.standard, .standard Registry.standardVersion⟩

/-- A row with a key and a number, of which the query asks for the number alone. -/
def keyedRow (key number : Int64) : Row :=
  Row.ofList [("k", .int key), ("n", .int number)]

/-- Two shards with rows in no order, of four rows and of one. -/
def twoShards : InMemory :=
  (InMemory.ofPageSize 100).withTable "t" [
    (1, [keyedRow 0 1, keyedRow 0 2, keyedRow 0 3, keyedRow 1 4]), (2, [keyedRow 1 5])]

/-- A query for rows of both shards, in batches of so many at most. -/
def twoShardScan (steps : List Step) (limit : Option Nat) : Query :=
  ⟨⟨Plan.currentVersion, steps, ⟨"t", [1, 2], false⟩⟩, .empty,
    { QueryOptions.standard with limit := limit }, none⟩

/-- A step that gives the numbers and drops the keys. -/
def numbers : Step :=
  .project [⟨"n", .column "n"⟩]

/-- A row with a number, as the query returns it. -/
def numberedRow (number : Int64) : Row :=
  Row.ofList [("n", .int number)]

/-- The execution for the numbers of both shards in batches of three rows, at its start. -/
def numbersStart : Execution where
  id := ⟨0⟩
  plan := (twoShardScan [numbers] (some 3)).plan
  bindings := .empty
  options := ⟨some 3, none, none, 1024, none, none, .eventual, none, 4⟩
  memory := Memory.ofLimitMb 1024
  pipeline := ⟨[.project [("n", .column "n")]], ⟨"t", 1, 2, .anyOrder 4, [.start 1, .start 2]⟩⟩
  elapsedMs := 0
  finished := false

/-- With a limit of three rows the run takes two batches, and the second shard comes before the last
row of the first one. -/
theorem returns_numbers : collecting.Returns (twoShardScan [numbers] (some 3)) twoShards
    ([numberedRow 1, numberedRow 2, numberedRow 3] ++ [numberedRow 5, numberedRow 4]) :=
  @returns_of_two_batches collecting _ _ 12 numbersStart _ _
    [.project, .receive [⟨1, some (InMemory.cursorOf 3), [], 0, false⟩,
      ⟨2, none, [keyedRow 1 5], (keyedRow 1 5).sizeEstimate, true⟩]] _ _ rfl rfl rfl rfl
    (by decide +kernel) rfl rfl (.stage rfl (.source _)) rfl

/-- The rows of the example are plain, since their values are integers. -/
theorem isPlain_keyedRow (key number : Int64) : (keyedRow key number).IsPlain :=
  ⟨trivial, trivial, trivial⟩

/-- The numbers come in another order if the limit is three. -/
theorem perm_of_returns_numbers : ∃ rows rows',
    collecting.Returns (twoShardScan [numbers] none) twoShards rows ∧
      collecting.Returns (twoShardScan [numbers] (some 3)) twoShards rows' ∧ rows ≠ rows' ∧
      (rows.map Row.canonical).Perm (rows'.map Row.canonical) ∧
      (rows.map Row.render).Perm (rows'.map Row.render) := by
  have hreturns : collecting.Returns (twoShardScan [numbers] none) twoShards
      [numberedRow 1, numberedRow 2, numberedRow 3, numberedRow 4, numberedRow 5] :=
    ⟨0, 1, 20, ⟨0⟩, _, rfl, rfl⟩
  refine ⟨_, _, hreturns, returns_numbers, fun h => ?_,
    (perm_of_returns rfl rfl ?_ ⟨?_, ?_, ?_⟩ ?_ hreturns returns_numbers).2⟩
  · cases congrArg (List.map Row.fields) h
  · exact List.forall_mem_singleton.2 (.inr rfl)
  · exact List.forall_mem_singleton.2 (List.forall_mem_singleton.2 trivial)
  · exact ⟨trivial, nofun⟩
  · refine List.forall_mem_cons.2 ⟨?_, List.forall_mem_singleton.2 ?_⟩
    · change ∀ row ∈ [keyedRow 0 1, keyedRow 0 2, keyedRow 0 3, keyedRow 1 4], row.IsPlain
      simp only [List.forall_mem_cons, isPlain_keyedRow, true_and, List.not_mem_nil, false_imp_iff,
        implies_true]
    · exact List.forall_mem_singleton.2 (isPlain_keyedRow 1 5)
  · have hcount : 4 ≤ UInt64.size ∧ 1 ≤ UInt64.size := by decide
    exact List.forall_mem_cons.2 ⟨hcount.1, List.forall_mem_singleton.2 hcount.2⟩

/-- Whether it depends on the limit which rows a query returns. -/
def LimitDecides (steps : List Step) (store : InMemory) (limit : Nat) : Prop :=
  ∃ rows rows', collecting.Returns (twoShardScan steps none) store rows ∧
    collecting.Returns (twoShardScan steps (some limit)) store rows' ∧
    ¬(rows.map Row.canonical).Perm (rows'.map Row.canonical)

/-- Two shards, one with a map that is nothing but the name of a number. -/
def namedNumber : InMemory :=
  (InMemory.ofPageSize 100).withTable "t" [(1, [numberedRow 1, numberedRow 2]),
    (2, [Row.ofList [("n", .map [(Value.nonFiniteField, .string "inf")])]])]

/-- The execution for these rows in batches of two at its start. -/
def namedNumberStart : Execution where
  id := ⟨0⟩
  plan := (twoShardScan [] (some 2)).plan
  bindings := .empty
  options := ⟨some 2, none, none, 1024, none, none, .eventual, none, 4⟩
  memory := Memory.ofLimitMb 1024
  pipeline := ⟨[], ⟨"t", 0, 2, .anyOrder 4, [.start 1, .start 2]⟩⟩
  elapsedMs := 0
  finished := false

/-- What names a number is that number after the row has been in a token. -/
theorem limitDecides_namedNumber : LimitDecides [] namedNumber 2 := by
  let infinite := Row.ofList [("n", .double (.infinity false))]
  have hreturns : collecting.Returns (twoShardScan [] (some 2)) namedNumber
      ([numberedRow 1, numberedRow 2] ++ [infinite]) :=
    @returns_of_two_batches collecting _ _ 12 namedNumberStart _ _
      [.receive [⟨1, none, [], 0, true⟩, ⟨2, none, [infinite], _, true⟩]] _ _ rfl rfl rfl rfl
      (by decide +kernel) rfl rfl (.source _) rfl
  refine ⟨_, _, ⟨0, 1, 20, ⟨0⟩, _, rfl, rfl⟩, hreturns, fun hperm => ?_⟩
  have hlast := List.singleton_perm_singleton.1
    ((List.perm_cons _).1 ((List.perm_cons _).1 hperm))
  cases congrArg Row.fields hlast

/-- **The limit matters to steps that go by the order of arrival**: to a slice, to a group whose
items are collected and to a step that keeps the first row of every key. Without any step it matters
to rows that tokens do not hold as they are. -/
theorem limit_matters :
    (∀ step ∈ [.slice (some (.const (.int 3))) (some (.const (.int 1))),
        .groupBy [] [⟨"all", "collect", [.column "n"]⟩], .distinct ["k"] .hashed],
      LimitDecides [step] twoShards 3) ∧
    LimitDecides [] namedNumber 2 := by
  refine ⟨?_, limitDecides_namedNumber⟩
  refine List.forall_mem_cons.2 ⟨?_, List.forall_mem_cons.2 ⟨?_, List.forall_mem_singleton.2 ?_⟩⟩
  · refine ⟨[keyedRow 1 4], [keyedRow 1 5], ⟨0, 1, 20, ⟨0⟩, _, rfl, rfl⟩,
      ⟨0, 1, 20, ⟨0⟩, _, rfl, rfl⟩, fun hperm => ?_⟩
    cases congrArg Row.fields (List.singleton_perm_singleton.1 hperm)
  · refine ⟨[Row.ofList [("all", .array [.int 1, .int 2, .int 3, .int 4, .int 5])]],
      [Row.ofList [("all", .array [.int 1, .int 2, .int 3, .int 5, .int 4])]],
      ⟨0, 1, 20, ⟨0⟩, _, rfl, rfl⟩, ⟨0, 1, 20, ⟨0⟩, _, rfl, rfl⟩, fun hperm => ?_⟩
    cases congrArg Row.fields (List.singleton_perm_singleton.1 hperm)
  · refine ⟨[keyedRow 0 1, keyedRow 1 4], [keyedRow 0 1, keyedRow 1 5],
      ⟨0, 1, 20, ⟨0⟩, _, rfl, rfl⟩, ⟨0, 1, 20, ⟨0⟩, _, rfl, rfl⟩, fun hperm => ?_⟩
    have hlast := List.singleton_perm_singleton.1 ((List.perm_cons _).1 hperm)
    cases congrArg Row.fields hlast

end Engine

end ShardQuery
