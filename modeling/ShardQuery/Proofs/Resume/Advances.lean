import Mathlib.Data.List.Forall2
import ShardQuery.Proofs.Memory.Balance
import ShardQuery.Proofs.Opening
import ShardQuery.Proofs.Run
import ShardQuery.Proofs.Source
import ShardQuery.Proofs.Stage

/-!
# What a Run Leaves Alone

While a query runs only the states of its nodes change, with its account, its time and the
rows sent on. What it was opened with stays: the steps with their functions and bounds, the
delivery of the scan, the options. So at any time the pipeline is the one that its steps open
with the states of that time, which is why a token needs to hold no more than the states.

Main definitions:

* `Pipeline.Advances` — a pipeline is another one with other states;
* `Execution.Advances` — an execution is another one further on.

## Main results

* `Pipeline.Advances.opened`: a pipeline further on is the one of its own states.
* `Execution.advances_of_passes`: all states of all batches are those of one execution further
  on.
-/

namespace ShardQuery

variable {σ : Type}

/-! ### Stages -/

/-- Whether a stage is another one with its state moved on. Remembered texts of keys that are
in ascending order stay so. -/
inductive Stage.Advances : Stage → Stage → Prop
  /-- A sort with other rows. -/
  | sort {keys : List OrderKey} {mode : SortMode} (state next : SortState) :
      Advances (.sort keys mode state) (.sort keys mode next)
  /-- A grouping with another group. -/
  | groupBy {keys : List OrderKey} {aggregations : List Aggregation} (state next : GroupState) :
      Advances (.groupBy keys aggregations state) (.groupBy keys aggregations next)
  /-- A stage that drops repeated rows, with other keys. -/
  | distinct {keys : List String} {strategy : DistinctStrategy} {state next : DistinctState} :
      (state.seen.Pairwise (· < ·) → next.seen.Pairwise (· < ·)) →
      Advances (.distinct keys strategy state) (.distinct keys strategy next)
  /-- A projection has no state. -/
  | project (fields : List (String × Formula)) : Advances (.project fields) (.project fields)
  /-- A slice with other counts. -/
  | slice {offset : UInt64} {limit : Option UInt64} (state next : SliceState) :
      Advances (.slice offset limit state) (.slice offset limit next)

/-- Whether a state could be one of a plan with so many shards: the scan reads all of them, and
remembered texts of keys are in ascending order. -/
def NodeState.Fits (shardCount : Nat) : NodeState → Prop
  | .receive shards => shards.length = shardCount
  | .distinct state => state.seen.Pairwise (· < ·)
  | .sort _ | .groupBy _ | .project | .slice _ => True

/-- Texts in ascending order stay so when one is put in. -/
theorem pairwise_insertText (text : String) {texts : List String} (h : texts.Pairwise (· < ·)) :
    (insertText text texts).Pairwise (· < ·) := by
  induction texts with
  | nil => exact List.pairwise_singleton _ _
  | cons t texts ih =>
      obtain ⟨hfirst, hrest⟩ := List.pairwise_cons.1 h
      rw [insertText]
      split
      · next hlt =>
          refine List.pairwise_cons.2 ⟨fun u hu => ?_, h⟩
          rcases List.mem_cons.1 hu with rfl | hu
          · exact hlt
          · exact String.lt_trans hlt (hfirst u hu)
      · next hnot =>
          split
          · exact h
          · next hne =>
              -- The order of texts is total, so the new text is behind the first one.
              have hlt : t < text := by
                by_contra hle
                exact hne (String.le_antisymm (String.not_lt.1 hle) (String.not_lt.1 hnot))
              refine List.pairwise_cons.2 ⟨fun u hu => ?_, ih hrest⟩
              rcases mem_insertText.1 hu with rfl | hu
              · exact hlt
              · exact hfirst u hu

namespace Stage

/-- A stage is itself moved on by nothing. -/
theorem Advances.refl (stage : Stage) : stage.Advances stage := by
  cases stage with
  | sort => exact .sort _ _
  | groupBy => exact .groupBy _ _
  | distinct => exact .distinct id
  | project => exact .project _
  | slice => exact .slice _ _

/-- Moving on twice is moving on. -/
theorem Advances.trans {a b c : Stage} (h₁ : a.Advances b) (h₂ : b.Advances c) :
    a.Advances c := by
  cases h₁ with
  | sort => cases h₂; exact .sort _ _
  | groupBy => cases h₂; exact .groupBy _ _
  | distinct hseen =>
      cases h₂ with
      | distinct hseen' => exact .distinct fun h => hseen' (hseen h)
  | project => exact h₂
  | slice => cases h₂; exact .slice _ _

/-- A state that fits goes on to fit, since remembered texts stay in order. -/
theorem Advances.fits {shardCount : Nat} {stage next : Stage} (h : stage.Advances next)
    (hfits : stage.state.Fits shardCount) : next.state.Fits shardCount := by
  cases h with
  | distinct hseen => exact hseen hfits
  | sort | groupBy | project | slice => trivial

/-- A stage stays of its kind, whatever happens to its state. -/
theorem Advances.kind_eq {stage next : Stage} (h : stage.Advances next) :
    next.state.kind = stage.state.kind := by
  cases h <;> rfl

/-- A stage further on is the one of its step with its own state. -/
theorem Advances.openStage {bindings : Bindings} {step : CompiledStep} {stage next : Stage}
    (h : stage.Advances next)
    (hopen : Pipeline.openStage? bindings step stage.state = some (.ok stage)) :
    Pipeline.openStage? bindings step next.state = some (.ok next) := by
  cases h with
  | sort | groupBy | distinct =>
      cases step <;> cases hopen
      rfl
  | project => exact hopen
  | slice state state' =>
      cases step with
      | slice offset limit =>
          -- The bounds do not depend on the state.
          simp only [Stage.state, Pipeline.openStage?, Option.some.injEq, bind_eq_ok_iff] at hopen ⊢
          obtain ⟨first, hfirst, most, hmost, heq⟩ := hopen
          cases heq
          exact ⟨first, hfirst, _, hmost, rfl⟩
      | sort | groupBy | distinct | project => cases hopen

/-- A signal that a stage gives by itself moves it on. -/
theorem advances_ready {stage : Stage} {own : Metered Stage Signal}
    (h : stage.ready? = some own) : stage.Advances own.state := by
  cases ready_inv h with
  | ends => exact .refl stage
  | pops => exact .sort _ _

/-- Taking a row in moves a stage on, also if it fails with it. -/
theorem advances_accept (bindings : Bindings) (row : Row) (stage : Stage) :
    stage.Advances (stage.accept bindings row).state := by
  generalize hown : stage.accept bindings row = own
  cases accept_inv hown with
  | merged | kept => exact .sort _ _
  | unsorted | refused | grouped => exact .groupBy _ _
  | same | changed | seen => exact .distinct id
  | unseen => exact .distinct fun h => pairwise_insertText _ h
  | projected | unprojected => exact .project _
  | skipped | sliced => exact .slice _ _

/-- The end of the input moves a stage on. -/
theorem advances_finish (stage : Stage) : stage.Advances stage.finish.state := by
  cases stage with
  | sort keys mode state => cases mode <;> exact .sort _ _
  | groupBy => exact .groupBy _ _
  | distinct | project | slice => exact .refl _

/-- Passing a signal on moves a stage on, whichever signal it is. -/
theorem advances_pass (bindings : Bindings) (signal : Signal) (stage : Stage) :
    stage.Advances (Pipeline.pass bindings signal stage).state := by
  cases signal with
  | row row => exact advances_accept bindings row stage
  | exhausted => exact advances_finish stage
  | fetch | again => exact .refl stage

end Stage

/-! ### Sources -/

namespace Source

/-- Whether a source is another one with its shards read on. -/
def Advances (source next : Source) : Prop :=
  ∃ shards, shards.length = source.shards.length ∧ next = { source with shards := shards }

/-- A source is itself moved on by nothing. -/
theorem Advances.refl (source : Source) : source.Advances source :=
  ⟨source.shards, rfl, rfl⟩

/-- Moving on twice is moving on, for sources too. -/
theorem Advances.trans {a b c : Source} (h₁ : a.Advances b) (h₂ : b.Advances c) :
    a.Advances c := by
  obtain ⟨_, hlength, rfl⟩ := h₁
  obtain ⟨shards, hlength', rfl⟩ := h₂
  exact ⟨shards, hlength'.trans hlength, rfl⟩

/-- Exchanging the progress of a shard moves a source on: there are as many shards as before. -/
theorem advances_set (source : Source) (index : Nat) (progress : ShardProgress) :
    source.Advances { source with shards := source.shards.set index progress } :=
  ⟨_, List.length_set, rfl⟩

/-- A signal of a source moves it on. -/
theorem advances_next (source : Source) : source.Advances source.next.state := by
  obtain h | ⟨index, progress, row, rows, -, -, h⟩ := source.next_state_cases <;> rw [h]
  · exact .refl source
  · exact source.advances_set _ _

/-- Taking responses in moves a source on. -/
theorem advances_receive (source : Source)
    (responses : List (Nat × Except RequestError ShardResponse)) :
    source.Advances (source.receive responses).state :=
  receive_state (fun h _ _ => h.trans (advances_set _ _ _)) (.refl source)

end Source

/-! ### Pipelines -/

namespace Pipeline

/-- Whether a pipeline is another one with the states of its nodes moved on. -/
structure Advances (pipeline next : Pipeline) : Prop where
  /-- The stages are, each at its place. -/
  stages : List.Forall₂ Stage.Advances pipeline.stages next.stages
  /-- The source is. -/
  source : pipeline.source.Advances next.source

/-- A pipeline is itself moved on by nothing. -/
theorem Advances.refl (pipeline : Pipeline) : pipeline.Advances pipeline :=
  ⟨List.forall₂_same.2 fun stage _ => .refl stage, .refl _⟩

/-- Moving on twice is moving on, for pipelines too. -/
theorem Advances.trans {a b c : Pipeline} (h₁ : a.Advances b) (h₂ : b.Advances c) :
    a.Advances c := by
  have hstages {l m n : List Stage} (h₁ : List.Forall₂ Stage.Advances l m)
      (h₂ : List.Forall₂ Stage.Advances m n) : List.Forall₂ Stage.Advances l n := by
    induction h₁ generalizing n with
    | nil => exact h₂
    | cons hstage _ ih =>
        cases h₂ with
        | cons hstage' hrest => exact .cons (hstage.trans hstage') (ih hrest)
  exact ⟨hstages h₁.stages h₂.stages, h₁.source.trans h₂.source⟩

/-- A stage moved on, around a pipeline moved on, makes a pipeline moved on. -/
theorem Advances.wrap {stage stage' : Stage} {pipeline next : Pipeline}
    (hstage : stage.Advances stage') (h : pipeline.Advances next) :
    (pipeline.wrap stage).Advances (next.wrap stage') :=
  ⟨.cons hstage h.stages, h.source⟩

/-- One tick of stages over a source moves all of them on, by induction from the outermost stage
inwards. -/
theorem advances_tickStages (bindings : Bindings) (source : Source) (stages : List Stage) :
    Advances ⟨stages, source⟩ (tickStages bindings source stages).state := by
  induction stages with
  | nil => exact ⟨.nil, source.advances_next⟩
  | cons stage inner ih =>
      generalize hresult : (tickStages bindings source (stage :: inner)).result = result
      cases tickStages_inv hresult with
      | own hready _ hnext =>
          rw [hnext]
          obtain hready | ⟨kind, rfl⟩ := readyOver?_eq_some hready
          · exact Advances.wrap (Stage.advances_ready hready) (.refl ⟨inner, source⟩)
          · exact .refl ⟨stage :: inner, source⟩
      | failed _ _ hnext =>
          rw [hnext]
          exact Advances.wrap (.refl stage) ih
      | @passed signal _ _ _ _ hnext =>
          rw [hnext]
          exact Advances.wrap (Stage.advances_pass bindings signal stage) ih

/-- A tick changes nothing but the states, whether it fails or not. -/
theorem advances_tick (bindings : Bindings) (pipeline : Pipeline) :
    pipeline.Advances (pipeline.tick bindings).state :=
  advances_tickStages bindings pipeline.source pipeline.stages

/-- Responses change nothing but the state of the source. -/
theorem advances_receive (pipeline : Pipeline)
    (responses : List (Nat × Except RequestError ShardResponse)) :
    pipeline.Advances (pipeline.receive responses).state :=
  ⟨(Advances.refl pipeline).stages, pipeline.source.advances_receive responses⟩

/-- The nodes stay of their kinds, so the states go on to have the shape of the plan. -/
theorem Advances.kinds_eq {pipeline next : Pipeline} (h : pipeline.Advances next) :
    next.states.map NodeState.kind = pipeline.states.map NodeState.kind := by
  have hstages {stages stages' : List Stage} (h : List.Forall₂ Stage.Advances stages stages') :
      (stages'.map Stage.state).map NodeState.kind =
        (stages.map Stage.state).map NodeState.kind := by
    induction h with
    | nil => rfl
    | cons hstage _ ih => simp only [List.map_cons, hstage.kind_eq, ih]
  rw [states, states, List.map_append, List.map_append, hstages h.stages]
  rfl

/-- Stages moved on go on to fit if the ones before did. -/
theorem fits_of_stages {shardCount : Nat} {stages stages' : List Stage}
    (h : List.Forall₂ Stage.Advances stages stages')
    (hfits : ∀ stage ∈ stages, stage.state.Fits shardCount) :
    ∀ stage ∈ stages', stage.state.Fits shardCount := by
  induction h with
  | nil => exact hfits
  | cons hstage _ ih =>
      obtain ⟨hfirst, hrest⟩ := List.forall_mem_cons.1 hfits
      exact List.forall_mem_cons.2 ⟨hstage.fits hfirst, ih hrest⟩

/-- The states go on to fit the plan, however often the pipeline is moved on. -/
theorem Advances.fits {shardCount : Nat} {pipeline next : Pipeline} (h : pipeline.Advances next)
    (hfits : ∀ state ∈ pipeline.states, state.Fits shardCount) :
    ∀ state ∈ next.states, state.Fits shardCount := by
  obtain ⟨hstages, hsource⟩ := List.forall_mem_append.1 hfits
  have hshards : pipeline.source.shards.length = shardCount :=
    hsource (.receive pipeline.source.shards) List.mem_cons_self
  obtain ⟨shards, hlength, heq⟩ := h.source
  refine List.forall_mem_append.2 ⟨?_, ?_⟩
  · exact List.forall_mem_map.2 (fits_of_stages h.stages (List.forall_mem_map.1 hstages))
  · rw [heq]
    exact List.forall_mem_singleton.2 (hlength.trans hshards)

/-- A pipeline further on is the one that the same steps open with its own states. -/
theorem Advances.opened {bindings : Bindings} {openSource : List ShardProgress → Source}
    {steps : List CompiledStep} {states : List NodeState} {pipeline next : Pipeline}
    (h : pipeline.Advances next) (hopened : Opened bindings openSource steps states pipeline)
    (hsource : ∀ shards shards',
      { openSource shards with shards := shards' } = openSource shards') :
    Opened bindings openSource steps next.states next := by
  induction hopened generalizing next with
  | source shards =>
      obtain ⟨stages, source⟩ := next
      obtain ⟨⟨⟩, shards', -, hshards⟩ := h
      obtain rfl : source = openSource shards' := hshards.trans (hsource shards shards')
      have hstate : (openSource shards').shards = shards' := by rw [← hsource shards shards']
      rw [Pipeline.states, Source.state, hstate]
      exact .source shards'
  | @stage step state stage steps states inner hstage _ ih =>
      obtain ⟨stages, source⟩ := next
      obtain ⟨⟨⟩ | ⟨hadvances, hstages⟩, hs⟩ := h
      rename_i stage' stages'
      have hstate := state_of_openStage hstage
      have hinner : inner.Advances ⟨stages', source⟩ := ⟨hstages, hs⟩
      exact .stage (hadvances.openStage (hstate.symm ▸ hstage)) (ih hinner)

end Pipeline

/-! ### Executions -/

namespace Execution

/-- Whether an open execution is another one further on: only its account, its pipeline's
states and its time may differ. -/
structure Advances (execution next : Execution) : Prop where
  /-- The identity stays. -/
  id_eq : next.id = execution.id
  /-- The plan stays. -/
  plan_eq : next.plan = execution.plan
  /-- The variables stay. -/
  bindings_eq : next.bindings = execution.bindings
  /-- The options stay. -/
  options_eq : next.options = execution.options
  /-- The limit of the account stays. -/
  limit_eq : next.memory.limit = execution.memory.limit
  /-- The peak stays within the limit. -/
  peak_le : execution.memory.peak ≤ execution.memory.limit →
    next.memory.peak ≤ next.memory.limit
  /-- An open execution stays open. -/
  finished_eq : next.finished = execution.finished
  /-- The states of the nodes move on. -/
  pipeline : execution.pipeline.Advances next.pipeline

/-- An execution is itself moved on by nothing. -/
theorem Advances.refl (execution : Execution) : execution.Advances execution :=
  ⟨rfl, rfl, rfl, rfl, rfl, fun h => h, rfl, .refl _⟩

/-- Moving on twice is moving on, for executions too. -/
theorem Advances.trans {a b c : Execution} (h₁ : a.Advances b) (h₂ : b.Advances c) :
    a.Advances c :=
  ⟨h₂.id_eq.trans h₁.id_eq, h₂.plan_eq.trans h₁.plan_eq, h₂.bindings_eq.trans h₁.bindings_eq,
    h₂.options_eq.trans h₁.options_eq, h₂.limit_eq.trans h₁.limit_eq,
    fun h => h₂.peak_le (h₁.peak_le h), h₂.finished_eq.trans h₁.finished_eq,
    h₁.pipeline.trans h₂.pipeline⟩

/-- A booked change of the pipeline that succeeds takes the execution further on. -/
theorem advances_of_run {execution : Execution} {α : Type} {change : Metered Pipeline α}
    (hchange : execution.pipeline.Advances change.state) {m : Memory} {p : Pipeline} {a : α}
    (h : change.run execution.memory = (m, p, .ok a)) :
    execution.Advances { execution with memory := m, pipeline := p } := by
  obtain ⟨hsettle, rfl, -⟩ := Metered.run_eq_ok_iff.1 h
  refine ⟨rfl, rfl, rfl, rfl, ?_, fun hpeak => ?_, rfl, hchange⟩
  · rw [← Memory.settle_limit execution.memory change.events, hsettle]
  · have hle := Memory.peak_settle_le_limit hpeak change.events
    rwa [hsettle] at hle

end Execution

namespace BatchRun

/-- A step that does not fail takes the execution further on. -/
theorem advances_of_moves {reader : ShardReader σ} {run next : BatchRun σ}
    {reason : Option BatchEnd} (h : Moves reader run next reason)
    (hreason : ∀ error, reason ≠ some (.failed error)) :
    run.execution.Advances next.execution := by
  have htick {m : Memory} {p : Pipeline} {signal : Signal}
      (hb : run.booked = (m, p, .ok signal)) :
      run.execution.Advances (run.moved m p).execution :=
    Execution.advances_of_run (Pipeline.advances_tick _ _) hb
  cases h with
  | full => exact .refl _
  | row _ hb | exhausted _ hb | again _ hb | noRound _ hb => exact htick hb
  | round _ hb _ _ _ _ hi =>
      exact (htick hb).trans (Execution.advances_of_run (Pipeline.advances_receive _ _) hi)
  | broken | idle | noTime | late | refused => exact absurd rfl (hreason _)

end BatchRun

namespace Execution

/-- A step that does not fail moves the execution on. A failing one closes the execution, which is
another matter. -/
theorem advances_of_step {reader : ShardReader σ} {run next : BatchRun σ}
    {reason : Option BatchEnd} (h : run.step reader = (next, reason))
    (hreason : ∀ error, reason ≠ some (.failed error)) :
    run.execution.Advances next.execution :=
  BatchRun.advances_of_moves (BatchRun.moves_of_step h) hreason

/-- All states of all batches are those of one execution further on. -/
theorem advances_of_passes {reader : ShardReader σ} {execution : Execution} {shards : σ}
    {run : BatchRun σ} (h : execution.Passes reader shards run) :
    execution.Advances run.execution := by
  induction h with
  | start => exact .refl execution
  | step _ hstep ih => exact ih.trans (advances_of_step hstep nofun)
  | batch _ hstep ih =>
      obtain ⟨hid, hplan, hbindings, hoptions, hlimit, hpeak, hfinished, hpipeline⟩ :=
        ih.trans (advances_of_step hstep nofun)
      exact ⟨hid, hplan, hbindings, hoptions, hlimit, hpeak, hfinished, hpipeline⟩

/-- A batch that leaves an execution open takes it further on. -/
theorem advances_of_nextBatch {reader : ShardReader σ} {budget : Nat} {execution : Execution}
    {shards : σ} {outcome : BatchOutcome σ}
    (h : execution.nextBatch reader budget shards = some outcome)
    (hnext : outcome.execution.finished = false) : execution.Advances outcome.execution :=
  advances_of_passes (passes_of_open h hnext).2

end Execution

end ShardQuery
