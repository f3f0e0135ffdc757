import ShardQuery.Proofs.Faults
import ShardQuery.Proofs.Resume.Genuine
import ShardQuery.Proofs.Source

/-!
# Completeness of the Checks

What can be known to be wrong with a query before its first row is found by the checks of its
start. A batch of a query that has been started therefore only fails because of what it meets
while it runs: the values of rows, their order, the memory they take, the answers of shards and
the time. The other failures that the definitions provide for cannot occur, each for a reason of
its own: the variables of all formulas have values, rows are merged only next to the source, the
source has all of its shards, and if it wants shards to be asked, then there are some.

Main definitions:

* `QueryError.OfRun` — the errors of what a query meets while it runs;
* `Stage.IsOf` — the stages that a step can be compiled to;
* `Pipeline.Sound` — what makes all other errors impossible.

## Main results

* `BatchRun.ofRun_of_moves`: a step of a sound pipeline fails only by what it meets.
* `Execution.Founded.sound`: an execution that rests on the checks of its start is sound.
* `Execution.Genuine.failure_of_nextBatch`: both, for whole batches.
-/

namespace ShardQuery

variable {σ : Type}

/-- Whether an error comes of what a query with some steps meets while it runs: of values, of the
order of the rows that one of its steps groups, of the memory, of shards or of the time. -/
def QueryError.OfRun (steps : List Step) : QueryError → Prop
  | .memory _ | .request _ | .timeout _ => True
  | .unsortedGroups fields =>
    ∃ keys aggregates, Step.groupBy keys aggregates ∈ steps ∧ fields = keys.map (·.field)
  | error => error.OfValues

/-- What goes wrong with values may go wrong while a query runs, whatever its steps are. -/
theorem QueryError.OfValues.ofRun {error : QueryError} (h : error.OfValues) (steps : List Step) :
    error.OfRun steps := by
  cases error <;> trivial

/-- What a query cannot meet while it runs: none of these errors comes of values, memory, shards or
time, and an illegal state is always that of an unsorted grouping. -/
theorem QueryError.OfRun.excludes {steps : List Step} {error : QueryError}
    (h : error.OfRun steps) :
    error.code ≠ .badProtocol ∧ error ≠ .zeroPosition ∧ (∀ ref, error ≠ .unbound ref) ∧
      (∀ bound typeName, error ≠ .sliceBound bound typeName) ∧
      (∀ position, error ≠ .scanState position) ∧ (∀ kind, error ≠ .mergeInput kind) ∧
      error ≠ .noRequests ∧
      (error.code = .illegalState → ∃ keys aggregates, Step.groupBy keys aggregates ∈ steps ∧
        error = .unsortedGroups (keys.map (·.field))) := by
  cases error with
  | unsortedGroups fields =>
      obtain ⟨keys, aggregates, hmem, rfl⟩ := h
      refine ⟨nofun, nofun, nofun, nofun, nofun, nofun, nofun, fun _ => ?_⟩
      exact ⟨keys, aggregates, hmem, rfl⟩
  | function fault =>
      cases fault with
      | invalidArgument => exact ⟨nofun, nofun, nofun, nofun, nofun, nofun, nofun, nofun⟩
      | _ => cases h
  | negation | divisionByZero | arithmetic | aggregation | memory | request | timeout =>
      exact ⟨nofun, nofun, nofun, nofun, nofun, nofun, nofun, nofun⟩
  | _ => cases h

/-! ### Stages -/

namespace Stage

variable {bindings : Bindings} {error : QueryError}

/-- The variables that a stage computes values with when it gets a row. -/
def bindRefs : Stage → List BindRef
  | .groupBy _ aggregations _ => aggregations.flatMap Aggregation.bindRefs
  | .project fields => fields.flatMap fun field => field.2.bindRefs
  | .sort .. | .distinct .. | .slice .. => []

/-- Whether a stage can fail with an error when it gets a row: because of a value, because of a
variable without a value, or because it groups rows and they are out of order. -/
inductive Fault (bindings : Bindings) : Stage → QueryError → Prop
  /-- A value does not suit. -/
  | values {stage : Stage} {error : QueryError} : error.OfValues → Fault bindings stage error
  /-- A variable has no value. -/
  | lacks {stage : Stage} {error : QueryError} :
      bindings.Lacks stage.bindRefs error → Fault bindings stage error
  /-- Rows to be grouped are out of order. -/
  | order (keys : List OrderKey) (aggregations : List Aggregation) (state : GroupState) :
      Fault bindings (.groupBy keys aggregations state) (.unsortedGroups (keys.map (·.field)))

/-- A projection fails because of a value, or because a variable of its formulas has no value. -/
theorem fault_of_projectFields {row : Row} {fields : List (String × Formula)}
    (h : projectFields row bindings fields = .error error) :
    error.OfValues ∨ bindings.Lacks (fields.flatMap fun field => field.2.bindRefs) error := by
  induction fields with
  | nil => cases h
  | cons field fields ih =>
      rw [projectFields] at h
      obtain hfirst | ⟨value, -, h⟩ := bind_eq_error_iff.1 h
      · exact (Formula.fault_of_eval hfirst).imp_right (·.mono (List.subset_append_left _ _))
      · obtain hothers | ⟨values, -, h⟩ := bind_eq_error_iff.1 h
        · exact (ih hothers).imp_right (·.mono (List.subset_append_right _ _))
        · cases h

/-- The failures of a stage with a row, kind by kind: a merge, a slice and the dropping of repeated
rows never fail. -/
theorem fault_of_accept {row : Row} {stage : Stage}
    (h : (stage.accept bindings row).result = .error error) : Fault bindings stage error := by
  generalize hown : stage.accept bindings row = own at h
  cases accept_inv hown with
  | unsorted hgroup =>
      cases h
      obtain ⟨rfl, -⟩ := unsorted_of_groupFor hgroup
      exact .order _ _ _
  | refused _ haggregates =>
      cases h
      exact (fault_of_accumulate haggregates).elim .values fun hlacks => .lacks hlacks
  | unprojected hfields =>
      cases h
      exact (fault_of_projectFields hfields).elim .values fun hlacks => .lacks hlacks
  | merged | kept | grouped | same | changed | seen | unseen | projected | skipped | sliced =>
      cases h

/-- The failures of a stage with a signal are those with a row. -/
theorem fault_of_pass {signal : Signal} {stage : Stage}
    (h : (Pipeline.pass bindings signal stage).result = .error error) :
    Fault bindings stage error := by
  cases signal with
  | row row => exact fault_of_accept h
  | exhausted => cases ne_error_of_finish stage error h
  | fetch | again => cases h

end Stage

/-! ### Pipelines -/

namespace Pipeline

variable {bindings : Bindings}

/-- Whether rows are merged only by the innermost of some stages. -/
def MergesLast : List Stage → Prop
  | [] => True
  | stage :: inner =>
    (∀ keys state, stage = .sort keys .merge state → inner = []) ∧ MergesLast inner

/-- Whether a pipeline cannot fail but by what a query with some steps meets while it runs. -/
structure Sound (bindings : Bindings) (steps : List Step) (pipeline : Pipeline) : Prop where
  /-- The variables of its formulas have values. -/
  bound : ∀ stage ∈ pipeline.stages, ∀ ref ∈ stage.bindRefs,
    ∃ value, bindings.resolve ref = .ok value
  /-- Rows are grouped as the steps say. -/
  grouped : ∀ keys aggregations state, .groupBy keys aggregations state ∈ pipeline.stages →
    ∃ aggregates, Step.groupBy keys aggregates ∈ steps
  /-- Rows are merged only next to the source. -/
  mergesLast : MergesLast pipeline.stages
  /-- The source has all of its shards. -/
  length_eq : pipeline.source.shards.length = pipeline.source.shardCount

/-- In a pipeline that merges only next to its source, no stage fails by itself. -/
theorem ne_error_of_readyOver {inner : List Stage} {stage : Stage} {own : Metered Stage Signal}
    (hmerges : MergesLast (stage :: inner)) (h : readyOver? inner stage = some own)
    (error : QueryError) : own.result ≠ .error error := by
  unfold readyOver? at h
  split at h
  · cases hmerges.1 _ _ rfl
  · exact Stage.ne_error_of_ready h error

/-- A tick fails by a stage that gets a row. -/
theorem fault_of_tickStages {source : Source} {stages : List Stage} {error : QueryError}
    (hlength : source.shards.length = source.shardCount) (hmerges : MergesLast stages)
    (h : (tickStages bindings source stages).result = .error error) :
    ∃ stage ∈ stages, stage.Fault bindings error := by
  induction stages with
  | nil => cases Source.ne_error_of_next hlength error h
  | cons stage inner ih =>
      cases tickStages_inv h with
      | own hready hown => cases ne_error_of_readyOver hmerges hready error hown
      | failed _ hbelow =>
          obtain ⟨found, hmem, hfault⟩ := ih hmerges.2 hbelow
          exact ⟨found, List.mem_cons_of_mem _ hmem, hfault⟩
      | passed _ _ hpass => exact ⟨stage, List.mem_cons_self, Stage.fault_of_pass hpass⟩

/-- **A tick of a sound pipeline fails only by what it meets.** -/
theorem Sound.ofRun_of_tick {steps : List Step} {pipeline : Pipeline} {error : QueryError}
    (h : pipeline.Sound bindings steps) (herror : (pipeline.tick bindings).result = .error error) :
    error.OfRun steps := by
  obtain ⟨stage, hmem, hfault⟩ := fault_of_tickStages h.length_eq h.mergesLast herror
  cases hfault with
  | values hvalues => exact hvalues.ofRun steps
  | lacks hlacks => cases Bindings.not_lacks (h.bound stage hmem) hlacks
  | order keys aggregations state =>
      obtain ⟨aggregates, hgroupBy⟩ := h.grouped keys aggregations state hmem
      exact ⟨keys, aggregates, hgroupBy, rfl⟩

/-- If a tick wants shards to be asked, then the source wants it, and stays as it is. -/
theorem source_of_fetch {source : Source} {stages : List Stage} {wanted : List Nat}
    (h : (tickStages bindings source stages).result = .ok (.fetch wanted)) :
    source.next.result = .ok (.fetch wanted) ∧
      (tickStages bindings source stages).state.source = source := by
  induction stages with
  | nil => exact ⟨h, (Source.next_of_fetch h).1⟩
  | cons stage inner ih =>
      cases tickStages_inv h with
      | own hready hown => cases Stage.ne_fetch_of_ready (ready?_of_result hready hown) wanted hown
      | passed _ hbelow hpass hnext =>
          obtain rfl := Stage.eq_fetch_of_pass hpass
          rw [hnext]
          exact ih hbelow

end Pipeline

/-! ### Batches -/

/-- Requests are made to the shards that the source has. -/
theorem Execution.mem_places_requests {execution : Execution} {wanted : List Nat} {index : Nat} :
    index ∈ (execution.requests wanted).map (·.1) ↔
      index ∈ wanted ∧ index < execution.pipeline.source.shards.length := by
  simp only [requests, List.mem_map, List.mem_filterMap, Option.map_eq_some_iff]
  constructor
  · rintro ⟨_, ⟨i, hi, progress, hprogress, rfl⟩, rfl⟩
    exact ⟨hi, (List.getElem?_eq_some_iff.1 hprogress).1⟩
  · rintro ⟨hmem, hlt⟩
    exact ⟨_, ⟨index, hmem, _, List.getElem?_eq_getElem hlt, rfl⟩, rfl⟩

namespace BatchRun

variable {reader : ShardReader σ} {run next : BatchRun σ}

/-- A tick that wants shards to be asked wants what the source wants, and leaves the source. -/
theorem next_of_booked {m : Memory} {p : Pipeline} {wanted : List Nat}
    (h : run.booked = (m, p, .ok (.fetch wanted))) :
    p.source.next.result = .ok (.fetch wanted) ∧ p.source = run.execution.pipeline.source := by
  obtain ⟨-, hstate, hresult⟩ := Metered.run_eq_ok_iff.1 h
  obtain ⟨hnext, hsource⟩ := Pipeline.source_of_fetch hresult
  have hsame : p.source = run.execution.pipeline.source := hstate ▸ hsource
  exact ⟨hsame ▸ hnext, hsame⟩

/-- If a tick wants shards to be asked, then there is something to ask. -/
theorem requests_ne_nil_of_booked {m : Memory} {p : Pipeline} {wanted : List Nat}
    (h : run.booked = (m, p, .ok (.fetch wanted))) :
    (run.moved m p).execution.requests wanted ≠ [] := by
  obtain ⟨hnext, -⟩ := next_of_booked h
  obtain ⟨-, hne, hwanted⟩ := Source.next_of_fetch hnext
  obtain ⟨index, hindex⟩ := List.exists_mem_of_ne_nil _ hne
  have hmem : index ∈ ((run.moved m p).execution.requests wanted).map (·.1) :=
    Execution.mem_places_requests.2 ⟨hindex, hwanted index hindex⟩
  intro hrequests
  rw [hrequests] at hmem
  cases hmem

/-- Answers are taken in unless a shard refuses one or the memory does not suffice. -/
theorem ofRun_of_installed {steps : List Step} {m : Memory} {p : Pipeline} {wanted : List Nat}
    {error : QueryError} (h : run.installed reader wanted = (m, p, .error error)) :
    error.OfRun steps := by
  obtain ⟨excess, -, rfl⟩ | ⟨-, -, hresult⟩ := Metered.run_eq_error h
  · trivial
  · have hplaces : ∀ index ∈ (((run.execution.requests wanted).map (·.1)).zip
        (run.answers reader wanted).1).map (·.1),
        index < run.execution.pipeline.source.shards.length := by
      refine List.forall_mem_map.2 fun entry hentry => ?_
      exact (Execution.mem_places_requests.1 (List.of_mem_zip hentry).1).2
    obtain ⟨fault, rfl⟩ := Source.request_of_receive hplaces hresult
    trivial

/-- **A step of a sound pipeline fails only by what it meets.** -/
theorem ofRun_of_moves {steps : List Step} {error : QueryError}
    (hsound : run.execution.pipeline.Sound run.execution.bindings steps)
    (h : Moves reader run next (some (.failed error))) : error.OfRun steps := by
  cases h with
  | broken _ hb =>
      obtain ⟨excess, -, rfl⟩ | ⟨-, -, hresult⟩ := Metered.run_eq_error hb
      · trivial
      · exact hsound.ofRun_of_tick hresult
  | idle _ hb _ hrequests => exact absurd hrequests (requests_ne_nil_of_booked hb)
  | noTime | late => trivial
  | refused _ _ _ _ _ _ hi => exact ofRun_of_installed hi

end BatchRun

/-! ### What has been checked -/

/-- Whether a stage is one that a step is compiled to, with whatever state. -/
inductive Stage.IsOf (registry : Registry) : Stage → Step → Prop
  /-- A sort. -/
  | sort (keys : List OrderKey) (mode : SortMode) (state : SortState) :
      IsOf registry (.sort keys mode state) (.sort keys mode)
  /-- A grouping, its functions looked up. -/
  | groupBy {keys : List OrderKey} {aggregates : List AggregateCall}
      {aggregations : List Aggregation} (state : GroupState) :
      List.Forall₂ (fun call aggregation => call.compile registry = .ok aggregation)
        aggregates aggregations →
      IsOf registry (.groupBy keys aggregations state) (.groupBy keys aggregates)
  /-- A stage that drops repeated rows. -/
  | distinct (keys : List String) (strategy : DistinctStrategy) (state : DistinctState) :
      IsOf registry (.distinct keys strategy state) (.distinct keys strategy)
  /-- A projection, its functions looked up. -/
  | project {fields : List Projection} {formulas : List (String × Formula)} :
      List.Forall₂ (fun field formula => Formula.compile registry field.expr = .ok formula.2)
        fields formulas →
      IsOf registry (.project formulas) (.project fields)
  /-- A slice, its bounds computed. -/
  | slice (offset limit : Option Expr) (first : UInt64) (most : Option UInt64)
      (state : SliceState) :
      IsOf registry (.slice first most state) (.slice offset limit)

section Checks

variable {registry : Registry} {bindings : Bindings}

/-- A stage is one of the step that it has been opened for. -/
theorem Stage.isOf_of_openStage {step : Step} {compiled : CompiledStep} {state : NodeState}
    {stage : Stage} (hcompile : step.compile registry = .ok compiled)
    (hopen : Pipeline.openStage? bindings compiled state = some (.ok stage)) :
    stage.IsOf registry step := by
  cases step with
  | sort keys mode =>
      cases hcompile
      cases state <;> cases hopen
      exact .sort keys mode _
  | groupBy keys aggregates =>
      obtain ⟨aggregations, haggregations, hcompiled⟩ := bind_eq_ok_iff.1 hcompile
      cases hcompiled
      cases state <;> cases hopen
      exact .groupBy _ (mapM_eq_ok_iff.1 haggregations)
  | distinct keys strategy =>
      cases hcompile
      cases state <;> cases hopen
      exact .distinct keys strategy _
  | project fields =>
      obtain ⟨formulas, hformulas, hcompiled⟩ := bind_eq_ok_iff.1 hcompile
      cases hcompiled
      cases state <;> cases hopen
      refine .project ((mapM_eq_ok_iff.1 hformulas).imp fun field formula hformula => ?_)
      obtain ⟨value, hvalue, heq⟩ := bind_eq_ok_iff.1 hformula
      cases heq
      exact hvalue
  | slice offset limit =>
      obtain ⟨_, -, hcompile⟩ := bind_eq_ok_iff.1 hcompile
      obtain ⟨_, -, hcompile⟩ := bind_eq_ok_iff.1 hcompile
      cases hcompile
      have hstate := Pipeline.state_of_openStage hopen
      cases stage with
      | slice first most state => exact .slice offset limit first most state
      | sort | groupBy | distinct | project =>
          cases hstate
          cases hopen

/-- The stages of an opened pipeline are those of the steps. -/
theorem Pipeline.Opened.isOf {openSource : List ShardProgress → Source} {steps : List Step}
    {compiled : List CompiledStep} {states : List NodeState} {pipeline : Pipeline}
    (h : Opened bindings openSource compiled states pipeline)
    (hcompile : compileSteps registry steps = .ok compiled) :
    List.Forall₂ (Stage.IsOf registry) pipeline.stages steps := by
  rw [compileSteps_eq_ok_iff] at hcompile
  induction h generalizing steps with
  | source =>
      cases hcompile
      exact .nil
  | stage hstage _ ih =>
      obtain ⟨step, steps, hstep, hsteps, rfl⟩ := List.forall₂_cons_right_iff.1 hcompile
      exact .cons (Stage.isOf_of_openStage hstep hstage) (ih hsteps)

/-- Of two lists that correspond, each item of the first has a partner in the second. -/
theorem exists_of_forall₂ {α β : Type} {R : α → β → Prop} {l : List α} {m : List β} {a : α}
    (h : List.Forall₂ R l m) (hmem : a ∈ l) : ∃ b ∈ m, R a b := by
  induction h with
  | nil => cases hmem
  | cons hfirst _ ih =>
      rcases List.mem_cons.1 hmem with rfl | hmem
      · exact ⟨_, List.mem_cons_self, hfirst⟩
      · obtain ⟨b, hb, hrel⟩ := ih hmem
        exact ⟨b, List.mem_cons_of_mem _ hb, hrel⟩

/-- An aggregation has variables of its call only, namely those of the first argument. -/
theorem Aggregation.bindRefs_subset {call : AggregateCall} {aggregation : Aggregation}
    (h : call.compile registry = .ok aggregation) :
    aggregation.bindRefs ⊆ call.args.flatMap Expr.bindRefs := by
  obtain ⟨function, -, h⟩ := bind_eq_ok_iff.1 h
  split at h
  · cases h
    exact List.nil_subset _
  · next arg args hargs =>
      obtain ⟨formula, hformula, h⟩ := bind_eq_ok_iff.1 h
      cases h
      rw [hargs, bindRefs, Option.elim_some, Formula.bindRefs_of_compile hformula]
      exact List.subset_append_left _ _

/-- A stage has variables of its step only, so a complete binding of the plan covers them. -/
theorem Stage.IsOf.bindRefs_subset {step : Step} {stage : Stage} (h : stage.IsOf registry step) :
    stage.bindRefs ⊆ step.exprs.flatMap Expr.bindRefs := by
  intro ref hmem
  cases h with
  | sort | distinct | slice => cases hmem
  | groupBy state hcalls =>
      obtain ⟨aggregation, haggregation, href⟩ := List.mem_flatMap.1 hmem
      obtain ⟨call, hcall, hcompile⟩ := exists_of_forall₂ hcalls.flip haggregation
      rw [Step.exprs, List.flatMap_assoc]
      exact List.mem_flatMap.2 ⟨call, hcall, Aggregation.bindRefs_subset hcompile href⟩
  | project hfields =>
      obtain ⟨formula, hformula, href⟩ := List.mem_flatMap.1 hmem
      obtain ⟨field, hfield, hcompile⟩ := exists_of_forall₂ hfields.flip hformula
      rw [Step.exprs, List.flatMap_map]
      exact List.mem_flatMap.2 ⟨field, hfield, Formula.bindRefs_of_compile hcompile ▸ href⟩

/-- A merging sort without faults has no steps inside. -/
theorem nil_of_fault? {scan : Scan} {inner : List Step} {keys : List OrderKey}
    (h : (Step.sort keys .merge).fault? scan inner = none) : inner = [] := by
  simp only [Step.fault?] at h
  split at h
  · cases h
  · split at h
    · cases h
    · next hmerge =>
        simp only [decide_true, Bool.true_and, Bool.not_eq_true', Bool.not_eq_false,
          Bool.and_eq_true, List.isEmpty_iff] at hmerge
        exact hmerge.1

/-- In a plan without faults, rows are merged only next to the source. -/
theorem Pipeline.mergesLast_of_fault {scan : Scan} {steps : List Step} {stages : List Stage}
    (h : List.Forall₂ (Stage.IsOf registry) stages steps)
    (hfault : faultOfSteps? scan steps = none) : MergesLast stages := by
  induction h with
  | nil => trivial
  | cons hstage hinner ih =>
      obtain ⟨hfirst, hothers⟩ := Option.or_eq_none_iff.1 hfault
      refine ⟨?_, ih hothers⟩
      rintro keys state rfl
      cases hstage
      cases nil_of_fault? hfirst
      exact List.forall₂_nil_right_iff.1 hinner

end Checks

namespace Execution

variable {engine : Engine} {options : QueryOptions} {execution : Execution}

/-- **An execution that rests on the checks of its start is sound.** -/
theorem Founded.sound (h : execution.Founded engine options) :
    execution.pipeline.Sound execution.bindings execution.plan.steps := by
  obtain ⟨steps, hcompile, hopened⟩ := h.opened
  have hstages := hopened.isOf hcompile
  refine ⟨?_, ?_, ?_, ?_⟩
  · intro stage hmem ref href
    obtain ⟨step, hstep, hisOf⟩ := exists_of_forall₂ hstages hmem
    exact h.bound ref (List.mem_flatMap.2 ⟨step, hstep, hisOf.bindRefs_subset href⟩)
  · intro keys aggregations state hmem
    obtain ⟨step, hstep, hisOf⟩ := exists_of_forall₂ hstages hmem
    cases hisOf
    exact ⟨_, hstep⟩
  · exact Pipeline.mergesLast_of_fault hstages (Plan.faultOfSteps?_of_check h.check)
  · obtain ⟨shards, -, hsource⟩ := hopened.source_eq
    have hfits := h.fits execution.pipeline.source.state
      (List.mem_append_right _ (List.mem_singleton_self _))
    exact hfits.trans (congrArg Source.shardCount hsource).symm

namespace Genuine

variable {kept : Execution → Prop} {plan : Plan} {bindings : Bindings}

/-- A batch of a genuine execution fails only by what it meets. -/
theorem ofRun_of_nextBatch (h : Genuine kept plan bindings engine options execution)
    {reader : ShardReader σ} {budget : Nat} {shards : σ} {outcome : BatchOutcome σ}
    {error : QueryError} (hbatch : execution.nextBatch reader budget shards = some outcome)
    (herror : outcome.result = .error error) : error.OfRun plan.steps := by
  obtain ⟨hopen, before, last, hbefore, hstep, rfl⟩ := failed_of_nextBatch hbatch herror
  obtain ⟨hfounded, rfl, -⟩ := h.founded hopen
  have hadvances := advances_of_passes hbefore
  rw [← hadvances.plan_eq]
  exact BatchRun.ofRun_of_moves (hfounded.advances hadvances).sound
    (BatchRun.moves_of_step hstep)

/-- **The checks of a start are complete.** Whatever functions there are and whatever the shards
answer, no batch of an execution that has been started, or that goes on with a token of such an
execution, fails because of a function or variable that is missing, of a bound of a slice, of the
state of a node, of a merge over something else than the scan or of a round without requests. The
only impossible state that it can report is that the rows of one of its groupings are not sorted.
At any time there is one state for each node, of its kind, and the steps open the same pipeline
again with these states, the bounds of slices computed anew. -/
theorem failure_of_nextBatch (h : Genuine (fun _ => True) plan bindings engine options execution)
    (reader : ShardReader σ) (shards : σ) :
    (∀ budget outcome error, execution.nextBatch reader budget shards = some outcome →
      outcome.result = .error error →
        error.code ≠ .badProtocol ∧ error ≠ .zeroPosition ∧ (∀ ref, error ≠ .unbound ref) ∧
        (∀ bound typeName, error ≠ .sliceBound bound typeName) ∧
        (∀ position, error ≠ .scanState position) ∧ (∀ kind, error ≠ .mergeInput kind) ∧
        error ≠ .noRequests ∧
        (error.code = .illegalState → ∃ keys aggregates,
          Step.groupBy keys aggregates ∈ plan.steps ∧
            error = .unsortedGroups (keys.map (·.field)))) ∧
    (execution.finished = false → ∀ run, execution.Passes reader shards run →
      run.execution.pipeline.states.map NodeState.kind = plan.shape ∧
      ∃ steps, compileSteps engine.registry plan.steps = .ok steps ∧
        Pipeline.Opened bindings (plan.scan.source steps run.execution.options.maxFanOut) steps
          run.execution.pipeline.states run.execution.pipeline) := by
  refine ⟨fun budget outcome error hbatch herror => (h.ofRun_of_nextBatch hbatch herror).excludes,
    fun hopen run hrun => ?_⟩
  obtain ⟨hfounded, rfl, rfl⟩ := h.founded hopen
  have hadvances := advances_of_passes hrun
  have hrests := hfounded.advances hadvances
  rw [← hadvances.plan_eq, ← hadvances.bindings_eq]
  exact ⟨hrests.kinds_eq, hrests.opened⟩

end Genuine

/-! ### An example -/

/-- A query that groups the rows of one shard. -/
def unsortedScan : Query :=
  ⟨⟨Plan.currentVersion, [.groupBy [⟨"a", false, false⟩] []], ⟨"t", [0], true⟩⟩, .empty,
    QueryOptions.standard, none⟩

/-- The execution of `unsortedScan` at its start, under the usual settings. -/
def unsortedScanStart : Execution where
  id := ⟨0⟩
  plan := unsortedScan.plan
  bindings := .empty
  options := ⟨none, none, none, 1024, none, none, .eventual, none, 4⟩
  memory := Memory.ofLimitMb 1024
  pipeline := ⟨[.groupBy [⟨"a", false, false⟩] [] .start], ⟨"t", 1, 1, .inOrder, [.start 0]⟩⟩
  elapsedMs := 0
  finished := false

/-- A shard whose rows are not sorted, the second one being less than the first. -/
def unsortedPage : Recorded :=
  ⟨[(0, [.ok ⟨[Row.ofList [("a", .int 2)], Row.ofList [("a", .int 1)]], none⟩])]⟩

/-- The rows of a shard that does not sort them are reported for the grouping. -/
theorem failure_unsortedPage : ∃ outcome keys aggregates,
    unsortedScanStart.nextBatch Recorded.reader 3 unsortedPage = some outcome ∧
      Step.groupBy keys aggregates ∈ unsortedScan.plan.steps ∧
      outcome.result = .error (.unsortedGroups (keys.map (·.field))) := by
  have hgenuine : Genuine (fun _ => True) unsortedScan.plan .empty plainEngine unsortedScan.options
      unsortedScanStart := @Genuine.fresh _ _ _ _ _ ⟨0⟩ _ rfl
  have hresult : (unsortedScanStart.nextBatch Recorded.reader 3 unsortedPage).map (·.result) =
      some (.error (.unsortedGroups ["a"])) :=
    map_result_of_failsWith (by decide +kernel)
  obtain ⟨outcome, hbatch, herror⟩ := Option.map_eq_some_iff.1 hresult
  obtain ⟨-, -, -, -, -, -, -, hgroups⟩ :=
    (hgenuine.failure_of_nextBatch Recorded.reader unsortedPage).1 3 outcome _ hbatch herror
  obtain ⟨keys, aggregates, hmem, heq⟩ := hgroups rfl
  exact ⟨outcome, keys, aggregates, hbatch, hmem, herror.trans (congrArg Except.error heq)⟩

end Execution

end ShardQuery
