import ShardQuery.Proofs.Run
import ShardQuery.Proofs.Stage

/-!
# Traces

What the stages of a pipeline say to each other is not to be seen from outside. A trace keeps
the pipelines whose ticks have made up a run, so that the rows which any stage has sent on can
be told afterwards.

Main definitions:

* `Pipeline.saidAt` — what a stage says to the next one outside in a tick;
* `Execution.Traces` — the runs of an execution with their ticks;
* `sentBy` — the rows that a stage has sent on in some ticks.

## Main results

* `Pipeline.below_tick_of_said`, `Pipeline.below_tick_of_silent`: a tick moves the stages from
  any place on as if they were by themselves, or not at all.
-/

namespace ShardQuery

/-- The row that a signal sends on, if it is one that sends a row. -/
def Signal.row? : Signal → Option Row
  | .row r => some r
  | .exhausted | .fetch _ | .again => none

namespace Pipeline

variable {bindings : Bindings}

/-- The pipeline without so many stages outside, as it runs inside of them. -/
def below (depth : Nat) (pipeline : Pipeline) : Pipeline :=
  ⟨pipeline.stages.drop depth, pipeline.source⟩

/-- What comes out of the stages behind so many others in a tick of a source and stages; nothing
if a stage before them has something to say by itself. -/
def saidByStages (bindings : Bindings) (source : Source) :
    Nat → List Stage → Option (Except QueryError Signal)
  | 0, stages => some (tickStages bindings source stages).result
  | _ + 1, [] => none
  | depth + 1, stage :: inner =>
    if (readyOver? inner stage).isSome then none else saidByStages bindings source depth inner

/-- What comes out of the stages behind so many others in the next tick. -/
def saidAt (bindings : Bindings) (pipeline : Pipeline) (depth : Nat) :
    Option (Except QueryError Signal) :=
  saidByStages bindings pipeline.source depth pipeline.stages

/-- The row that a stage behind so many others sends on in the next tick. -/
def sentAt (bindings : Bindings) (depth : Nat) (pipeline : Pipeline) : Option Row :=
  match pipeline.saidAt bindings depth with
  | some (.ok signal) => signal.row?
  | _ => none

/-- Whether the next tick fails because the stage behind so many others gets rows that are not
sorted. -/
def Unsorted (bindings : Bindings) (pipeline : Pipeline) (depth : Nat) : Prop :=
  ∃ fields, pipeline.saidAt bindings depth = some (.error (.unsortedGroups fields)) ∧
    pipeline.saidAt bindings (depth + 1) ≠ some (.error (.unsortedGroups fields))

/-- A stage that has something to say by itself does not listen to those below it. -/
theorem saidByStages_of_ready {source : Source} {stage : Stage} {inner : List Stage}
    {own : Metered Stage Signal} (h : readyOver? inner stage = some own) (depth : Nat) :
    saidByStages bindings source (depth + 1) (stage :: inner) = none := by
  rw [saidByStages, h]
  rfl

/-- Any other stage listens to what is said below it. -/
theorem saidByStages_of_unready {source : Source} {stage : Stage} {inner : List Stage}
    (h : readyOver? inner stage = none) (depth : Nat) :
    saidByStages bindings source (depth + 1) (stage :: inner) =
      saidByStages bindings source depth inner := by
  rw [saidByStages, h]
  rfl

/-- What comes out of all stages is the result of the tick. -/
theorem saidAt_zero (pipeline : Pipeline) :
    pipeline.saidAt bindings 0 = some (pipeline.tick bindings).result := by
  rw [saidAt, saidByStages, tick]

/-- A stage that says a signal sends on the row of this signal. -/
theorem sentAt_of_ok {pipeline : Pipeline} {depth : Nat} {signal : Signal}
    (h : pipeline.saidAt bindings depth = some (.ok signal)) :
    pipeline.sentAt bindings depth = signal.row? := by
  rw [sentAt, h]

/-- A tick of stages moves those from a place on as if they were by themselves. -/
theorem below_tickStages {source : Source} {stages : List Stage} {depth : Nat}
    {said : Except QueryError Signal} (h : saidByStages bindings source depth stages = some said) :
    (tickStages bindings source (stages.drop depth)).result = said ∧
      (tickStages bindings source stages).state.below depth =
        (tickStages bindings source (stages.drop depth)).state := by
  induction depth generalizing stages with
  | zero =>
      rw [saidByStages] at h
      exact ⟨Option.some.inj h, rfl⟩
  | succ depth ih =>
      cases stages with
      | nil => cases h
      | cons stage inner =>
          generalize hresult : (tickStages bindings source (stage :: inner)).result = result
          cases tickStages_inv hresult with
          | own hready =>
              rw [saidByStages_of_ready hready] at h
              cases h
          | failed hready _ hnext | passed hready _ _ hnext =>
              rw [saidByStages_of_unready hready] at h
              obtain ⟨hsaid, hstate⟩ := ih h
              rw [hnext]
              exact ⟨hsaid, hstate⟩

/-- A tick of stages leaves those from a place on if a stage before them has something to say by
itself. -/
theorem below_tickStages_of_silent {source : Source} {stages : List Stage} {depth : Nat}
    (hdepth : depth ≤ stages.length) (h : saidByStages bindings source depth stages = none) :
    (tickStages bindings source stages).state.below depth = ⟨stages.drop depth, source⟩ := by
  induction depth generalizing stages with
  | zero => cases h
  | succ depth ih =>
      cases stages with
      | nil => cases hdepth
      | cons stage inner =>
          generalize hresult : (tickStages bindings source (stage :: inner)).result = result
          cases tickStages_inv hresult with
          | own _ _ hnext =>
              rw [hnext]
              rfl
          | failed hready _ hnext | passed hready _ _ hnext =>
              rw [saidByStages_of_unready hready] at h
              rw [hnext]
              exact ih (Nat.le_of_succ_le_succ hdepth) h

/-- If something comes out at a place, the pipeline from there on has made a tick of its own. -/
theorem below_tick_of_said {pipeline : Pipeline} {depth : Nat} {said : Except QueryError Signal}
    (h : pipeline.saidAt bindings depth = some said) :
    ((pipeline.below depth).tick bindings).result = said ∧
      (pipeline.tick bindings).state.below depth = ((pipeline.below depth).tick bindings).state :=
  below_tickStages h

/-- If nothing comes out at a place, the pipeline from there on stays as it is. -/
theorem below_tick_of_silent {pipeline : Pipeline} {depth : Nat}
    (hdepth : depth ≤ pipeline.stages.length) (h : pipeline.saidAt bindings depth = none) :
    (pipeline.tick bindings).state.below depth = pipeline.below depth :=
  below_tickStages_of_silent hdepth h

/-- A failure at a place is one of the whole tick. -/
theorem result_of_said_error {pipeline : Pipeline} {depth : Nat} {error : QueryError}
    (h : pipeline.saidAt bindings depth = some (.error error)) :
    (pipeline.tick bindings).result = .error error := by
  rw [tick]
  rw [saidAt] at h
  generalize pipeline.stages = stages at h ⊢
  induction depth generalizing stages with
  | zero => exact Option.some.inj h
  | succ depth ih =>
      cases stages with
      | nil => cases h
      | cons stage inner =>
          cases hready : readyOver? inner stage with
          | some own =>
              rw [saidByStages_of_ready hready] at h
              cases h
          | none =>
              rw [saidByStages_of_unready hready] at h
              exact (tickStages_of_error hready (ih inner h)).1

/-- What is said at a place is said by the stages from any place before. -/
theorem saidAt_add (pipeline : Pipeline) (depth more : Nat) :
    pipeline.saidAt bindings (depth + more) =
      (pipeline.saidAt bindings depth).bind fun _ =>
        (pipeline.below depth).saidAt bindings more := by
  suffices h : ∀ stages, saidByStages bindings pipeline.source (depth + more) stages =
      (saidByStages bindings pipeline.source depth stages).bind fun _ =>
        saidByStages bindings pipeline.source more (stages.drop depth) from h _
  intro stages
  induction depth generalizing stages with
  | zero =>
      rw [Nat.zero_add, saidByStages]
      rfl
  | succ depth ih =>
      cases stages with
      | nil =>
          rw [Nat.succ_add]
          rfl
      | cons stage inner =>
          rw [Nat.succ_add, saidByStages, saidByStages, List.drop_succ_cons, ih]
          cases readyOver? inner stage <;> rfl

/-- If a tick fails because rows are not sorted, it is because of one stage. -/
theorem exists_unsorted {pipeline : Pipeline} {fields : List String}
    (h : (pipeline.tick bindings).result = .error (.unsortedGroups fields)) :
    ∃ depth, pipeline.Unsorted bindings depth := by
  suffices hstages : ∀ stages,
      (tickStages bindings pipeline.source stages).result = .error (.unsortedGroups fields) →
      ∃ depth, saidByStages bindings pipeline.source depth stages =
          some (.error (.unsortedGroups fields)) ∧
        saidByStages bindings pipeline.source (depth + 1) stages ≠
          some (.error (.unsortedGroups fields)) by
    obtain ⟨depth, hdepth⟩ := hstages _ h
    exact ⟨depth, fields, hdepth⟩
  intro stages herror
  induction stages with
  | nil => exact ⟨0, congrArg some herror, nofun⟩
  | cons stage inner ih =>
      by_cases hbelow : saidByStages bindings pipeline.source 1 (stage :: inner) =
          some (.error (.unsortedGroups fields))
      · cases hready : readyOver? inner stage with
        | some own =>
            rw [saidByStages_of_ready hready] at hbelow
            cases hbelow
        | none =>
            rw [saidByStages_of_unready hready] at hbelow
            obtain ⟨depth, hdepth, hnext⟩ := ih (Option.some.inj hbelow)
            refine ⟨depth + 1, ?_, ?_⟩
            · rwa [saidByStages_of_unready hready]
            · rwa [saidByStages_of_unready hready]
      · exact ⟨0, congrArg some herror, hbelow⟩

end Pipeline

/-- The rows that a stage behind so many others sends on in the ticks of pipelines. -/
def sentBy (bindings : Bindings) (depth : Nat) (ticked : List Pipeline) : List Row :=
  ticked.filterMap (Pipeline.sentAt bindings depth)

/-- One more tick adds the row that it sends on, if there is one. -/
theorem sentBy_concat (bindings : Bindings) (depth : Nat) (ticked : List Pipeline)
    (pipeline : Pipeline) :
    sentBy bindings depth (ticked ++ [pipeline]) =
      sentBy bindings depth ticked ++ (pipeline.sentAt bindings depth).toList := by
  rw [sentBy, List.filterMap_append]
  simp only [List.filterMap_cons, List.filterMap_nil]
  cases pipeline.sentAt bindings depth <;> rfl

/-- The states of all batches of an execution, each with the pipelines ticked before. After a
full batch the execution goes on, or another one at the same place. -/
inductive Execution.Traces {σ : Type} (reader : ShardReader σ) (execution : Execution)
    (shards : σ) : BatchRun σ → List Pipeline → Prop
  /-- The first batch. -/
  | start : Traces reader execution shards (.start execution shards) []
  /-- A step of a batch that goes on. -/
  | step {run next : BatchRun σ} {ticked : List Pipeline} :
      Traces reader execution shards run ticked → run.step reader = (next, none) →
      Traces reader execution shards next (ticked ++ [run.execution.pipeline])
  /-- The batch after one that was full, be it at once or because of a tick that wants shards to
  be asked. -/
  | batch {run last : BatchRun σ} {ticked : List Pipeline} {next : Execution} :
      Traces reader execution shards run ticked → run.step reader = (last, some .full) →
      (conclude reader last .full).execution.Continues next →
      Traces reader execution shards (.start next (conclude reader last .full).shards)
        (if run.isFull then ticked else ticked ++ [run.execution.pipeline])

end ShardQuery
