import ShardQuery.Proofs.Completeness
import ShardQuery.Proofs.Row.Order
import ShardQuery.Proofs.Stage
import ShardQuery.Proofs.Stage.Ordered

/-!
# Queries over Ordered Values

Stages make maps of their own in one place only: the key of a row in which all fields count is the
map of its fields, put in order. So if the constants of the plan, the bind variables and the rows
that shards deliver are ordered, then all values that the nodes of a query ever hold are.

Main definitions:

* `Pipeline.IsOrdered` — whether all that a pipeline holds is ordered;
* `ShardReader.Delivers` — whether the rows of all answers to come have a property.

## Main results

* `Pipeline.IsOrdered.tick`, `Pipeline.IsOrdered.receive`: what moves leave a pipeline ordered.
* `Execution.isOrdered_of_passes`: batches leave pipelines ordered.
* `Pipeline.isOrdered_of_isOf`: ordered states and constants make an ordered pipeline.
-/

namespace ShardQuery

variable {σ : Type}

/-! ### Groups -/

namespace AggregateState

/-- The state that an aggregate starts with holds no maps, and so none out of order. -/
theorem isOrdered_start (function : AggregateFunction) : (start function).IsOrdered := by
  cases function with
  | collect => exact List.forall_mem_nil _
  | sum | count | countStar | min | max | avg => trivial

/-- A sum is a number or the value that has been added to nothing, and ordered either way. -/
theorem isOrdered_of_addTo {total value sum : Value} (hvalue : value.IsOrdered)
    (h : addTo total value = .ok sum) : sum.IsOrdered := by
  unfold addTo at h
  split at h
  · split at h <;> cases h <;> trivial
  · split at h
    · cases h
      exact hvalue
    · split at h <;> cases h
      trivial

/-- Accepting an ordered value leaves a state ordered. -/
theorem IsOrdered.accept {value : Value} {state next : AggregateState} (h : state.IsOrdered)
    (hvalue : value.IsOrdered) (haccept : state.accept value = .ok next) : next.IsOrdered := by
  cases state with
  | sum total =>
      obtain ⟨sum, hsum, heq⟩ := bind_eq_ok_iff.1 haccept
      cases heq
      exact isOrdered_of_addTo hvalue hsum
  | count n =>
      cases haccept
      trivial
  | min current | max current =>
      simp only [AggregateState.accept] at haccept
      split at haccept <;> cases haccept
      · exact hvalue
      · exact h
  | avg total n =>
      simp only [AggregateState.accept] at haccept
      split at haccept <;> cases haccept
      trivial
  | collect items =>
      cases haccept
      exact List.forall_mem_append.2 ⟨h, List.forall_mem_singleton.2 hvalue⟩

/-- Taking in an input leaves a state ordered, if the value in it is. -/
theorem IsOrdered.update {input : Option Value} {state next : AggregateState} (h : state.IsOrdered)
    (hinput : ∀ value ∈ input, value.IsOrdered) (hupdate : state.update input = .ok next) :
    next.IsOrdered := by
  unfold AggregateState.update at hupdate
  split at hupdate
  · split at hupdate <;> cases hupdate
    · trivial
    · exact h
  · split at hupdate
    · cases hupdate
      exact h
    · exact h.accept (hinput _ rfl) hupdate

/-- What an aggregate comes to is ordered if its state is. -/
theorem IsOrdered.finish {state : AggregateState} (h : state.IsOrdered) :
    state.finish.IsOrdered := by
  cases state with
  | sum value | min value | max value => exact h
  | count n => trivial
  | avg total n =>
      rw [AggregateState.finish]
      split <;> trivial
  | collect items => exact Value.areItemsOrdered_iff.2 h

end AggregateState

/-- The constants of an aggregation, which are those of the formula for its input. -/
def Aggregation.constants (aggregation : Aggregation) : List Value :=
  aggregation.arg.elim [] Formula.constants

namespace Stage

variable {keys : List OrderKey} {aggregations : List Aggregation} {bindings : Bindings} {row : Row}

/-- The input of an aggregation is ordered on ordered rows, variables and constants, since no
formula puts a map together out of order. -/
theorem isOrdered_input (hbindings : bindings.All Value.IsOrdered) (hrow : row.IsOrdered)
    {aggregation : Aggregation} (hconstants : ∀ c ∈ aggregation.constants, c.IsOrdered)
    {input : Option Value} (h : Aggregation.input aggregation row bindings = .ok input) :
    ∀ value ∈ input, value.IsOrdered := by
  obtain ⟨name, function, arg⟩ := aggregation
  cases arg with
  | none => cases function <;> cases h <;> simp
  | some arg =>
      have heval (h : (arg.eval row bindings).map some = .ok input) :
          ∀ value ∈ input, value.IsOrdered := by
        cases hvalue : arg.eval row bindings with
        | error error =>
            rw [hvalue] at h
            cases h
        | ok value =>
            rw [hvalue] at h
            cases h
            rintro _ ⟨⟩
            exact Value.isHereditary_isOrdered.of_eval hrow hbindings arg hconstants hvalue
      cases function with
      | countStar =>
          cases h
          simp
      | sum | count | min | max | avg | collect => exact heval h

/-- The states of aggregations stay ordered as rows are taken in. -/
theorem isOrdered_accumulate (hbindings : bindings.All Value.IsOrdered) (hrow : row.IsOrdered)
    (hconstants : ∀ aggregation ∈ aggregations, ∀ c ∈ aggregation.constants, c.IsOrdered)
    {states next : List AggregateState} (hstates : ∀ state ∈ states, state.IsOrdered)
    (h : accumulate row bindings aggregations states = .ok next) :
    ∀ state ∈ next, state.IsOrdered := by
  induction aggregations generalizing states next with
  | nil =>
      cases states <;> cases h
      · exact hstates
      · exact hstates
  | cons aggregation aggregations ih =>
      cases states with
      | nil =>
          cases h
          exact List.forall_mem_nil _
      | cons state states =>
          obtain ⟨hfirst, hothers⟩ := List.forall_mem_cons.1 hconstants
          obtain ⟨hstate, hstates⟩ := List.forall_mem_cons.1 hstates
          obtain ⟨input, hinput, h⟩ := bind_eq_ok_iff.1 h
          obtain ⟨state', hstate', h⟩ := bind_eq_ok_iff.1 h
          obtain ⟨rest, hrest, heq⟩ := bind_eq_ok_iff.1 h
          cases heq
          exact List.forall_mem_cons.2
            ⟨hstate.update (isOrdered_input hbindings hrow hfirst hinput) hstate',
              ih hothers hstates hrest⟩

/-- A new group is ordered if its key is, since its states hold nothing yet. -/
theorem isOrdered_openGroup {key : List Value} (hkey : ∀ value ∈ key, value.IsOrdered) :
    (openGroup aggregations key).IsOrdered :=
  ⟨hkey, List.forall_mem_map.2 fun _ _ => AggregateState.isOrdered_start _⟩

/-- The row of an ordered group is ordered, both its keys and its aggregates. -/
theorem isOrdered_groupRow {group : OpenGroup} (h : group.IsOrdered) :
    (groupRow keys aggregations group).IsOrdered := by
  refine Row.all_ofList (List.forall_mem_append.2 ⟨fun field hmem => ?_, fun field hmem => ?_⟩)
  · exact h.key field.2 (List.of_mem_zip hmem).2
  · obtain ⟨state, hstate, heq⟩ := List.mem_map.1 (List.of_mem_zip hmem).2
    rw [← heq]
    exact (h.aggregates state hstate).finish

/-- The key of an ordered row is ordered, absent fields being null. -/
theorem isOrdered_keyValues (hrow : row.IsOrdered) :
    ∀ value ∈ row.keyValues keys, value.IsOrdered :=
  List.forall_mem_map.2 fun key _ => Value.isHereditary_isOrdered.getOrNull hrow key.field

/-- The group that a row goes into is ordered, and so is the row of a group that it ends. -/
theorem isOrdered_of_groupFor {key : List Value} (hkey : ∀ value ∈ key, value.IsOrdered)
    {current : Option OpenGroup} (hcurrent : ∀ group ∈ current, group.IsOrdered)
    {group : OpenGroup} {ended : Option Row}
    (h : groupFor keys aggregations key current = .ok (group, ended)) :
    group.IsOrdered ∧ ∀ row ∈ ended, row.IsOrdered := by
  cases goesInto_of_groupFor h with
  | first => exact ⟨isOrdered_openGroup hkey, by simp⟩
  | same => exact ⟨hcurrent group rfl, by simp⟩
  | next =>
      refine ⟨isOrdered_openGroup hkey, ?_⟩
      rintro _ ⟨⟩
      exact isOrdered_groupRow (hcurrent _ rfl)

/-- The row of the last group is ordered, where there is one. -/
theorem isOrdered_of_lastGroupRow? {state : GroupState}
    (hcurrent : ∀ group ∈ state.current, group.IsOrdered) :
    ∀ row ∈ lastGroupRow? keys aggregations state, row.IsOrdered := by
  intro row hrow
  unfold lastGroupRow? at hrow
  split at hrow
  · next group hgroup =>
      cases hrow
      exact isOrdered_groupRow (hcurrent group hgroup)
  · split at hrow <;> cases hrow
    exact isOrdered_groupRow (isOrdered_openGroup (List.forall_mem_nil _))

/-- The key of an ordered row is ordered, also the one that is made of the whole row: its fields are
sorted for it. -/
theorem isOrdered_distinctKey (hrow : row.IsOrdered) (keys : List String) :
    ∀ value ∈ distinctKey keys row, value.IsOrdered := by
  cases keys with
  | nil =>
      refine List.forall_mem_singleton.2 (Value.isOrdered_map_sortFields ?_)
      exact Value.areFieldsOrdered_iff.1 (Value.areFieldsOrdered_iff.2 hrow).normalizedFields
  | cons key keys =>
      refine List.forall_mem_map.2 fun key _ => Value.IsOrdered.normalized ?_
      exact Value.isHereditary_isOrdered.getOrNull hrow key

/-! ### Stages -/

/-- The constants of a stage. The bounds of a slice have been computed. -/
def constants : Stage → List Value
  | .groupBy _ aggregations _ => aggregations.flatMap Aggregation.constants
  | .project fields => fields.flatMap fun field => field.2.constants
  | .sort .. | .distinct .. | .slice .. => []

/-- Whether all that a stage holds is ordered, be it in its state or among its constants. -/
structure IsOrdered (stage : Stage) : Prop where
  /-- The values in its state are. -/
  state : stage.state.IsOrdered
  /-- Its constants are. -/
  constants : ∀ c ∈ stage.constants, c.IsOrdered

end Stage

/-- Whether the row that a signal may send on is ordered. -/
def Signal.IsOrdered : Signal → Prop
  | .row r => r.IsOrdered
  | .exhausted | .fetch _ | .again => True

namespace Stage

open Metered

variable {bindings : Bindings} {row : Row} {stage : Stage}

/-- What a stage does by itself leaves it ordered. -/
theorem IsOrdered.ready (h : stage.IsOrdered) {own : Metered Stage Signal}
    (hready : stage.ready? = some own) : own.Leaves IsOrdered Signal.IsOrdered := by
  cases ready_inv hready with
  | ends => exact leaves_done h trivial
  | @pops keys state row rows _ hbuffer =>
      have hheld : ∀ row ∈ state.buffer, row.IsOrdered := h.state
      rw [hbuffer] at hheld
      obtain ⟨hrow, hrows⟩ := List.forall_mem_cons.1 hheld
      have hsignal : (Signal.row row).IsOrdered := hrow
      exact leaves_after (leaves_done ⟨hrows, List.forall_mem_nil _⟩ hsignal) _ _

/-- The end of the input leaves a grouping ordered, and the last group is sent on in order. -/
theorem leaves_finishGroups {keys : List OrderKey} {aggregations : List Aggregation}
    {state : GroupState} (h : (Stage.groupBy keys aggregations state).IsOrdered) :
    ((finishGroups keys aggregations state).within (Stage.groupBy keys aggregations)).Leaves
      IsOrdered Signal.IsOrdered := by
  refine ⟨⟨by simp [Stage.state, NodeState.IsOrdered, finishGroups], h.constants⟩, ?_⟩
  intro signal hsignal
  have hlast : ∀ row ∈ lastGroupRow? keys aggregations state, row.IsOrdered :=
    isOrdered_of_lastGroupRow? h.state
  cases hsignal
  cases hrow : lastGroupRow? keys aggregations state with
  | none => trivial
  | some row => exact hlast row hrow

/-- What a stage does with an ordered row leaves it ordered. -/
theorem IsOrdered.accept (hbindings : bindings.All Value.IsOrdered) (h : stage.IsOrdered)
    (hrow : row.IsOrdered) : (stage.accept bindings row).Leaves IsOrdered Signal.IsOrdered := by
  have hsignal : (Signal.row row).IsOrdered := hrow
  generalize hown : stage.accept bindings row = own
  cases accept_inv hown with
  | merged => exact leaves_done h hsignal
  | kept =>
      refine leaves_after (leaves_done ⟨?_, List.forall_mem_nil _⟩ trivial) _ _
      exact List.forall_mem_append.2 ⟨h.state, List.forall_mem_singleton.2 hrow⟩
  | unsorted | refused =>
      -- A row that is refused takes its group along.
      exact leaves_fail ⟨by simp [Stage.state, NodeState.IsOrdered, taken], h.constants⟩ _
  | @grouped keys aggregations state group ended aggregates hgroup haggregates =>
      obtain ⟨hordered, hended⟩ :=
        isOrdered_of_groupFor (isOrdered_keyValues hrow) h.state hgroup
      have hsent : (endedSignal ended).IsOrdered := by
        cases ended with
        | none => trivial
        | some row => exact hended row rfl
      refine leaves_after (leaves_done ⟨?_, h.constants⟩ hsent) _ _
      rintro _ ⟨⟩
      exact ⟨hordered.key, isOrdered_accumulate hbindings hrow
        (fun aggregation hmem c hc => h.constants c (List.mem_flatMap.2 ⟨aggregation, hmem, hc⟩))
        hordered.aggregates haggregates⟩
  | same | seen => exact leaves_done h trivial
  | changed =>
      refine leaves_after (leaves_after (leaves_done ⟨?_, List.forall_mem_nil _⟩ hsignal) _ _) _ _
      rintro _ ⟨⟩
      exact isOrdered_distinctKey hrow _
  | unseen => exact leaves_after (leaves_done ⟨h.state, List.forall_mem_nil _⟩ hsignal) _ _
  | projected hvalues =>
      refine leaves_done h (Row.all_ofList ?_)
      exact Value.isHereditary_isOrdered.of_projectFields hrow hbindings
        (fun field hmem c hc => h.constants c (List.mem_flatMap.2 ⟨field, hmem, hc⟩)) hvalues
  | unprojected => exact leaves_fail h _
  | skipped => exact leaves_done ⟨trivial, List.forall_mem_nil _⟩ trivial
  | sliced => exact leaves_done ⟨trivial, List.forall_mem_nil _⟩ hsignal

/-- What a stage does at the end of the rows leaves it ordered. -/
theorem IsOrdered.finish (h : stage.IsOrdered) :
    stage.finish.Leaves IsOrdered Signal.IsOrdered := by
  cases stage with
  | sort keys mode state =>
      cases mode with
      | merge => exact leaves_done h trivial
      | materialize =>
          refine leaves_done ⟨fun row hmem => ?_, List.forall_mem_nil _⟩ trivial
          exact h.state row (Row.mem_sortBy.1 hmem)
  | groupBy keys aggregations state => exact leaves_finishGroups h
  | distinct | project | slice => exact leaves_done h trivial

/-- Passing an ordered signal on leaves a stage ordered, and sends nothing out of order. -/
theorem IsOrdered.pass (hbindings : bindings.All Value.IsOrdered) (h : stage.IsOrdered)
    {signal : Signal} (hsignal : signal.IsOrdered) :
    (Pipeline.pass bindings signal stage).Leaves IsOrdered Signal.IsOrdered := by
  cases signal with
  | row row => exact h.accept hbindings hsignal
  | exhausted => exact h.finish
  | fetch | again => exact leaves_done h trivial

end Stage

/-! ### Sources -/

namespace Source

open Metered

/-- Whether the rows that a source has received are ordered. -/
def IsOrdered (source : Source) : Prop :=
  source.state.IsOrdered

variable {source : Source}

/-- A source of ordered rows signals ordered rows, and is left with such. -/
theorem leaves_next (h : source.IsOrdered) : source.next.Leaves IsOrdered Signal.IsOrdered := by
  cases source.next_inv with
  | @gives index progress row rows hp hbuffer _ heq =>
      have hprogress : progress.IsOrdered := h progress (List.mem_of_getElem? hp)
      rw [ShardProgress.IsOrdered, hbuffer] at hprogress
      obtain ⟨hrow, hrows⟩ := List.forall_mem_cons.1 hprogress
      have hsignal : (Signal.row row).IsOrdered := hrow
      rw [heq]
      refine leaves_after (leaves_done (fun other hmem => ?_) hsignal) _ _
      obtain hmem | rfl := List.mem_or_eq_of_mem_set hmem
      · exact h other hmem
      · exact hrows
  | ends _ heq | wants _ _ heq =>
      rw [heq]
      exact leaves_done h trivial
  | incomplete _ heq =>
      rw [heq]
      exact leaves_fail h _

/-- Taking in responses with ordered rows leaves a source ordered. -/
theorem isOrdered_receive {responses : List (Nat × Except RequestError ShardResponse)}
    (h : source.IsOrdered)
    (hrows : ∀ index response, (index, .ok response) ∈ responses →
      ∀ row ∈ response.rows, row.IsOrdered) :
    (source.receive responses).state.IsOrdered := by
  refine receive_state (fun {source index progress response} hsource hmem hp => ?_) h
  intro other hother
  obtain hother | rfl := List.mem_or_eq_of_mem_set hother
  · exact hsource other hother
  · have hprogress : progress.IsOrdered := hsource progress (List.mem_of_getElem? hp)
    exact List.forall_mem_append.2 ⟨hprogress, hrows index response hmem⟩

end Source

/-! ### Pipelines -/

namespace Pipeline

open Metered

/-- Whether all that a pipeline holds is ordered, in its stages and in the buffers of its source. -/
structure IsOrdered (pipeline : Pipeline) : Prop where
  /-- All that its stages hold is. -/
  stages : ∀ stage ∈ pipeline.stages, stage.IsOrdered
  /-- So are the rows that its source has received. -/
  source : pipeline.source.IsOrdered

variable {bindings : Bindings} {pipeline : Pipeline}

/-- All states of an ordered pipeline are ordered, which is what its token is made of. -/
theorem IsOrdered.states (h : pipeline.IsOrdered) :
    ∀ state ∈ pipeline.states, state.IsOrdered :=
  List.forall_mem_append.2 ⟨List.forall_mem_map.2 fun stage hmem => (h.stages stage hmem).state,
    List.forall_mem_singleton.2 h.source⟩

/-- **A tick leaves a pipeline ordered**, also when it fails, and sends ordered rows on. -/
theorem IsOrdered.tick (hbindings : bindings.All Value.IsOrdered) (h : pipeline.IsOrdered) :
    (pipeline.tick bindings).Leaves IsOrdered Signal.IsOrdered := by
  obtain ⟨⟨hstages, hsource⟩, hsignal⟩ := leaves_tickStages
    (fun hstage hready => hstage.ready hready)
    (fun hstage hsignal => hstage.pass hbindings hsignal) h.source (Source.leaves_next h.source)
    h.stages
  exact ⟨⟨hstages, hsource⟩, hsignal⟩

/-- Ordered rows leave a pipeline ordered, as they only go into the buffers of its source. -/
theorem IsOrdered.receive (h : pipeline.IsOrdered)
    {responses : List (Nat × Except RequestError ShardResponse)}
    (hrows : ∀ index response, (index, .ok response) ∈ responses →
      ∀ row ∈ response.rows, row.IsOrdered) : (pipeline.receive responses).state.IsOrdered :=
  ⟨h.stages, Source.isOrdered_receive h.source hrows⟩

end Pipeline

/-! ### Batches -/

/-- Whether the rows of all answers that a reader is going to give have a property, whatever it is
asked for. -/
def ShardReader.Delivers (p : Row → Prop) (reader : ShardReader σ) (shards : σ) : Prop :=
  ∀ requests response, .ok response ∈ (reader.answerAll requests shards).1 →
    ∀ row ∈ response.rows, p row

/-- Requests are answered one after the other: the second list is answered by what the first has
left of the shards. -/
theorem ShardReader.answerAll_append (reader : ShardReader σ) (first second : List ShardRequest)
    (shards : σ) :
    reader.answerAll (first ++ second) shards =
      ((reader.answerAll first shards).1 ++
          (reader.answerAll second (reader.answerAll first shards).2).1,
        (reader.answerAll second (reader.answerAll first shards).2).2) := by
  induction first generalizing shards with
  | nil => rfl
  | cons request first ih =>
      simp only [List.cons_append, answerAll, ih]

/-- A reader that delivers only rows of a kind goes on to do so after any requests. -/
theorem ShardReader.Delivers.answered {p : Row → Prop} {reader : ShardReader σ} {shards : σ}
    (h : reader.Delivers p shards) (requests : List ShardRequest) :
    reader.Delivers p (reader.answerAll requests shards).2 := by
  intro others response hmem
  refine h (requests ++ others) response ?_
  rw [reader.answerAll_append]
  exact List.mem_append_right _ hmem

/-- Whether a batch holds ordered values only, and is going to receive no others. -/
structure BatchRun.IsOrdered (reader : ShardReader σ) (run : BatchRun σ) : Prop where
  /-- The bind variables are ordered. -/
  bindings : run.execution.bindings.All Value.IsOrdered
  /-- All that the pipeline holds is. -/
  pipeline : run.execution.pipeline.IsOrdered
  /-- So are the rows to come. -/
  delivers : reader.Delivers Row.IsOrdered run.shards

/-- **Every step that does not fail leaves a batch ordered.** -/
theorem BatchRun.IsOrdered.moves {reader : ShardReader σ} {run next : BatchRun σ}
    {reason : Option BatchEnd} (h : run.IsOrdered reader) (hmove : Moves reader run next reason)
    (hreason : ∀ error, reason ≠ some (.failed error)) : next.IsOrdered reader := by
  obtain ⟨hbindings, hpipeline, hdelivers⟩ := h
  have htick {m : Memory} {p : Pipeline} {signal : Signal}
      (hb : run.booked = (m, p, .ok signal)) : p.IsOrdered := by
    obtain ⟨-, rfl, -⟩ := Metered.run_eq_ok_iff.1 hb
    exact (hpipeline.tick hbindings).state
  cases hmove with
  | full => exact ⟨hbindings, hpipeline, hdelivers⟩
  | row _ hb | exhausted _ hb | again _ hb | noRound _ hb =>
      exact ⟨hbindings, htick hb, hdelivers⟩
  | round _ hb _ _ _ _ hi =>
      obtain ⟨-, rfl, -⟩ := Metered.run_eq_ok_iff.1 hi
      refine ⟨hbindings, (htick hb).receive fun index response hmem => ?_, hdelivers.answered _⟩
      exact hdelivers _ response (List.of_mem_zip hmem).2
  | broken | idle | noTime | late | refused => exact absurd rfl (hreason _)

/-- Batches leave pipelines ordered, from one step to the next. -/
theorem Execution.isOrdered_of_passes {reader : ShardReader σ} {execution : Execution} {first : σ}
    {run : BatchRun σ} (hpass : execution.Passes reader first run)
    (h : (BatchRun.start execution first).IsOrdered reader) : run.IsOrdered reader := by
  induction hpass with
  | start => exact h
  | step _ hstep ih => exact ih.moves (BatchRun.moves_of_step hstep) nofun
  | batch _ hstep ih =>
      obtain ⟨hbindings, hpipeline, hdelivers⟩ := ih.moves (BatchRun.moves_of_step hstep) nofun
      exact ⟨hbindings, hpipeline, hdelivers⟩

/-! ### Beginnings -/

/-- Whether all constants of a plan are ordered. Those of a plan that has been read always are. -/
def Plan.IsOrdered (plan : Plan) : Prop :=
  ∀ step ∈ plan.steps, ∀ c ∈ step.exprs.flatMap Expr.constants, c.IsOrdered

section Beginnings

variable {registry : Registry}

/-- An aggregation has constants of its call only, namely those of the first argument. -/
theorem Aggregation.constants_subset {call : AggregateCall} {aggregation : Aggregation}
    (h : call.compile registry = .ok aggregation) :
    aggregation.constants ⊆ call.args.flatMap Expr.constants := by
  obtain ⟨function, -, h⟩ := bind_eq_ok_iff.1 h
  split at h
  · cases h
    exact List.nil_subset _
  · next arg args hargs =>
      obtain ⟨formula, hformula, h⟩ := bind_eq_ok_iff.1 h
      cases h
      rw [hargs, constants, Option.elim_some, Formula.constants_of_compile hformula]
      exact List.subset_append_left _ _

/-- A stage has constants of its step only. Compiling adds none. -/
theorem Stage.IsOf.constants_subset {step : Step} {stage : Stage} (h : stage.IsOf registry step) :
    stage.constants ⊆ step.exprs.flatMap Expr.constants := by
  intro c hmem
  cases h with
  | sort | distinct | slice => cases hmem
  | groupBy state hcalls =>
      obtain ⟨aggregation, haggregation, hc⟩ := List.mem_flatMap.1 hmem
      obtain ⟨call, hcall, hcompile⟩ := exists_of_forall₂ hcalls.flip haggregation
      rw [Step.exprs, List.flatMap_assoc]
      exact List.mem_flatMap.2 ⟨call, hcall, Aggregation.constants_subset hcompile hc⟩
  | project hfields =>
      obtain ⟨formula, hformula, hc⟩ := List.mem_flatMap.1 hmem
      obtain ⟨field, hfield, hcompile⟩ := exists_of_forall₂ hfields.flip hformula
      rw [Step.exprs, List.flatMap_map]
      exact List.mem_flatMap.2 ⟨field, hfield, Formula.constants_of_compile hcompile ▸ hc⟩

/-- **Ordered states and constants make an ordered pipeline**, whether the states are those of the
beginning or have come out of a token. -/
theorem Pipeline.isOrdered_of_isOf {plan : Plan} {pipeline : Pipeline}
    (hstages : List.Forall₂ (Stage.IsOf registry) pipeline.stages plan.steps)
    (hplan : plan.IsOrdered) (h : ∀ state ∈ pipeline.states, state.IsOrdered) :
    pipeline.IsOrdered := by
  obtain ⟨hstates, hsource⟩ := List.forall_mem_append.1 h
  refine ⟨fun stage hmem => ?_, hsource _ (List.mem_singleton_self _)⟩
  obtain ⟨step, hstep, hisOf⟩ := exists_of_forall₂ hstages hmem
  exact ⟨List.forall_mem_map.1 hstates stage hmem,
    fun c hc => hplan step hstep c (hisOf.constants_subset hc)⟩

end Beginnings

end ShardQuery
