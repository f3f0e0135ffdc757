import ShardQuery.Proofs.Grouping.Sorted
import ShardQuery.Proofs.Opening

/-!
# Runs of Groupings over Sorts

In every state of a run, a grouping directly over a sort by its own keys has taken and sent the
rows that the trace of the run tells. So it goes well as long as the rows that the sort has
taken have groups of different keys.

## Main results

* `Execution.sortedGroups_of_start`: the grouping at the start of a run.
* `Execution.sortedGroups_of_traces`: the grouping in every state of a run.
* `Execution.groupsWell_of_groupsApart`: when it goes well.
-/

namespace ShardQuery

/-! ### Plans -/

/-- In a plan without faults every step is without faults. -/
theorem fault?_of_append {scan : Scan} {outer inner : List Step} {step : Step}
    (h : faultOfSteps? scan (outer ++ step :: inner) = none) : step.fault? scan inner = none := by
  induction outer with
  | nil => exact (Option.or_eq_none_iff.1 h).1
  | cons first outer ih => exact ih (Option.or_eq_none_iff.1 h).2

/-- In a plan that has passed the check, every step is without faults, at whatever depth it stands.
-/
theorem Plan.fault?_of_check {plan : Plan} {outer inner : List Step} {step : Step}
    (h : plan.check = .ok ()) (hsteps : plan.steps = outer ++ step :: inner) :
    step.fault? plan.scan inner = none :=
  fault?_of_append (hsteps ▸ faultOfSteps?_of_check h)

/-- A sort without faults has keys. A grouping over it by the same keys has some too. -/
theorem ne_nil_of_fault? {scan : Scan} {inner : List Step} {keys : List OrderKey} {mode : SortMode}
    (h : (Step.sort keys mode).fault? scan inner = none) : keys ≠ [] := by
  rintro rfl
  cases h

/-- The aggregates of a grouping without faults have other names than its keys. -/
theorem not_mem_of_fault? {scan : Scan} {inner : List Step} {keys : List OrderKey}
    {aggregates : List AggregateCall}
    (h : (Step.groupBy keys aggregates).fault? scan inner = none) :
    ∀ name ∈ aggregates.map (·.name), name ∉ keys.map (·.field) :=
  (firstRepeated?_eq_none_iff.1 (Option.map_eq_none_iff.1 h)).2

/-! ### Compiled steps -/

variable {registry : Registry}

/-- Inner steps are compiled by themselves, whatever stands outside of them, so a depth in the plan
is the same depth in what runs. -/
theorem compileSteps_append {outer inner : List Step} {steps : List CompiledStep}
    (h : compileSteps registry (outer ++ inner) = .ok steps) :
    outer.length ≤ steps.length ∧
      compileSteps registry inner = .ok (steps.drop outer.length) := by
  induction outer generalizing steps with
  | nil => exact ⟨Nat.zero_le _, h⟩
  | cons step outer ih =>
      obtain ⟨others, hothers, h⟩ := bind_eq_ok_iff.1 h
      obtain ⟨compiled, -, h⟩ := bind_eq_ok_iff.1 h
      cases h
      obtain ⟨hlength, hinner⟩ := ih hothers
      exact ⟨Nat.succ_le_succ hlength, hinner⟩

/-- Compiling an aggregate keeps its name, and the names of a plan's aggregates can be read off its
compiled steps. -/
theorem name_of_compile {call : AggregateCall} {aggregation : Aggregation}
    (h : call.compile registry = .ok aggregation) : aggregation.name = call.name := by
  obtain ⟨function, -, h⟩ := bind_eq_ok_iff.1 h
  split at h
  · cases h
    rfl
  · obtain ⟨formula, -, h⟩ := bind_eq_ok_iff.1 h
    cases h
    rfl

/-- A compiled grouping has the keys and names of its step. -/
theorem exists_of_compile_groupBy {keys : List OrderKey} {aggregates : List AggregateCall}
    {compiled : CompiledStep} (h : (Step.groupBy keys aggregates).compile registry = .ok compiled) :
    ∃ aggregations, compiled = .groupBy keys aggregations ∧
      aggregations.map (·.name) = aggregates.map (·.name) := by
  obtain ⟨aggregations, haggregations, hcompiled⟩ := bind_eq_ok_iff.1 h
  cases hcompiled
  refine ⟨aggregations, rfl, ?_⟩
  rw [← List.forall₂_eq_eq_eq, List.forall₂_map_left_iff, List.forall₂_map_right_iff]
  exact (mapM_eq_ok_iff.1 haggregations).flip.imp fun _ _ hname => name_of_compile hname

/-! ### The start -/

/-- What is opened for the inner steps is a pipeline of its own. -/
theorem Pipeline.Opened.drop {bindings : Bindings} {openSource : List ShardProgress → Source}
    {steps : List CompiledStep} {states : List NodeState} {pipeline : Pipeline}
    (h : Opened bindings openSource steps states pipeline) {depth : Nat}
    (hdepth : depth ≤ steps.length) :
    Opened bindings openSource (steps.drop depth) (states.drop depth) (pipeline.below depth) := by
  induction h generalizing depth with
  | source shards =>
      obtain rfl := Nat.le_zero.1 hdepth
      exact .source shards
  | stage hstage hinner ih =>
      cases depth with
      | zero => exact .stage hstage hinner
      | succ depth => exact ih (Nat.le_of_succ_le_succ hdepth)

/-- Opening makes one stage of each step, so steps and stages are counted alike. -/
theorem Pipeline.Opened.length_stages {bindings : Bindings}
    {openSource : List ShardProgress → Source} {steps : List CompiledStep}
    {states : List NodeState} {pipeline : Pipeline}
    (h : Opened bindings openSource steps states pipeline) :
    pipeline.stages.length = steps.length := by
  induction h with
  | source shards => rfl
  | stage _ _ ih => exact congrArg (· + 1) ih

namespace Execution

/-- At the start, a grouping over a sort has neither taken nor sent any rows. -/
theorem sortedGroups_of_start {engine : Engine} {query : Query} {fresh : Uuid}
    {execution : Execution} {keys : List OrderKey} {aggregates : List AggregateCall}
    {outer inner : List Step} (hstart : start engine query fresh = .ok execution)
    (htoken : query.token = none)
    (hsteps : query.plan.steps =
      outer ++ .groupBy keys aggregates :: .sort keys .materialize :: inner) :
    keys ≠ [] ∧ outer.length ≤ execution.pipeline.stages.length ∧ ∃ aggregations,
      (∀ aggregation ∈ aggregations, aggregation.name ∉ keys.map (·.field)) ∧
      SortedGroups keys aggregations [] [] (execution.pipeline.below outer.length) := by
  obtain ⟨steps, hstarted⟩ := exists_started_of_start htoken hstart
  have hsteps' : query.plan.steps =
      (outer ++ [.groupBy keys aggregates]) ++ .sort keys .materialize :: inner := by
    rw [hsteps, List.append_assoc, List.singleton_append]
  refine ⟨ne_nil_of_fault? (Plan.fault?_of_check hstarted.check hsteps'), ?_⟩
  have hnames := not_mem_of_fault? (Plan.fault?_of_check hstarted.check hsteps)
  have hopened := hstarted.openedNodes
  have hcompile := hstarted.compile
  rw [hsteps] at hcompile
  obtain ⟨hlength, hinner⟩ := compileSteps_append hcompile
  obtain ⟨others, hothers, hfirst⟩ := bind_eq_ok_iff.1 hinner
  obtain ⟨groupBy, hgroupBy, heq⟩ := bind_eq_ok_iff.1 hfirst
  obtain ⟨innermost, hinnermost, hsecond⟩ := bind_eq_ok_iff.1 hothers
  obtain ⟨sort, hsort, heq'⟩ := bind_eq_ok_iff.1 hsecond
  cases hsort
  cases heq'
  obtain ⟨aggregations, rfl, hagg⟩ := exists_of_compile_groupBy hgroupBy
  refine ⟨hopened.length_stages ▸ hlength, aggregations,
    fun aggregation hmem => hnames _ (hagg ▸ List.mem_map_of_mem hmem), ?_⟩
  have hstates : query.plan.startStates.drop outer.length =
      .groupBy .start :: .sort .start :: (inner.map Step.startState ++
        [.receive (query.plan.scan.shards.map .start)]) := by
    rw [Plan.startStates, hsteps, List.map_append, List.append_assoc]
    exact List.drop_left' (List.length_map _)
  have hbelow := hopened.drop hlength
  rw [← Except.ok.inj heq, hstates] at hbelow
  generalize execution.pipeline.below outer.length = pipeline at hbelow
  cases hbelow with
  | stage hgrouping hbelow =>
      cases hgrouping
      cases hbelow with
      | stage hsorting _ =>
          cases hsorting
          exact .collecting rfl rfl rfl

end Execution

/-! ### Runs -/

section

variable {σ : Type} {bindings : Bindings} {keys : List OrderKey} {aggregations : List Aggregation}
  {taken sent : List Row}

namespace SortedGroups

/-- The source does not matter: installing the responses of shards changes nothing about the sort
and the grouping over it. -/
theorem of_stages_eq {pipeline other : Pipeline}
    (h : SortedGroups keys aggregations taken sent pipeline)
    (heq : other.stages = pipeline.stages) : SortedGroups keys aggregations taken sent other := by
  obtain ⟨stages, source⟩ := other
  cases h with
  | @collecting state inner hsorted hbuffer hsent =>
      obtain rfl := heq
      exact @collecting keys aggregations _ _ _ ⟨inner.stages, source⟩ hsorted hbuffer hsent
  | @sending groups state inner hsorted hdone hkey hleft =>
      obtain rfl := heq
      exact @sending keys aggregations _ _ _ _ ⟨inner.stages, source⟩ hsorted hdone hkey hleft
  | @finished groups state inner hsorted hdone hall =>
      obtain rfl := heq
      exact @finished keys aggregations _ _ _ _ ⟨inner.stages, source⟩ hsorted hdone hall

/-- A grouping is one of the stages, so the depth at which it stands is bounded by their number. -/
theorem depth_le {pipeline : Pipeline} {depth : Nat}
    (h : SortedGroups keys aggregations taken sent (pipeline.below depth)) :
    depth ≤ pipeline.stages.length := by
  by_contra hlt
  have hnil : (pipeline.below depth).stages = [] :=
    List.drop_eq_nil_of_le (Nat.le_of_lt (Nat.lt_of_not_le hlt))
  generalize pipeline.below depth = below at h hnil
  cases h <;> cases hnil

end SortedGroups

namespace Pipeline

/-- One tick of a grouping over a sort behind other stages. -/
theorem sortedGroups_of_said {pipeline : Pipeline} {depth : Nat} {signal : Signal}
    (hkeys : keys ≠ [])
    (hnames : ∀ aggregation ∈ aggregations, aggregation.name ∉ keys.map (·.field))
    (h : SortedGroups keys aggregations taken sent (pipeline.below depth))
    (hsaid : pipeline.saidAt bindings depth = some (.ok signal)) :
    SortedGroups keys aggregations (taken ++ (pipeline.sentAt bindings (depth + 2)).toList)
      (sent ++ (pipeline.sentAt bindings depth).toList)
      ((pipeline.tick bindings).state.below depth) := by
  obtain ⟨hresult, hstate⟩ := below_tick_of_said hsaid
  have htaken : pipeline.sentAt bindings (depth + 2) =
      (pipeline.below depth).sentAt bindings 2 := by
    rw [sentAt, saidAt_add, hsaid]
    rfl
  rw [htaken, sentAt_of_ok hsaid, hstate]
  exact h.tick hkeys hnames hresult

/-- One tick of a pipeline with a grouping over a sort. -/
theorem sortedGroups_of_tick {pipeline : Pipeline} {depth : Nat} {signal : Signal}
    (hkeys : keys ≠ [])
    (hnames : ∀ aggregation ∈ aggregations, aggregation.name ∉ keys.map (·.field))
    (h : SortedGroups keys aggregations taken sent (pipeline.below depth))
    (hsignal : (pipeline.tick bindings).result = .ok signal) :
    SortedGroups keys aggregations (taken ++ (pipeline.sentAt bindings (depth + 2)).toList)
      (sent ++ (pipeline.sentAt bindings depth).toList)
      ((pipeline.tick bindings).state.below depth) := by
  cases hsaid : pipeline.saidAt bindings depth with
  | none =>
      have htaken : pipeline.sentAt bindings (depth + 2) = none := by
        rw [sentAt, saidAt_add, hsaid]
        rfl
      have hsent : pipeline.sentAt bindings depth = none := by rw [sentAt, hsaid]
      rw [htaken, hsent, Option.toList_none, List.append_nil, List.append_nil,
        below_tick_of_silent h.depth_le hsaid]
      exact h
  | some said =>
      cases said with
      | error error => cases hsignal.symm.trans (result_of_said_error hsaid)
      | ok said => exact sortedGroups_of_said hkeys hnames h hsaid

/-- A failure because of the order of rows is one of the stages from its place on. -/
theorem Unsorted.below {pipeline : Pipeline} {depth : Nat}
    (h : pipeline.Unsorted bindings depth) : (pipeline.below depth).Unsorted bindings 0 := by
  obtain ⟨fields, hsaid, hnext⟩ := h
  refine ⟨fields, ?_, ?_⟩
  · rw [saidAt_zero, (below_tick_of_said hsaid).1]
  · rwa [saidAt_add, hsaid] at hnext

end Pipeline

/-- Taking in responses does not fail because of the order of rows. -/
theorem Source.ne_unsortedGroups_of_receive {source : Source}
    {responses : List (Nat × Except RequestError ShardResponse)} {fields : List String} :
    (source.receive responses).result ≠ .error (.unsortedGroups fields) := by
  induction responses generalizing source with
  | nil => nofun
  | cons response responses ih =>
      obtain ⟨index, error | response⟩ := response
      · nofun
      · rw [receive]
        split
        · nofun
        · exact ih

namespace BatchRun

variable {reader : ShardReader σ} {run next : BatchRun σ}

/-- If a step fails because rows are not sorted, the tick has failed. -/
theorem tick_of_unsorted {fields : List String}
    (h : run.step reader = (next, some (.failed (.unsortedGroups fields)))) :
    (run.execution.pipeline.tick run.execution.bindings).result =
      .error (.unsortedGroups fields) := by
  have hmove := moves_of_step h
  cases hmove with
  | broken _ hb =>
      obtain ⟨excess, -, heq⟩ | ⟨-, -, hresult⟩ := Metered.run_eq_error hb
      · cases heq
      · exact hresult
  | refused _ _ _ _ _ _ hi =>
      obtain ⟨excess, -, heq⟩ | ⟨-, -, hresult⟩ := Metered.run_eq_error hi
      · cases heq
      · exact absurd hresult Source.ne_unsortedGroups_of_receive

end BatchRun

namespace Execution

variable {reader : ShardReader σ} {execution : Execution} {first : σ} {run : BatchRun σ}
  {ticked : List Pipeline} {depth : Nat}

/-- In every state of a run a grouping over a sort has taken and sent the rows that the trace
tells. -/
theorem sortedGroups_of_traces (hkeys : keys ≠ [])
    (hnames : ∀ aggregation ∈ aggregations, aggregation.name ∉ keys.map (·.field))
    (hstart : SortedGroups keys aggregations [] [] (execution.pipeline.below depth))
    (h : Traces reader execution first run ticked) :
    run.execution.bindings = execution.bindings ∧
      SortedGroups keys aggregations (sentBy execution.bindings (depth + 2) ticked)
        (sentBy execution.bindings depth ticked) (run.execution.pipeline.below depth) := by
  -- One tick that has been booked.
  have hbooked : ∀ {run : BatchRun σ} {ticked : List Pipeline} {m : Memory} {p : Pipeline}
      {signal : Signal}, run.execution.bindings = execution.bindings →
      SortedGroups keys aggregations (sentBy execution.bindings (depth + 2) ticked)
        (sentBy execution.bindings depth ticked) (run.execution.pipeline.below depth) →
      run.booked = (m, p, .ok signal) →
      SortedGroups keys aggregations
        (sentBy execution.bindings (depth + 2) (ticked ++ [run.execution.pipeline]))
        (sentBy execution.bindings depth (ticked ++ [run.execution.pipeline])) (p.below depth) := by
    intro run ticked m p signal hbindings hgroups hb
    obtain ⟨-, rfl, hsignal⟩ := Metered.run_eq_ok_iff.1 hb
    rw [sentBy_concat, sentBy_concat]
    rw [hbindings] at hsignal ⊢
    exact Pipeline.sortedGroups_of_tick hkeys hnames hgroups hsignal
  induction h with
  | start => exact ⟨rfl, hstart⟩
  | @step run next ticked _ hstep ih =>
      obtain ⟨hbindings, hgroups⟩ := ih
      cases BatchRun.moves_of_step hstep with
      | row _ hb => exact ⟨hbindings, hbooked hbindings hgroups hb⟩
      | again _ hb => exact ⟨hbindings, hbooked hbindings hgroups hb⟩
      | round _ hb _ _ _ _ hi =>
          obtain ⟨-, rfl, -⟩ := Metered.run_eq_ok_iff.1 hi
          exact ⟨hbindings, (hbooked hbindings hgroups hb).of_stages_eq rfl⟩
  | @batch run last ticked next _ hstep hnext ih =>
      obtain ⟨hbindings, hgroups⟩ := ih
      cases BatchRun.moves_of_step hstep with
      | full hfull =>
          rw [if_pos hfull]
          exact ⟨hnext.bindings.trans hbindings, hgroups.of_stages_eq
            (congrArg (fun p => (Pipeline.below depth p).stages) hnext.pipeline)⟩
      | noRound hfull hb =>
          rw [if_neg (by simp [hfull])]
          exact ⟨hnext.bindings.trans hbindings, (hbooked hbindings hgroups hb).of_stages_eq
            (congrArg (fun p => (Pipeline.below depth p).stages) hnext.pipeline)⟩

/-- Whether a grouping behind so many stages goes well at a state of a run, where some pipelines
have been ticked: with the next tick, it has not sent on two groups of one key; and it is not
why a step fails because rows are not sorted. -/
structure GroupsWell (keys : List OrderKey) (depth : Nat) (bindings : Bindings)
    (reader : ShardReader σ) (run : BatchRun σ) (ticked : List Pipeline) : Prop where
  /-- The groups have different keys. -/
  apart : (sentBy bindings depth (ticked ++ [run.execution.pipeline])).Pairwise fun a b =>
    Row.compareBy keys a b ≠ .eq
  /-- Another grouping is at fault. -/
  blameless : ∀ last fields, run.step reader = (last, some (.failed (.unsortedGroups fields))) →
    ∃ other ≠ depth, run.execution.pipeline.Unsorted bindings other

/-- A grouping over a sort goes well if the rows that the sort has taken have groups of
different keys. -/
theorem groupsWell_of_groupsApart (hkeys : keys ≠ [])
    (hnames : ∀ aggregation ∈ aggregations, aggregation.name ∉ keys.map (·.field))
    (hstart : SortedGroups keys aggregations [] [] (execution.pipeline.below depth))
    (h : Traces reader execution first run ticked)
    (hnow : GroupsApart keys (sentBy execution.bindings (depth + 2) ticked))
    (hnext : GroupsApart keys
      (sentBy execution.bindings (depth + 2) (ticked ++ [run.execution.pipeline]))) :
    GroupsWell keys depth execution.bindings reader run ticked := by
  obtain ⟨hbindings, hgroups⟩ := sortedGroups_of_traces hkeys hnames hstart h
  refine ⟨?_, ?_⟩
  · cases hsaid : run.execution.pipeline.saidAt execution.bindings depth with
    | none =>
        have hsent : run.execution.pipeline.sentAt execution.bindings depth = none := by
          rw [Pipeline.sentAt, hsaid]
        rw [sentBy_concat, hsent, Option.toList_none, List.append_nil]
        exact hgroups.apart hnow
    | some said =>
        cases said with
        | error error =>
            have hsent : run.execution.pipeline.sentAt execution.bindings depth = none := by
              rw [Pipeline.sentAt, hsaid]
            rw [sentBy_concat, hsent, Option.toList_none, List.append_nil]
            exact hgroups.apart hnow
        | ok signal =>
            have hticked := Pipeline.sortedGroups_of_said hkeys hnames hgroups hsaid
            rw [← sentBy_concat, ← sentBy_concat] at hticked
            exact hticked.apart hnext
  · intro last fields hstep
    have htick := BatchRun.tick_of_unsorted hstep
    rw [hbindings] at htick
    obtain ⟨other, hother⟩ := Pipeline.exists_unsorted htick
    refine ⟨other, ?_, hother⟩
    rintro rfl
    exact hgroups.not_unsorted hnow hother.below

end Execution

end

end ShardQuery
