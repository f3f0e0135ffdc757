import ShardQuery.Proofs.Grouping.Runs

/-!
# When Groupings over Sorts Go Well

A grouping over a sort by the same keys goes well in all runs on rows of a class exactly if the
order under the keys is transitive on the class. One direction is the invariant of all runs.
For the other one any list of rows is brought through a run with unlimited means, which would
fail or repeat a key if the groups of the list were not apart.

The order of values is not transitive, since integers are equal to both zeros. Four rows
show it: sorted by `0.0`, `0`, `0` and `-0.0` they cannot be grouped.

## Main results

* `alwaysGroupsWell_iff_coherent`: the exact condition.
* `nextBatch_mixedZeros`: a run that fails.
-/

namespace ShardQuery

/-- Whether in all runs of all plans every grouping directly over a materialising sort by its
own keys goes well, as long as the sort gets rows of a class. -/
def AlwaysGroupsWell (keys : List OrderKey) (p : Row → Prop) : Prop :=
  ∀ {σ : Type} {engine : Engine} {query : Query} {fresh : Uuid} {execution : Execution}
    {aggregates : List AggregateCall} {outer inner : List Step} {reader : ShardReader σ}
    {first : σ} {run : BatchRun σ} {ticked : List Pipeline},
    Execution.start engine query fresh = .ok execution → query.token = none →
    query.plan.steps = outer ++ .groupBy keys aggregates :: .sort keys .materialize :: inner →
    execution.Traces reader first run ticked →
    (∀ row ∈ sentBy query.bindings (outer.length + 2) (ticked ++ [run.execution.pipeline]),
      p row) →
    Execution.GroupsWell keys outer.length query.bindings reader run ticked

section

variable {keys : List OrderKey} {p : Row → Prop}

/-- Coherent rows are grouped well, since sorting them brings equal keys together and the groups
that follow have different keys. -/
theorem alwaysGroupsWell_of_coherent (h : Row.Coherent keys p) : AlwaysGroupsWell keys p := by
  intro σ engine query fresh execution aggregates outer inner reader first run ticked hstart htoken
    hsteps htraces hrows
  obtain ⟨hkeys, -, aggregations, hnames, hgroups⟩ :=
    Execution.sortedGroups_of_start hstart htoken hsteps
  obtain ⟨steps, point, hstarted⟩ := Execution.start_eq_ok_iff.1 hstart
  rw [← hstarted.bindings_eq] at hrows ⊢
  refine Execution.groupsWell_of_groupsApart hkeys hnames hgroups htraces
    (groupsApart_of_coherent h fun row hrow => hrows row ?_) (groupsApart_of_coherent h hrows)
  rw [sentBy_concat]
  exact List.mem_append_left _ hrow

/-! ### Unlimited means -/

/-- An account without a limit books everything: the greatest amount is where counting stops, so
nothing ever exceeds it. -/
theorem Memory.settle_of_limit {τ : Type} {memory : Memory} (h : memory.limit = maxAmount)
    (events : List (MemoryEvent × τ)) :
    ∃ m : Memory, m.limit = maxAmount ∧ memory.settle events = (m, none) := by
  induction events generalizing memory with
  | nil => exact ⟨memory, h, rfl⟩
  | cons entry events ih =>
      obtain ⟨event, s⟩ := entry
      cases event with
      | release bytes => exact @ih (memory.release bytes) h
      | reserve bytes context =>
          have hle : ¬ memory.limit < min (memory.used + bytes) maxAmount := by
            rw [h]
            exact Nat.not_lt.2 (Nat.min_le_right _ _)
          simp only [settle, reserve, if_neg hle]
          exact ih h

/-- Under such an account a computation comes to its own result, so that a run can be followed
without looking at its bookings. -/
theorem Metered.run_of_limit {τ α : Type} {memory : Memory} (h : memory.limit = maxAmount)
    (x : Metered τ α) :
    ∃ m : Memory, m.limit = maxAmount ∧ x.run memory = (m, x.state, x.result) := by
  obtain ⟨m, hm, hsettle⟩ := Memory.settle_of_limit h x.events
  exact ⟨m, hm, by rw [run, hsettle]⟩

/-- The settings of an engine whose memory limit is beyond all amounts that can be counted. -/
def unlimitedConfig : EngineConfig :=
  ⟨0x100000000000, 1, none, none⟩

/-- The options of a query under these settings, with no bound on rows, bytes or time. -/
def unlimitedOptions : ResolvedOptions :=
  ⟨none, none, none, 0x100000000000, none, none, .eventual, none, 1⟩

/-- A shard that answers every request with the same rows. -/
def onePage (rows : List Row) : ShardReader Unit where
  latencyMs := 0
  answer _ shards := (.ok ⟨rows, none⟩, shards)

/-- A query for the different keys of the rows of a shard. -/
def differentKeys (keys : List OrderKey) : Query where
  plan := ⟨Plan.currentVersion, [.groupBy keys [], .sort keys .materialize], ⟨"t", [0], false⟩⟩
  bindings := .empty
  options := .standard
  token := none

/-- The scan of `differentKeys`, at some point of reading its one shard. -/
def oneShard (progress : ShardProgress) : Source :=
  ⟨"t", 2, 1, .anyOrder 1, [progress]⟩

/-- The running query `differentKeys`, at any point: the grouping over the sort, over the scan. -/
def keysPipeline (keys : List OrderKey) (groups : GroupState) (state : SortState)
    (progress : ShardProgress) : Pipeline :=
  ⟨[.groupBy keys [] groups, .sort keys .materialize state], oneShard progress⟩

/-- The execution of `differentKeys` at its start, with empty states and nothing read of the shard.
-/
def differentKeysStart (keys : List OrderKey) : Execution where
  id := ⟨0⟩
  plan := (differentKeys keys).plan
  bindings := .empty
  options := unlimitedOptions
  memory := Memory.ofLimitMb unlimitedOptions.maxMemoryMb
  pipeline := keysPipeline keys .start .start (.start 0)
  elapsedMs := 0
  finished := false

/-- The query is accepted and starts like this, for all keys that the grouping may have. -/
theorem start_differentKeys (h : keys ≠ []) :
    Execution.start ⟨unlimitedConfig, ⟨"", []⟩⟩ (differentKeys keys) ⟨0⟩ =
      .ok (differentKeysStart keys) := by
  cases keys with
  | nil => exact absurd rfl h
  | cons key keys => rfl

/-- Whether a run of `differentKeys` over rows comes to a pipeline. -/
def Comes (keys : List OrderKey) (rows : List Row) (ticked : List Pipeline)
    (pipeline : Pipeline) : Prop :=
  ∃ run, (differentKeysStart keys).Traces (onePage rows) () run ticked ∧
    run.execution.pipeline = pipeline ∧ run.execution.options = unlimitedOptions ∧
    run.execution.memory.limit = maxAmount ∧ run.execution.bindings = .empty ∧
    run.execution.plan = (differentKeys keys).plan

namespace Comes

variable {rows : List Row} {ticked : List Pipeline} {pipeline : Pipeline}

/-- The run has come to the start, before anything has been ticked. -/
theorem start (rows : List Row) :
    Comes keys rows [] (keysPipeline keys .start .start (.start 0)) := by
  have hlimit : (Memory.ofLimitMb unlimitedOptions.maxMemoryMb).limit = maxAmount :=
    Nat.min_eq_right (by decide)
  exact ⟨.start (differentKeysStart keys) (), .start, rfl, rfl, hlimit, rfl, rfl⟩

/-- A batch under these options is never full, so a run goes on in one batch for as long as it is
followed. -/
theorem isFull_eq {run : BatchRun Unit} (h : run.execution.options = unlimitedOptions) :
    run.isFull = false := by
  rw [BatchRun.isFull, h]
  rfl

/-- A tick that gives a row, or of which nothing is to be seen. -/
theorem tick {signal : Signal} (h : Comes keys rows ticked pipeline)
    (hsignal : (pipeline.tick .empty).result = .ok signal)
    (hquiet : signal = .again ∨ ∃ row, signal = .row row) :
    Comes keys rows (ticked ++ [pipeline]) (pipeline.tick .empty).state := by
  obtain ⟨run, htraces, rfl, hoptions, hlimit, hbindings, hplan⟩ := h
  obtain ⟨m, hm, hrun⟩ := Metered.run_of_limit hlimit (run.execution.pipeline.tick .empty)
  have hb : run.booked = (m, (run.execution.pipeline.tick .empty).state, .ok signal) := by
    rw [BatchRun.booked, hbindings, hrun, hsignal]
  rcases hquiet with rfl | ⟨row, rfl⟩
  · exact ⟨_, htraces.step (BatchRun.step_of_moves (.again (isFull_eq hoptions) hb)), rfl, hoptions,
      hm, hbindings, hplan⟩
  · exact ⟨_, htraces.step (BatchRun.step_of_moves (.row (isFull_eq hoptions) hb)), rfl, hoptions,
      hm, hbindings, hplan⟩

/-- A tick that wants the shard to be asked: all rows come at once. -/
theorem round {groups : GroupState} {state : SortState} (h : Comes keys rows ticked pipeline)
    (hsignal : (pipeline.tick .empty).result = .ok (.fetch [0]))
    (hstate : (pipeline.tick .empty).state = keysPipeline keys groups state (.start 0)) :
    Comes keys rows (ticked ++ [pipeline])
      (keysPipeline keys groups state ⟨0, none, rows, 0 + Row.totalSize rows, true⟩) := by
  obtain ⟨run, htraces, rfl, hoptions, hlimit, hbindings, hplan⟩ := h
  obtain ⟨m, hm, hrun⟩ := Metered.run_of_limit hlimit (run.execution.pipeline.tick .empty)
  have hb : run.booked = (m, keysPipeline keys groups state (.start 0), .ok (.fetch [0])) := by
    rw [BatchRun.booked, hbindings, hrun, hsignal, hstate]
  have hround : run.hasRound = true := by
    rw [BatchRun.hasRound, hoptions]
    rfl
  have hremaining : run.remainingMs (onePage rows) = none := by
    rw [BatchRun.remainingMs, hoptions]
    rfl
  have hlate : run.isLate (onePage rows) = false := by rw [BatchRun.isLate, hremaining]; rfl
  obtain ⟨m', hm', hinstalled⟩ := Metered.run_of_limit hm
    ((keysPipeline keys groups state (.start 0)).receive [(0, .ok ⟨rows, none⟩)])
  exact ⟨_, htraces.step (BatchRun.step_of_moves
    (.round (isFull_eq hoptions) hb hround (List.cons_ne_nil _ _) (by simp [hremaining])
      hlate hinstalled)), rfl, hoptions, hm', hbindings, hplan⟩

end Comes

/-! ### The phases of a run -/

/-- A row is collected: the sort takes it up from the scan, and nothing goes out yet. -/
theorem tick_of_row (keys : List OrderKey) (taken : List Row) (bytes : Nat) (row : Row)
    (rest : List Row) (held : Nat) :
    ((keysPipeline keys .start ⟨taken, bytes, false⟩ ⟨0, none, row :: rest, held, true⟩).tick
        .empty).result = .ok .again ∧
      ((keysPipeline keys .start ⟨taken, bytes, false⟩ ⟨0, none, row :: rest, held, true⟩).tick
        .empty).state = keysPipeline keys .start ⟨taken ++ [row], bytes + row.sizeEstimate, false⟩
          ⟨0, none, rest, held - row.sizeEstimate, true⟩ ∧
      (keysPipeline keys .start ⟨taken, bytes, false⟩
        ⟨0, none, row :: rest, held, true⟩).sentAt .empty 0 = none ∧
      (keysPipeline keys .start ⟨taken, bytes, false⟩
        ⟨0, none, row :: rest, held, true⟩).sentAt .empty 2 = some row :=
  ⟨rfl, rfl, rfl, rfl⟩

/-- The rows are sorted when the scan has ended, in a tick that sends none of them on. -/
theorem tick_of_end (keys : List OrderKey) (taken : List Row) (bytes held : Nat) :
    ((keysPipeline keys .start ⟨taken, bytes, false⟩ ⟨0, none, [], held, true⟩).tick
        .empty).result = .ok .again ∧
      ((keysPipeline keys .start ⟨taken, bytes, false⟩ ⟨0, none, [], held, true⟩).tick
        .empty).state = keysPipeline keys .start ⟨Row.sortBy keys taken, bytes, true⟩
          ⟨0, none, [], held, true⟩ ∧
      (keysPipeline keys .start ⟨taken, bytes, false⟩
        ⟨0, none, [], held, true⟩).sentAt .empty 0 = none ∧
      (keysPipeline keys .start ⟨taken, bytes, false⟩
        ⟨0, none, [], held, true⟩).sentAt .empty 2 = none :=
  ⟨rfl, rfl, rfl, rfl⟩

/-- When the rows have been sorted, the sort gets no more. -/
theorem saidAt_of_sorted {groups : GroupState} (hdone : groups.done = false) (rows : List Row)
    (bytes : Nat) (progress : ShardProgress) (depth : Nat) :
    (keysPipeline keys groups ⟨rows, bytes, true⟩ progress).saidAt .empty (depth + 2) = none := by
  have hready := SortedGroups.ready?_groupBy keys [] hdone
    [.sort keys .materialize ⟨rows, bytes, true⟩]
  rw [Pipeline.saidAt, keysPipeline, Pipeline.saidByStages_of_unready hready]
  rfl

/-- A sorted row is grouped: the sort hands over its first row, and the tick is that of the grouping
taking the row in. -/
theorem tick_of_sorted (keys : List OrderKey) {groups : GroupState}
    (hdone : groups.done = false) (row : Row) (rows : List Row) (bytes : Nat)
    (progress : ShardProgress) :
    ((keysPipeline keys groups ⟨row :: rows, bytes, true⟩ progress).tick
        .empty).result = (Stage.acceptGrouped keys [] .empty row groups).result ∧
      ((keysPipeline keys groups ⟨row :: rows, bytes, true⟩ progress).tick
        .empty).state = keysPipeline keys (Stage.acceptGrouped keys [] .empty row groups).state
          ⟨rows, bytes - row.sizeEstimate, true⟩ progress ∧
      (keysPipeline keys groups ⟨row :: rows, bytes, true⟩ progress).saidAt .empty 1 =
        some (.ok (.row row)) := by
  have hready := SortedGroups.ready?_groupBy keys [] hdone
    [.sort keys .materialize ⟨row :: rows, bytes, true⟩]
  have hsort : (Pipeline.tickStages .empty (oneShard progress)
      [.sort keys .materialize ⟨row :: rows, bytes, true⟩]).result = .ok (.row row) := rfl
  obtain ⟨hresult, hstate⟩ := Pipeline.tickStages_of_ok hready hsort
  exact ⟨hresult, hstate, Pipeline.saidByStages_of_unready hready 0⟩

/-- The last group is sent on when the sort has handed over all of its rows. -/
theorem tick_of_drained {groups : GroupState} (hdone : groups.done = false) (bytes : Nat)
    (progress : ShardProgress) :
    ((keysPipeline keys groups ⟨[], bytes, true⟩ progress).tick .empty).result =
      (Stage.finishGroups keys [] groups).result := by
  have hready := SortedGroups.ready?_groupBy keys [] hdone
    [.sort keys .materialize ⟨[], bytes, true⟩]
  have hsort : (Pipeline.tickStages .empty (oneShard progress)
      [.sort keys .materialize ⟨[], bytes, true⟩]).result = .ok .exhausted := rfl
  exact (Pipeline.tickStages_of_ok hready hsort).1

/-- The run collects all rows of the shard and sorts them, by induction over the rows that are still
to be taken. -/
theorem comes_to_sort {rows taken rest : List Row} {ticked : List Pipeline} {bytes held : Nat}
    (h : Comes keys rows ticked
      (keysPipeline keys .start ⟨taken, bytes, false⟩ ⟨0, none, rest, held, true⟩))
    (htaken : sentBy .empty 2 ticked = taken) (hsent : sentBy .empty 0 ticked = []) :
    ∃ ticked' bytes' progress, Comes keys rows ticked'
        (keysPipeline keys .start ⟨Row.sortBy keys (taken ++ rest), bytes', true⟩ progress) ∧
      sentBy .empty 2 ticked' = taken ++ rest ∧ sentBy .empty 0 ticked' = [] := by
  induction rest generalizing taken ticked bytes held with
  | nil =>
      obtain ⟨hresult, hstate, hsent₀, hsent₂⟩ := tick_of_end keys taken bytes held
      have hcomes := h.tick hresult (.inl rfl)
      rw [hstate] at hcomes
      rw [List.append_nil]
      refine ⟨_, bytes, _, hcomes, ?_, ?_⟩
      · rw [sentBy_concat, hsent₂, htaken, Option.toList_none, List.append_nil]
      · rw [sentBy_concat, hsent₀, hsent]
        rfl
  | cons row rest ih =>
      obtain ⟨hresult, hstate, hsent₀, hsent₂⟩ := tick_of_row keys taken bytes row rest held
      have hcomes := h.tick hresult (.inl rfl)
      rw [hstate] at hcomes
      have hmore := ih hcomes (by rw [sentBy_concat, hsent₂, htaken]; rfl)
        (by rw [sentBy_concat, hsent₀, hsent]; rfl)
      rwa [List.append_assoc, List.singleton_append] at hmore

/-- What it means for a run that it goes well. -/
theorem Comes.groupsWell {rows : List Row} {ticked : List Pipeline} {pipeline : Pipeline}
    (h : AlwaysGroupsWell keys p) (hkeys : keys ≠ []) (hcomes : Comes keys rows ticked pipeline)
    (hrows : ∀ row ∈ sentBy .empty 2 (ticked ++ [pipeline]), p row) :
    (sentBy .empty 0 (ticked ++ [pipeline])).Pairwise (fun a b => Row.compareBy keys a b ≠ .eq) ∧
      ∀ fields, (pipeline.tick .empty).result = .error (.unsortedGroups fields) →
        ∃ other ≠ 0, pipeline.Unsorted .empty other := by
  obtain ⟨run, htraces, rfl, hoptions, hlimit, hbindings, -⟩ := hcomes
  have hsteps : (differentKeys keys).plan.steps =
      [] ++ .groupBy keys [] :: .sort keys .materialize :: [] := rfl
  have hwell : Execution.GroupsWell keys 0 .empty (onePage rows) run ticked :=
    h (start_differentKeys hkeys) rfl hsteps htraces hrows
  refine ⟨hwell.apart, fun fields herror => ?_⟩
  obtain ⟨m, -, hrun⟩ := Metered.run_of_limit hlimit (run.execution.pipeline.tick .empty)
  have hb : run.booked = (m, (run.execution.pipeline.tick .empty).state,
      .error (.unsortedGroups fields)) := by
    rw [BatchRun.booked, hbindings, hrun, herror]
  exact hwell.blameless _ fields
    (BatchRun.step_of_moves (.broken (Comes.isFull_eq hoptions) hb))

/-- What it means for a run whose rows have been sorted. -/
theorem Comes.groupsWell_of_sorted {rows sorted : List Row} {ticked : List Pipeline}
    {groups : GroupState} {bytes : Nat} {progress : ShardProgress} {pipeline : Pipeline}
    (h : AlwaysGroupsWell keys p) (hkeys : keys ≠ []) (hrows : ∀ row ∈ rows, p row)
    (hcomes : Comes keys rows ticked pipeline)
    (hpipeline : pipeline = keysPipeline keys groups ⟨sorted, bytes, true⟩ progress)
    (htaken : sentBy .empty 2 ticked = rows) (hdone : groups.done = false) :
    sentBy .empty 2 (ticked ++ [pipeline]) = rows ∧
      (sentBy .empty 0 (ticked ++ [pipeline])).Pairwise
        (fun a b => Row.compareBy keys a b ≠ .eq) ∧
      ∀ fields, (pipeline.tick .empty).result = .error (.unsortedGroups fields) →
        ∃ other ≠ 0, pipeline.Unsorted .empty other := by
  have hnone : pipeline.sentAt .empty 2 = none := by
    rw [hpipeline, Pipeline.sentAt, saidAt_of_sorted hdone]
  have htaken' : sentBy .empty 2 (ticked ++ [pipeline]) = rows := by
    rw [sentBy_concat, hnone, htaken, Option.toList_none, List.append_nil]
  exact ⟨htaken', hcomes.groupsWell h hkeys (by rwa [htaken'])⟩

/-- When no sorted row is left, the last group is followed by none, and its key is another one
than those before. -/
theorem exists_groupKeys_of_drained {ticked : List Pipeline} {groups : GroupState} {bytes : Nat}
    {progress : ShardProgress} (hdone : groups.done = false)
    (hkey : ∀ group, groups.current = some group → ∃ row : Row, group.key = row.keyValues keys)
    (hapart : (sentBy .empty 0
      (ticked ++ [keysPipeline keys groups ⟨[], bytes, true⟩ progress])).Pairwise
        fun a b => Row.compareBy keys a b ≠ .eq) :
    ∃ left, groupKeys keys (groups.current.map (·.key)) [] = some left ∧
      Apart keys ((sentBy .empty 0 ticked).map (Row.keyValues keys) ++ left) := by
  rw [sentBy_concat, Pipeline.sentAt, Pipeline.saidAt_zero, tick_of_drained hdone] at hapart
  cases hcurrent : groups.current with
  | none =>
      refine ⟨[], rfl, ?_⟩
      rw [List.append_nil]
      exact List.pairwise_map.2 (List.pairwise_append.1 hapart).1
  | some current =>
      obtain ⟨head, hhead⟩ := hkey current hcurrent
      simp only [Stage.finishGroups, Stage.lastGroupRow?, hcurrent] at hapart
      have hmap : Apart keys ((sentBy .empty 0 ticked ++
          [Stage.groupRow keys [] current]).map (Row.keyValues keys)) :=
        List.pairwise_map.2 hapart
      rw [List.map_append, List.map_singleton, Stage.keyValues_groupRow (by simp) hhead] at hmap
      exact ⟨[current.key], rfl, hmap⟩

/-- A sorted row has its place among the groups if the grouping is not to blame: the sort is not
at fault, and nothing behind it has been asked. -/
theorem exists_groupFor_of_blameless {groups : GroupState} {row : Row} {sorted : List Row}
    {bytes : Nat} {progress : ShardProgress} (hdone : groups.done = false)
    (hblameless : ∀ fields,
      ((keysPipeline keys groups ⟨row :: sorted, bytes, true⟩ progress).tick .empty).result =
        .error (.unsortedGroups fields) →
      ∃ other ≠ 0,
        (keysPipeline keys groups ⟨row :: sorted, bytes, true⟩ progress).Unsorted .empty other) :
    ∃ group ended, Stage.groupFor keys [] (row.keyValues keys) groups.current =
      .ok (group, ended) := by
  obtain ⟨hresult, -, hsaid⟩ := tick_of_sorted keys hdone row sorted bytes progress
  cases hgroup : Stage.groupFor keys [] (row.keyValues keys) groups.current with
  | ok found => exact ⟨found.1, found.2, rfl⟩
  | error error =>
      obtain ⟨rfl, -⟩ := Stage.unsorted_of_groupFor hgroup
      rw [Stage.acceptGrouped_of_unsorted .empty hgroup] at hresult
      obtain ⟨other, hother, fields, hfault, -⟩ := hblameless _ hresult
      obtain _ | _ | depth := other
      · exact absurd rfl hother
      · cases hsaid.symm.trans hfault
      · cases (saidAt_of_sorted hdone _ _ _ depth).symm.trans hfault

/-- A sorted row that has its place goes there in one tick, which sends on the group that it
ends. -/
theorem Comes.group {rows sorted : List Row} {ticked : List Pipeline} {groups : GroupState}
    {row : Row} {bytes : Nat} {progress : ShardProgress} {group : OpenGroup} {ended : Option Row}
    (hcomes : Comes keys rows ticked
      (keysPipeline keys groups ⟨row :: sorted, bytes, true⟩ progress))
    (hdone : groups.done = false)
    (hgroup : Stage.groupFor keys [] (row.keyValues keys) groups.current = .ok (group, ended)) :
    Comes keys rows
        (ticked ++ [keysPipeline keys groups ⟨row :: sorted, bytes, true⟩ progress])
        (keysPipeline keys (Stage.regrouped groups group)
          ⟨sorted, bytes - row.sizeEstimate, true⟩ progress) ∧
      sentBy .empty 0
          (ticked ++ [keysPipeline keys groups ⟨row :: sorted, bytes, true⟩ progress]) =
        sentBy .empty 0 ticked ++ ended.toList := by
  obtain ⟨hresult, hstate, -⟩ := tick_of_sorted keys hdone row sorted bytes progress
  have haccept := Stage.acceptGrouped_eq hgroup
    (rfl : Stage.accumulate row .empty [] group.aggregates = .ok group.aggregates)
  rw [haccept] at hresult hstate
  have hquiet : Stage.endedSignal ended = .again ∨
      ∃ row, Stage.endedSignal ended = .row row := by
    cases ended with
    | none => exact .inl rfl
    | some row => exact .inr ⟨row, rfl⟩
  constructor
  · have hnext := hcomes.tick hresult hquiet
    rw [hstate] at hnext
    exact hnext
  · rw [sentBy_concat, Pipeline.sentAt, Pipeline.saidAt_zero, hresult]
    cases ended <;> rfl

/-- If runs go well, the sorted rows of a run have groups, and their keys are all different. -/
theorem exists_groupKeys_of_comes (h : AlwaysGroupsWell keys p) (hkeys : keys ≠ [])
    {rows sorted : List Row} (hrows : ∀ row ∈ rows, p row) {ticked : List Pipeline}
    {groups : GroupState} {bytes : Nat} {progress : ShardProgress}
    (hcomes : Comes keys rows ticked (keysPipeline keys groups ⟨sorted, bytes, true⟩ progress))
    (htaken : sentBy .empty 2 ticked = rows) (hdone : groups.done = false)
    (hkey : ∀ group, groups.current = some group → ∃ row : Row, group.key = row.keyValues keys) :
    ∃ left, groupKeys keys (groups.current.map (·.key)) sorted = some left ∧
      Apart keys ((sentBy .empty 0 ticked).map (Row.keyValues keys) ++ left) := by
  induction sorted generalizing ticked groups bytes with
  | nil =>
      obtain ⟨-, hapart, -⟩ := hcomes.groupsWell_of_sorted h hkeys hrows rfl htaken hdone
      exact exists_groupKeys_of_drained hdone hkey hapart
  | cons row sorted ih =>
      obtain ⟨htaken', -, hblameless⟩ :=
        hcomes.groupsWell_of_sorted h hkeys hrows rfl htaken hdone
      obtain ⟨group, ended, hgroup⟩ := exists_groupFor_of_blameless hdone hblameless
      obtain ⟨hnext, hsent⟩ := hcomes.group hdone hgroup
      obtain ⟨hkey', hgroups⟩ := SortedGroups.groupKeys_of_groupFor (by simp) hkey hgroup
      have hregrouped : ∀ current, (Stage.regrouped groups group).current = some current →
          ∃ row : Row, current.key = row.keyValues keys := by
        rintro _ ⟨⟩
        exact hkey'
      obtain ⟨left, hleft, hapart⟩ := ih hnext htaken' hdone hregrouped
      refine ⟨ended.toList.map (Row.keyValues keys) ++ left, ?_, ?_⟩
      · rw [hgroups]
        exact Option.map_eq_some_iff.2 ⟨left, hleft, rfl⟩
      · rw [hsent, List.map_append, List.append_assoc] at hapart
        exact hapart

/-- Only coherent rows are always grouped well. For this direction the runs of `differentKeys` over
lists of rows suffice: what goes wrong with them shows where coherence fails. -/
theorem coherent_of_alwaysGroupsWell (h : AlwaysGroupsWell keys p) : Row.Coherent keys p := by
  by_cases hkeys : keys = []
  · subst hkeys
    intro a b c _ _ _ _ _
    nofun
  · refine coherent_of_groupsApart fun rows hrows => ?_
    have hround := (@Comes.start keys rows).round rfl rfl
    obtain ⟨ticked, bytes, progress, hcomes, htaken, hsent⟩ := comes_to_sort hround rfl rfl
    obtain ⟨left, hleft, hapart⟩ :=
      exists_groupKeys_of_comes h hkeys hrows hcomes htaken rfl nofun
    rw [hsent] at hapart
    exact ⟨left, hleft, hapart⟩

/-- **When groupings over sorts go well.** In all runs of all plans, groupings over sorts by the
same keys neither fail because of the order of their rows nor send on two groups of one key,
whatever rows of a class are sorted, exactly if the order under the keys is transitive on the
class. -/
theorem alwaysGroupsWell_iff_coherent (keys : List OrderKey) (p : Row → Prop) :
    AlwaysGroupsWell keys p ↔ Row.Coherent keys p :=
  ⟨coherent_of_alwaysGroupsWell, alwaysGroupsWell_of_coherent⟩

end

/-! ### Zeros -/

/-- A row with one field, whose value is the key of its group. -/
def rowOf (value : Value) : Row :=
  Row.ofList [("g", value)]

/-- Zeros of all kinds: the integer is equal to the other two, but they are not equal. -/
def mixedZeros : List Row :=
  [rowOf (.double (Double.zero false)), rowOf (.int 0), rowOf (.int 0),
    rowOf (.double (Double.zero true))]

/-- The query for the different ones of these zeros, started under the usual settings. -/
def zerosStart : Execution :=
  { differentKeysStart [⟨"g", false, false⟩] with
    options := ⟨none, none, none, 1024, none, none, .eventual, none, 4⟩
    memory := Memory.ofLimitMb 1024
    pipeline :=
      ⟨[.groupBy [⟨"g", false, false⟩] [] .start, .sort [⟨"g", false, false⟩] .materialize .start],
        ⟨"t", 2, 1, .anyOrder 4, [.start 0]⟩⟩ }

/-- Its run when the page has come and `n` rows have gone into the sort, which holds them in an
order of its own. -/
def zerosRun (n : Nat) (held : List Row) (sorted : Bool) : BatchRun Unit where
  execution :=
    { zerosStart with
      memory := ⟨(Memory.ofLimitMb 1024).limit, 196, 196⟩
      pipeline :=
        ⟨[.groupBy [⟨"g", false, false⟩] [] .start,
            .sort [⟨"g", false, false⟩] .materialize ⟨held, 49 * n, sorted⟩],
          ⟨"t", 2, 1, .anyOrder 4, [⟨0, none, mixedZeros.drop n, 196 - 49 * n, true⟩]⟩⟩ }
  shards := ()
  rows := []
  bytes := 0
  rounds := 1
  sent := [⟨"t", 0, none, none, none, none, .eventual⟩]

/-- Zeros of all kinds cannot be grouped, although they have been sorted. -/
theorem nextBatch_mixedZeros :
    ∃ execution, Execution.start ⟨.standard, ⟨"", []⟩⟩ (differentKeys [⟨"g", false, false⟩]) ⟨0⟩ =
        .ok execution ∧
      (execution.nextBatch (onePage mixedZeros) 20 ()).map (·.result) =
        some (.error (.unsortedGroups ["g"])) := by
  have hpage : (BatchRun.start zerosStart ()).step (onePage mixedZeros) =
      (zerosRun 0 (mixedZeros.take 0) false, none) := rfl
  have hcollect (n : Nat) (hn : n < 4) :
      (zerosRun n (mixedZeros.take n) false).step (onePage mixedZeros) =
        (zerosRun (n + 1) (mixedZeros.take (n + 1)) false, none) := by
    rcases n with _ | _ | _ | _ | n
    · rfl
    · rfl
    · rfl
    · rfl
    · omega
  have hsort : (zerosRun 4 (mixedZeros.take 4) false).step (onePage mixedZeros) =
      (zerosRun 4 (Row.sortBy [⟨"g", false, false⟩] mixedZeros) true, none) := rfl
  have hsorted : Row.sortBy [⟨"g", false, false⟩] mixedZeros = mixedZeros :=
    sortBy_four rfl rfl
  refine ⟨zerosStart, rfl, ?_⟩
  rw [Execution.nextBatch_of_open rfl, BatchRun.steps_succ_of_step hpage,
    BatchRun.steps_succ_of_step (hcollect 0 (by decide)),
    BatchRun.steps_succ_of_step (hcollect 1 (by decide)),
    BatchRun.steps_succ_of_step (hcollect 2 (by decide)),
    BatchRun.steps_succ_of_step (hcollect 3 (by decide)),
    BatchRun.steps_succ_of_step hsort, hsorted]
  rfl

end ShardQuery
