import ShardQuery.Proofs.Faults
import ShardQuery.Proofs.Grouping.Lists
import ShardQuery.Proofs.Row.Fields
import ShardQuery.Proofs.Stage
import ShardQuery.Proofs.Trace

/-!
# Grouping over a Sort

A grouping whose rows come from a sort by its own keys is always at some place of the sorted
list: the groups that it has sent on, the one in the making and those of the rows still to
come are together the groups of that list. So it never meets a row out of order, and never
sends two groups of one key, if the list has groups of different keys.

## Main results

* `SortedGroups.tick`: one tick of a grouping over a sort.
* `SortedGroups.apart`: the rows that it has sent on have different keys.
* `SortedGroups.not_unsorted`: it does not fail because of the order of its rows.
-/

namespace ShardQuery

variable {keys : List OrderKey} {aggregations : List Aggregation} {bindings : Bindings}

/-- The row of a group has the key of the group, if its aggregates have other names. -/
theorem Stage.keyValues_groupRow {group : OpenGroup} {row : Row}
    (hnames : ∀ aggregation ∈ aggregations, aggregation.name ∉ keys.map (·.field))
    (hkey : group.key = row.keyValues keys) :
    (groupRow keys aggregations group).keyValues keys = group.key := by
  rw [hkey]
  refine List.map_congr_left fun key hmem => ?_
  have hfield : key.field ∈ keys.map (·.field) := List.mem_map_of_mem hmem
  have hzip : (keys.map (·.field)).zip (row.keyValues keys) =
      keys.map fun key => (key.field, row.getOrNull key.field) := List.zip_map'
  have hkeys : (Row.empty.insertAll ((keys.map (·.field)).zip (row.keyValues keys))).get?
      key.field = some (row.getOrNull key.field) := by
    rw [hzip]
    refine Row.get?_insertAll (.inr ?_) ?_
    · rw [List.map_map]
      exact hfield
    · intro field hfield' hname
      obtain ⟨other, -, rfl⟩ := List.mem_map.1 hfield'
      exact congrArg row.getOrNull hname
  rw [Row.getOrNull, groupRow, hkey, Row.ofList, Row.insertAll_append,
    Row.get?_insertAll_of_not_mem, hkeys]
  · rfl
  · intro field hmem' hname
    obtain ⟨aggregation, hagg, hname'⟩ := List.mem_map.1 (List.of_mem_zip hmem').1
    exact hnames aggregation hagg (hname' ▸ hname ▸ hfield)

namespace Pipeline

/-! ### Ticks of a sort -/

/-- What one tick of a sort over other stages can be. -/
inductive SortTick (bindings : Bindings) (keys : List OrderKey) (source : Source)
    (inner : List Stage) (state : SortState) : Signal → Pipeline → Option Row → Prop
  /-- All rows have been sent on. -/
  | drained : state.sorted = true → state.buffer = [] →
      SortTick bindings keys source inner state .exhausted
        ⟨.sort keys .materialize state :: inner, source⟩ none
  /-- The next row is sent on. -/
  | popped {row : Row} {rows : List Row} : state.sorted = true → state.buffer = row :: rows →
      SortTick bindings keys source inner state (.row row)
        ⟨.sort keys .materialize
          ⟨rows, state.bytes - row.sizeEstimate, state.sorted⟩ :: inner, source⟩ none
  /-- A row is taken. -/
  | taken {row : Row} {inner' : Pipeline} : state.sorted = false →
      SortTick bindings keys source inner state .again
        (inner'.wrap (.sort keys .materialize
          ⟨state.buffer ++ [row], state.bytes + row.sizeEstimate, state.sorted⟩)) (some row)
  /-- The rows taken are sorted. -/
  | turned {inner' : Pipeline} : state.sorted = false →
      SortTick bindings keys source inner state .again
        (inner'.wrap (.sort keys .materialize
          ⟨Row.sortBy keys state.buffer, state.bytes, true⟩)) none
  /-- Nothing reaches the sort. -/
  | idle {signal : Signal} {inner' : Pipeline} : state.sorted = false →
      (∀ row, signal ≠ .row row) → signal ≠ .exhausted →
      SortTick bindings keys source inner state signal
        (inner'.wrap (.sort keys .materialize state)) none

/-- Every tick of a sort without an error is one of these. -/
theorem sortTick_of_ok {source : Source} {inner : List Stage} {state : SortState}
    {signal : Signal}
    (h : (tickStages bindings source (.sort keys .materialize state :: inner)).result =
      .ok signal) :
    SortTick bindings keys source inner state signal
      (tickStages bindings source (.sort keys .materialize state :: inner)).state
      (sentAt bindings 1 ⟨.sort keys .materialize state :: inner, source⟩) := by
  cases tickStages_inv h with
  | @own own _ hready hown hnext =>
      have hsent : sentAt bindings 1 ⟨.sort keys .materialize state :: inner, source⟩ = none := by
        rw [sentAt, saidAt, saidByStages_of_ready hready]
      rw [hsent, hnext]
      have hready : Stage.ready? (.sort keys .materialize state) = some own := hready
      cases Stage.ready_inv hready with
      | ends hend =>
          cases hown
          cases hend with
          | sort hsorted hbuffer => exact .drained hsorted hbuffer
      | pops hsorted hbuffer =>
          cases hown
          exact .popped hsorted hbuffer
  | @passed below _ hready hbelow hpass hnext =>
      have hsorted := Stage.sorted_eq_false hready
      have hsaid : saidAt bindings ⟨.sort keys .materialize state :: inner, source⟩ 1 =
          some (tickStages bindings source inner).result :=
        (saidByStages_of_unready hready 0).trans (saidAt_zero ⟨inner, source⟩)
      rw [hnext, sentAt, hsaid, hbelow]
      cases below with
      | row row =>
          cases hpass
          exact .taken hsorted
      | exhausted =>
          cases hpass
          exact .turned hsorted
      | fetch | again =>
          cases hpass
          exact .idle hsorted (by simp) (by simp)

end Pipeline

/-! ### Groups of sorted rows -/

/-- Whether a pipeline is a grouping over a sort by the same keys that has taken some rows and
sent some groups on. -/
inductive SortedGroups (keys : List OrderKey) (aggregations : List Aggregation)
    (taken sent : List Row) : Pipeline → Prop
  /-- The sort collects rows. -/
  | collecting {state : SortState} {inner : Pipeline} :
      state.sorted = false → state.buffer = taken → sent = [] →
      SortedGroups keys aggregations taken sent
        ((inner.wrap (.sort keys .materialize state)).wrap (.groupBy keys aggregations .start))
  /-- The sort sends rows on. The groups sent on are followed by those of the rows that it still
  has. -/
  | sending {groups : GroupState} {state : SortState} {inner : Pipeline} :
      state.sorted = true → groups.done = false →
      (∀ group, groups.current = some group → ∃ row : Row, group.key = row.keyValues keys) →
      (∀ all, groupKeys keys none (Row.sortBy keys taken) = some all →
        ∃ left, groupKeys keys (groups.current.map (·.key)) state.buffer = some left ∧
          all = sent.map (Row.keyValues keys) ++ left) →
      SortedGroups keys aggregations taken sent
        ((inner.wrap (.sort keys .materialize state)).wrap (.groupBy keys aggregations groups))
  /-- All groups have been sent on. -/
  | finished {groups : GroupState} {state : SortState} {inner : Pipeline} :
      state.sorted = true → groups.done = true →
      (∀ all, groupKeys keys none (Row.sortBy keys taken) = some all →
        all = sent.map (Row.keyValues keys)) →
      SortedGroups keys aggregations taken sent
        ((inner.wrap (.sort keys .materialize state)).wrap (.groupBy keys aggregations groups))

namespace SortedGroups

open Pipeline

variable {taken sent : List Row} {pipeline : Pipeline}

/-- The groups that have been sent on have different keys. -/
theorem apart (h : SortedGroups keys aggregations taken sent pipeline)
    (hapart : GroupsApart keys taken) :
    sent.Pairwise fun a b => Row.compareBy keys a b ≠ .eq := by
  obtain ⟨all, hall, hdifferent⟩ := hapart
  cases h with
  | collecting _ _ hsent =>
      subst hsent
      exact List.Pairwise.nil
  | sending _ _ _ hleft =>
      obtain ⟨left, -, rfl⟩ := hleft all hall
      exact List.pairwise_map.1 (List.pairwise_append.1 hdifferent).1
  | finished _ _ heq =>
      rw [heq all hall] at hdifferent
      exact List.pairwise_map.1 hdifferent

/-- A grouping that is not done has nothing to say by itself. -/
theorem ready?_groupBy (keys : List OrderKey) (aggregations : List Aggregation)
    {groups : GroupState} (h : groups.done = false) (inner : List Stage) :
    Pipeline.readyOver? inner (.groupBy keys aggregations groups) = none := by
  rw [Pipeline.readyOver?_groupBy, Stage.ready?_groupBy_of_undone h]

/-- What is said below a grouping that is not done. -/
theorem saidAt_groupBy {groups : GroupState} (h : groups.done = false) (depth : Nat)
    (inner : Pipeline) :
    saidAt bindings (inner.wrap (.groupBy keys aggregations groups)) (depth + 1) =
      saidAt bindings inner depth :=
  saidByStages_of_unready (ready?_groupBy keys aggregations h inner.stages) depth

/-- A row goes into the group in the making or ends it. -/
theorem groupKeys_of_groupFor {current : Option OpenGroup} {row : Row} {group : OpenGroup}
    {ended : Option Row}
    (hnames : ∀ aggregation ∈ aggregations, aggregation.name ∉ keys.map (·.field))
    (hkey : ∀ group, current = some group → ∃ row : Row, group.key = row.keyValues keys)
    (h : Stage.groupFor keys aggregations (row.keyValues keys) current = .ok (group, ended)) :
    (∃ row : Row, group.key = row.keyValues keys) ∧ ∀ rows,
      groupKeys keys (current.map (·.key)) (row :: rows) =
        (groupKeys keys (some group.key) rows).map
          (ended.toList.map (Row.keyValues keys) ++ ·) := by
  cases Stage.goesInto_of_groupFor h with
  | first => exact ⟨⟨row, rfl⟩, fun rows => Option.map_id'.symm⟩
  | same heq =>
      refine ⟨hkey group rfl, fun rows => ?_⟩
      rw [Option.map_some, groupKeys_of_eq rows heq]
      exact Option.map_id'.symm
  | next hgt =>
      obtain ⟨head, hhead⟩ := hkey _ rfl
      refine ⟨⟨row, rfl⟩, fun rows => ?_⟩
      rw [Option.map_some, groupKeys_of_gt rows hgt, Option.toList_some, List.map_singleton,
        Stage.keyValues_groupRow hnames hhead]
      rfl

/-- A row from the sort is grouped: it joins the group in the making, or that group is sent on and
the row opens the next one. Either way the keys of all groups come out as before. -/
theorem accept {groups : GroupState} {row : Row} {rows : List Row} {signal : Signal}
    (hnames : ∀ aggregation ∈ aggregations, aggregation.name ∉ keys.map (·.field))
    (hkey : ∀ group, groups.current = some group → ∃ row : Row, group.key = row.keyValues keys)
    (h : (Stage.acceptGrouped keys aggregations bindings row groups).result = .ok signal) :
    ∃ group, (Stage.acceptGrouped keys aggregations bindings row groups).state =
        Stage.regrouped groups group ∧
      (∃ row : Row, group.key = row.keyValues keys) ∧
      groupKeys keys (groups.current.map (·.key)) (row :: rows) =
        (groupKeys keys (some group.key) rows).map
          (signal.row?.toList.map (Row.keyValues keys) ++ ·) := by
  obtain ⟨group, ended, aggregates, hgroup, haggregates⟩ | ⟨error, hfail⟩ :=
    Stage.acceptGrouped_cases keys aggregations bindings row groups
  · rw [Stage.acceptGrouped_eq hgroup haggregates] at h ⊢
    cases h
    obtain ⟨hrow, hkeys⟩ := groupKeys_of_groupFor hnames hkey hgroup
    refine ⟨⟨group.key, aggregates⟩, rfl, hrow, ?_⟩
    rw [hkeys]
    cases ended <;> rfl
  · rw [hfail] at h
    cases h

/-- The last group is sent on at the end of the rows. -/
theorem finish {groups : GroupState} {signal : Signal} (hkeys : keys ≠ [])
    (hnames : ∀ aggregation ∈ aggregations, aggregation.name ∉ keys.map (·.field))
    (hkey : ∀ group, groups.current = some group → ∃ row : Row, group.key = row.keyValues keys)
    (h : (Stage.finishGroups keys aggregations groups).result = .ok signal)
    {left : List (List Value)}
    (hleft : groupKeys keys (groups.current.map (·.key)) [] = some left) :
    left = signal.row?.toList.map (Row.keyValues keys) := by
  cases hcurrent : groups.current with
  | none =>
      rw [hcurrent] at hleft
      cases hleft
      have hempty : keys.isEmpty = false := by simp [hkeys]
      simp only [Stage.finishGroups, Stage.lastGroupRow?, hcurrent, hempty] at h
      cases h
      rfl
  | some current =>
      obtain ⟨head, hhead⟩ := hkey current hcurrent
      rw [hcurrent] at hleft
      cases hleft
      simp only [Stage.finishGroups, Stage.lastGroupRow?, hcurrent] at h
      cases h
      rw [Signal.row?, Option.toList_some, List.map_singleton,
        Stage.keyValues_groupRow hnames hhead]
      rfl

/-- A grouping that is not done passes on what the sort says. -/
theorem tick_groupBy {groups : GroupState} {state : SortState} {inner : Pipeline}
    {signal : Signal} (hdone : groups.done = false)
    (h : (((inner.wrap (.sort keys .materialize state)).wrap
      (.groupBy keys aggregations groups)).tick bindings).result = .ok signal) :
    ∃ below next more, SortTick bindings keys inner.source inner.stages state below next more ∧
      sentAt bindings 2 ((inner.wrap (.sort keys .materialize state)).wrap
        (.groupBy keys aggregations groups)) = more ∧
      (pass bindings below (.groupBy keys aggregations groups)).result = .ok signal ∧
      (((inner.wrap (.sort keys .materialize state)).wrap
        (.groupBy keys aggregations groups)).tick bindings).state =
          next.wrap (pass bindings below (.groupBy keys aggregations groups)).state := by
  have hready :=
    ready?_groupBy keys aggregations hdone (.sort keys .materialize state :: inner.stages)
  rw [sentAt, saidAt_groupBy hdone]
  cases tickStages_inv h with
  | own hown => cases hready.symm.trans hown
  | @passed below _ _ hbelow hpass hnext =>
      exact ⟨below, _, _, sortTick_of_ok hbelow, rfl, hpass, hnext⟩

/-- One tick while the sort collects rows: what is sent to the sort is collected, and nothing goes
out. -/
theorem tick_collecting {state : SortState} {inner : Pipeline} {signal : Signal}
    (hsorted : state.sorted = false)
    (hsignal : (((inner.wrap (.sort keys .materialize state)).wrap
      (.groupBy keys aggregations .start)).tick bindings).result = .ok signal) :
    SortedGroups keys aggregations
      (state.buffer ++ (sentAt bindings 2 ((inner.wrap (.sort keys .materialize state)).wrap
        (.groupBy keys aggregations .start))).toList)
      signal.row?.toList
      (((inner.wrap (.sort keys .materialize state)).wrap
        (.groupBy keys aggregations .start)).tick bindings).state := by
  obtain ⟨below, next, more, hsort, hmore, hpass, hstate⟩ := tick_groupBy rfl hsignal
  rw [hmore, hstate]
  cases hsort with
  | drained h | popped h => cases hsorted.symm.trans h
  | taken =>
      cases hpass
      exact .collecting hsorted rfl rfl
  | turned =>
      cases hpass
      rw [Option.toList_none, List.append_nil]
      exact .sending rfl rfl nofun fun all hall => ⟨all, hall, rfl⟩
  | idle _ hrow hexhausted =>
      rw [Option.toList_none, List.append_nil]
      cases below with
      | row row => exact absurd rfl (hrow row)
      | exhausted => exact absurd rfl hexhausted
      | fetch | again =>
          cases hpass
          exact .collecting hsorted rfl rfl

/-- One tick while the sort sends rows on: the grouping takes one of them in, or sends on the last
group when none is left. -/
theorem tick_sending {groups : GroupState} {state : SortState} {inner : Pipeline}
    {signal : Signal} (hkeys : keys ≠ [])
    (hnames : ∀ aggregation ∈ aggregations, aggregation.name ∉ keys.map (·.field))
    (hsorted : state.sorted = true) (hdone : groups.done = false)
    (hkey : ∀ group, groups.current = some group → ∃ row : Row, group.key = row.keyValues keys)
    (hleft : ∀ all, groupKeys keys none (Row.sortBy keys taken) = some all →
      ∃ left, groupKeys keys (groups.current.map (·.key)) state.buffer = some left ∧
        all = sent.map (Row.keyValues keys) ++ left)
    (hsignal : (((inner.wrap (.sort keys .materialize state)).wrap
      (.groupBy keys aggregations groups)).tick bindings).result = .ok signal) :
    SortedGroups keys aggregations
      (taken ++ (sentAt bindings 2 ((inner.wrap (.sort keys .materialize state)).wrap
        (.groupBy keys aggregations groups))).toList)
      (sent ++ signal.row?.toList)
      (((inner.wrap (.sort keys .materialize state)).wrap
        (.groupBy keys aggregations groups)).tick bindings).state := by
  obtain ⟨below, next, more, hsort, hmore, hpass, hstate⟩ := tick_groupBy hdone hsignal
  rw [hmore, hstate]
  cases hsort with
  | drained _ hbuffer =>
      rw [Option.toList_none, List.append_nil]
      refine .finished hsorted rfl fun all hall => ?_
      obtain ⟨left, hleft', rfl⟩ := hleft all hall
      rw [hbuffer] at hleft'
      rw [List.map_append, finish hkeys hnames hkey hpass hleft']
  | popped _ hbuffer =>
      rw [Option.toList_none, List.append_nil]
      obtain ⟨group, hregrouped, hgroup, hgroups⟩ := accept hnames hkey hpass
      change SortedGroups keys aggregations _ _
        ((inner.wrap _).wrap (.groupBy keys aggregations
          (Stage.acceptGrouped keys aggregations bindings _ groups).state))
      rw [hregrouped]
      refine .sending hsorted hdone ?_ fun all hall => ?_
      · rintro _ ⟨⟩
        exact hgroup
      · obtain ⟨left, hleft', rfl⟩ := hleft all hall
        rw [hbuffer, hgroups] at hleft'
        obtain ⟨left', hothers, rfl⟩ := Option.map_eq_some_iff.1 hleft'
        exact ⟨left', hothers, by rw [List.map_append, List.append_assoc]⟩
  | taken h | turned h | idle h => cases hsorted.symm.trans h

/-- A grouping that is done asks nothing of the stages below it. -/
theorem ready?_groupBy_of_done (keys : List OrderKey) (aggregations : List Aggregation)
    {groups : GroupState} (h : groups.done = true) (inner : List Stage) :
    Pipeline.readyOver? inner (.groupBy keys aggregations groups) =
      some (.done (.groupBy keys aggregations groups) .exhausted) := by
  rw [Pipeline.readyOver?_groupBy, Stage.ready?, if_pos h]

/-- A grouping that is done says so and stays as it is. -/
theorem tick_of_done {groups : GroupState} (h : groups.done = true) (inner : Pipeline) :
    (inner.wrap (.groupBy keys aggregations groups)).tick bindings =
      .done (inner.wrap (.groupBy keys aggregations groups)) .exhausted :=
  tickStages_of_ready (ready?_groupBy_of_done keys aggregations h inner.stages)

/-- Nothing is sent on below a grouping that is done. -/
theorem sentAt_of_done {groups : GroupState} (h : groups.done = true) (depth : Nat)
    (inner : Pipeline) :
    sentAt bindings (depth + 1) (inner.wrap (.groupBy keys aggregations groups)) = none := by
  have hsaid : saidAt bindings (inner.wrap (.groupBy keys aggregations groups)) (depth + 1) =
      none :=
    saidByStages_of_ready (ready?_groupBy_of_done keys aggregations h inner.stages) depth
  rw [sentAt, hsaid]

/-- One tick of a grouping over a sort, in each of the three phases. By this step the phases carry
over to whole runs. -/
theorem tick {signal : Signal} (hkeys : keys ≠ [])
    (hnames : ∀ aggregation ∈ aggregations, aggregation.name ∉ keys.map (·.field))
    (h : SortedGroups keys aggregations taken sent pipeline)
    (hsignal : (pipeline.tick bindings).result = .ok signal) :
    SortedGroups keys aggregations (taken ++ (sentAt bindings 2 pipeline).toList)
      (sent ++ signal.row?.toList) (pipeline.tick bindings).state := by
  cases h with
  | collecting hsorted hbuffer hnil =>
      subst hbuffer hnil
      exact tick_collecting hsorted hsignal
  | sending hsorted hdone hkey hleft =>
      exact tick_sending hkeys hnames hsorted hdone hkey hleft hsignal
  | finished hsorted hdone heq =>
      rw [tick_of_done hdone] at hsignal ⊢
      cases hsignal
      rw [sentAt_of_done hdone, Signal.row?, Option.toList_none, List.append_nil, List.append_nil]
      exact .finished hsorted hdone heq

/-- A row that a grouping refuses as out of order. -/
theorem lt_of_unsortedGroups {groups : GroupState} {row : Row} {fields : List String}
    (h : (Stage.acceptGrouped keys aggregations bindings row groups).result =
      .error (.unsortedGroups fields)) :
    ∃ group, groups.current = some group ∧
      compareKeyValues keys (row.keyValues keys) group.key = .lt := by
  cases hgroup : Stage.groupFor keys aggregations (row.keyValues keys) groups.current with
  | error error => exact (Stage.unsorted_of_groupFor hgroup).2
  | ok found =>
      obtain ⟨group, ended⟩ := found
      cases haggregates : Stage.accumulate row bindings aggregations group.aggregates with
      | error error =>
          rw [Stage.acceptGrouped_of_refused hgroup haggregates] at h
          cases h
          exact absurd rfl (Stage.code_of_accumulate haggregates)
      | ok aggregates =>
          rw [Stage.acceptGrouped_eq hgroup haggregates] at h
          cases h

/-- A failure because of the order of the rows is that of the grouping itself, with a row that
the sort has just sent on. -/
theorem refused_of_unsorted {groups : GroupState} {state : SortState} {inner : Pipeline}
    {fields : List String} (hdone : groups.done = false)
    (herror : (((inner.wrap (.sort keys .materialize state)).wrap
      (.groupBy keys aggregations groups)).tick bindings).result =
        .error (.unsortedGroups fields))
    (hbelow : saidAt bindings ((inner.wrap (.sort keys .materialize state)).wrap
      (.groupBy keys aggregations groups)) 1 ≠ some (.error (.unsortedGroups fields))) :
    ∃ row rows, state.sorted = true ∧ state.buffer = row :: rows ∧
      (Stage.acceptGrouped keys aggregations bindings row groups).result =
        .error (.unsortedGroups fields) := by
  have hready :=
    ready?_groupBy keys aggregations hdone (.sort keys .materialize state :: inner.stages)
  rw [saidAt_groupBy hdone, saidAt_zero] at hbelow
  cases tickStages_inv herror with
  | own hown => cases hready.symm.trans hown
  | failed _ hsort => exact absurd (congrArg some hsort) hbelow
  | @passed below _ _ hsort hpass =>
      cases below with
      | row row =>
          obtain ⟨next, more, hcases⟩ : ∃ next more, SortTick bindings keys inner.source
            inner.stages state (.row row) next more := ⟨_, _, sortTick_of_ok hsort⟩
          cases hcases with
          | popped hsorted hbuffer => exact ⟨row, _, hsorted, hbuffer, hpass⟩
          | idle _ hnone => exact absurd rfl (hnone row)
      | exhausted =>
          simp only [Pipeline.pass, Stage.finish, Stage.finishGroups, Metered.within_result,
            Metered.after_result, Metered.done_result] at hpass
          cases hpass
      | fetch | again => cases hpass

/-- The grouping does not fail because of the order of its rows. -/
theorem not_unsorted (h : SortedGroups keys aggregations taken sent pipeline)
    (hapart : GroupsApart keys taken) : ¬ pipeline.Unsorted bindings 0 := by
  rintro ⟨fields, hsaid, hbelow⟩
  obtain ⟨all, hall, -⟩ := hapart
  have herror := Option.some.inj (saidAt_zero pipeline ▸ hsaid)
  cases h with
  | collecting hsorted =>
      obtain ⟨row, rows, hsorted', -⟩ := refused_of_unsorted rfl herror hbelow
      cases hsorted.symm.trans hsorted'
  | sending _ hdone _ hleft =>
      obtain ⟨row, rows, -, hbuffer, hrefused⟩ := refused_of_unsorted hdone herror hbelow
      obtain ⟨group, hcurrent, hlt⟩ := lt_of_unsortedGroups hrefused
      obtain ⟨left, hleft', -⟩ := hleft all hall
      rw [hcurrent, hbuffer, Option.map_some, groupKeys_of_lt rows hlt] at hleft'
      cases hleft'
  | finished _ hdone =>
      rw [tick_of_done hdone] at herror
      cases herror

end SortedGroups

end ShardQuery
