import ShardQuery.Proofs.Grouping.Sorted
import ShardQuery.Proofs.Meaning.Stages
import ShardQuery.Proofs.Meaning.Stretches
import ShardQuery.Proofs.Row.Sorting
import ShardQuery.Proofs.Stage.Polling
import ShardQuery.Proofs.Value.Sameness

/-!
# Where Groups End

A grouping by itself, over any rows and however often its input interrupts itself: it compares every
row with the first one of the group in the making, and with nothing else. If no doubles stand
under the keys, that is enough to tell whether the rows are sorted as a whole, and that rows
with the same keys are in the same group.

Main definitions:

* `Meaning.SumsUp` — no aggregation fails on rows;
* `Meaning.GroupsExactly` — rows are the groups of others, one for each key.

## Main results

* `Stage.groupsOf_eq`: a grouping whose functions accept its rows refuses them because of their
  order, or sends on all that it has to send on.
* `Stage.splits_at_keys`: a grouping polled to its end, in terms of its rows alone.
-/

namespace ShardQuery

/-! ### Keys without doubles -/

namespace Value

/-- Without doubles, the order of values tells all of them apart. -/
theorem compare_eq_iff_of_no_doubles {a b : Value} (ha : a.Holds fun _ => False)
    (hb : b.Holds fun _ => False) : a.compare b = .eq ↔ a = b := by
  rw [compare_eq_iff nofun nofun a b ha hb, normalized_of_holds nofun a ha,
    normalized_of_holds nofun b hb]

/-- Whether a value counts as absent is whether it is null: there is no second form of it. -/
theorem isNull_iff {a : Value} : a.isNull = true ↔ a = .null := by
  cases a <;> simp [isNull]

end Value

/-- So do the keys, wherever they place absent values. -/
theorem OrderKey.compareValues_eq_iff_of_no_doubles (key : OrderKey) {a b : Value}
    (ha : a.Holds fun _ => False) (hb : b.Holds fun _ => False) :
    key.compareValues a b = .eq ↔ a = b := by
  have hnull : a = b → a.isNull = b.isNull := congrArg Value.isNull
  unfold compareValues
  cases hna : a.isNull with
  | false =>
      cases hnb : b.isNull with
      | false =>
          cases key.descending with
          | false => exact Value.compare_eq_iff_of_no_doubles ha hb
          | true => exact (Value.compare_eq_iff_of_no_doubles hb ha).trans eq_comm
      | true =>
          rw [hna, hnb] at hnull
          exact iff_of_false (by cases key.nullsFirst <;> nofun) fun heq => nomatch hnull heq
  | true =>
      cases hnb : b.isNull with
      | false =>
          rw [hna, hnb] at hnull
          exact iff_of_false (by cases key.nullsFirst <;> nofun) fun heq => nomatch hnull heq
      | true =>
          rw [Value.isNull_iff.1 hna, Value.isNull_iff.1 hnb]
          exact iff_of_true rfl rfl

/-- Without doubles under the keys, rows that are equal under the keys have the same values
there. -/
theorem Row.compareBy_eq_iff_of_no_doubles {keys : List OrderKey} {a b : Row}
    (ha : a.KeysHold keys fun _ => False) (hb : b.KeysHold keys fun _ => False) :
    compareBy keys a b = .eq ↔ a.keyValues keys = b.keyValues keys := by
  unfold compareBy keyValues
  induction keys with
  | nil => exact iff_of_true rfl rfl
  | cons key keys ih =>
      obtain ⟨ha, has⟩ := List.forall_mem_cons.1 ha
      obtain ⟨hb, hbs⟩ := List.forall_mem_cons.1 hb
      rw [List.map_cons, List.map_cons, compareKeyValues, Ordering.then_eq_eq, List.cons.injEq,
        key.compareValues_eq_iff_of_no_doubles ha hb, ih has hbs]

/-! ### The rows of groups -/

namespace Stage

variable {bindings : Bindings} {keys : List OrderKey} {aggregations : List Aggregation}

/-- The rows behind a row that has a group are in order if they are so from its group on. -/
theorem groupKeys_cons_eq_none_iff {current : Option OpenGroup} {row : Row} {group : OpenGroup}
    {ended : Option Row} (h : GoesInto keys aggregations (row.keyValues keys) current group ended)
    (rows : List Row) :
    groupKeys keys (current.map (·.key)) (row :: rows) = none ↔
      groupKeys keys (some group.key) rows = none := by
  cases h with
  | first => rfl
  | same heq => rw [Option.map_some, groupKeys_of_eq rows heq]
  | next hgt =>
      rw [Option.map_some, groupKeys_of_gt rows hgt, Option.map_eq_none_iff]
      rfl

/-- The signal that sends an ended group on carries exactly its row, and none while no group has
ended. -/
theorem row?_endedSignal (ended : Option Row) : (endedSignal ended).row? = ended := by
  cases ended <;> rfl

/-- Functions that accept a row by itself can take it up. -/
theorem exists_accumulate_of_groupedFrom {current : Option OpenGroup} {row : Row}
    {group : OpenGroup} {ended : Option Row} {seenInput : Bool} {rows : List Row}
    (h : GoesInto keys aggregations (row.keyValues keys) current group ended)
    (hout : ∃ out, groupedFrom bindings keys aggregations current seenInput (row :: rows) =
      .ok out) :
    ∃ states, accumulate row bindings aggregations group.aggregates = .ok states := by
  rw [groupedFrom_cons h, exists_bind_eq_ok_iff] at hout
  obtain ⟨states, hstates, -⟩ := hout
  exact ⟨states, hstates⟩

/-- **What a grouping sends on, from a state on.** As long as the functions accept the rows, it is
refused only because of the order of the rows. -/
theorem groupsOf_eq {state : GroupState} {rows : List Row}
    (hsums : ∀ taken, taken <+: rows →
      groupKeys keys (state.current.map (·.key)) taken ≠ none →
        ∃ out, groupedFrom bindings keys aggregations state.current state.seenInput taken =
          .ok out) :
    (groupKeys keys (state.current.map (·.key)) rows = none →
      (groupsOf bindings keys aggregations state rows).2 =
        .error (.unsortedGroups (keys.map (·.field)))) ∧
    (groupKeys keys (state.current.map (·.key)) rows ≠ none →
      ∃ out, groupedFrom bindings keys aggregations state.current state.seenInput rows = .ok out ∧
        groupsOf bindings keys aggregations state rows = (out, .ok ())) := by
  induction rows generalizing state with
  | nil =>
      constructor
      · intro h
        rw [groupKeys] at h
        cases h
      · intro _
        refine ⟨(lastGroupRow? keys aggregations state).toList, ?_, rfl⟩
        rw [groupedFrom]
        rfl
  | cons row rows ih =>
      rw [groupsOf]
      cases hgroup : groupFor keys aggregations (row.keyValues keys) state.current with
      | error error =>
          obtain ⟨rfl, group, hcurrent, hlt⟩ := unsorted_of_groupFor hgroup
          constructor
          · intro _
            rw [acceptGrouped_of_unsorted bindings hgroup]
            rfl
          · intro hsome
            rw [hcurrent, Option.map_some, groupKeys_of_lt rows hlt] at hsome
            exact absurd rfl hsome
      | ok found =>
          obtain ⟨group, ended⟩ := found
          have hinto := goesInto_of_groupFor hgroup
          have hordered := groupKeys_cons_eq_none_iff hinto
          -- The functions accept the first row, since they do so if there are no others.
          have hfirst : groupKeys keys (state.current.map (·.key)) [row] ≠ none :=
            mt (hordered []).1 (by rw [groupKeys]; exact Option.some_ne_none _)
          obtain ⟨states, hstates⟩ := exists_accumulate_of_groupedFrom hinto
            (hsums [row] (List.prefix_append [row] rows) hfirst)
          have hrest := groupedFrom_cons_of_accumulate hinto hstates state.seenInput
          obtain ⟨hnone, hsome⟩ := @ih (regrouped state ⟨group.key, states⟩) <| by
            intro taken htaken hkeys
            have hout := hsums (row :: taken) ((List.prefix_cons_inj row).2 htaken)
              (mt (hordered taken).1 hkeys)
            rw [hrest, exists_bind_eq_ok_iff] at hout
            obtain ⟨out, hout, -⟩ := hout
            exact ⟨out, hout⟩
          simp only [acceptGrouped_eq hgroup hstates, Metered.after_result, Metered.after_state,
            Metered.done_result, Metered.done_state, row?_endedSignal]
          constructor
          · intro h
            exact hnone ((hordered rows).1 h)
          · intro h
            obtain ⟨out, hout, heq⟩ := hsome (mt (hordered rows).2 h)
            refine ⟨ended.toList ++ out, ?_, by rw [heq]⟩
            rw [hrest, bind_eq_ok_iff]
            exact ⟨out, hout, rfl⟩

end Stage

/-! ### Groups -/

namespace Meaning

open Row

variable (bindings : Bindings) (keys : List OrderKey) (aggregations : List Aggregation)

/-- Whether no aggregation fails on rows: of any number of them that are taken and do not descend,
those with the keys of a row sum up. -/
def SumsUp (rows : List Row) : Prop :=
  ∀ taken, taken <+: rows → ¬ Descends keys taken → ∀ row ∈ taken, ∃ out,
    summary bindings keys aggregations (row.keyValues keys)
      (taken.filter (inGroup keys (row.keyValues keys))) = .ok out

/-- Whether rows that are sent on are the groups of others: one for each key that occurs, in
ascending order, and each of exactly the rows with this key. -/
structure GroupsExactly (rows : List Row) (groups : List (List Value)) (sent : List Row) :
    Prop where
  /-- The keys ascend. -/
  pairwise : groups.Pairwise fun a b => compareKeyValues keys a b = .lt
  /-- The keys are those that occur. -/
  mem_iff : ∀ key, key ∈ groups ↔ ∃ row ∈ rows, row.keyValues keys = key
  /-- The rows of a group are those with its key. -/
  inGroup_iff : ∀ key ∈ groups, ∀ row ∈ rows,
    inGroup keys key row = true ↔ row.keyValues keys = key
  /-- One row is sent on for each key, and sums up the rows of the group. -/
  summaries : List.Forall₂ (fun key out =>
    summary bindings keys aggregations key (rows.filter (inGroup keys key)) = .ok out) groups sent
  /-- The rows that are sent on have the keys of their groups, if no aggregation takes the name of
  a key. -/
  keyValues_eq : (∀ aggregation ∈ aggregations, aggregation.name ∉ keys.map (·.field)) →
    sent.map (Row.keyValues keys) = groups

variable {bindings keys aggregations} {rows heads : List Row}

/-- That no aggregation fails can be found out by summing up. -/
theorem sumsUp_of_isOk
    (h : ∀ taken ∈ rows.inits, ∀ row ∈ taken,
      (summary bindings keys aggregations (row.keyValues keys)
        (taken.filter (inGroup keys (row.keyValues keys)))).isOk = true) :
    SumsUp bindings keys aggregations rows := by
  intro taken htaken _ row hrow
  have hok := h taken ((List.mem_inits taken rows).2 htaken) row hrow
  cases hsummary : summary bindings keys aggregations (row.keyValues keys)
      (taken.filter (inGroup keys (row.keyValues keys))) with
  | ok out => exact ⟨out, rfl⟩
  | error error =>
      rw [hsummary] at hok
      cases hok

/-- Rows with heads are grouped under them: one row goes out for each head, and it summarises
exactly the rows with the head's keys. -/
theorem grouped_eq_of_heads (hkeys : keys ≠ []) (h : Heads keys rows heads) :
    grouped bindings keys aggregations rows = heads.mapM fun head =>
      summary bindings keys aggregations (head.keyValues keys)
        (rows.filter (inGroup keys (head.keyValues keys))) := by
  have hempty : ¬ keys.isEmpty = true := by simp [hkeys]
  have hpairs : (stretches keys rows).map (fun stretch =>
      ((stretch.head?.map (Row.keyValues keys)).getD [], stretch)) =
        heads.map fun head =>
          (head.keyValues keys, rows.filter (inGroup keys (head.keyValues keys))) := by
    rw [h.stretches_eq, List.map_map]
    refine List.map_congr_left fun head hhead => ?_
    rw [Function.comp_apply, h.head?_eq head hhead]
    rfl
  have hmap := congrArg (List.mapM fun entry : List Value × List Row =>
    summary bindings keys aggregations entry.1 entry.2) hpairs
  rw [List.mapM_map, List.mapM_map] at hmap
  rw [grouped, if_neg hempty]
  exact hmap

/-- Rows that sum up and do not descend are grouped. -/
theorem exists_grouped_of_sumsUp (hkeys : keys ≠ [])
    (hsums : SumsUp bindings keys aggregations rows) {taken : List Row} (htaken : taken <+: rows)
    (hascends : ¬ Descends keys taken) (h : Heads keys taken heads) :
    ∃ out, grouped bindings keys aggregations taken = .ok out := by
  rw [grouped_eq_of_heads hkeys h, exists_mapM_eq_ok_iff]
  intro head hhead
  exact hsums taken htaken hascends head (h.mem hhead)

/-- The summary of a group has its key, if no aggregation takes the name of a key. -/
theorem keyValues_of_summary
    (hnames : ∀ aggregation ∈ aggregations, aggregation.name ∉ keys.map (·.field)) {head out : Row}
    {members : List Row}
    (h : summary bindings keys aggregations (head.keyValues keys) members = .ok out) :
    out.keyValues keys = head.keyValues keys := by
  obtain ⟨states, rfl, -⟩ := Stage.exists_of_summary h
  exact Stage.keyValues_groupRow hnames rfl

/-- What is made of the heads of rows without doubles under the keys are their groups. -/
theorem groupsExactly_of_heads (hkeys : keys ≠ [])
    (hrows : ∀ row ∈ rows, row.KeysHold keys fun _ => False) (h : Heads keys rows heads)
    {sent : List Row} (hsent : grouped bindings keys aggregations rows = .ok sent) :
    GroupsExactly bindings keys aggregations rows (heads.map (Row.keyValues keys)) sent := by
  have hsame : ∀ row ∈ rows, ∀ head ∈ heads,
      compareBy keys row head = .eq ↔ row.keyValues keys = head.keyValues keys :=
    fun row hrow head hhead =>
      compareBy_eq_iff_of_no_doubles (hrows row hrow) (hrows head (h.mem hhead))
  rw [grouped_eq_of_heads hkeys h] at hsent
  refine ⟨List.pairwise_map.2 h.pairwise, fun key => ?_, ?_, ?_, fun hnames => ?_⟩
  · rw [List.mem_map]
    constructor
    · rintro ⟨head, hhead, rfl⟩
      exact ⟨head, h.mem hhead, rfl⟩
    · rintro ⟨row, hrow, rfl⟩
      obtain ⟨head, hhead, hequal⟩ := h.covers row hrow
      exact ⟨head, hhead, ((hsame row hrow head hhead).1 hequal).symm⟩
  · rw [List.forall_mem_map]
    exact fun head hhead row hrow => Meaning.inGroup_iff.trans (hsame row hrow head hhead)
  · rw [List.forall₂_map_left_iff]
    exact mapM_eq_ok_iff.1 hsent
  · have hkeyed : List.Forall₂ (fun out head => out.keyValues keys = head.keyValues keys) sent
        heads :=
      (mapM_eq_ok_iff.1 hsent).flip.imp fun out head hout =>
        keyValues_of_summary hnames hout
    rwa [← List.forall₂_eq_eq_eq, List.forall₂_map_left_iff, List.forall₂_map_right_iff]

end Meaning

/-! ### Polled to the end -/

namespace Stage

open Meaning Row

variable {bindings : Bindings} {keys : List OrderKey} {aggregations : List Aggregation}

/-- What a grouping sends on from its start, given all of its rows. -/
theorem groupsOf_start {rows : List Row} (hkeys : keys ≠ [])
    (hrows : ∀ row ∈ rows, row.KeysHold keys fun _ => False)
    (hsums : SumsUp bindings keys aggregations rows) :
    (Descends keys rows → (groupsOf bindings keys aggregations .start rows).2 =
      .error (.unsortedGroups (keys.map (·.field)))) ∧
    (¬ Descends keys rows → ∃ sent groups,
      groupsOf bindings keys aggregations .start rows = (sent, .ok ()) ∧
        GroupsExactly bindings keys aggregations rows groups sent) := by
  have hcoherent := coherent_of_no_doubles keys
  have hordered {taken : List Row} (htaken : taken <+: rows) :
      groupKeys keys none taken = none ↔ Descends keys taken :=
    hcoherent.groupKeys_eq_none_iff_descends fun row hrow => hrows row (htaken.subset hrow)
  have hgrouped {taken : List Row} (htaken : taken <+: rows) (hascends : ¬ Descends keys taken) :
      ∃ heads out, Heads keys taken heads ∧
        grouped bindings keys aggregations taken = .ok out := by
    obtain ⟨heads, hheads⟩ := exists_heads_of_ascending hcoherent
      (fun row hrow => hrows row (htaken.subset hrow)) hascends
    obtain ⟨out, hout⟩ := exists_grouped_of_sumsUp hkeys hsums htaken hascends hheads
    exact ⟨heads, out, hheads, hout⟩
  obtain ⟨hrefused, hsent⟩ := @groupsOf_eq bindings keys aggregations .start rows <| by
    intro taken htaken hsome
    obtain ⟨heads, out, -, hout⟩ := hgrouped htaken (mt (hordered htaken).2 hsome)
    exact ⟨out, groupedFrom_of_grouped hout⟩
  refine ⟨fun hdescends => hrefused ((hordered List.prefix_rfl).2 hdescends), fun hascends => ?_⟩
  obtain ⟨heads, out, hheads, hout⟩ := hgrouped List.prefix_rfl hascends
  obtain ⟨sent, hfrom, heq⟩ := hsent (mt (hordered List.prefix_rfl).1 hascends)
  cases hfrom.symm.trans (groupedFrom_of_grouped hout)
  exact ⟨out, _, heq, groupsExactly_of_heads hkeys hrows hheads hout⟩

/-- **Where the groups of rows end.** A grouping by at least one key, in whatever direction and
wherever absent values are placed, over rows without doubles under the keys on which no aggregation
fails, comes to an end if its account has enough room, however often its input interrupts
itself. If some row is less than the one before it, the grouping refuses the rows as out of order.
Otherwise, and only then, it sends on exactly one row for each key, in ascending order. -/
theorem splits_at_keys {input : List Signal} (hkeys : keys ≠ [])
    (hinput : Signal.exhausted ∉ input)
    (hrows : ∀ row ∈ input.filterMap Signal.row?, row.KeysHold keys fun _ => False)
    (hsums : SumsUp bindings keys aggregations (input.filterMap Signal.row?)) :
    ∃ enough, ∀ {memory : Memory}, memory.used + enough ≤ memory.limit →
      memory.limit ≤ maxAmount →
        (∃ sent result,
          PolledToEnd bindings memory (.groupBy keys aggregations .start) input sent result) ∧
        ∀ sent result,
          PolledToEnd bindings memory (.groupBy keys aggregations .start) input sent result →
            ((∃ error, result = .error error ∧ error.code = .illegalState) ↔
              Descends keys (input.filterMap Signal.row?)) ∧
            (Descends keys (input.filterMap Signal.row?) →
              result = .error (.unsortedGroups (keys.map (·.field)))) ∧
            (¬ Descends keys (input.filterMap Signal.row?) →
              result = .ok () ∧ ∃ groups, GroupsExactly bindings keys aggregations
                (input.filterMap Signal.row?) groups sent) := by
  obtain ⟨hrefused, hgrouped⟩ := groupsOf_start hkeys hrows hsums
  obtain ⟨enough, hpolled⟩ :=
    @polledToEnd_groupBy bindings keys aggregations input hinput .start rfl
  refine ⟨enough, fun {memory} hroom hcounted => ?_⟩
  have hend := @hpolled memory memory.used rfl hroom hcounted
  refine ⟨⟨_, _, hend⟩, fun sent result h => ?_⟩
  obtain ⟨rfl, rfl⟩ := hend.unique h
  by_cases hdescends : Descends keys (input.filterMap Signal.row?)
  · have hresult := hrefused hdescends
    refine ⟨iff_of_true ⟨_, hresult, rfl⟩ hdescends, fun _ => hresult, fun h => absurd hdescends h⟩
  · obtain ⟨sent, groups, heq, hgroups⟩ := hgrouped hdescends
    rw [heq]
    refine ⟨iff_of_false ?_ hdescends, fun h => absurd h hdescends,
      fun _ => ⟨rfl, groups, hgroups⟩⟩
    rintro ⟨error, herror, -⟩
    cases herror

/-- The keys of `regions`: the region, descending with absent ones first, then the city. -/
def regionKeys : List OrderKey :=
  [⟨"region", true, true⟩, ⟨"city", false, false⟩]

/-- The number of rows and the sum of their amounts. -/
def regionTotals : List Aggregation :=
  [⟨"rows", .countStar, none⟩, ⟨"amount", .sum, some (.column "amount")⟩]

/-- Rows in the order of `regionKeys`, with interruptions between them: fetches of several shards
and ticks without a row, in the middle of a group too. -/
def regions : List Signal :=
  [.row (Row.ofList [("city", .string "Bern"), ("amount", .int 1)]),
    .fetch [0],
    .row (Row.ofList [("region", .int 2), ("city", .string "Aarau"), ("amount", .int 5)]),
    .again, .fetch [1, 2],
    .row (Row.ofList [("region", .int 2), ("city", .string "Aarau"), ("amount", .int 7)]),
    .row (Row.ofList [("region", .int 2), ("amount", .int 3)]),
    .fetch [1],
    .row (Row.ofList [("region", .int 1), ("city", .string "Aarau")])]

/-- The regions are split at their keys, the interruptions notwithstanding, and the groups are sent
on once each. -/
theorem splits_regions : ∃ enough, ∀ {memory : Memory}, memory.used + enough ≤ memory.limit →
    memory.limit ≤ maxAmount → ∃ sent groups,
      PolledToEnd .empty memory (.groupBy regionKeys regionTotals .start) regions sent (.ok ()) ∧
        GroupsExactly .empty regionKeys regionTotals (regions.filterMap Signal.row?) groups
          sent := by
  have hrows : ∀ row ∈ regions.filterMap Signal.row?, row.KeysHold regionKeys fun _ => False := by
    intro row hrow key hkey
    simp only [regions, List.filterMap_cons, List.filterMap_nil, Signal.row?, List.mem_cons,
      List.not_mem_nil, or_false] at hrow
    simp only [regionKeys, List.mem_cons, List.not_mem_nil, or_false] at hkey
    rcases hrow with rfl | rfl | rfl | rfl | rfl <;> rcases hkey with rfl | rfl <;> trivial
  have hsums : SumsUp .empty regionKeys regionTotals (regions.filterMap Signal.row?) :=
    sumsUp_of_isOk (by decide +kernel)
  have hascends : ¬ Descends regionKeys (regions.filterMap Signal.row?) := by
    rw [not_descends_iff]
    decide +kernel
  obtain ⟨enough, h⟩ := splits_at_keys (by decide) (by simp [regions]) hrows hsums
  refine ⟨enough, fun {memory} hroom hcounted => ?_⟩
  obtain ⟨⟨sent, result, hend⟩, hall⟩ := h hroom hcounted
  obtain ⟨-, -, hgrouped⟩ := hall sent result hend
  obtain ⟨rfl, groups, hgroups⟩ := hgrouped hascends
  exact ⟨sent, groups, hend, hgroups⟩

end Stage

end ShardQuery
