import Mathlib.Data.List.TakeWhile
import ShardQuery.Proofs.Except
import ShardQuery.Proofs.Meaning.Lists
import ShardQuery.Proofs.Stage

/-!
# What Stages Still Send

A running stage has taken some of its rows and sent some on. `Stage.rest` is what it still
sends on, given the rows that are still to come from below. At the start this is the meaning
of its step. Every signal takes its row off, and nothing else changes it.

## Main results

* `Stage.yields_of_ready`, `Stage.yields_of_pass`: the signals of a stage are its remaining
  rows.
* `Stage.rest_of_start`: at the start, the remaining rows are those of the step.
-/

namespace ShardQuery

/-- Whether a signal is what stands between the rows that remain before and after it. -/
def Signal.Yields : Signal → List Row → List Row → Prop
  | .row r, before, after => before = r :: after
  | .exhausted, before, after => before = [] ∧ after = []
  | .fetch _, before, after | .again, before, after => before = after

namespace Stage

variable (bindings : Bindings)

/-- The rows of groups that are still sent on, from a group in the making on. -/
def groupedFrom (keys : List OrderKey) (aggregations : List Aggregation) :
    Option OpenGroup → Bool → List Row → Except QueryError (List Row)
  | current, seenInput, [] =>
    .ok (lastGroupRow? keys aggregations ⟨current, 0, false, seenInput⟩).toList
  | none, _, row :: rows => do
    let key := row.keyValues keys
    let states ← accumulate row bindings aggregations (openGroup aggregations key).aggregates
    groupedFrom keys aggregations (some ⟨key, states⟩) true rows
  | some group, _, row :: rows =>
    let key := row.keyValues keys
    if compareKeyValues keys key group.key == .eq then do
      let states ← accumulate row bindings aggregations group.aggregates
      groupedFrom keys aggregations (some ⟨group.key, states⟩) true rows
    else do
      let states ← accumulate row bindings aggregations (openGroup aggregations key).aggregates
      let others ← groupedFrom keys aggregations (some ⟨key, states⟩) true rows
      return groupRow keys aggregations group :: others

/-- The rows that do not repeat the latest one that was kept. -/
def adjacentFrom (keys : List String) (last : Option (List Value)) : List Row → List Row
  | [] => []
  | row :: rows =>
    if last.any (sameKey · (distinctKey keys row)) then adjacentFrom keys last rows
    else row :: adjacentFrom keys (some (distinctKey keys row)) rows

/-- The rows whose keys have other texts than those kept. -/
def hashedFrom (keys : List String) (seen : List String) : List Row → List Row
  | [] => []
  | row :: rows =>
    if seen.contains (keyText (distinctKey keys row)) then hashedFrom keys seen rows
    else row :: hashedFrom keys (insertText (keyText (distinctKey keys row)) seen) rows

/-- The rows that a stage still sends on, given those that are still to come. -/
def rest : Stage → List Row → Except QueryError (List Row)
  | .sort _ .merge _, rows => .ok rows
  | .sort keys .materialize state, rows =>
    .ok (if state.sorted then state.buffer else Row.sortBy keys (state.buffer ++ rows))
  | .groupBy keys aggregations state, rows =>
    if state.done then .ok []
    else groupedFrom bindings keys aggregations state.current state.seenInput rows
  | .distinct keys .adjacent state, rows => .ok (adjacentFrom keys state.last rows)
  | .distinct keys .hashed state, rows => .ok (hashedFrom keys state.seen rows)
  | .project fields, rows => rows.mapM (Meaning.projected bindings fields)
  | .slice offset limit state, rows =>
    .ok (Meaning.sliced (offset.toNat - state.skipped.toNat)
      (limit.map (·.toNat - state.emitted.toNat)) rows)

variable {bindings : Bindings}

/-! ### Signals -/

/-- A sort that has sorted sends on what is in its buffer, and takes up nothing more. -/
theorem rest_of_sorted {keys : List OrderKey} {state : SortState} (h : state.sorted = true)
    (rows : List Row) : rest bindings (.sort keys .materialize state) rows = .ok state.buffer := by
  rw [rest, if_pos h]

/-- A sort that still collects sends on all of the rows in order, those in its buffer and those to
come. -/
theorem rest_of_unsorted {keys : List OrderKey} {state : SortState} (h : state.sorted = false)
    (rows : List Row) :
    rest bindings (.sort keys .materialize state) rows =
      .ok (Row.sortBy keys (state.buffer ++ rows)) := by
  rw [rest, if_neg (by simp [h])]

/-- A grouping that is done sends nothing on. -/
theorem rest_of_done {keys : List OrderKey} {aggregations : List Aggregation}
    {state : GroupState} (h : state.done = true) (rows : List Row) :
    rest bindings (.groupBy keys aggregations state) rows = .ok [] := by
  rw [rest, if_pos h]

/-- A grouping that is not done goes on from the group in the making. -/
theorem rest_of_undone {keys : List OrderKey} {aggregations : List Aggregation}
    {state : GroupState} (h : state.done = false) (rows : List Row) :
    rest bindings (.groupBy keys aggregations state) rows =
      groupedFrom bindings keys aggregations state.current state.seenInput rows := by
  rw [rest, if_neg (by simp [h])]

/-- A slice that has sent on as many rows as it may sends no more, whatever is still to be skipped.
-/
theorem sliced_zero (offset : Nat) (rows : List Row) :
    Meaning.sliced offset (some 0) rows = [] :=
  @List.take_zero Row (rows.drop offset)

/-- A row that is to be skipped leaves one fewer to skip. -/
theorem sliced_succ (offset : Nat) (limit : Option Nat) (row : Row) (rows : List Row) :
    Meaning.sliced (offset + 1) limit (row :: rows) = Meaning.sliced offset limit rows := by
  cases limit <;> rfl

/-- A row that is not to be skipped is sent on, where there is room for one, and leaves room for one
fewer. -/
theorem sliced_cons {limit : Option Nat} (hroom : ∀ most, limit = some most → 0 < most) (row : Row)
    (rows : List Row) :
    Meaning.sliced 0 limit (row :: rows) = row :: Meaning.sliced 0 (limit.map (· - 1)) rows := by
  cases limit with
  | none => rfl
  | some most =>
      obtain ⟨fewer, rfl⟩ := Nat.exists_eq_add_one_of_ne_zero (Nat.ne_of_gt (hroom most rfl))
      rfl

/-- A word below another one does not wrap around when it is counted up. -/
theorem toNat_add_one {n most : UInt64} (h : n.toNat < most.toNat) :
    (n + 1).toNat = n.toNat + 1 := by
  have hmost := most.toNat_lt
  rw [UInt64.toNat_add, Nat.mod_eq_of_lt]
  · rfl
  · exact Nat.lt_of_le_of_lt h hmost

/-- No slice of no rows has any. -/
theorem sliced_nil (offset : Nat) (limit : Option Nat) : Meaning.sliced offset limit [] = [] := by
  cases limit <;> simp [Meaning.sliced]

/-- What a stage says by itself is what it still sends on. -/
theorem yields_of_ready {stage : Stage} {own : Metered Stage Signal} {signal : Signal}
    {rows out : List Row} (hready : stage.ready? = some own) (hsignal : own.result = .ok signal)
    (hrest : stage.rest bindings rows = .ok out) :
    ∃ out', own.state.rest bindings rows = .ok out' ∧ signal.Yields out out' := by
  cases ready_inv hready with
  | ends hend =>
      cases hsignal
      cases hend with
      | sort hsorted hb =>
          rw [rest_of_sorted hsorted, hb] at hrest
          cases hrest
          exact ⟨[], hb ▸ rest_of_sorted hsorted rows, rfl, rfl⟩
      | groupBy hdone =>
          rw [rest_of_done hdone] at hrest
          cases hrest
          exact ⟨[], rest_of_done hdone rows, rfl, rfl⟩
      | @slice offset most state hle =>
          cases hrest
          have hzero : most.toNat - state.emitted.toNat = 0 :=
            Nat.sub_eq_zero_of_le (UInt64.le_iff_toNat_le.1 hle)
          have hnil : Meaning.sliced (offset.toNat - state.skipped.toNat)
              ((some most).map (·.toNat - state.emitted.toNat)) rows = [] := by
            rw [Option.map_some, hzero, sliced_zero]
          exact ⟨[], congrArg Except.ok hnil, hnil, rfl⟩
  | @pops keys state row others hsorted hb =>
      cases hsignal
      rw [rest_of_sorted hsorted, hb] at hrest
      cases hrest
      have hsorted' : (⟨others, state.bytes - row.sizeEstimate, state.sorted⟩ :
          SortState).sorted = true := hsorted
      exact ⟨others, rest_of_sorted hsorted' rows, rfl⟩

/-- A row that has a group goes into it, behind the row of the group that it ends. -/
theorem groupedFrom_cons {keys : List OrderKey} {aggregations : List Aggregation}
    {current : Option OpenGroup} {row : Row} {group : OpenGroup} {ended : Option Row}
    (h : GoesInto keys aggregations (row.keyValues keys) current group ended) (seenInput : Bool)
    (rows : List Row) :
    groupedFrom bindings keys aggregations current seenInput (row :: rows) = (do
      let states ← accumulate row bindings aggregations group.aggregates
      let others ← groupedFrom bindings keys aggregations (some ⟨group.key, states⟩) true rows
      return ended.toList ++ others) := by
  cases h with
  | first => simp [groupedFrom, openGroup]
  | same heq => simp [groupedFrom, heq]
  | next hgt => simp [groupedFrom, hgt, openGroup]

/-- What is sent on from a row on, if the functions accept the row. -/
theorem groupedFrom_cons_of_accumulate {keys : List OrderKey}
    {aggregations : List Aggregation} {current : Option OpenGroup} {row : Row}
    {group : OpenGroup} {ended : Option Row} {states : List AggregateState}
    (h : GoesInto keys aggregations (row.keyValues keys) current group ended)
    (hstates : accumulate row bindings aggregations group.aggregates = .ok states)
    (seenInput : Bool) (rows : List Row) :
    groupedFrom bindings keys aggregations current seenInput (row :: rows) = (do
      let others ← groupedFrom bindings keys aggregations (some ⟨group.key, states⟩) true rows
      return ended.toList ++ others) := by
  rw [groupedFrom_cons h, hstates]
  rfl

/-- The fields of a projection are computed in their order, up to the first failure. -/
theorem projectFields_eq (row : Row) (bindings : Bindings) (fields : List (String × Formula)) :
    projectFields row bindings fields =
      fields.mapM fun field => do return (field.1, ← field.2.eval row bindings) := by
  induction fields with
  | nil => rfl
  | cons field fields ih =>
      obtain ⟨name, formula⟩ := field
      rw [projectFields, List.mapM_cons, ih]
      cases formula.eval row bindings <;> rfl

/-- The meaning of a projection is the row that is made of its fields, so a name given twice has its
last value at its first place. -/
theorem projected_eq (fields : List (String × Formula)) (row : Row) :
    Meaning.projected bindings fields row =
      (projectFields row bindings fields).map Row.ofList := by
  rw [Meaning.projected, projectFields_eq]
  cases fields.mapM fun field => do return (field.1, ← field.2.eval row bindings) <;> rfl

/-- The image of a row comes before those of others. -/
theorem rest_of_projected {fields : List (String × Formula)} {row : Row}
    {values : List (String × Value)} (h : projectFields row bindings fields = .ok values)
    (rows : List Row) :
    rest bindings (.project fields) (row :: rows) = (do
      let others ← rest bindings (.project fields) rows
      return Row.ofList values :: others) := by
  rw [rest, List.mapM_cons, projected_eq, h]
  rfl

/-- Skipping a row takes it off those before the slice. -/
theorem sliced_of_skipped {offset skipped : UInt64} (h : skipped < offset) (limit : Option Nat)
    (row : Row) (rows : List Row) :
    Meaning.sliced (offset.toNat - skipped.toNat) limit (row :: rows) =
      Meaning.sliced (offset.toNat - (skipped + 1).toNat) limit rows := by
  have hlt := UInt64.lt_iff_toNat_lt.1 h
  have hnext := toNat_add_one hlt
  obtain ⟨more, hmore⟩ := Nat.exists_eq_add_of_lt hlt
  have hbefore : offset.toNat - skipped.toNat = more + 1 := by omega
  have hafter : offset.toNat - (skipped + 1).toNat = more := by omega
  rw [hbefore, hafter, sliced_succ]

/-- A row behind the offset is in the slice, if there is room for it. -/
theorem sliced_of_not_skipped {offset : UInt64} {limit : Option UInt64} {state : SliceState}
    (h : ¬ state.skipped < offset)
    (hroom : ∀ most, limit = some most → state.emitted.toNat < most.toNat) (row : Row)
    (rows : List Row) :
    Meaning.sliced (offset.toNat - state.skipped.toNat)
        (limit.map (·.toNat - state.emitted.toNat)) (row :: rows) =
      row :: Meaning.sliced (offset.toNat - state.skipped.toNat)
        (limit.map (·.toNat - (state.emitted + 1).toNat)) rows := by
  have hzero : offset.toNat - state.skipped.toNat = 0 :=
    Nat.sub_eq_zero_of_le (Nat.le_of_not_lt fun hlt => h (UInt64.lt_iff_toNat_lt.2 hlt))
  have hsome : ∀ most, limit.map (·.toNat - state.emitted.toNat) = some most → 0 < most := by
    rintro _ hmost
    obtain ⟨most, hlimit, rfl⟩ := Option.map_eq_some_iff.1 hmost
    exact Nat.sub_pos_of_lt (hroom most hlimit)
  -- The count cannot wrap around, because it has not reached the limit.
  have hcount : (limit.map (·.toNat - state.emitted.toNat)).map (· - 1) =
      limit.map (·.toNat - (state.emitted + 1).toNat) := by
    cases limit with
    | none => rfl
    | some most =>
        rw [Option.map_some, Option.map_some, Option.map_some, toNat_add_one (hroom most rfl),
          Nat.sub_sub]
  rw [hzero, sliced_cons hsome, hcount]

/-- What a stage does with a row is what it still sends on. -/
theorem yields_of_accept {stage : Stage} {row : Row} {signal : Signal} {rows out : List Row}
    (hready : stage.ready? = none) (hsignal : (stage.accept bindings row).result = .ok signal)
    (hrest : stage.rest bindings (row :: rows) = .ok out) :
    ∃ out', (stage.accept bindings row).state.rest bindings rows = .ok out' ∧
      signal.Yields out out' := by
  generalize hown : stage.accept bindings row = own at hsignal ⊢
  cases accept_inv hown with
  | unsorted | refused | unprojected => cases hsignal
  | merged =>
      cases hsignal
      cases hrest
      exact ⟨rows, rfl, rfl⟩
  | @kept keys state =>
      have hsorted := sorted_eq_false hready
      cases hsignal
      rw [rest_of_unsorted hsorted] at hrest
      cases hrest
      refine ⟨_, rest_of_unsorted (by exact hsorted) rows, ?_⟩
      change Row.sortBy keys (state.buffer ++ row :: rows) =
        Row.sortBy keys (state.buffer ++ [row] ++ rows)
      rw [List.append_assoc, List.singleton_append]
  | @grouped keys aggregations state group ended aggregates hgroup haggregates =>
      have hdone := done_eq_false hready
      cases hsignal
      rw [rest_of_undone hdone,
        groupedFrom_cons_of_accumulate (goesInto_of_groupFor hgroup) haggregates] at hrest
      obtain ⟨others, hothers, hout⟩ := bind_eq_ok_iff.1 hrest
      cases hout
      refine ⟨others, (rest_of_undone (by exact hdone) rows).trans hothers, ?_⟩
      cases ended <;> rfl
  | same hsame =>
      cases hsignal
      rw [rest, adjacentFrom, if_pos hsame] at hrest
      cases hrest
      exact ⟨_, rfl, rfl⟩
  | changed hchanged =>
      cases hsignal
      rw [rest, adjacentFrom, if_neg hchanged] at hrest
      cases hrest
      exact ⟨_, rfl, rfl⟩
  | seen hseen =>
      cases hsignal
      rw [rest, hashedFrom, if_pos hseen] at hrest
      cases hrest
      exact ⟨_, rfl, rfl⟩
  | unseen hunseen =>
      cases hsignal
      rw [rest, hashedFrom, if_neg hunseen] at hrest
      cases hrest
      exact ⟨_, rfl, rfl⟩
  | projected hvalues =>
      cases hsignal
      rw [rest_of_projected hvalues] at hrest
      obtain ⟨others, hothers, hout⟩ := bind_eq_ok_iff.1 hrest
      cases hout
      exact ⟨others, hothers, rfl⟩
  | skipped hskipped =>
      cases hsignal
      cases hrest
      exact ⟨_, rfl, sliced_of_skipped hskipped _ row rows⟩
  | sliced hsliced =>
      cases hsignal
      cases hrest
      refine ⟨_, rfl, sliced_of_not_skipped hsliced ?_ row rows⟩
      rintro most rfl
      exact UInt64.lt_iff_toNat_lt.1 (emitted_lt hready)

/-- What a stage does at the end of the rows is what it still sends on. -/
theorem yields_of_finish {stage : Stage} {signal : Signal} {out : List Row}
    (hready : stage.ready? = none) (hsignal : stage.finish.result = .ok signal)
    (hrest : stage.rest bindings [] = .ok out) :
    ∃ out', stage.finish.state.rest bindings [] = .ok out' ∧ signal.Yields out out' := by
  cases stage with
  | sort keys mode state =>
      cases mode with
      | merge =>
          cases hsignal
          cases hrest
          exact ⟨[], rfl, rfl, rfl⟩
      | materialize =>
          have hsorted := sorted_eq_false hready
          cases hsignal
          rw [rest_of_unsorted hsorted, List.append_nil] at hrest
          cases hrest
          exact ⟨_, rest_of_sorted (by rfl) [], rfl⟩
  | groupBy keys aggregations state =>
      have hdone := done_eq_false hready
      rw [rest_of_undone hdone, groupedFrom] at hrest
      cases hrest
      refine ⟨[], rest_of_done (by rfl) [], ?_⟩
      have hlast : lastGroupRow? keys aggregations ⟨state.current, 0, false, state.seenInput⟩ =
          lastGroupRow? keys aggregations state := rfl
      cases hsignal
      rw [hlast]
      cases lastGroupRow? keys aggregations state with
      | none => exact ⟨rfl, rfl⟩
      | some row => rfl
  | distinct keys strategy state =>
      cases hsignal
      cases strategy <;> cases hrest <;> exact ⟨[], rfl, rfl, rfl⟩
  | project fields =>
      cases hsignal
      cases hrest
      exact ⟨[], rfl, rfl, rfl⟩
  | slice offset limit state =>
      cases hsignal
      cases hrest
      exact ⟨_, rfl, sliced_nil _ _, sliced_nil _ _⟩

/-- What a stage does with a signal from below is what it still sends on. -/
theorem yields_of_pass {stage : Stage} {below signal : Signal} {rows rows' out : List Row}
    (hready : stage.ready? = none) (hbelow : below.Yields rows rows')
    (hsignal : (Pipeline.pass bindings below stage).result = .ok signal)
    (hrest : stage.rest bindings rows = .ok out) :
    ∃ out', (Pipeline.pass bindings below stage).state.rest bindings rows' = .ok out' ∧
      signal.Yields out out' := by
  cases below with
  | row row =>
      obtain rfl : rows = row :: rows' := hbelow
      exact yields_of_accept hready hsignal hrest
  | exhausted =>
      obtain ⟨rfl, rfl⟩ := hbelow
      exact yields_of_finish hready hsignal hrest
  | fetch | again =>
      obtain rfl : rows = rows' := hbelow
      cases hsignal
      exact ⟨out, hrest, rfl⟩

/-! ### The start -/

/-- Rows are compared with the latest key that was kept. -/
theorem adjacentFrom_eq (keys : List String) (kept : List (List Value)) (rows : List Row) :
    adjacentFrom keys kept.head? rows = Meaning.deduplicated keys .adjacent kept rows := by
  induction rows generalizing kept with
  | nil => rfl
  | cons row rows ih =>
      rw [Meaning.deduplicated]
      by_cases hrepeated : Meaning.repeats .adjacent kept (distinctKey keys row) = true
      · rw [if_pos hrepeated, ← ih kept]
        exact if_pos hrepeated
      · rw [if_neg hrepeated, ← ih (distinctKey keys row :: kept)]
        exact if_neg hrepeated

/-- Rows are compared with all keys that were kept, by their texts. -/
theorem hashedFrom_eq {keys : List String} {seen : List String} {kept : List (List Value)}
    (h : ∀ text, text ∈ seen ↔ ∃ key ∈ kept, keyText key = text) (rows : List Row) :
    hashedFrom keys seen rows = Meaning.deduplicated keys .hashed kept rows := by
  induction rows generalizing seen kept with
  | nil => rfl
  | cons row rows ih =>
      have hiff : seen.contains (keyText (distinctKey keys row)) = true ↔
          Meaning.repeats .hashed kept (distinctKey keys row) = true := by
        rw [List.contains_iff_mem, h, Meaning.repeats, List.any_eq_true]
        simp only [beq_iff_eq]
      rw [hashedFrom, Meaning.deduplicated]
      by_cases hrepeated : seen.contains (keyText (distinctKey keys row)) = true
      · rw [if_pos hrepeated, if_pos (hiff.1 hrepeated)]
        exact ih h
      · rw [if_neg hrepeated, if_neg fun h => hrepeated (hiff.2 h)]
        refine congrArg (row :: ·) (ih fun text => ?_)
        rw [mem_insertText, h]
        simp only [List.mem_cons, exists_eq_or_imp, eq_comm]

variable {keys : List OrderKey} {aggregations : List Aggregation}

/-- The states of aggregations after one more row are those of every aggregation by
itself. -/
theorem accumulate_of_accumulated {row : Row} {rows : List Row}
    {states states' : List AggregateState} (hlength : states.length = aggregations.length)
    (h : List.Forall₂ (fun (entry : Aggregation × AggregateState) state' =>
      Meaning.accumulated bindings entry.1 entry.2 (row :: rows) = .ok state')
      (aggregations.zip states) states') :
    ∃ states₁, accumulate row bindings aggregations states = .ok states₁ ∧
      states₁.length = aggregations.length ∧
      List.Forall₂ (fun (entry : Aggregation × AggregateState) state' =>
        Meaning.accumulated bindings entry.1 entry.2 rows = .ok state')
        (aggregations.zip states₁) states' := by
  induction aggregations generalizing states states' with
  | nil =>
      obtain rfl := List.length_eq_zero_iff.1 hlength
      cases h
      exact ⟨[], rfl, rfl, .nil⟩
  | cons aggregation aggregations ih =>
      cases states with
      | nil => cases hlength
      | cons state states =>
          rw [List.zip_cons_cons] at h
          cases h with
          | cons hfirst hothers =>
              obtain ⟨states₁, haccumulate, hlength₁, hall⟩ := ih (Nat.succ.inj hlength) hothers
              rw [Meaning.accumulated, List.foldlM_cons] at hfirst
              obtain ⟨state₁, hstate₁, hfold⟩ := bind_eq_ok_iff.1 hfirst
              obtain ⟨input, hinput, hupdate⟩ := bind_eq_ok_iff.1 hstate₁
              refine ⟨state₁ :: states₁, ?_, congrArg (· + 1) hlength₁, .cons hfold hall⟩
              simp only [accumulate, hinput, hupdate, haccumulate, bind, Except.bind, pure,
                Except.pure]

/-- After no rows, the states of aggregates are the ones before. -/
theorem accumulated_nil {entries : List (Aggregation × AggregateState)}
    {states : List AggregateState}
    (h : List.Forall₂ (fun (entry : Aggregation × AggregateState) state' =>
      Meaning.accumulated bindings entry.1 entry.2 [] = .ok state') entries states) :
    states = entries.map (·.2) := by
  induction h with
  | nil => rfl
  | cons hfirst _ ih =>
      cases hfirst
      exact congrArg (_ :: ·) ih

/-- The rows of a stretch go into the group in the making, and the rows behind begin a new
one. -/
theorem groupedFrom_some {key : List Value} {states states' : List AggregateState} {seen : Bool}
    {rows others : List Row} (hlength : states.length = aggregations.length)
    (hstates : List.Forall₂ (fun (entry : Aggregation × AggregateState) state' =>
      Meaning.accumulated bindings entry.1 entry.2
        (rows.takeWhile (Meaning.inGroup keys key)) = .ok state') (aggregations.zip states) states')
    (hothers : groupedFrom bindings keys aggregations none true
      (rows.dropWhile (Meaning.inGroup keys key)) = .ok others) :
    groupedFrom bindings keys aggregations (some ⟨key, states⟩) seen rows =
      .ok (groupRow keys aggregations ⟨key, states'⟩ :: others) := by
  induction rows generalizing states seen with
  | nil =>
      have hnone : lastGroupRow? keys aggregations ⟨none, 0, false, true⟩ = none := by
        simp [lastGroupRow?]
      rw [List.dropWhile_nil, groupedFrom, hnone] at hothers
      cases hothers
      rw [accumulated_nil hstates, List.map_snd_zip (Nat.le_of_eq hlength)]
      rfl
  | cons row rows ih =>
      simp only [groupedFrom]
      by_cases hsame : Meaning.inGroup keys key row = true
      · rw [List.takeWhile_cons_of_pos hsame] at hstates
        rw [List.dropWhile_cons_of_pos hsame] at hothers
        obtain ⟨states₁, haccumulate, hlength₁, hall⟩ :=
          accumulate_of_accumulated hlength hstates
        rw [if_pos (by exact hsame), haccumulate]
        exact ih hlength₁ hall hothers
      · rw [List.takeWhile_cons_of_neg hsame] at hstates
        rw [List.dropWhile_cons_of_neg hsame, groupedFrom] at hothers
        obtain ⟨states₁, haccumulate, hothers⟩ := bind_eq_ok_iff.1 hothers
        rw [if_neg (by exact hsame), haccumulate, accumulated_nil hstates,
          List.map_snd_zip (Nat.le_of_eq hlength)]
        simp only [bind, Except.bind, hothers]
        rfl

/-- The row of a group is its summary if all of its rows have been taken in. -/
theorem exists_of_summary {key : List Value} {rows : List Row} {out : Row}
    (h : Meaning.summary bindings keys aggregations key rows = .ok out) :
    ∃ states, out = groupRow keys aggregations ⟨key, states⟩ ∧
      List.Forall₂ (fun (entry : Aggregation × AggregateState) state' =>
        Meaning.accumulated bindings entry.1 entry.2 rows = .ok state')
        (aggregations.zip (openGroup aggregations key).aggregates) states := by
  obtain ⟨states, hstates, hout⟩ := bind_eq_ok_iff.1 h
  cases hout
  refine ⟨states, rfl, ?_⟩
  have hzip : aggregations.zip (openGroup aggregations key).aggregates =
      aggregations.map fun aggregation =>
        (aggregation, AggregateState.start aggregation.function) :=
    List.map_prod_left_eq_zip.symm
  rw [hzip, List.forall₂_map_left_iff]
  exact mapM_eq_ok_iff.1 hstates

/-- A new group has one state for every aggregate. -/
theorem length_openGroup (key : List Value) :
    (openGroup aggregations key).aggregates.length = aggregations.length :=
  List.length_map _

/-- The rows of all groups of a list are those of its stretches. -/
theorem groupedFrom_none {rows out : List Row}
    (h : (Meaning.stretches keys rows).mapM (fun stretch =>
      Meaning.summary bindings keys aggregations
        ((stretch.head?.map (Row.keyValues keys)).getD []) stretch) = .ok out) :
    groupedFrom bindings keys aggregations none true rows = .ok out := by
  induction rows using Meaning.stretches.induct keys generalizing out with
  | case1 =>
      rw [Meaning.stretches, List.mapM_nil] at h
      cases h
      simp [groupedFrom, lastGroupRow?]
  | case2 first rows ih =>
      rw [Meaning.stretches, List.mapM_cons] at h
      obtain ⟨row, hrow, htail⟩ := bind_eq_ok_iff.1 h
      obtain ⟨others, hothers, hout⟩ := bind_eq_ok_iff.1 htail
      cases hout
      obtain ⟨states, rfl, hstates⟩ := exists_of_summary hrow
      obtain ⟨states₁, haccumulate, hlength, hall⟩ :=
        accumulate_of_accumulated (length_openGroup _) hstates
      rw [groupedFrom]
      refine bind_eq_ok_iff.2 ⟨states₁, haccumulate, ?_⟩
      exact groupedFrom_some hlength hall (ih hothers)

/-- At the start of a grouping, the rows that remain are those of the step. -/
theorem groupedFrom_of_grouped {rows out : List Row}
    (h : Meaning.grouped bindings keys aggregations rows = .ok out) :
    groupedFrom bindings keys aggregations none false rows = .ok out := by
  unfold Meaning.grouped at h
  cases rows with
  | nil =>
      split at h
      · next hkeys =>
          obtain ⟨row, hrow, hout⟩ := bind_eq_ok_iff.1 h
          cases hout
          obtain ⟨states, rfl, hstates⟩ := exists_of_summary hrow
          rw [accumulated_nil hstates, List.map_snd_zip (Nat.le_of_eq (length_openGroup _))]
          simp [groupedFrom, lastGroupRow?, hkeys]
          rfl
      · next hkeys =>
          rw [Meaning.stretches, List.mapM_nil] at h
          cases h
          simp [groupedFrom, lastGroupRow?, hkeys]
  | cons first rows =>
      suffices hall : groupedFrom bindings keys aggregations none true (first :: rows) = .ok out by
        rwa [groupedFrom] at hall ⊢
      refine groupedFrom_none ?_
      split at h
      · next hkeys =>
          obtain rfl : keys = [] := List.isEmpty_iff.1 hkeys
          have htrue : ∀ row ∈ rows, Meaning.inGroup [] (first.keyValues []) row = true :=
            fun _ _ => rfl
          rw [Meaning.stretches, List.takeWhile_eq_self_iff.2 htrue,
            List.dropWhile_eq_nil_iff.2 htrue, Meaning.stretches, List.mapM_cons, List.mapM_nil]
          exact h
      · exact h

/-- At the start, the rows that remain are those of the step. -/
theorem rest_of_start {step : CompiledStep} {start : Step} {stage : Stage} {rows out : List Row}
    (hopen : Pipeline.openStage? bindings step start.startState = some (.ok stage))
    (h : step.rowsOf bindings rows = .ok out) : stage.rest bindings rows = .ok out := by
  cases step with
  | sort keys mode =>
      cases start <;> cases hopen
      cases mode <;> exact h
  | groupBy keys aggregations =>
      cases start <;> cases hopen
      exact groupedFrom_of_grouped h
  | distinct keys strategy =>
      cases start <;> cases hopen
      cases h
      cases strategy with
      | adjacent => exact congrArg Except.ok (adjacentFrom_eq keys [] rows)
      | hashed => exact congrArg Except.ok (hashedFrom_eq (by simp [DistinctState.start]) rows)
  | project fields =>
      cases start <;> cases hopen
      exact h
  | slice offset limit =>
      cases start <;> try cases hopen
      obtain ⟨o, ho, hlimit⟩ := bind_eq_ok_iff.1 h
      obtain ⟨l, hl, hout⟩ := bind_eq_ok_iff.1 hlimit
      cases hout
      obtain ⟨o', ho', hopen⟩ := bind_eq_ok_iff.1 (Option.some.inj hopen)
      obtain ⟨l', hl', hopen⟩ := bind_eq_ok_iff.1 hopen
      cases ho.symm.trans ho'
      cases hl.symm.trans hl'
      cases hopen
      have hoffset := (Pipeline.toNat_ofNat_bound ho).1
      have hlimit := (Pipeline.toNat_ofNat_bound hl).2
      rw [Option.map_map] at hlimit
      simp only [rest, SliceState.start, hoffset, Option.map_map]
      exact congrArg (fun limit => Except.ok (Meaning.sliced (o.getD 0) limit rows)) hlimit

end Stage

end ShardQuery
