import ShardQuery.Proofs.Except
import ShardQuery.Proofs.Metered
import ShardQuery.Pipeline

/-!
# What Stages Do

One law for every operation of a stage that has more than one way to end, so that no other
proof has to open it.

## Main results

* `Stage.ready_inv`, `Stage.accept_inv`: everything that a stage can do by itself, and with a row.
* `Pipeline.leaves_tickStages`: what every stage and the source keep is kept by a tick.
-/

namespace ShardQuery

/-! ### Remembered texts -/

/-- Inserting a text into those remembered adds this one and loses none of them. The order in which
they are kept serves their encoding only. -/
theorem mem_insertText {text other : String} {texts : List String} :
    other ∈ insertText text texts ↔ other = text ∨ other ∈ texts := by
  induction texts with
  | nil => simp [insertText]
  | cons t texts ih =>
      rw [insertText]
      split
      · exact List.mem_cons
      · split
        · next heq => simp [heq]
        · rw [List.mem_cons, ih, List.mem_cons, or_left_comm]

namespace Stage

/-! ### Sorting -/

/-- A sort with an empty buffer is at its end. -/
theorem popSorted_nil {state : SortState} (h : state.buffer = []) :
    popSorted state = .done state .exhausted := by
  simp only [popSorted, h]

/-- A sort with rows in its buffer sends the first of them on and gives back its memory. -/
theorem popSorted_cons {state : SortState} {row : Row} {rows : List Row}
    (h : state.buffer = row :: rows) :
    popSorted state =
      .after (.release row.sizeEstimate) ⟨rows, state.bytes - row.sizeEstimate, state.sorted⟩
        (.done ⟨rows, state.bytes - row.sizeEstimate, state.sorted⟩ (.row row)) := by
  simp only [popSorted, h]

/-! ### Without rows from below -/

/-- Whether a stage has no more rows to send on, whatever comes from below. -/
inductive AtEnd : Stage → Prop
  /-- A sort has sent all of its rows on. -/
  | sort {keys : List OrderKey} {state : SortState} : state.sorted = true → state.buffer = [] →
      AtEnd (.sort keys .materialize state)
  /-- A grouping is done. -/
  | groupBy {keys : List OrderKey} {aggregations : List Aggregation} {state : GroupState} :
      state.done = true → AtEnd (.groupBy keys aggregations state)
  /-- A slice has sent on as many rows as it may. -/
  | slice {offset most : UInt64} {state : SliceState} : most ≤ state.emitted →
      AtEnd (.slice offset (some most) state)

/-- What a stage can do by itself, before it asks the ones inside for a signal. -/
inductive Ready : Stage → Metered Stage Signal → Prop
  /-- It is at its end and says so. -/
  | ends {stage : Stage} : stage.AtEnd → Ready stage (.done stage .exhausted)
  /-- A sort sends its next row on. -/
  | pops {keys : List OrderKey} {state : SortState} {row : Row} {rows : List Row} :
      state.sorted = true → state.buffer = row :: rows →
      Ready (.sort keys .materialize state)
        (.after (.release row.sizeEstimate)
          (.sort keys .materialize ⟨rows, state.bytes - row.sizeEstimate, state.sorted⟩)
          (.done (.sort keys .materialize ⟨rows, state.bytes - row.sizeEstimate, state.sorted⟩)
            (.row row)))

/-- **Everything that a stage can do by itself**, and when. -/
theorem ready_inv {stage : Stage} {own : Metered Stage Signal} (h : stage.ready? = some own) :
    stage.Ready own := by
  cases stage with
  | sort keys mode state =>
      cases mode with
      | merge => cases h
      | materialize =>
          simp only [ready?] at h
          split at h <;> cases h
          next hsorted =>
            cases hbuffer : state.buffer with
            | nil =>
                rw [popSorted_nil hbuffer]
                exact .ends (.sort hsorted hbuffer)
            | cons row rows =>
                rw [popSorted_cons hbuffer]
                exact .pops hsorted hbuffer
  | groupBy keys aggregations state =>
      simp only [ready?] at h
      split at h <;> cases h
      next hdone => exact .ends (.groupBy hdone)
  | slice offset limit state =>
      simp only [ready?] at h
      split at h <;> cases h
      next hfull =>
        obtain ⟨most, rfl, hle⟩ := (Option.any_eq_true _ _).1 hfull
        exact .ends (.slice (of_decide_eq_true hle))
  | distinct | project => cases h

/-- A sort that waits for rows has not been sorted. -/
theorem sorted_eq_false {keys : List OrderKey} {state : SortState}
    (h : ready? (.sort keys .materialize state) = none) : state.sorted = false := by
  simpa [ready?] using h

/-- A grouping that waits for rows is not done. -/
theorem done_eq_false {keys : List OrderKey} {aggregations : List Aggregation}
    {state : GroupState} (h : ready? (.groupBy keys aggregations state) = none) :
    state.done = false := by
  simpa [ready?] using h

/-- A slice that waits for rows may still send some on. -/
theorem emitted_lt {offset most : UInt64} {state : SliceState}
    (h : ready? (.slice offset (some most) state) = none) : state.emitted < most := by
  simpa [ready?] using h

/-! ### Grouping -/

/-- The group of a state without a row: the row is on its way into it. -/
def taken (state : GroupState) : GroupState :=
  { state with current := none, seenInput := true }

/-- The signal for the row of a group that has been ended, if one has been. -/
def endedSignal : Option Row → Signal
  | some row => .row row
  | none => .again

/-- The state with a row taken into its group. -/
def regrouped (state : GroupState) (group : OpenGroup) : GroupState :=
  { taken state with current := some group, bytes := group.sizeEstimate }

/-- A grouping that is not done says nothing by itself. -/
theorem ready?_groupBy_of_undone {keys : List OrderKey} {aggregations : List Aggregation}
    {state : GroupState} (h : state.done = false) :
    ready? (.groupBy keys aggregations state) = none := by
  rw [ready?, if_neg (by simp [h])]

/-- How a row with given values under the keys goes into a group, and the row of the group that it
ends. -/
inductive GoesInto (keys : List OrderKey) (aggregations : List Aggregation) (key : List Value) :
    Option OpenGroup → OpenGroup → Option Row → Prop
  /-- The first row opens a group. -/
  | first : GoesInto keys aggregations key none (openGroup aggregations key) none
  /-- A row that is equal to the group in the making goes into it. -/
  | same {group : OpenGroup} : compareKeyValues keys key group.key = .eq →
      GoesInto keys aggregations key (some group) group none
  /-- A greater row ends the group in the making and opens another one. -/
  | next {group : OpenGroup} : compareKeyValues keys key group.key = .gt →
      GoesInto keys aggregations key (some group) (openGroup aggregations key)
        (some (groupRow keys aggregations group))

/-- The group that the grouping goes on with is the one before, if the key is the same, or a new
one, and the key has never become less. -/
theorem goesInto_of_groupFor {keys : List OrderKey} {aggregations : List Aggregation}
    {key : List Value} {current : Option OpenGroup} {group : OpenGroup} {ended : Option Row}
    (h : groupFor keys aggregations key current = .ok (group, ended)) :
    GoesInto keys aggregations key current group ended := by
  unfold groupFor at h
  split at h
  · cases h
    exact .first
  · split at h
    · next heq =>
        cases h
        exact .same heq
    · next hgt =>
        cases h
        exact .next hgt
    · cases h

/-- A row that has no group is less than the group in the making. -/
theorem unsorted_of_groupFor {keys : List OrderKey} {aggregations : List Aggregation}
    {key : List Value} {current : Option OpenGroup} {error : QueryError}
    (h : groupFor keys aggregations key current = .error error) :
    error = .unsortedGroups (keys.map (·.field)) ∧
      ∃ group, current = some group ∧ compareKeyValues keys key group.key = .lt := by
  unfold groupFor at h
  split at h
  · cases h
  · next group =>
      split at h <;> cases h
      next hlt => exact ⟨rfl, group, rfl, hlt⟩

/-- A row is taken into its group if the group can be told and the functions accept it. -/
theorem acceptGrouped_eq {keys : List OrderKey} {aggregations : List Aggregation}
    {bindings : Bindings} {row : Row} {state : GroupState} {group : OpenGroup}
    {ended : Option Row} {aggregates : List AggregateState}
    (hgroup : groupFor keys aggregations (row.keyValues keys) state.current = .ok (group, ended))
    (haggregates : accumulate row bindings aggregations group.aggregates = .ok aggregates) :
    acceptGrouped keys aggregations bindings row state =
      .after (recharge state.bytes (OpenGroup.sizeEstimate ⟨group.key, aggregates⟩)) (taken state)
        (.done (regrouped state ⟨group.key, aggregates⟩) (endedSignal ended)) := by
  simp only [acceptGrouped, hgroup, haggregates]
  cases ended <;> rfl

/-- A row whose group cannot be told leaves the state without one. -/
theorem acceptGrouped_of_unsorted {keys : List OrderKey} {aggregations : List Aggregation}
    (bindings : Bindings) {row : Row} {state : GroupState} {error : QueryError}
    (hgroup : groupFor keys aggregations (row.keyValues keys) state.current = .error error) :
    acceptGrouped keys aggregations bindings row state = .fail (taken state) error := by
  simp only [acceptGrouped, hgroup, taken]

/-- So does a row that a function does not accept. -/
theorem acceptGrouped_of_refused {keys : List OrderKey} {aggregations : List Aggregation}
    {bindings : Bindings} {row : Row} {state : GroupState} {group : OpenGroup}
    {ended : Option Row} {error : QueryError}
    (hgroup : groupFor keys aggregations (row.keyValues keys) state.current = .ok (group, ended))
    (haggregates : accumulate row bindings aggregations group.aggregates = .error error) :
    acceptGrouped keys aggregations bindings row state = .fail (taken state) error := by
  simp only [acceptGrouped, hgroup, haggregates, taken]

/-- A row is taken into a group, or it leaves the state without one. -/
theorem acceptGrouped_cases (keys : List OrderKey) (aggregations : List Aggregation)
    (bindings : Bindings) (row : Row) (state : GroupState) :
    (∃ group ended aggregates,
      groupFor keys aggregations (row.keyValues keys) state.current = .ok (group, ended) ∧
      accumulate row bindings aggregations group.aggregates = .ok aggregates) ∨
    ∃ error, acceptGrouped keys aggregations bindings row state = .fail (taken state) error := by
  cases hgroup : groupFor keys aggregations (row.keyValues keys) state.current with
  | error error => exact .inr ⟨error, acceptGrouped_of_unsorted bindings hgroup⟩
  | ok found =>
      obtain ⟨group, ended⟩ := found
      cases haggregates : accumulate row bindings aggregations group.aggregates with
      | error error => exact .inr ⟨error, acceptGrouped_of_refused hgroup haggregates⟩
      | ok aggregates => exact .inl ⟨group, ended, aggregates, rfl, haggregates⟩

/-! ### Rows from below -/

/-- What a stage can do with a row that it gets from inside. Two of the cases may fail: a grouping
over its keys or its aggregates, and a projection over its formulas. -/
inductive Accepted (bindings : Bindings) (row : Row) : Stage → Metered Stage Signal → Prop
  /-- A sort that merges passes the row on. -/
  | merged {keys : List OrderKey} {state : SortState} :
      Accepted bindings row (.sort keys .merge state) (.done (.sort keys .merge state) (.row row))
  /-- Any other sort keeps it. -/
  | kept {keys : List OrderKey} {state : SortState} :
      Accepted bindings row (.sort keys .materialize state)
        (.after (.reserve row.sizeEstimate NodeKind.sort.name) (.sort keys .materialize state)
          (.done (.sort keys .materialize
            ⟨state.buffer ++ [row], state.bytes + row.sizeEstimate, state.sorted⟩) .again))
  /-- A grouping refuses it as out of order. -/
  | unsorted {keys : List OrderKey} {aggregations : List Aggregation} {state : GroupState}
      {error : QueryError} :
      groupFor keys aggregations (row.keyValues keys) state.current = .error error →
      Accepted bindings row (.groupBy keys aggregations state)
        (.fail (.groupBy keys aggregations (taken state)) error)
  /-- A function of a grouping fails with it. -/
  | refused {keys : List OrderKey} {aggregations : List Aggregation} {state : GroupState}
      {group : OpenGroup} {ended : Option Row} {error : QueryError} :
      groupFor keys aggregations (row.keyValues keys) state.current = .ok (group, ended) →
      accumulate row bindings aggregations group.aggregates = .error error →
      Accepted bindings row (.groupBy keys aggregations state)
        (.fail (.groupBy keys aggregations (taken state)) error)
  /-- A grouping takes it into its group. -/
  | grouped {keys : List OrderKey} {aggregations : List Aggregation} {state : GroupState}
      {group : OpenGroup} {ended : Option Row} {aggregates : List AggregateState} :
      groupFor keys aggregations (row.keyValues keys) state.current = .ok (group, ended) →
      accumulate row bindings aggregations group.aggregates = .ok aggregates →
      Accepted bindings row (.groupBy keys aggregations state)
        (.after (recharge state.bytes (OpenGroup.sizeEstimate ⟨group.key, aggregates⟩))
          (.groupBy keys aggregations (taken state))
          (.done (.groupBy keys aggregations (regrouped state ⟨group.key, aggregates⟩))
            (endedSignal ended)))
  /-- A row with the key of the latest one is dropped. -/
  | same {keys : List String} {state : DistinctState} :
      state.last.any (sameKey · (distinctKey keys row)) = true →
      Accepted bindings row (.distinct keys .adjacent state)
        (.done (.distinct keys .adjacent state) .again)
  /-- A row with another key is passed on, and the key takes the place of the latest one. -/
  | changed {keys : List String} {state : DistinctState} :
      ¬ state.last.any (sameKey · (distinctKey keys row)) = true →
      Accepted bindings row (.distinct keys .adjacent state)
        (.after (.release state.bytes) (.distinct keys .adjacent ⟨state.last, state.seen, 0⟩) <|
          .after (.reserve (Value.itemsSize (distinctKey keys row)) NodeKind.distinct.name)
            (.distinct keys .adjacent ⟨state.last, state.seen, 0⟩) <|
            .done (.distinct keys .adjacent
              ⟨some (distinctKey keys row), state.seen, Value.itemsSize (distinctKey keys row)⟩)
              (.row row))
  /-- A row with a key that has been seen is dropped. -/
  | seen {keys : List String} {state : DistinctState} :
      state.seen.contains (keyText (distinctKey keys row)) = true →
      Accepted bindings row (.distinct keys .hashed state)
        (.done (.distinct keys .hashed state) .again)
  /-- A row with any other key is passed on, and the key is kept. -/
  | unseen {keys : List String} {state : DistinctState} :
      ¬ state.seen.contains (keyText (distinctKey keys row)) = true →
      Accepted bindings row (.distinct keys .hashed state)
        (.after
          (.reserve ((keyText (distinctKey keys row)).utf8ByteSize + keyOverhead)
            NodeKind.distinct.name)
          (.distinct keys .hashed state) <|
          .done (.distinct keys .hashed
            ⟨state.last, insertText (keyText (distinctKey keys row)) state.seen,
              state.bytes + ((keyText (distinctKey keys row)).utf8ByteSize + keyOverhead)⟩)
            (.row row))
  /-- The fields of a row are projected. -/
  | projected {fields : List (String × Formula)} {values : List (String × Value)} :
      projectFields row bindings fields = .ok values →
      Accepted bindings row (.project fields)
        (.done (.project fields) (.row (Row.ofList values)))
  /-- A formula fails with the row. -/
  | unprojected {fields : List (String × Formula)} {error : QueryError} :
      projectFields row bindings fields = .error error →
      Accepted bindings row (.project fields) (.fail (.project fields) error)
  /-- A row before the slice is dropped. -/
  | skipped {offset : UInt64} {limit : Option UInt64} {state : SliceState} :
      state.skipped < offset →
      Accepted bindings row (.slice offset limit state)
        (.done (.slice offset limit ⟨state.skipped + 1, state.emitted⟩) .again)
  /-- A row in the slice is passed on. -/
  | sliced {offset : UInt64} {limit : Option UInt64} {state : SliceState} :
      ¬ state.skipped < offset →
      Accepted bindings row (.slice offset limit state)
        (.done (.slice offset limit ⟨state.skipped, state.emitted + 1⟩) (.row row))

/-- **Everything that a stage can do with a row**, and when. -/
theorem accept_inv {bindings : Bindings} {row : Row} {stage : Stage} {own : Metered Stage Signal}
    (h : stage.accept bindings row = own) : Accepted bindings row stage own := by
  subst h
  cases stage with
  | sort keys mode state =>
      cases mode with
      | merge => exact .merged
      | materialize => exact .kept
  | groupBy keys aggregations state =>
      rw [accept]
      cases hgroup : groupFor keys aggregations (row.keyValues keys) state.current with
      | error error =>
          rw [acceptGrouped_of_unsorted bindings hgroup]
          exact .unsorted hgroup
      | ok found =>
          obtain ⟨group, ended⟩ := found
          cases haggregates : accumulate row bindings aggregations group.aggregates with
          | error error =>
              rw [acceptGrouped_of_refused hgroup haggregates]
              exact .refused hgroup haggregates
          | ok aggregates =>
              rw [acceptGrouped_eq hgroup haggregates]
              exact .grouped hgroup haggregates
  | distinct keys strategy state =>
      cases strategy with
      | adjacent =>
          rw [accept, acceptAdjacent]
          split
          · next hsame => exact .same hsame
          · next hchanged => exact .changed hchanged
      | hashed =>
          simp only [accept, acceptHashed]
          split
          · next hseen => exact .seen hseen
          · next hunseen => exact .unseen hunseen
  | project fields =>
      simp only [accept]
      split
      · next values hvalues => exact .projected hvalues
      · next error hfails => exact .unprojected hfails
  | slice offset limit state =>
      simp only [accept, acceptSliced]
      split
      · next hskipped => exact .skipped hskipped
      · next hsliced => exact .sliced hsliced

/-! ### Requests -/

/-- A stage by itself never wants to ask shards. -/
theorem ne_fetch_of_ready {stage : Stage} {own : Metered Stage Signal}
    (hready : stage.ready? = some own) (wanted : List Nat) : own.result ≠ .ok (.fetch wanted) := by
  cases ready_inv hready <;> nofun

/-- A stage does not want to ask shards because of a row. -/
theorem ne_fetch_of_accept (bindings : Bindings) (row : Row) (stage : Stage)
    (wanted : List Nat) : (stage.accept bindings row).result ≠ .ok (.fetch wanted) := by
  generalize hown : stage.accept bindings row = own
  cases accept_inv hown with
  | @grouped keys aggregations state group ended => cases ended <;> nofun
  | merged | kept | unsorted | refused | same | changed | seen | unseen | projected | unprojected
  | skipped | sliced => nofun

/-- A stage does not want to ask shards because the rows are at their end. -/
theorem ne_fetch_of_finish (stage : Stage) (wanted : List Nat) :
    stage.finish.result ≠ .ok (.fetch wanted) := by
  cases stage with
  | sort keys mode state => cases mode <;> nofun
  | groupBy keys aggregations state =>
      simp only [finish, Metered.within_result, finishGroups, Metered.after_result,
        Metered.done_result]
      split <;> nofun
  | distinct | project | slice => nofun

/-- A stage only passes on that shards are to be asked. -/
theorem eq_fetch_of_pass {bindings : Bindings} {below : Signal} {stage : Stage}
    {wanted : List Nat}
    (h : (Pipeline.pass bindings below stage).result = .ok (.fetch wanted)) :
    below = .fetch wanted := by
  cases below with
  | row row => exact absurd h (ne_fetch_of_accept bindings row stage wanted)
  | exhausted => exact absurd h (ne_fetch_of_finish stage wanted)
  | fetch => exact Except.ok.inj h
  | again => cases h

/-! ### Failures -/

/-- No stage fails at the end of the rows. -/
theorem ne_error_of_finish (stage : Stage) (error : QueryError) :
    stage.finish.result ≠ .error error := by
  cases stage with
  | sort keys mode state => cases mode <;> nofun
  | groupBy | distinct | project | slice => nofun

/-- No stage fails by itself: what it does without input only hands out what it holds. -/
theorem ne_error_of_ready {stage : Stage} {own : Metered Stage Signal}
    (h : stage.ready? = some own) (error : QueryError) : own.result ≠ .error error := by
  cases ready_inv h <;> nofun

end Stage

namespace Pipeline

variable {bindings : Bindings}

/-! ### Bounds -/

/-- The bounds of slices are words, as a formula gives no other integers. -/
theorem bound_lt {name : String} {formula : Option Formula} {n : Nat}
    (h : bound bindings name formula = .ok (some n)) : n < UInt64.size := by
  unfold bound at h
  split at h
  · cases h
  · obtain ⟨value, -, h⟩ := bind_eq_ok_iff.1 h
    split at h
    · next i _ =>
        split at h <;> cases h
        have hhigh : i.toInt < 9223372036854775808 := i.toInt_lt
        rw [UInt64.size]
        omega
    · cases h

/-- The bounds of slices are kept as words, without any loss. -/
theorem toNat_ofNat_bound {name : String} {formula : Option Formula} {most : Option Nat}
    (h : bound bindings name formula = .ok most) :
    (UInt64.ofNat (most.getD 0)).toNat = most.getD 0 ∧
      (most.map UInt64.ofNat).map UInt64.toNat = most := by
  cases most with
  | none => exact ⟨rfl, rfl⟩
  | some n =>
      have hlt := bound_lt h
      exact ⟨UInt64.toNat_ofNat_of_lt' hlt, congrArg some (UInt64.toNat_ofNat_of_lt' hlt)⟩

/-! ### Ticks of stages -/

/-- A stage over others does by itself what it always does, or it merges and is misplaced. -/
theorem readyOver?_eq_some {inner : List Stage} {stage : Stage} {own : Metered Stage Signal}
    (h : readyOver? inner stage = some own) :
    stage.ready? = some own ∨ ∃ kind, own = .fail stage (.mergeInput kind) := by
  unfold readyOver? at h
  split at h
  · cases h
    exact .inr ⟨_, rfl⟩
  · exact .inl h

/-- A stage that has to wait for those inside has nothing to do by itself. -/
theorem ready?_of_readyOver? {inner : List Stage} {stage : Stage}
    (h : readyOver? inner stage = none) : stage.ready? = none := by
  unfold readyOver? at h
  split at h
  · cases h
  · exact h

/-- A stage over the source does by itself what it always does. -/
@[simp] theorem readyOver?_nil (stage : Stage) : readyOver? [] stage = stage.ready? := by
  unfold readyOver?
  split
  · next hnil => cases hnil
  · rfl

/-- A grouping does not care what is inside of it. Only a merging sort does, which needs the source
right below it. -/
@[simp] theorem readyOver?_groupBy (inner : List Stage) (keys : List OrderKey)
    (aggregations : List Aggregation) (state : GroupState) :
    readyOver? inner (.groupBy keys aggregations state) =
      Stage.ready? (.groupBy keys aggregations state) := rfl

/-- What a stage over others does by itself and can be seen of. -/
theorem ready?_of_result {inner : List Stage} {stage : Stage} {own : Metered Stage Signal}
    {signal : Signal} (h : readyOver? inner stage = some own) (hsignal : own.result = .ok signal) :
    stage.ready? = some own := by
  obtain hready | ⟨kind, rfl⟩ := readyOver?_eq_some h
  · exact hready
  · cases hsignal

/-- A tick in which the outermost stage acts by itself leaves everything inside as it is. -/
theorem tickStages_of_ready {source : Source} {stage : Stage} {inner : List Stage}
    {own : Metered Stage Signal} (h : readyOver? inner stage = some own) :
    tickStages bindings source (stage :: inner) =
      own.within fun stage => ⟨stage :: inner, source⟩ := by
  rw [tickStages, h]

/-- A failure below is one of the stages above. -/
theorem tickStages_of_error {source : Source} {stage : Stage} {inner : List Stage}
    {error : QueryError} (hready : readyOver? inner stage = none)
    (h : (tickStages bindings source inner).result = .error error) :
    (tickStages bindings source (stage :: inner)).result = .error error ∧
      (tickStages bindings source (stage :: inner)).state =
        (tickStages bindings source inner).state.wrap stage := by
  rw [tickStages, hready]
  simp only
  rw [Metered.andThen_of_error (by rw [Metered.within_result, h])]
  exact ⟨rfl, rfl⟩

/-- A signal from below is passed through a stage. -/
theorem tickStages_of_ok {source : Source} {stage : Stage} {inner : List Stage}
    {signal : Signal} (hready : readyOver? inner stage = none)
    (h : (tickStages bindings source inner).result = .ok signal) :
    (tickStages bindings source (stage :: inner)).result = (pass bindings signal stage).result ∧
      (tickStages bindings source (stage :: inner)).state =
        (tickStages bindings source inner).state.wrap (pass bindings signal stage).state := by
  rw [tickStages, hready]
  simp only
  rw [Metered.andThen_of_ok (by rw [Metered.within_result, h])]
  exact ⟨rfl, rfl⟩

/-- What one tick of a stage over others can come to: the pipeline behind it and its result. -/
inductive Ticked (bindings : Bindings) (source : Source) (stage : Stage) (inner : List Stage)
    (next : Pipeline) : Except QueryError Signal → Prop
  /-- The stage acts by itself, and everything inside stays as it is. -/
  | own {own : Metered Stage Signal} {result : Except QueryError Signal} :
      readyOver? inner stage = some own → own.result = result →
      next = ⟨own.state :: inner, source⟩ → Ticked bindings source stage inner next result
  /-- Something inside fails, and the stage stays as it is. -/
  | failed {error : QueryError} :
      readyOver? inner stage = none → (tickStages bindings source inner).result = .error error →
      next = (tickStages bindings source inner).state.wrap stage →
      Ticked bindings source stage inner next (.error error)
  /-- The signal from inside is passed through the stage. -/
  | passed {signal : Signal} {result : Except QueryError Signal} :
      readyOver? inner stage = none → (tickStages bindings source inner).result = .ok signal →
      (pass bindings signal stage).result = result →
      next = (tickStages bindings source inner).state.wrap (pass bindings signal stage).state →
      Ticked bindings source stage inner next result

/-- **Everything that one tick of a stage over others can come to.** -/
theorem tickStages_inv {source : Source} {stage : Stage} {inner : List Stage}
    {result : Except QueryError Signal}
    (h : (tickStages bindings source (stage :: inner)).result = result) :
    Ticked bindings source stage inner (tickStages bindings source (stage :: inner)).state
      result := by
  cases hready : readyOver? inner stage with
  | some own =>
      rw [tickStages_of_ready hready] at h ⊢
      exact .own hready h rfl
  | none =>
      cases hbelow : (tickStages bindings source inner).result with
      | error error =>
          obtain ⟨hresult, hstate⟩ := tickStages_of_error hready hbelow
          obtain rfl := hresult.symm.trans h
          exact .failed hready hbelow hstate
      | ok signal =>
          obtain ⟨hresult, hstate⟩ := tickStages_of_ok hready hbelow
          exact .passed hready hbelow (hresult.symm.trans h) hstate

/-- What holds of stages, of the source and of signals, and is kept whatever a single one does, is
kept by a tick, also if that fails. -/
theorem leaves_tickStages {p : Stage → Prop} {q : Signal → Prop} {r : Source → Prop}
    (hready : ∀ {stage : Stage} {own : Metered Stage Signal}, p stage →
      stage.ready? = some own → own.Leaves p q)
    (hpass : ∀ {stage : Stage} {signal : Signal}, p stage → q signal →
      (pass bindings signal stage).Leaves p q)
    {source : Source} (hsource : r source) (hnext : source.next.Leaves r q) {stages : List Stage}
    (hstages : ∀ stage ∈ stages, p stage) :
    (tickStages bindings source stages).Leaves
      (fun pipeline => (∀ stage ∈ pipeline.stages, p stage) ∧ r pipeline.source) q := by
  induction stages with
  | nil => exact ⟨⟨List.forall_mem_nil _, hnext.state⟩, hnext.result⟩
  | cons stage inner ih =>
      obtain ⟨hstage, hinner⟩ := List.forall_mem_cons.1 hstages
      generalize hresult : (tickStages bindings source (stage :: inner)).result = result
      cases tickStages_inv hresult with
      | @own own _ hover hown hnext =>
          have hkept : own.Leaves p q := by
            obtain hready' | ⟨kind, rfl⟩ := readyOver?_eq_some hover
            · exact hready hstage hready'
            · exact Metered.leaves_fail hstage _
          refine ⟨hnext ▸ ⟨List.forall_mem_cons.2 ⟨hkept.state, hinner⟩, hsource⟩, ?_⟩
          exact fun sent hsent => hkept.result sent (hown.trans (hresult.symm.trans hsent))
      | failed hover hbelow hnext =>
          obtain ⟨⟨hmoved, hread⟩, -⟩ := ih hinner
          refine ⟨hnext ▸ ⟨List.forall_mem_cons.2 ⟨hstage, hmoved⟩, hread⟩, fun sent hsent => ?_⟩
          cases hresult.symm.trans hsent
      | passed hover hbelow hpassed hnext =>
          obtain ⟨⟨hmoved, hread⟩, hsignal⟩ := ih hinner
          have hkept := hpass hstage (hsignal _ hbelow)
          refine ⟨hnext ▸ ⟨List.forall_mem_cons.2 ⟨hkept.state, hmoved⟩, hread⟩, ?_⟩
          exact fun sent hsent => hkept.result sent (hpassed.trans (hresult.symm.trans hsent))

/-- What the stages below do to the account comes before what a stage does with their signal. -/
theorem events_tickStages_of_ok {source : Source} {stage : Stage} {inner : List Stage}
    {signal : Signal} (hready : readyOver? inner stage = none)
    (h : (tickStages bindings source inner).result = .ok signal) :
    (tickStages bindings source (stage :: inner)).events =
      (tickStages bindings source inner).events.map (fun e => (e.1, e.2.wrap stage)) ++
        (pass bindings signal stage).events.map
          fun e => (e.1, (tickStages bindings source inner).state.wrap e.2) := by
  rw [tickStages, hready]
  simp only
  rw [Metered.andThen_of_ok (by rw [Metered.within_result, h])]
  rfl

end Pipeline

end ShardQuery
