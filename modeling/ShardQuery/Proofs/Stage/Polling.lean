import ShardQuery.Proofs.Memory.Contents
import ShardQuery.Proofs.Memory.Room
import ShardQuery.Proofs.Trace

/-!
# Stages Polled to Their End

A stage by itself is polled over the signals of its input until it has no more rows or fails. Its
input may interrupt itself as often as it likes: a signal without a row goes through the stage
as it is, and whatever the stage has in the making stays there until the next row.

A grouping that is given enough memory sends on what its rows alone determine.

## Main results

* `Stage.PolledToEnd.unique`: polling comes to one end only.
* `Stage.tickStages_eq_poll`: a tick of a pipeline polls its outermost stage.
* `Stage.polledToEnd_groupBy`: a grouping comes to the end that belongs to its rows.
-/

namespace ShardQuery

namespace Stage

variable (bindings : Bindings)

/-- One poll of a stage over an input, and what is left of the input. A stage that has something to
say by itself takes no signal; an input without signals is at its end. -/
def poll (stage : Stage) (input : List Signal) : Metered Stage Signal × List Signal :=
  match stage.ready? with
  | some own => (own, input)
  | none => (Pipeline.pass bindings (input.headD .exhausted) stage, input.tail)

/-- The rows that a stage sends on when it is polled over an input until it has no more rows or
fails, and how that ends. Every poll is booked on the account that the one before has left. -/
inductive PolledToEnd :
    Memory → Stage → List Signal → List Row → Except QueryError Unit → Prop
  /-- A poll fails. -/
  | failed {memory m : Memory} {stage next : Stage} {input : List Signal} {error : QueryError} :
      (poll bindings stage input).1.run memory = (m, next, .error error) →
      PolledToEnd memory stage input [] (.error error)
  /-- There are no more rows. -/
  | exhausted {memory m : Memory} {stage next : Stage} {input : List Signal} :
      (poll bindings stage input).1.run memory = (m, next, .ok .exhausted) →
      PolledToEnd memory stage input [] (.ok ())
  /-- The stage goes on, with or without a row. -/
  | goesOn {memory m : Memory} {stage next : Stage} {input : List Signal} {signal : Signal}
      {rows : List Row} {result : Except QueryError Unit} :
      (poll bindings stage input).1.run memory = (m, next, .ok signal) → signal ≠ .exhausted →
      PolledToEnd m next (poll bindings stage input).2 rows result →
      PolledToEnd memory stage input (signal.row?.toList ++ rows) result

/-- What a grouping sends on, from a state on, and how that ends, if the account refuses nothing. -/
def groupsOf (keys : List OrderKey) (aggregations : List Aggregation) :
    GroupState → List Row → List Row × Except QueryError Unit
  | state, [] => ((lastGroupRow? keys aggregations state).toList, .ok ())
  | state, row :: rows =>
    let accepted := acceptGrouped keys aggregations bindings row state
    match accepted.result with
    | .error error => ([], .error error)
    | .ok signal =>
      let (sent, result) := groupsOf keys aggregations accepted.state rows
      (signal.row?.toList ++ sent, result)

variable {bindings}

/-! ### Polls -/

/-- Polling a stage that can act by itself uses up none of its input. -/
theorem poll_of_ready {stage : Stage} {own : Metered Stage Signal} (h : stage.ready? = some own)
    (input : List Signal) : poll bindings stage input = (own, input) := by
  rw [poll, h]

/-- Polling any other stage passes the next signal of its input on to it, or the end where there is
none. -/
theorem poll_of_unready {stage : Stage} (h : stage.ready? = none) (input : List Signal) :
    poll bindings stage input =
      (Pipeline.pass bindings (input.headD .exhausted) stage, input.tail) := by
  rw [poll, h]

/-- Polling comes to one end only, with the same rows sent and the same result. -/
theorem PolledToEnd.unique {memory : Memory} {stage : Stage} {input : List Signal}
    {sent sent' : List Row} {result result' : Except QueryError Unit}
    (h : PolledToEnd bindings memory stage input sent result)
    (h' : PolledToEnd bindings memory stage input sent' result') :
    sent' = sent ∧ result' = result := by
  induction h generalizing sent' result' with
  | failed hrun =>
      cases h' with
      | failed hrun' =>
          cases hrun.symm.trans hrun'
          exact ⟨rfl, rfl⟩
      | exhausted hrun' | goesOn hrun' => cases hrun.symm.trans hrun'
  | exhausted hrun =>
      cases h' with
      | failed hrun' => cases hrun.symm.trans hrun'
      | exhausted hrun' => exact ⟨rfl, rfl⟩
      | goesOn hrun' hsignal =>
          cases hrun.symm.trans hrun'
          exact absurd rfl hsignal
  | goesOn hrun hsignal _ ih =>
      cases h' with
      | failed hrun' => cases hrun.symm.trans hrun'
      | exhausted hrun' =>
          cases hrun.symm.trans hrun'
          exact absurd rfl hsignal
      | goesOn hrun' _ hrest =>
          cases hrun.symm.trans hrun'
          obtain ⟨rfl, rfl⟩ := ih hrest
          exact ⟨rfl, rfl⟩

/-- An interruption of the input goes through a stage and leaves it as it is. -/
theorem PolledToEnd.of_interrupted {memory : Memory} {stage : Stage} {input : List Signal}
    {sent : List Row} {result : Except QueryError Unit} {signal : Signal}
    (h : PolledToEnd bindings memory stage input sent result) (hsignal : signal ≠ .exhausted)
    (hrow : signal.row? = none) (hready : stage.ready? = none) :
    PolledToEnd bindings memory stage (signal :: input) sent result := by
  have hpoll : poll bindings stage (signal :: input) = (.done stage signal, input) := by
    rw [poll_of_unready hready]
    cases signal with
    | row row => cases hrow
    | exhausted => exact absurd rfl hsignal
    | fetch | again => rfl
  have hrun : (poll bindings stage (signal :: input)).1.run memory =
      (memory, stage, .ok signal) := by
    rw [hpoll]
    rfl
  have hgoesOn : PolledToEnd bindings memory stage (signal :: input)
      (signal.row?.toList ++ sent) result :=
    .goesOn hrun hsignal (by rw [hpoll]; exact h)
  rwa [hrow] at hgoesOn

/-- A tick of a pipeline polls its outermost stage over what the stages below say. -/
theorem tickStages_eq_poll {source : Source} {stage : Stage} {inner : List Stage}
    {signal : Signal} (hown : Pipeline.readyOver? inner stage = stage.ready?)
    (hbelow : (Pipeline.tickStages bindings source inner).result = .ok signal)
    (input : List Signal) :
    (Pipeline.tickStages bindings source (stage :: inner)).result =
        (poll bindings stage (signal :: input)).1.result ∧
      ∃ below : Pipeline, (Pipeline.tickStages bindings source (stage :: inner)).state =
        below.wrap (poll bindings stage (signal :: input)).1.state := by
  cases hready : stage.ready? with
  | some own =>
      rw [Pipeline.tickStages_of_ready (hown.trans hready), poll_of_ready hready]
      exact ⟨rfl, ⟨inner, source⟩, rfl⟩
  | none =>
      rw [poll_of_unready hready]
      obtain ⟨hresult, hstate⟩ := Pipeline.tickStages_of_ok (hown.trans hready) hbelow
      exact ⟨hresult, _, hstate⟩

/-- An account with room for what a stage holds after a row books the row. -/
theorem run_accept_of_room {row : Row} {stage : Stage} {memory : Memory} {base : Nat}
    (hevents : ReleasesFirst (accept bindings row stage).events)
    (hused : memory.used = base + stage.trackedBytes) (hcounted : memory.limit ≤ maxAmount)
    (hroom : base + (accept bindings row stage).state.trackedBytes ≤ memory.limit) :
    ∃ m : Memory, m.limit = memory.limit ∧
      m.used = base + (accept bindings row stage).state.trackedBytes ∧
      (accept bindings row stage).run memory =
        (m, (accept bindings row stage).state, (accept bindings row stage).result) := by
  have hbalanced : (accept bindings row stage).Balanced (fun stage => base + stage.trackedBytes)
      memory.used :=
    hused ▸ (balanced_accept bindings row stage).add base
  obtain ⟨peak, hrun⟩ := Metered.run_of_room hbalanced hevents hcounted hroom
  exact ⟨⟨memory.limit, _, peak⟩, rfl, rfl, hrun⟩

/-! ### Groupings -/

section

variable {keys : List OrderKey} {aggregations : List Aggregation}

/-- A grouping that takes a row does not come to its end thereby. -/
theorem undone_of_acceptGrouped {row : Row} {state : GroupState} {signal : Signal}
    (hdone : state.done = false)
    (h : (acceptGrouped keys aggregations bindings row state).result = .ok signal) :
    signal ≠ .exhausted ∧
      (acceptGrouped keys aggregations bindings row state).state.done = false := by
  obtain ⟨group, ended, aggregates, hgroup, haggregates⟩ | ⟨error, hfail⟩ :=
    acceptGrouped_cases keys aggregations bindings row state
  · rw [acceptGrouped_eq hgroup haggregates] at h ⊢
    cases h
    exact ⟨by cases ended <;> nofun, hdone⟩
  · rw [hfail] at h
    cases h

/-- An account with room for the group that a row goes into books the row. -/
theorem run_accept_groupBy {row : Row} {state : GroupState} {memory : Memory} {base : Nat}
    (hused : memory.used = base + state.bytes) (hcounted : memory.limit ≤ maxAmount)
    (hroom : base + (acceptGrouped keys aggregations bindings row state).state.bytes ≤
      memory.limit) :
    ∃ m : Memory, m.limit = memory.limit ∧
      m.used = base + (acceptGrouped keys aggregations bindings row state).state.bytes ∧
      (accept bindings row (.groupBy keys aggregations state)).run memory =
        (m, .groupBy keys aggregations (acceptGrouped keys aggregations bindings row state).state,
          (acceptGrouped keys aggregations bindings row state).result) := by
  have hevents : ReleasesFirst (accept bindings row (.groupBy keys aggregations state)).events := by
    obtain ⟨group, ended, aggregates, hgroup, haggregates⟩ | ⟨error, hfail⟩ :=
      acceptGrouped_cases keys aggregations bindings row state
    · rw [accept, acceptGrouped_eq hgroup haggregates]
      exact List.pairwise_singleton _ _
    · rw [accept, hfail]
      exact List.Pairwise.nil
  exact run_accept_of_room hevents hused hcounted hroom

/-- The end of the rows is booked by any account. -/
theorem run_finish_groupBy (keys : List OrderKey) (aggregations : List Aggregation)
    (state : GroupState) (memory : Memory) :
    (finish (.groupBy keys aggregations state)).run memory =
      (memory.release state.bytes,
        .groupBy keys aggregations (finishGroups keys aggregations state).state,
        .ok (match lastGroupRow? keys aggregations state with
          | some row => .row row
          | none => .exhausted)) :=
  rfl

/-- At the end of its input, a grouping sends on its last group. -/
theorem polledToEnd_of_no_input {state : GroupState} (hdone : state.done = false)
    (memory : Memory) :
    PolledToEnd bindings memory (.groupBy keys aggregations state) []
      (lastGroupRow? keys aggregations state).toList (.ok ()) := by
  have hpoll : poll bindings (.groupBy keys aggregations state) [] =
      (finish (.groupBy keys aggregations state), []) :=
    poll_of_unready (ready?_groupBy_of_undone hdone) []
  have hrun : (poll bindings (.groupBy keys aggregations state) []).1.run memory = _ :=
    (congrArg (fun polled => polled.1.run memory) hpoll).trans
      (run_finish_groupBy keys aggregations state memory)
  cases hlast : lastGroupRow? keys aggregations state with
  | none =>
      rw [hlast] at hrun
      exact .exhausted hrun
  | some row =>
      rw [hlast] at hrun
      -- Once its last group has been sent on, the grouping is done, and says so.
      have hend : PolledToEnd bindings (memory.release state.bytes)
          (.groupBy keys aggregations (finishGroups keys aggregations state).state) [] []
            (.ok ()) :=
        .exhausted (m := memory.release state.bytes) rfl
      exact .goesOn hrun nofun (by rw [hpoll]; exact hend)

/-- **A grouping that is given enough memory comes to the end that belongs to its rows**, however
often its input interrupts itself. -/
theorem polledToEnd_groupBy {input : List Signal} (hinput : Signal.exhausted ∉ input)
    {state : GroupState} (hdone : state.done = false) :
    ∃ enough, ∀ {memory : Memory} {base : Nat}, memory.used = base + state.bytes →
      base + enough ≤ memory.limit → memory.limit ≤ maxAmount →
      PolledToEnd bindings memory (.groupBy keys aggregations state) input
        (groupsOf bindings keys aggregations state (input.filterMap Signal.row?)).1
        (groupsOf bindings keys aggregations state (input.filterMap Signal.row?)).2 := by
  induction input generalizing state with
  | nil => exact ⟨0, fun {memory _} _ _ _ => polledToEnd_of_no_input hdone memory⟩
  | cons signal input ih =>
      obtain ⟨hne, hothers⟩ := not_or.1 (List.mem_cons.not.1 hinput)
      have hpoll : poll bindings (.groupBy keys aggregations state) (signal :: input) =
          (Pipeline.pass bindings signal (.groupBy keys aggregations state), input) :=
        poll_of_unready (ready?_groupBy_of_undone hdone) _
      cases signal with
      | exhausted => exact absurd rfl hne
      | fetch | again =>
          obtain ⟨enough, hrest⟩ := ih hothers hdone
          exact ⟨enough, fun hused hroom hcounted =>
            (hrest hused hroom hcounted).of_interrupted (Ne.symm hne) rfl
              (ready?_groupBy_of_undone hdone)⟩
      | row row =>
          rw [List.filterMap_cons_some (f := Signal.row?) rfl, groupsOf]
          cases hresult : (acceptGrouped keys aggregations bindings row state).result with
          | error error =>
              refine ⟨(acceptGrouped keys aggregations bindings row state).state.bytes,
                fun {memory base} hused hroom hcounted => ?_⟩
              obtain ⟨m, -, -, hrun⟩ := run_accept_groupBy hused hcounted hroom
              rw [hresult] at hrun
              exact .failed (by rw [hpoll]; exact hrun)
          | ok signal =>
              obtain ⟨hsignal, hundone⟩ := undone_of_acceptGrouped hdone hresult
              obtain ⟨enough, hrest⟩ := ih hothers hundone
              refine ⟨max (acceptGrouped keys aggregations bindings row state).state.bytes enough,
                fun {memory base} hused hroom hcounted => ?_⟩
              have hgroup :
                  base + (acceptGrouped keys aggregations bindings row state).state.bytes ≤
                    memory.limit :=
                Nat.le_trans (Nat.add_le_add_left (Nat.le_max_left _ enough) base) hroom
              obtain ⟨m, hlimit, hm, hrun⟩ := run_accept_groupBy hused hcounted hgroup
              rw [hresult] at hrun
              refine .goesOn (by rw [hpoll]; exact hrun) hsignal ?_
              rw [hpoll]
              refine hrest hm ?_ (hlimit ▸ hcounted)
              rw [hlimit]
              exact Nat.le_trans (Nat.add_le_add_left (Nat.le_max_right _ enough) base) hroom

end

end Stage

end ShardQuery
