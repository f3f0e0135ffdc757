import ShardQuery.Execution
import ShardQuery.Proofs.Memory.Balance
import ShardQuery.Proofs.Source
import ShardQuery.Proofs.Stage
import ShardQuery.Proofs.Total

/-!
# What Pipelines Hold

Every state of a node has a counter of the bytes that it is charged for. What it really holds
is a different matter: `NodeState.heldBytes` measures its rows, its group and its keys. The
counters *tally* if they say that, for every shard of the source and for every stage: exactly,
or at least no less. The latter is what is left of it when values come back smaller than they
have been charged.

## Main results

* `Pipeline.balanced_tick`, `Pipeline.balanced_receive`, `Pipeline.balanced_close`: all that
  a pipeline does to the account goes together with the counters.
* `Pipeline.tallies_tick`, `Pipeline.tallies_receive`: the counters go on to tally.
-/

namespace ShardQuery

/-- The memory of a remembered text of a key. -/
def textBytes (text : String) : Nat :=
  text.utf8ByteSize + Stage.keyOverhead

/-- The memory that a state really uses: of all rows it holds, of the group in the making, of
the key of the latest row and of all remembered texts of keys. -/
def NodeState.heldBytes : NodeState → Nat
  | .receive shards => total (fun progress => Row.totalSize progress.buffer) shards
  | .sort state => Row.totalSize state.buffer
  | .groupBy state => (state.current.map OpenGroup.sizeEstimate).getD 0
  | .distinct state => (state.last.map Value.itemsSize).getD 0 + total textBytes state.seen
  | .project | .slice _ => 0

/-- The memory that a pipeline really uses, counted from what its states hold and not from their
counters. -/
def Pipeline.heldBytes (pipeline : Pipeline) : Nat :=
  total NodeState.heldBytes pipeline.states

/-! ### Tallies -/

/-- Whether a relation of counters to what they count outlives adding and taking away. -/
structure IsTally (agree : Nat → Nat → Prop) : Prop where
  /-- A counter may say what it counts. -/
  refl : ∀ n, agree n n
  /-- It counts what is added. -/
  add : ∀ {count held}, agree count held → ∀ n, agree (count + n) (held + n)
  /-- What is taken away has been counted. -/
  le : ∀ {count held}, agree count held → held ≤ count
  /-- It counts down what is taken away. -/
  sub : ∀ {count n held}, agree count (n + held) → agree (count - n) held

/-- Being equal is a tally, for counters that are exact. -/
theorem isTally_eq : IsTally (· = ·) where
  refl _ := rfl
  add h n := congrArg (· + n) h
  le h := Nat.le_of_eq h.symm
  sub {_ n held} h := by rw [h, Nat.add_sub_cancel_left]

/-- Being at least as great is a tally, for counters that have been read from a token and may claim
more than is there. -/
theorem isTally_ge : IsTally (· ≥ ·) where
  refl := Nat.le_refl
  add h n := Nat.add_le_add_right h n
  le h := h
  sub h := Nat.le_sub_of_add_le' h

section

variable (agree : Nat → Nat → Prop)

/-- Whether the counter of a shard says what its buffer holds. -/
def ShardProgress.Tallies (progress : ShardProgress) : Prop :=
  agree progress.bufferedBytes (Row.totalSize progress.buffer)

/-- Whether the counter of a stage says what it holds. Of a stage that drops repeated rows,
only the part of the state that its strategy needs is in use. -/
def Stage.Tallies : Stage → Prop
  | .sort _ _ state => agree state.bytes (Row.totalSize state.buffer)
  | .groupBy _ _ state => agree state.bytes ((state.current.map OpenGroup.sizeEstimate).getD 0)
  | .distinct _ .adjacent state =>
    agree state.bytes ((state.last.map Value.itemsSize).getD 0) ∧ state.seen = []
  | .distinct _ .hashed state => agree state.bytes (total textBytes state.seen) ∧ state.last = none
  | .project _ | .slice .. => True

/-- Whether the counters of all shards say what their buffers hold. -/
def Source.Tallies (source : Source) : Prop :=
  ∀ progress ∈ source.shards, progress.Tallies agree

/-- Whether all counters of a pipeline say what is held. -/
structure Pipeline.Tallies (pipeline : Pipeline) : Prop where
  /-- Those of the stages do. -/
  stages : ∀ stage ∈ pipeline.stages, stage.Tallies agree
  /-- Those of the shards do. -/
  source : pipeline.source.Tallies agree

end

variable {agree : Nat → Nat → Prop}

/-- A stage whose counter is exact is charged for what it holds. Of the two parts of a state that
drops repeated rows, only one is in use. -/
theorem Stage.Tallies.trackedBytes_eq {stage : Stage} (h : stage.Tallies (· = ·)) :
    stage.trackedBytes = stage.state.heldBytes := by
  cases stage with
  | sort | groupBy => exact h
  | distinct keys strategy state =>
      cases strategy with
      | adjacent =>
          obtain ⟨hbytes, hseen⟩ := h
          simp [trackedBytes, Stage.state, NodeState.trackedBytes, NodeState.heldBytes, hbytes,
            hseen]
      | hashed =>
          obtain ⟨hbytes, hlast⟩ := h
          simp [trackedBytes, Stage.state, NodeState.trackedBytes, NodeState.heldBytes, hbytes,
            hlast]
  | project | slice => rfl

/-- The memory that a source is charged for, by the counters of all its shards together. -/
def Source.trackedBytes (source : Source) : Nat :=
  bufferedBytes source.shards

/-- A source whose counters are exact is charged for the rows in its buffers. -/
theorem Source.Tallies.trackedBytes_eq {source : Source} (h : source.Tallies (· = ·)) :
    source.trackedBytes = source.state.heldBytes :=
  total_congr h

/-- An outer stage adds its own charge, which is what makes the accounts of pipelines additive. -/
theorem Pipeline.trackedBytes_wrap (stage : Stage) (pipeline : Pipeline) :
    (pipeline.wrap stage).trackedBytes = stage.trackedBytes + pipeline.trackedBytes := rfl

/-- The charge of a pipeline is that of its stages and of its source. -/
theorem Pipeline.trackedBytes_eq (pipeline : Pipeline) :
    pipeline.trackedBytes =
      total Stage.trackedBytes pipeline.stages + pipeline.source.trackedBytes := by
  simp only [trackedBytes, states, total_append, total_map, total_cons, total_nil]
  rfl

/-- If the counters tally exactly, they tell together what is held. -/
theorem Pipeline.Tallies.trackedBytes_eq {pipeline : Pipeline} (h : pipeline.Tallies (· = ·)) :
    pipeline.trackedBytes = pipeline.heldBytes := by
  rw [Pipeline.trackedBytes_eq, heldBytes, states, total_append, total_map, total_cons, total_nil,
    h.source.trackedBytes_eq, total_congr fun stage hs => (h.stages stage hs).trackedBytes_eq]
  rfl

/-- A stage that tallies, around a pipeline that tallies, makes a pipeline that tallies. -/
theorem Pipeline.Tallies.wrap {stage : Stage} {pipeline : Pipeline} (hs : stage.Tallies agree)
    (hp : pipeline.Tallies agree) : (pipeline.wrap stage).Tallies agree :=
  ⟨List.forall_mem_cons.2 ⟨hs, hp.stages⟩, hp.source⟩

/-! ### Stages -/

namespace Stage

open Metered

/-- The order of rows has no influence on their size. -/
theorem totalSize_sortBy (keys : List OrderKey) (rows : List Row) :
    Row.totalSize (Row.sortBy keys rows) = Row.totalSize rows :=
  total_perm _ (List.mergeSort_perm _ _)

/-- A text that is new adds its bytes to those of the texts seen, at whichever place it is inserted.
-/
theorem total_insertText {text : String} {texts : List String} (h : text ∉ texts) :
    total textBytes (insertText text texts) = total textBytes texts + textBytes text := by
  induction texts with
  | nil => simp [insertText]
  | cons t texts ih =>
      obtain ⟨hne, hmem⟩ := not_or.1 (List.mem_cons.not.1 h)
      simp only [insertText, if_neg hne]
      split
      · simp only [total_cons]
        omega
      · rw [total_cons, ih hmem, total_cons, Nat.add_assoc]

/-- Recharging takes the account from what was charged to what is wanted. -/
theorem balances_recharge {τ : Type} {weight : τ → Nat} {s : τ} {charged : Nat}
    (h : charged = weight s) (wanted : Nat) :
    Balances weight charged [(recharge charged wanted, s)] wanted := by
  unfold recharge
  split
  · next hlt => exact ⟨h, Nat.add_sub_cancel' (Nat.le_of_lt hlt)⟩
  · next hle => exact ⟨Nat.sub_le _ _, Nat.sub_sub_self (Nat.le_of_not_lt hle)⟩

/-- The end of the input gives back what the last group was charged for. -/
theorem balanced_finishGroups (keys : List OrderKey) (aggregations : List Aggregation)
    (state : GroupState) :
    (finishGroups keys aggregations state).Balanced GroupState.bytes state.bytes :=
  ⟨Nat.le_refl _, Nat.sub_self _⟩

/-- The account and the counter of a stage go together. -/
theorem balanced_ready (ht : IsTally agree) {stage : Stage} {own : Metered Stage Signal}
    (h : stage.Tallies agree) (hr : stage.ready? = some own) :
    own.Balanced trackedBytes stage.trackedBytes := by
  cases ready_inv hr with
  | ends => exact balanced_done _ _ _
  | @pops keys state row rows _ hb =>
      -- What a sorted buffer gives away has been in use.
      have hbytes : agree state.bytes (Row.totalSize state.buffer) := h
      rw [hb] at hbytes
      exact ⟨Nat.le_trans (Nat.le_add_right _ _) (ht.le hbytes), rfl⟩

/-- Where a stage signals by itself, its counter goes on tallying: what it takes off its state, it
counts down. -/
theorem tallies_ready (ht : IsTally agree) {stage : Stage} {own : Metered Stage Signal}
    (h : stage.Tallies agree) (hr : stage.ready? = some own) : own.state.Tallies agree := by
  cases ready_inv hr with
  | ends => exact h
  | @pops keys state row rows _ hb =>
      have hbytes : agree state.bytes (Row.totalSize state.buffer) := h
      rw [hb] at hbytes
      exact ht.sub hbytes

/-- Taking a row in is balanced for every stage: what is reserved or given back is the change of its
counter. -/
theorem balanced_accept (bindings : Bindings) (row : Row) (stage : Stage) :
    (stage.accept bindings row).Balanced trackedBytes stage.trackedBytes := by
  generalize hown : stage.accept bindings row = own
  cases accept_inv hown with
  | kept | unseen => exact ⟨rfl, rfl⟩
  | @grouped keys aggregations state =>
      exact @balances_recharge _ trackedBytes (.groupBy keys aggregations (taken state)) _ rfl _
  | @changed keys state =>
      have hzero : state.bytes - state.bytes + Value.itemsSize (distinctKey keys row) =
          Value.itemsSize (distinctKey keys row) := by rw [Nat.sub_self, Nat.zero_add]
      exact ⟨Nat.le_refl _, Nat.sub_self _, hzero⟩
  | merged | unsorted | refused | same | seen | projected | unprojected | skipped | sliced => rfl

/-- A stage that has taken a row in tallies again. This is only said of success, since a failure
leaves the counter in between. -/
theorem tallies_accept (ht : IsTally agree) {bindings : Bindings} {row : Row} {stage : Stage}
    {signal : Signal} (h : stage.Tallies agree)
    (hr : (stage.accept bindings row).result = .ok signal) :
    (stage.accept bindings row).state.Tallies agree := by
  generalize hown : stage.accept bindings row = own at hr ⊢
  cases accept_inv hown with
  | @kept keys state =>
      change agree (state.bytes + row.sizeEstimate) (Row.totalSize (state.buffer ++ [row]))
      rw [Row.totalSize, total_append]
      exact ht.add h row.sizeEstimate
  | grouped => exact ht.refl _
  | changed => exact ⟨ht.refl _, h.2⟩
  | unseen hunseen =>
      refine ⟨?_, h.2⟩
      rw [total_insertText (by simpa using hunseen)]
      exact ht.add h.1 _
  | merged | same | seen => exact h
  | projected | skipped | sliced => trivial
  | unsorted | refused | unprojected => cases hr

/-- The end of the input is balanced for every stage. -/
theorem balanced_finish (stage : Stage) :
    stage.finish.Balanced trackedBytes stage.trackedBytes := by
  cases stage with
  | sort keys mode state => cases mode <;> rfl
  | groupBy keys aggregations state =>
      exact (balanced_finishGroups keys aggregations state).within_same fun s => rfl
  | distinct | project | slice => rfl

/-- A stage that has taken in the end of its input tallies again. -/
theorem tallies_finish (ht : IsTally agree) {stage : Stage} (h : stage.Tallies agree) :
    stage.finish.state.Tallies agree := by
  cases stage with
  | sort keys mode state =>
      cases mode with
      | merge => exact h
      | materialize =>
          change agree state.bytes (Row.totalSize (Row.sortBy keys state.buffer))
          rw [totalSize_sortBy]
          exact h
  | groupBy keys aggregations state => exact ht.refl 0
  | distinct | project | slice => exact h

/-- Passing a signal on is balanced, whatever the signal is. -/
theorem balanced_pass (bindings : Bindings) (signal : Signal) (stage : Stage) :
    (Pipeline.pass bindings signal stage).Balanced trackedBytes stage.trackedBytes := by
  cases signal with
  | row row => exact balanced_accept bindings row stage
  | exhausted => exact balanced_finish stage
  | fetch | again => rfl

/-- A stage that has passed a signal on tallies again. -/
theorem tallies_pass (ht : IsTally agree) {bindings : Bindings} {signal out : Signal}
    {stage : Stage} (h : stage.Tallies agree)
    (hr : (Pipeline.pass bindings signal stage).result = .ok out) :
    (Pipeline.pass bindings signal stage).state.Tallies agree := by
  cases signal with
  | row row => exact tallies_accept ht h hr
  | exhausted => exact tallies_finish ht h
  | fetch | again => exact h

end Stage

/-! ### Sources -/

namespace Source

open Metered

/-- A shard whose counter tallies may take the place of any shard of a source. -/
theorem Tallies.set {source : Source} (h : source.Tallies agree) {progress : ShardProgress}
    (hp : progress.Tallies agree) (index : Nat) :
    Tallies agree { source with shards := source.shards.set index progress } := by
  intro other hmem
  rcases List.mem_or_eq_of_mem_set hmem with hmem | rfl
  · exact h other hmem
  · exact hp

/-- Each shard of a source that tallies does so by itself. -/
theorem Tallies.of_getElem? {source : Source} (h : source.Tallies agree) {index : Nat}
    {progress : ShardProgress} (hp : source.shards[index]? = some progress) :
    progress.Tallies agree :=
  h progress (List.mem_of_getElem? hp)

/-- Taking a row from a buffer gives back what it was charged. -/
theorem balanced_popped (ht : IsTally agree) {source : Source} (h : source.Tallies agree)
    {index : Nat} {progress : ShardProgress} {row : Row} {rows : List Row}
    (hp : source.shards[index]? = some progress) (hb : progress.buffer = row :: rows) :
    (after (.release row.sizeEstimate) (source.popped index progress row rows)
        (done (source.popped index progress row rows) (Signal.row row))).Balanced
      trackedBytes source.trackedBytes ∧
    (source.popped index progress row rows).Tallies agree := by
  have hcount : agree progress.bufferedBytes (row.sizeEstimate + Row.totalSize rows) := by
    have hcount : agree progress.bufferedBytes (Row.totalSize progress.buffer) :=
      h.of_getElem? hp
    rwa [hb] at hcount
  have hcharged : row.sizeEstimate ≤ progress.bufferedBytes :=
    Nat.le_trans (Nat.le_add_right _ _) (ht.le hcount)
  have hrest : (progress.afterRow rows row.sizeEstimate).Tallies agree := ht.sub hcount
  have hle := le_total_of_getElem? ShardProgress.bufferedBytes hp
  have hset := total_set ShardProgress.bufferedBytes hp
    (progress.afterRow rows row.sizeEstimate)
  have hpopped : bufferedBytes source.shards - row.sizeEstimate =
      bufferedBytes (source.shards.set index (progress.afterRow rows row.sizeEstimate)) := by
    unfold bufferedBytes
    simp only [ShardProgress.afterRow] at hset ⊢
    omega
  exact ⟨⟨Nat.le_trans hcharged hle, hpopped⟩, h.set hrest index⟩

/-- A source signals in balance and goes on tallying, since a row that it takes from a buffer is
counted down by its size. -/
theorem balanced_next (ht : IsTally agree) {source : Source} (h : source.Tallies agree) :
    source.next.Balanced trackedBytes source.trackedBytes ∧ source.next.state.Tallies agree := by
  cases source.next_inv with
  | gives hp hb _ heq =>
      rw [heq]
      exact balanced_popped ht h hp hb
  | incomplete _ heq | ends _ heq | wants _ _ heq =>
      rw [heq]
      exact ⟨rfl, h⟩

/-- Taking responses in is paid for response by response, and the counters tally whatever
happens on the way. -/
theorem balanced_receive (ht : IsTally agree) {source : Source} (h : source.Tallies agree)
    (responses : List (Nat × Except RequestError ShardResponse)) :
    (source.receive responses).Balanced trackedBytes source.trackedBytes ∧
      (source.receive responses).state.Tallies agree ∧
      ∀ entry ∈ (source.receive responses).events, entry.2.Tallies agree := by
  induction responses generalizing source with
  | nil => exact ⟨rfl, h, List.forall_mem_nil _⟩
  | cons entry responses ih =>
      obtain ⟨index, error | response⟩ := entry
      · exact ⟨rfl, h, List.forall_mem_nil _⟩
      · simp only [receive]
        split
        · exact ⟨rfl, h, List.forall_mem_nil _⟩
        · next progress hp =>
            have hcount : (progress.afterResponse response
                (Row.totalSize response.rows)).Tallies agree := by
              change agree (progress.bufferedBytes + Row.totalSize response.rows)
                (total Row.sizeEstimate (progress.buffer ++ response.rows))
              rw [total_append]
              exact ht.add (h.of_getElem? hp) _
            obtain ⟨hbal, hstate, hevents⟩ := ih (h.set hcount index)
            have hset := total_set ShardProgress.bufferedBytes hp
              (progress.afterResponse response (Row.totalSize response.rows))
            refine ⟨⟨rfl, ?_⟩, hstate, List.forall_mem_cons.2 ⟨h, hevents⟩⟩
            have hweight : source.trackedBytes + Row.totalSize response.rows =
                Source.trackedBytes { source with
                  shards := source.shards.set index
                    (progress.afterResponse response (Row.totalSize response.rows)) } := by
              rw [trackedBytes, trackedBytes, bufferedBytes, bufferedBytes]
              simp only [ShardProgress.afterResponse] at hset ⊢
              omega
            rw [hweight]
            exact hbal

end Source

/-! ### Pipelines -/

namespace Pipeline

open Metered

/-- What is balanced for the inner pipeline is so beneath a stage, which keeps its charge. -/
theorem balanced_wrap {x : Metered Pipeline Signal} {used : Nat}
    (h : x.Balanced trackedBytes used) (stage : Stage) :
    (x.within (wrap stage)).Balanced trackedBytes (stage.trackedBytes + used) :=
  h.within (trackedBytes_wrap stage)

/-- What is balanced for a stage is so around a pipeline, which keeps its charge. -/
theorem balanced_outer {x : Metered Stage Signal} {used : Nat}
    (h : x.Balanced Stage.trackedBytes used) (inner : Pipeline) :
    (x.within fun stage => inner.wrap stage).Balanced trackedBytes
      (used + inner.trackedBytes) := by
  rw [Nat.add_comm]
  exact h.within fun stage => (trackedBytes_wrap stage inner).trans (Nat.add_comm _ _)

/-- One tick of stages over a source is balanced, by induction from the outermost stage inwards:
either it acts alone, or it passes on a signal of those inside. -/
theorem balanced_tickStages (ht : IsTally agree) (bindings : Bindings) {source : Source}
    (hsource : source.Tallies agree) {stages : List Stage}
    (hstages : ∀ stage ∈ stages, stage.Tallies agree) :
    (tickStages bindings source stages).Balanced trackedBytes
      (trackedBytes ⟨stages, source⟩) := by
  induction stages with
  | nil => exact (Source.balanced_next ht hsource).1.within_same fun s => rfl
  | cons stage inner ih =>
      obtain ⟨hstage, hinner⟩ := List.forall_mem_cons.1 hstages
      rw [tickStages]
      split
      · next own hown =>
          obtain hready | ⟨kind, rfl⟩ := readyOver?_eq_some hown
          · exact balanced_outer (Stage.balanced_ready ht hstage hready) ⟨inner, source⟩
          · exact balanced_outer (Metered.balanced_fail _ _ _) ⟨inner, source⟩
      · refine (balanced_wrap (ih hinner) stage).andThen fun signal _ => ?_
        exact balanced_outer (Stage.balanced_pass bindings signal stage) _

/-- After a successful tick the stages and the source tally, by the same induction. -/
theorem tallies_tickStages (ht : IsTally agree) {bindings : Bindings} {source : Source}
    (hsource : source.Tallies agree) {stages : List Stage}
    (hstages : ∀ stage ∈ stages, stage.Tallies agree) {signal : Signal}
    (h : (tickStages bindings source stages).result = .ok signal) :
    (tickStages bindings source stages).state.Tallies agree := by
  induction stages generalizing signal with
  | nil => exact ⟨nofun, (Source.balanced_next ht hsource).2⟩
  | cons stage inner ih =>
      obtain ⟨hstage, hinner⟩ := List.forall_mem_cons.1 hstages
      cases tickStages_inv h with
      | own hready hown hnext =>
          rw [hnext]
          have hstage' := Stage.tallies_ready ht hstage (ready?_of_result hready hown)
          exact ⟨List.forall_mem_cons.2 ⟨hstage', hinner⟩, hsource⟩
      | passed _ hbelow hpass hnext =>
          rw [hnext]
          exact Tallies.wrap (Stage.tallies_pass ht hstage hpass) (ih hinner hbelow)

/-- All that a tick does to the account goes together with the counters. -/
theorem balanced_tick (ht : IsTally agree) {pipeline : Pipeline} (h : pipeline.Tallies agree)
    (bindings : Bindings) :
    (pipeline.tick bindings).Balanced trackedBytes pipeline.trackedBytes :=
  balanced_tickStages ht bindings h.source h.stages

/-- After a successful tick the counters tally again, so that the next tick can start from the same
condition. -/
theorem tallies_tick (ht : IsTally agree) {pipeline : Pipeline} (h : pipeline.Tallies agree)
    {bindings : Bindings} {signal : Signal} (hr : (pipeline.tick bindings).result = .ok signal) :
    (pipeline.tick bindings).state.Tallies agree :=
  tallies_tickStages ht h.source h.stages hr

/-- All that responses do to the account goes together with the counters. -/
theorem balanced_receive (ht : IsTally agree) {pipeline : Pipeline} (h : pipeline.Tallies agree)
    (responses : List (Nat × Except RequestError ShardResponse)) :
    (pipeline.receive responses).Balanced trackedBytes pipeline.trackedBytes := by
  rw [trackedBytes_eq]
  exact (Source.balanced_receive ht h.source responses).1.within fun s => trackedBytes_eq _

/-- After responses the counters tally again, also when they are not taken in to the end. -/
theorem tallies_receive (ht : IsTally agree) {pipeline : Pipeline} (h : pipeline.Tallies agree)
    (responses : List (Nat × Except RequestError ShardResponse)) (memory : Memory) :
    ((pipeline.receive responses).run memory).2.1.Tallies agree := by
  obtain ⟨-, hstate, hevents⟩ := Source.balanced_receive ht h.source responses
  refine run_state (p := Pipeline.Tallies agree) ⟨h.stages, hstate⟩ ?_ memory
  intro entry hmem
  obtain ⟨inner, hinner, rfl⟩ := List.mem_map.1 hmem
  exact ⟨h.stages, hevents inner hinner⟩

/-! ### The end -/

/-- A stage that has been cleared is charged for nothing. -/
theorem trackedBytes_cleared_stage (stage : Stage) : stage.cleared.trackedBytes = 0 := by
  cases stage <;> rfl

/-- A pipeline without its rows and keys is charged for nothing. -/
theorem trackedBytes_cleared (pipeline : Pipeline) : pipeline.cleared.trackedBytes = 0 := by
  rw [trackedBytes_eq, cleared, total_map, total_eq_zero fun s _ => trackedBytes_cleared_stage s,
    Source.trackedBytes, Source.cleared, bufferedBytes, total_map, Nat.zero_add]
  exact total_eq_zero fun _ _ => rfl

/-- A pipeline without its rows and keys holds nothing. -/
theorem heldBytes_cleared (pipeline : Pipeline) : pipeline.cleared.heldBytes = 0 := by
  have hstage (stage : Stage) : stage.cleared.state.heldBytes = 0 := by cases stage <;> rfl
  rw [heldBytes, states, total_append, total_map, cleared, total_map,
    total_eq_zero fun stage _ => hstage stage, total_cons, total_nil, Source.state, Source.cleared,
    NodeState.heldBytes, total_map, Nat.zero_add, Nat.add_zero]
  exact total_eq_zero fun _ _ => rfl

/-- Giving everything up gives back what all counters say together. -/
theorem balanced_close (pipeline : Pipeline) :
    pipeline.close.Balanced trackedBytes pipeline.trackedBytes := by
  have hreleases (states : List NodeState) : Balances Pipeline.trackedBytes
      (total NodeState.trackedBytes states)
      (states.map fun state => (.release state.trackedBytes, pipeline.cleared)) 0 := by
    induction states with
    | nil => rfl
    | cons state states ih =>
        refine ⟨Nat.le_add_right _ _, ?_⟩
        rw [total_cons, Nat.add_sub_cancel_left]
        exact ih
  rw [Metered.Balanced, close, trackedBytes_cleared]
  exact hreleases pipeline.states

/-- Giving everything up never fails: it only gives bytes back, and always succeeds in doing so. -/
theorem run_close (pipeline : Pipeline) (memory : Memory) :
    pipeline.close.run memory =
      (memory.release pipeline.trackedBytes, pipeline.cleared, .ok ()) := by
  have hsettle (states : List NodeState) (memory : Memory) : memory.settle
      (states.map fun state => (MemoryEvent.release state.trackedBytes, pipeline.cleared)) =
        (memory.release (total NodeState.trackedBytes states), none) := by
    induction states generalizing memory with
    | nil => rfl
    | cons state states ih =>
        rw [List.map_cons, Memory.settle, ih, Memory.release, Memory.release, Memory.release,
          total_cons, Nat.sub_sub]
  exact run_eq_ok_iff.2 ⟨hsettle pipeline.states memory, rfl, rfl⟩

end Pipeline

end ShardQuery
