import ShardQuery.Execution
import ShardQuery.Proofs.Source
import ShardQuery.Proofs.Stage
import ShardQuery.Proofs.Stage.Codec
import ShardQuery.Proofs.Total

/-!
# The Work of a Pipeline

Between two rounds of requests a pipeline makes only so many ticks. A row that a node holds can be
passed on by every stage above the node, and so can the row that a grouping makes at its end; a sort
takes one more tick to sort. The work that is left is the sum of this over all nodes, and every
signal but the last one is paid for out of it.

Main definitions:

* `NodeState.work` — the work that the state of a node stands for;
* `Pipeline.work` — the work that is left in a pipeline;
* `Signal.cost` — what a signal is worth.

## Main results

* `Pipeline.work_tick`: a tick takes from the work what its signal is worth.
* `Pipeline.workOf_reread`: rereading states leaves the work as it is.
-/

namespace ShardQuery

/-! ### Measures -/

/-- The work of a node at the end of its rows, with so many stages above it. -/
def NodeState.endWork (above : Nat) : NodeState → Nat
  | .sort state => if state.sorted then 0 else 1
  | .groupBy state => if state.done then 0 else above + 1
  | .receive _ | .distinct _ | .project | .slice _ => 0

/-- The work that the state of a node with so many stages above it stands for: that of the rows it
holds, and that of the end. -/
def NodeState.work (above : Nat) (state : NodeState) : Nat :=
  Execution.heldRowsOf state * (above + 1) + state.endWork above

/-- What a signal of a node with so many stages above it is worth: one tick, and for a row one more
for every stage that it can be passed through. -/
def Signal.cost (above : Nat) : Signal → Nat
  | .row _ => above + 1
  | .again => 1
  | .exhausted | .fetch _ => 0

/-- The work that the states of nodes stand for, with so many stages above the first one. -/
def workOf (above : Nat) : List NodeState → Nat
  | [] => 0
  | state :: states => state.work above + workOf (above + 1) states

/-- The work that is left in a pipeline: a bound for the ticks that its states can still cause
before another page is asked for. -/
def Pipeline.work (pipeline : Pipeline) : Nat :=
  workOf 0 pipeline.states

/-! ### Stages -/

namespace Stage

variable {stage : Stage} {signal : Signal}

/-- What a stage does by itself is paid for by its rows. -/
theorem work_of_ready {own : Metered Stage Signal} (h : stage.ready? = some own)
    (hsignal : own.result = .ok signal) (above : Nat) :
    own.state.state.work above + signal.cost above ≤ stage.state.work above := by
  cases ready_inv h with
  | ends =>
      cases hsignal
      exact Nat.le_refl _
  | pops _ hbuffer =>
      cases hsignal
      simp only [Metered.after_state, Metered.done_state, Stage.state, NodeState.work,
        Execution.heldRowsOf, NodeState.endWork, Signal.cost, hbuffer, List.length_cons,
        Nat.add_mul, Nat.one_mul]
      omega

/-- A row that a stage takes pays for what the stage does with it. -/
theorem work_of_accept {bindings : Bindings} {row : Row}
    (hsignal : (stage.accept bindings row).result = .ok signal) (above : Nat) :
    (stage.accept bindings row).state.state.work above + signal.cost above ≤
      stage.state.work above + (above + 2) := by
  -- A row that is passed on, or kept without work, has lost one stage above it.
  have hcost (signal : Signal) : signal.cost above ≤ above + 1 := by
    cases signal <;> simp [Signal.cost]
  generalize hown : stage.accept bindings row = own at hsignal ⊢
  cases accept_inv hown with
  | kept =>
      cases hsignal
      simp only [Metered.after_state, Metered.done_state, Stage.state, NodeState.work,
        Execution.heldRowsOf, NodeState.endWork, Signal.cost, List.length_append,
        List.length_singleton, Nat.add_mul, Nat.one_mul]
      omega
  | merged | unsorted | refused | grouped | same | changed | seen | unseen | projected
  | unprojected | skipped | sliced =>
      exact Nat.add_le_add_left ((hcost signal).trans (Nat.le_succ _)) _

/-- The work at the end of the rows pays for what a stage does then. -/
theorem work_of_finish (hready : stage.ready? = none) (hsignal : stage.finish.result = .ok signal)
    (above : Nat) :
    stage.finish.state.state.work above + signal.cost above ≤ stage.state.work above := by
  cases stage with
  | sort keys mode state =>
      cases mode with
      | merge =>
          cases hsignal
          exact Nat.le_refl _
      | materialize =>
          have hsorted := sorted_eq_false hready
          cases hsignal
          simp [finish, Stage.state, NodeState.work, Execution.heldRowsOf, NodeState.endWork,
            Signal.cost, hsorted, Row.sortBy]
  | groupBy keys aggregations state =>
      have hdone := done_eq_false hready
      have hcost : signal.cost above ≤ above + 1 := by
        cases signal <;> simp [Signal.cost]
      simpa [finish, finishGroups, Stage.state, NodeState.work, Execution.heldRowsOf,
        NodeState.endWork, hdone] using hcost
  | distinct | project | slice =>
      cases hsignal
      exact Nat.le_refl _

/-- What a signal from below is worth pays for what the stage does with it. -/
theorem work_of_pass {bindings : Bindings} {below : Signal} (hready : stage.ready? = none)
    (hsignal : (Pipeline.pass bindings below stage).result = .ok signal) (above : Nat) :
    (Pipeline.pass bindings below stage).state.state.work above + signal.cost above ≤
      stage.state.work above + below.cost (above + 1) := by
  cases below with
  | row row => exact work_of_accept hsignal above
  | exhausted => exact work_of_finish hready hsignal above
  | fetch | again =>
      cases hsignal
      exact Nat.le_refl _

end Stage

/-! ### Sources -/

/-- The rows that a source holds pay for what it does. -/
theorem Source.work_of_next {source : Source} {signal : Signal}
    (hsignal : source.next.result = .ok signal) (above : Nat) :
    source.next.state.state.work above + signal.cost above ≤ source.state.work above := by
  cases source.next_inv with
  | @gives index progress row rows hp hbuffer _ heq =>
      rw [heq] at hsignal ⊢
      cases hsignal
      have htotal := total_set (fun progress => progress.buffer.length) hp
        (progress.afterRow rows row.sizeEstimate)
      simp only [hbuffer, List.length_cons, ShardProgress.afterRow] at htotal
      have hlength : total (fun progress => progress.buffer.length) source.shards =
          total (fun progress => progress.buffer.length)
            (source.shards.set index (progress.afterRow rows row.sizeEstimate)) + 1 := by
        simp only [ShardProgress.afterRow]
        omega
      simp only [Metered.after_state, Metered.done_state, state, popped, NodeState.work,
        Execution.heldRowsOf, NodeState.endWork, Signal.cost, hlength, Nat.add_mul, Nat.one_mul]
      omega
  | ends _ heq | wants _ _ heq =>
      rw [heq] at hsignal ⊢
      cases hsignal
      exact Nat.le_refl _
  | incomplete _ heq =>
      rw [heq] at hsignal
      cases hsignal

/-! ### Pipelines -/

namespace Pipeline

/-- A tick takes from the work what its signal is worth. -/
theorem work_of_tickStages {bindings : Bindings} {source : Source} {stages : List Stage}
    {signal : Signal} (h : (tickStages bindings source stages).result = .ok signal)
    (above : Nat) :
    workOf above (tickStages bindings source stages).state.states + signal.cost above ≤
      workOf above (Pipeline.states ⟨stages, source⟩) := by
  induction stages generalizing above signal with
  | nil => exact Source.work_of_next h above
  | cons stage inner ih =>
      change _ ≤ stage.state.work above + workOf (above + 1) (Pipeline.states ⟨inner, source⟩)
      cases tickStages_inv h with
      | @own own _ hready hown hnext =>
          have hwork := Stage.work_of_ready (ready?_of_result hready hown) hown above
          rw [hnext]
          change own.state.state.work above +
            workOf (above + 1) (Pipeline.states ⟨inner, source⟩) + _ ≤ _
          omega
      | @passed below _ hready hbelow hpass hnext =>
          have hinner := ih hbelow (above + 1)
          have hwork := Stage.work_of_pass (ready?_of_readyOver? hready) hpass above
          rw [hnext]
          change (pass bindings below stage).state.state.work above +
            workOf (above + 1) (tickStages bindings source inner).state.states + _ ≤ _
          omega

/-- **A tick takes from the work what its signal is worth.** -/
theorem work_tick {bindings : Bindings} {pipeline : Pipeline} {signal : Signal}
    (h : (pipeline.tick bindings).result = .ok signal) :
    (pipeline.tick bindings).state.work + signal.cost 0 ≤ pipeline.work :=
  work_of_tickStages h 0

/-- Rereading states leaves the work as it is, as it depends on numbers of rows only. -/
theorem workOf_reread (above : Nat) (states : List NodeState) :
    workOf above (states.map NodeState.reread) = workOf above states := by
  have hwork (above : Nat) (state : NodeState) : state.reread.work above = state.work above := by
    cases state with
    | receive shards =>
        simp only [NodeState.reread, NodeState.work, Execution.heldRowsOf, NodeState.endWork,
          total_map, ShardProgress.reread, List.length_map]
    | sort state =>
        simp only [NodeState.reread, NodeState.work, Execution.heldRowsOf, NodeState.endWork,
          List.length_map]
    | groupBy | distinct | project | slice => rfl
  induction states generalizing above with
  | nil => rfl
  | cons state states ih => rw [List.map_cons, workOf, workOf, hwork, ih]

end Pipeline

end ShardQuery
