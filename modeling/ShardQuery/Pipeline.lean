import ShardQuery.Stage.Source

/-!
# Pipelines

A `Pipeline` is a running query: its stages, the outermost first, over its source. It
advances by ticks. In one tick the innermost stage that has to say something by itself
does so, or the source moves, and the signal is passed outward through the stages until one
of them keeps it.

Main definitions:

* `Pipeline.openPlan` — the pipeline of a plan and the states of its nodes;
* `Pipeline.tick` — one tick;
* `Pipeline.close` — gives up all rows and keys.
-/

namespace ShardQuery

/-- A running query: its steps as stages, around the source of their rows. -/
structure Pipeline where
  /-- The stages, the outermost first. -/
  stages : List Stage
  /-- The source of the innermost stage. -/
  source : Source

namespace Pipeline

/-! ### Ticks -/

/-- A pipeline with one more stage outside, which gets what the pipeline signals. -/
def wrap (stage : Stage) (pipeline : Pipeline) : Pipeline :=
  ⟨stage :: pipeline.stages, pipeline.source⟩

/-- Passes a signal from below through a stage. -/
def pass (bindings : Bindings) (signal : Signal) (stage : Stage) : Metered Stage Signal :=
  match signal with
  | .row row => stage.accept bindings row
  | .exhausted => stage.finish
  | .fetch shards => .done stage (.fetch shards)
  | .again => .done stage .again

/-- What a stage over others does by itself, before it takes another row. A sort that merges
has nothing to merge but the rows of a scan. -/
def readyOver? (inner : List Stage) (stage : Stage) : Option (Metered Stage Signal) :=
  match stage, inner with
  | .sort keys .merge state, below :: _ =>
    some (.fail (.sort keys .merge state) (.mergeInput below.state.kind))
  | stage, _ => stage.ready?

/-- One tick of stages over a source. The outermost stage that has something to do by itself acts,
or the source does, and what comes of it is passed outwards. -/
def tickStages (bindings : Bindings) (source : Source) : List Stage → Metered Pipeline Signal
  | [] => source.next.within fun source => ⟨[], source⟩
  | stage :: inner =>
    match readyOver? inner stage with
    | some own => own.within fun stage => ⟨stage :: inner, source⟩
    | none =>
      let below := tickStages bindings source inner
      (below.within (wrap stage)).andThen fun signal _ =>
        (pass bindings signal stage).within fun stage => below.state.wrap stage

/-- One tick, which is the least that a running query does at a time. -/
def tick (bindings : Bindings) (pipeline : Pipeline) : Metered Pipeline Signal :=
  tickStages bindings pipeline.source pipeline.stages

/-- The pipeline after responses of shards, given by their places. -/
def receive (pipeline : Pipeline) (responses : List (Nat × Except RequestError ShardResponse)) :
    Metered Pipeline Unit :=
  (pipeline.source.receive responses).within fun source => { pipeline with source := source }

/-! ### States -/

/-- The states of the nodes, in the order of the shape of the plan. -/
def states (pipeline : Pipeline) : List NodeState :=
  pipeline.stages.map Stage.state ++ [pipeline.source.state]

/-- The memory that the nodes are charged for. -/
def trackedBytes (pipeline : Pipeline) : Nat :=
  total NodeState.trackedBytes pipeline.states

/-- The pipeline without the rows and keys that it held. -/
def cleared (pipeline : Pipeline) : Pipeline :=
  ⟨pipeline.stages.map Stage.cleared, pipeline.source.cleared⟩

/-- Gives up all rows and keys, and gives back what each node is charged for, node by node. -/
def close (pipeline : Pipeline) : Metered Pipeline Unit :=
  ⟨pipeline.states.map fun state => (.release state.trackedBytes, pipeline.cleared),
    pipeline.cleared, .ok ()⟩

/-! ### Beginnings -/

/-- Pays for what a restored state holds, before something else. -/
def chargeRestored {α : Type} (state : NodeState) (x : Metered Unit α) : Metered Unit α :=
  if state.trackedBytes = 0 then x
  else .after (.reserve state.trackedBytes state.kind.name) () x

/-- A bound of a slice: a natural number, computed without a row. -/
def bound (bindings : Bindings) (name : String) :
    Option Formula → Except QueryError (Option Nat)
  | none => .ok none
  | some formula => do
    match (← formula.eval Row.empty bindings).normalized with
    | .int i =>
      if 0 ≤ i.toInt then .ok (some i.toInt.toNat)
      else .error (.sliceBound name (Value.int i).typeName)
    | value => .error (.sliceBound name value.typeName)

/-- The stage of a step and its state, none if they do not belong together. -/
def openStage? (bindings : Bindings) :
    CompiledStep → NodeState → Option (Except QueryError Stage)
  | .sort keys mode, .sort state => some (.ok (.sort keys mode state))
  | .groupBy keys aggregations, .groupBy state => some (.ok (.groupBy keys aggregations state))
  | .distinct keys strategy, .distinct state => some (.ok (.distinct keys strategy state))
  | .project fields, .project => some (.ok (.project fields))
  | .slice offset limit, .slice state => some do
    let offset ← bound bindings "offset" offset
    let limit ← bound bindings "limit" limit
    return .slice (UInt64.ofNat (offset.getD 0)) (limit.map UInt64.ofNat) state
  | _, _ => none

/-- Opens steps with their states, and the scan with the state behind them. Each is paid
for before its bounds are computed. -/
def openNodes (bindings : Bindings) (openSource : List ShardProgress → Source) :
    List CompiledStep → List NodeState → Metered Unit Pipeline
  | [], [.receive shards] =>
    chargeRestored (.receive shards) (.done () ⟨[], openSource shards⟩)
  | step :: steps, state :: states =>
    match openStage? bindings step state with
    | none => .fail () (.token .corrupt)
    | some (.error error) => chargeRestored state (.fail () error)
    | some (.ok stage) =>
      chargeRestored state <|
        (openNodes bindings openSource steps states).andThen fun inner _ =>
          .done () (inner.wrap stage)
  | _, _ => .fail () (.token .corrupt)

/-- How the scan below some steps delivers its rows: merged for a merging sort. -/
def deliveryOf (steps : List CompiledStep) (scan : Scan) (fanOut : Nat) : Delivery :=
  match steps.getLast? with
  | some (.sort keys .merge) => .merged keys
  | _ => if scan.ordered then .inOrder else .anyOrder fanOut

/-- The pipeline of a scan, steps over it and the states of all nodes. The states must be
of the kinds of the nodes. -/
def openPlan (bindings : Bindings) (fanOut : Nat) (scan : Scan) (steps : List CompiledStep)
    (states : List NodeState) : Metered Unit Pipeline :=
  openNodes bindings
    (fun shards =>
      ⟨scan.table, steps.length, scan.shards.length, deliveryOf steps scan fanOut, shards⟩)
    steps states

end Pipeline

end ShardQuery
