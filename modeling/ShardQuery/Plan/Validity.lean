import ShardQuery.Plan.Basic

/-!
# Valid Plans

Not every plan that can be written down can be run. `Plan.check` finds the first fault of a
plan: its version first, then the steps from the outermost one, then the scan.
-/

namespace ShardQuery

/-- A reason why a plan cannot be run. -/
inductive PlanFault where
  /-- The scan names no table. -/
  | noTable
  /-- The scan names no shards. -/
  | noShards (table : String)
  /-- The scan names a shard twice. -/
  | repeatedShard (shard : ShardId)
  /-- A sort has no keys. -/
  | noSortKeys
  /-- The rows to be merged do not come from a sorted scan. -/
  | unorderedMerge
  /-- Two fields of a group have one name. -/
  | repeatedGroupField (name : String)
  /-- A projection has no fields. -/
  | noProjections
  /-- Two fields of a projection have one name. -/
  | repeatedProjection (name : String)
deriving DecidableEq, Repr

/-- The wording of a fault, with the name or the number that is to blame. -/
def PlanFault.message : PlanFault → String
  | .noTable => "receive step has no table"
  | .noShards table => s!"receive step for table '{table}' targets no shards"
  | .repeatedShard shard => s!"receive step lists shard {shard.toNat} twice"
  | .noSortKeys => "sort step has no keys"
  | .unorderedMerge => "merge sort requires an ordered receive step as input"
  | .repeatedGroupField name => s!"group by output field '{name}' is defined twice"
  | .noProjections => "project step has no fields"
  | .repeatedProjection name => s!"project field '{name}' is defined twice"

/-- A reason why a plan is rejected before any function is looked up. -/
inductive PlanError where
  /-- The text is no plan. -/
  | malformed
  /-- The plan has another format version. -/
  | unsupportedVersion (found : UInt16)
  /-- The plan cannot be run. -/
  | invalid (fault : PlanFault)
deriving DecidableEq, Repr

/-- The wording of an error, with both versions or with the fault that was found. -/
def PlanError.message : PlanError → String
  | .malformed => "Malformed plan"
  | .unsupportedVersion found =>
    s!"Unsupported plan version {found.toNat}, expected {Plan.currentVersion.toNat}"
  | .invalid fault => "Invalid plan: " ++ fault.message

/-- The first element of a list that has occurred before, in the list or among those
already seen. -/
def firstRepeated? {α : Type} [BEq α] (seen : List α) : List α → Option α
  | [] => none
  | a :: as => if seen.contains a then some a else firstRepeated? (a :: seen) as

/-- The fault of a scan: it must name a table and at least one shard, and no shard twice. -/
def Scan.fault? (scan : Scan) : Option PlanFault :=
  if scan.table = "" then some .noTable
  else if scan.shards = [] then some (.noShards scan.table)
  else (firstRepeated? [] scan.shards).map .repeatedShard

/-- The fault of a step whose input comes through the steps `inner` from `scan`. -/
def Step.fault? (scan : Scan) (inner : List Step) : Step → Option PlanFault
  | .sort keys mode =>
    if keys = [] then some .noSortKeys
    else if mode = .merge && !(inner.isEmpty && scan.ordered) then some .unorderedMerge
    else none
  | .groupBy keys aggregates =>
    (firstRepeated? (keys.map (·.field)) (aggregates.map (·.name))).map .repeatedGroupField
  | .project fields =>
    if fields.isEmpty then some .noProjections
    else (firstRepeated? [] (fields.map (·.name))).map .repeatedProjection
  | .distinct .. | .slice .. => none

/-- The first fault of a list of steps or of the scan that they start from. -/
def faultOfSteps? (scan : Scan) : List Step → Option PlanFault
  | [] => scan.fault?
  | step :: inner => (step.fault? scan inner).or (faultOfSteps? scan inner)

/-- Accepts the plans that can be run: of the current version, and without a fault. -/
def Plan.check (plan : Plan) : Except PlanError Unit :=
  if plan.version ≠ Plan.currentVersion then .error (.unsupportedVersion plan.version)
  else
    match faultOfSteps? plan.scan plan.steps with
    | some fault => .error (.invalid fault)
    | none => .ok ()

end ShardQuery
