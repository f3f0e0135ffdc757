import ShardQuery.Expr

/-!
# Query Plans

A `Plan` reads the rows of one table from a list of shards (`Scan`) and passes them through
a list of steps. The steps are listed from the outermost one, whose rows are the result, to
the one next to the scan; every step has exactly one input, the rest of the list.
-/

namespace ShardQuery

/-- The number of a shard, by which a scan names it and a table holds it. -/
abbrev ShardId : Type :=
  UInt32

/-- A field to order or to group by. -/
structure OrderKey where
  /-- The name of the field. -/
  field : String
  /-- Whether the order is descending. -/
  descending : Bool
  /-- Whether absent values come first. -/
  nullsFirst : Bool
deriving DecidableEq, Repr

/-- How a step sorts, which decides whether it has to hold rows in memory. -/
inductive SortMode where
  /-- The shards deliver sorted rows, which are merged. -/
  | merge
  /-- All rows are collected and sorted. -/
  | materialize
deriving DecidableEq, Repr

/-- How a step recognises repeated rows, which decides what it has to remember. -/
inductive DistinctStrategy where
  /-- By the row before. -/
  | adjacent
  /-- By all rows before. -/
  | hashed
deriving DecidableEq, Repr

/-- An output field computed from the rows of a group. -/
structure AggregateCall where
  /-- The name of the field. -/
  name : String
  /-- The name of the aggregate function. -/
  function : String
  /-- The arguments, computed for every row. -/
  args : List Expr

/-- An output field computed from the fields of a row by an expression. -/
structure Projection where
  /-- The name of the field. -/
  name : String
  /-- The value of the field. -/
  expr : Expr

/-- The source of rows, from which all steps of a plan take theirs. -/
structure Scan where
  /-- The table. -/
  table : String
  /-- The shards that hold its rows. -/
  shards : List ShardId
  /-- Whether every shard delivers its rows sorted. -/
  ordered : Bool
deriving DecidableEq, Repr

/-- A step that rows pass through on their way from the scan to the result. -/
inductive Step where
  /-- Sorts the rows. -/
  | sort (keys : List OrderKey) (mode : SortMode)
  /-- Collects neighbouring rows with equal keys into one. -/
  | groupBy (keys : List OrderKey) (aggregates : List AggregateCall)
  /-- Drops rows whose key fields have been seen before; without keys, all fields count. -/
  | distinct (keys : List String) (strategy : DistinctStrategy)
  /-- Computes new rows. -/
  | project (fields : List Projection)
  /-- Skips rows and limits their number. -/
  | slice (offset limit : Option Expr)

/-- A query plan: the scan, and the steps that its rows pass through. -/
structure Plan where
  /-- The version of the plan format. -/
  version : UInt16
  /-- The steps, the outermost first. -/
  steps : List Step
  /-- The source of the rows. -/
  scan : Scan

/-- The kinds of plan nodes, which are the steps and the scan. -/
inductive NodeKind where
  /-- The source of rows. -/
  | receive
  /-- A sorting step. -/
  | sort
  /-- A grouping step. -/
  | groupBy
  /-- A step that drops repeated rows. -/
  | distinct
  /-- A projecting step. -/
  | project
  /-- A slicing step. -/
  | slice
deriving DecidableEq, Repr

/-- The name of a kind, the tag of such nodes and of their states in a document. -/
def NodeKind.name : NodeKind → String
  | .receive => "receive"
  | .sort => "sort"
  | .groupBy => "group_by"
  | .distinct => "distinct"
  | .project => "project"
  | .slice => "slice"

namespace Step

/-- The kind of the node that a step is. -/
def kind : Step → NodeKind
  | .sort .. => .sort
  | .groupBy .. => .groupBy
  | .distinct .. => .distinct
  | .project .. => .project
  | .slice .. => .slice

/-- The expressions of a step in their order. -/
def exprs : Step → List Expr
  | .groupBy _ aggregates => aggregates.flatMap (·.args)
  | .project fields => fields.map (·.expr)
  | .slice offset limit => offset.toList ++ limit.toList
  | .sort .. | .distinct .. => []

end Step

namespace Plan

/-- The version of the plan format that is understood; plans of any other version are rejected. -/
def currentVersion : UInt16 :=
  1

/-- The kinds of the nodes from the outermost step to the scan. -/
def shape (plan : Plan) : List NodeKind :=
  plan.steps.map Step.kind ++ [.receive]

/-- The references to bind variables in the order of the plan. -/
def bindRefs (plan : Plan) : List BindRef :=
  plan.steps.flatMap fun step => step.exprs.flatMap Expr.bindRefs

end Plan

end ShardQuery
