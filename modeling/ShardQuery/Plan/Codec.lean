import ShardQuery.Plan.Validity

/-!
# Plans as JSON

A plan is written as nested objects: every step holds the node that it takes its rows from
under `input`. The written form is canonical: fields come in a fixed order, empty lists of
keys, aggregates and arguments and absent bounds are left out, and all else is written even
where it has its default. Reading accepts any order, defaults, unknown
fields, and arrays in the place of objects.

Main definitions:

* `Plan.render` — the canonical text of a plan;
* `Plan.read?` — the plan of a text given by its octets.
-/

namespace ShardQuery

/-! ### Writing -/

/-- A member that is left out if its list is empty. -/
def listMember (name : String) (items : List Json) : List (String × Json) :=
  if items.isEmpty then [] else [(name, .array items)]

/-- A member that is left out if it is absent. -/
def exprMember (name : String) : Option Expr → List (String × Json)
  | some e => [(name, e.toJson)]
  | none => []

/-- The document of a key, with its direction and the place of absent values even where they have
their defaults. -/
def OrderKey.toJson (key : OrderKey) : Json :=
  .object [("field", .string key.field), ("desc", .bool key.descending),
    ("nulls_first", .bool key.nullsFirst)]

/-- The document of an aggregate call. The arguments are left out if there are none. -/
def AggregateCall.toJson (call : AggregateCall) : Json :=
  .object ([("name", .string call.name), ("func", .string call.function)] ++
    listMember "args" (Expr.listToJson call.args))

/-- The document of a projection, the name of the field before its expression. -/
def Projection.toJson (field : Projection) : Json :=
  .object [("name", .string field.name), ("expr", field.expr.toJson)]

/-- The document of a scan, the innermost node of a plan, with all its members. -/
def Scan.toJson (scan : Scan) : Json :=
  .object [("kind", .string NodeKind.receive.name), ("table", .string scan.table),
    ("shards", .array (scan.shards.map fun shard => .int shard.toNat)),
    ("ordered", .bool scan.ordered)]

/-- The name of a sort mode in a document. -/
def SortMode.name : SortMode → String
  | .merge => "merge"
  | .materialize => "materialize"

/-- The name of a strategy in a document. -/
def DistinctStrategy.name : DistinctStrategy → String
  | .adjacent => "adjacent"
  | .hashed => "hashed"

/-- The members of a step that follow its input. -/
def Step.members : Step → List (String × Json)
  | .sort keys mode =>
    [("keys", .array (keys.map OrderKey.toJson)), ("mode", .string mode.name)]
  | .groupBy keys aggregates =>
    listMember "keys" (keys.map OrderKey.toJson) ++
      listMember "aggregates" (aggregates.map AggregateCall.toJson)
  | .distinct keys strategy =>
    listMember "keys" (keys.map .string) ++ [("strategy", .string strategy.name)]
  | .project fields => [("fields", .array (fields.map Projection.toJson))]
  | .slice offset limit => exprMember "offset" offset ++ exprMember "limit" limit

/-- The document of a step that takes its rows from a given node. -/
def Step.toJson (step : Step) (input : Json) : Json :=
  .object (("kind", .string step.kind.name) :: ("input", input) :: step.members)

/-- The document of a plan: the version, and the outermost node with all others inside it. -/
def Plan.toJson (plan : Plan) : Json :=
  .object [("version", .int plan.version.toNat),
    ("root", plan.steps.foldr Step.toJson plan.scan.toJson)]

/-- The canonical text of a plan, one and the same for all texts that it can be read from. -/
def Plan.render (plan : Plan) : String :=
  plan.toJson.render

/-! ### Reading -/

/-- The key of a document. It is ascending, with absent values last, unless the document says
otherwise. -/
def OrderKey.ofJson? (document : Json) : Option OrderKey := do
  let members ← document.toRecord? ⟨["field", "desc", "nulls_first"], 1⟩
  let field ← Json.required? members "field" Json.toString?
  let descending ← Json.withDefault? members "desc" false Json.toBool?
  let nullsFirst ← Json.withDefault? members "nulls_first" false Json.toBool?
  return ⟨field, descending, nullsFirst⟩

/-- The aggregate call of a document whose argument expressions nest no deeper than `depth`. -/
def AggregateCall.ofJson? (depth : Nat) (document : Json) : Option AggregateCall := do
  let members ← document.toRecord? ⟨["name", "func", "args"], 2⟩
  let name ← Json.required? members "name" Json.toString?
  let function ← Json.required? members "func" Json.toString?
  let args ← Json.withDefault? members "args" [] (Json.toList? (Expr.ofJson? depth))
  return ⟨name, function, args⟩

/-- The projection of a document whose expression nests no deeper than `depth`. -/
def Projection.ofJson? (depth : Nat) (document : Json) : Option Projection := do
  let members ← document.toRecord? ⟨["name", "expr"], 2⟩
  let name ← Json.required? members "name" Json.toString?
  let expr ← Json.required? members "expr" (Expr.ofJson? depth)
  return ⟨name, expr⟩

/-- The sort mode of a document. It is always read from parts that have been set aside. -/
def SortMode.ofJson? (document : Json) : Option SortMode := do
  match ← document.toName? true with
  | "merge" => some .merge
  | "materialize" => some .materialize
  | _ => none

/-- The strategy of a document. It is always read from parts that have been set aside. -/
def DistinctStrategy.ofJson? (document : Json) : Option DistinctStrategy := do
  match ← document.toName? true with
  | "adjacent" => some .adjacent
  | "hashed" => some .hashed
  | _ => none

/-- The number of a shard in a list of shards, an integer literal of thirty-two bits. -/
def shardOfJson? (document : Json) : Option ShardId :=
  (document.toNatBelow? UInt32.size).map UInt32.ofNat

/-- The scan with the given members, in no order unless one of them says that it is ordered. -/
def Scan.ofMembers? (members : List (String × Json)) : Option Scan := do
  let table ← Json.required? members "table" Json.toString?
  let shards ← Json.required? members "shards" (Json.toList? shardOfJson?)
  let ordered ← Json.withDefault? members "ordered" false Json.toBool?
  return ⟨table, shards, ordered⟩

/-- The step of a given kind with the given members, its input aside. -/
def Step.ofMembers? (depth : Nat) (kind : String) (members : List (String × Json)) :
    Option Step := do
  match kind with
  | "sort" =>
    let keys ← Json.required? members "keys" (Json.toList? OrderKey.ofJson?)
    let mode ← Json.withDefault? members "mode" .materialize SortMode.ofJson?
    return .sort keys mode
  | "group_by" =>
    let keys ← Json.withDefault? members "keys" [] (Json.toList? OrderKey.ofJson?)
    let aggregates ←
      Json.withDefault? members "aggregates" [] (Json.toList? (AggregateCall.ofJson? depth))
    return .groupBy keys aggregates
  | "distinct" =>
    let keys ← Json.withDefault? members "keys" [] (Json.toList? Json.toString?)
    let strategy ← Json.withDefault? members "strategy" .hashed DistinctStrategy.ofJson?
    return .distinct keys strategy
  | "project" =>
    return .project (← Json.required? members "fields" (Json.toList? (Projection.ofJson? depth)))
  | "slice" =>
    let offset ← Json.optional? members "offset" (Expr.ofJson? depth)
    let limit ← Json.optional? members "limit" (Expr.ofJson? depth)
    return .slice offset limit
  | _ => none

/-- The forms of a node, each with the order of its fields in an array. The input of a step stands
before its own fields. -/
def nodeVariants : List Json.Variant :=
  [⟨"receive", ⟨["table", "shards", "ordered"], 2⟩⟩, ⟨"sort", ⟨["input", "keys", "mode"], 2⟩⟩,
    ⟨"group_by", ⟨["input", "keys", "aggregates"], 1⟩⟩,
    ⟨"distinct", ⟨["input", "keys", "strategy"], 1⟩⟩, ⟨"project", ⟨["input", "fields"], 2⟩⟩,
    ⟨"slice", ⟨["input", "offset", "limit"], 3⟩⟩]

/-- The steps and the scan of a node nested no deeper than `depth`. All nodes but the
outermost one are parts of a node and thus buffered. -/
def nodesOfJson? (buffered : Bool) (depth : Nat) (document : Json) :
    Option (List Step × Scan) :=
  match depth with
  | 0 => none
  | depth + 1 => do
    let (kind, members) ← document.toTagged? "kind" nodeVariants buffered
    if kind = NodeKind.receive.name then
      return ([], ← Scan.ofMembers? members)
    else
      let step ← Step.ofMembers? depth kind members
      let (steps, scan) ← Json.required? members "input" (nodesOfJson? true depth)
      return (step :: steps, scan)

/-- The plan of a document, whatever its version; whether it can be run is not asked here. -/
def Plan.ofJson? (document : Json) : Option Plan := do
  let members ← document.knownMembers? ⟨["version", "root"], 2⟩
  let version ← Json.required? members "version" (Json.toNatBelow? UInt16.size)
  let (steps, scan) ← Json.required? members "root" (nodesOfJson? false Json.depthLimit)
  return ⟨UInt16.ofNat version, steps, scan⟩

/-- The plan of a text given by its octets. -/
def Plan.read? (octets : List UInt8) : Option Plan :=
  (Json.read? octets).bind Plan.ofJson?

/-- The plan of a document, if it can be run. -/
def Plan.decode (document : Option Json) : Except PlanError Plan :=
  match document.bind Plan.ofJson? with
  | none => .error .malformed
  | some plan => plan.check.map fun _ => plan

end ShardQuery
