import ShardQuery.Bindings
import ShardQuery.Plan.Fingerprint
import ShardQuery.Stage.State
import ShardQuery.Text.Base64
import ShardQuery.Uuid

/-!
# Continuation Tokens

A token holds everything that is needed to go on with a query elsewhere. It is a list of
octets: a version, the digest of the plan, the digest of the bind variables, and a JSON
body with the identity of the execution, the time it has taken, and the states of all
nodes. A token is only accepted together with the plan and the bind variables that it was
made with.
-/

namespace ShardQuery

/-- A continuation token: octets that hold everything needed to go on, and that nobody but the
engine has to understand. -/
structure Token where
  /-- The octets. -/
  octets : List UInt8
deriving DecidableEq, Repr

/-- What a token holds behind its header: the identity, the time taken, and the states of all nodes.
-/
structure TokenBody where
  /-- The identity of the execution. -/
  executionId : Uuid
  /-- The time that the execution has taken, in milliseconds. -/
  elapsedMs : Nat
  /-- The kinds of the nodes of the plan. -/
  shape : List NodeKind
  /-- The states of the nodes. -/
  states : List NodeState

/-- The node kind that a document names. It stands in a list of its own and is never set aside. -/
def NodeKind.ofJson? (document : Json) : Option NodeKind := do
  let name ← document.toName? false
  [NodeKind.receive, .sort, .groupBy, .distinct, .project, .slice].find? (·.name == name)

namespace TokenBody

/-- The document of a body, with the kinds of the nodes next to their states. -/
def toJson (body : TokenBody) : Json :=
  .object [
    ("execution_id", .string body.executionId.render),
    ("elapsed_ms", .int body.elapsedMs),
    ("shape", .array (body.shape.map fun kind => .string kind.name)),
    ("states", .array (body.states.map NodeState.toJson))]

/-- The identity of a document, which is written as a text. -/
def idOfJson? (document : Json) : Option Uuid :=
  document.toString?.bind Uuid.parse?

/-- The fields of a body, all of which must be there. -/
def layout : Json.Layout :=
  ⟨["execution_id", "elapsed_ms", "shape", "states"], 4⟩

/-- The body of a document. Unknown members are passed over, and none may be missing. -/
def ofJson? (document : Json) : Option TokenBody := do
  let members ← document.knownMembers? layout
  let executionId ← Json.required? members "execution_id" idOfJson?
  let elapsedMs ← Json.required? members "elapsed_ms" Json.toWord?
  let shape ← Json.required? members "shape" (Json.toList? NodeKind.ofJson?)
  let states ← Json.required? members "states" (Json.toList? NodeState.ofJson?)
  return ⟨executionId, elapsedMs, shape, states⟩

/-- The fault of a body that does not have the nodes of a plan. -/
def fault? (body : TokenBody) (shape : List NodeKind) : Option TokenFault :=
  if body.shape ≠ shape ∨ body.states.length ≠ shape.length then
    some (.otherShape body.states.length shape.length)
  else
    (body.states.zip shape).zipIdx.findSome? fun ((state, kind), position) =>
      if state.kind = kind then none else some (.otherState state.kind position kind)

end TokenBody

namespace Token

/-- The token format that is written and understood. -/
def currentVersion : UInt8 :=
  1

/-- The octets before the body of a token for a plan and bind variables. -/
def header (plan : Plan) (bindings : Bindings) : List UInt8 :=
  currentVersion :: (plan.digest ++ bindings.digest)

/-- The token of a plan, bind variables and a body. -/
def encode (plan : Plan) (bindings : Bindings) (body : TokenBody) : Token :=
  ⟨header plan bindings ++ utf8Octets body.toJson.render⟩

/-- The body of a token that fits a plan and bind variables. -/
def decode (token : Token) (plan : Plan) (bindings : Bindings) : Except TokenFault TokenBody :=
  let octets := token.octets
  if octets.length < tokenHeaderLength then .error (.tooShort octets.length)
  else if octets.headD 0 ≠ currentVersion then .error (.unsupportedVersion (octets.headD 0))
  else if (octets.drop 1).take 32 ≠ plan.digest then .error .otherPlan
  else if (octets.drop 33).take 32 ≠ bindings.digest then .error .otherBindings
  else
    match (Json.read? (octets.drop tokenHeaderLength)).bind TokenBody.ofJson? with
    | none => .error .corrupt
    | some body =>
      match body.fault? plan.shape with
      | some fault => .error fault
      | none => .ok body

/-- The text of a token, for callers that cannot carry octets. -/
def toBase64 (token : Token) : String :=
  Base64.encode token.octets

/-- The token of a text, white space around it aside. -/
def ofBase64 (text : String) : Except QueryError Token :=
  match Base64.decode? (trimWhiteSpace text.toList) with
  | some octets => .ok ⟨octets⟩
  | none => .error (.token .undecodable)

end Token

end ShardQuery
