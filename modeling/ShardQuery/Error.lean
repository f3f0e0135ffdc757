import ShardQuery.Function.Registry
import ShardQuery.Plan.Validity
import ShardQuery.Text.Duration

/-!
# Query Errors

Everything that can go wrong while a query is started or run, as causes. A cause belongs to
one of six classes (`ErrorCode`), which callers can tell apart without reading texts. The
wording of all causes is in `QueryError.message`.
-/

namespace ShardQuery

/-- The classes of errors, by which a caller tells what to do about them. -/
inductive ErrorCode where
  /-- The caller passed something unusable. -/
  | illegalArgument
  /-- A plan or a token cannot be understood. -/
  | badProtocol
  /-- The rows held would take too much memory. -/
  | memoryLimitExceeded
  /-- The execution is in an impossible state. -/
  | illegalState
  /-- A shard request failed. -/
  | requestFailed
  /-- The time is up. -/
  | requestTimeout
deriving DecidableEq, Repr

/-- The name of a class, under which programs report it. -/
def ErrorCode.name : ErrorCode → String
  | .illegalArgument => "ILLEGAL_ARGUMENT"
  | .badProtocol => "BAD_PROTOCOL_MESSAGE"
  | .memoryLimitExceeded => "MEMORY_LIMIT_EXCEEDED"
  | .illegalState => "ILLEGAL_STATE"
  | .requestFailed => "REQUEST_FAILED"
  | .requestTimeout => "REQUEST_TIMEOUT"

/-! ### Shard requests -/

/-- Why a shard request failed, as its reader tells it. -/
inductive RequestErrorKind where
  /-- The shard could not be reached. -/
  | network
  /-- The shard answered with an error. -/
  | service
  /-- The shard asked for fewer requests. -/
  | throttled
  /-- The shard did not answer in time. -/
  | timeout
  /-- The shard refused access. -/
  | security
deriving DecidableEq, Repr

/-- The name of a kind of failure, as it begins the wording of a failed request. -/
def RequestErrorKind.name : RequestErrorKind → String
  | .network => "Network"
  | .service => "Service"
  | .throttled => "Throttled"
  | .timeout => "Timeout"
  | .security => "Security"

/-- A failed shard request, which ends the batch that has sent it. -/
structure RequestError where
  /-- Why it failed. -/
  kind : RequestErrorKind
  /-- What the shard said. -/
  message : String
  /-- Whether the same request may succeed later. -/
  retryable : Bool
deriving DecidableEq, Repr

/-- The wording of a failed request: its kind, and what the shard said. -/
def RequestError.display (error : RequestError) : String :=
  s!"{error.kind.name} error: {error.message}"

/-! ### Tokens -/

/-- A reason why a continuation token is rejected. -/
inductive TokenFault where
  /-- The text is not the base64 form of any octets. -/
  | undecodable
  /-- The token ends within its header. -/
  | tooShort (length : Nat)
  /-- The token has another format version. -/
  | unsupportedVersion (version : UInt8)
  /-- The token belongs to another plan. -/
  | otherPlan
  /-- The token belongs to other bind variables. -/
  | otherBindings
  /-- The body is not of the form that tokens have. -/
  | corrupt
  /-- The token has not the nodes of the plan. -/
  | otherShape (found expected : Nat)
  /-- The token has a state of the wrong kind for a node. -/
  | otherState (found : NodeKind) (position : Nat) (expected : NodeKind)
deriving DecidableEq, Repr

/-- The octets before the body of a token: a version and two digests. -/
def tokenHeaderLength : Nat :=
  1 + 32 + 32

/-- The wording of a fault, with the length or the version that was found where there is one. -/
def TokenFault.message : TokenFault → String
  | .undecodable => "invalid continuation token"
  | .tooShort length =>
    s!"continuation token is {length} bytes, expected at least {tokenHeaderLength}"
  | .unsupportedVersion version => s!"unsupported continuation token version {version.toNat}"
  | .otherPlan => "continuation token was produced by a different plan"
  | .otherBindings => "continuation token was produced with different bind variables"
  | .corrupt => "corrupt continuation token"
  | .otherShape found expected =>
    s!"continuation token has {found} operators, plan has {expected}"
  | .otherState found position expected =>
    s!"continuation token holds a {found.name} state at position {position} " ++
      s!"where the plan has {expected.name}"

/-- The class of a fault. A token of another version or plan, or with an unreadable body, is a bad
message; any other fault is one of the argument. -/
def TokenFault.code : TokenFault → ErrorCode
  | .unsupportedVersion _ | .otherPlan | .corrupt => .badProtocol
  | _ => .illegalArgument

/-! ### Causes -/

/-- The place, the amount and the account of a failed reservation. -/
structure MemoryExcess where
  /-- Who wanted memory. -/
  context : String
  /-- How many bytes were wanted. -/
  requested : Nat
  /-- How many bytes were in use. -/
  used : Nat
  /-- How many bytes may be in use. -/
  limit : Nat
deriving DecidableEq, Repr

/-- A reason why a query fails, at its start or in one of its batches. -/
inductive QueryError where
  /-- An option that must be positive is zero. -/
  | zeroOption (option : String)
  /-- A bind variable is named by position zero. -/
  | zeroPosition
  /-- A bind variable has no value. -/
  | unbound (ref : BindRef)
  /-- A function cannot be used. -/
  | function (error : FunctionError)
  /-- A value that is no number is negated. -/
  | negation (typeName : String)
  /-- An integer is divided by zero. -/
  | divisionByZero
  /-- An arithmetic operation is applied to values that are not both numbers. -/
  | arithmetic (left right : String)
  /-- A function of groups meets a value that is no number. -/
  | aggregation (function : AggregateFunction) (typeName : String)
  /-- A bound of a slice is no natural number. -/
  | sliceBound (bound typeName : String)
  /-- A statement is not known. -/
  | unprepared (statement : String)
  /-- The text of a plan cannot be read. -/
  | unreadablePlan
  /-- A plan is rejected. -/
  | plan (error : PlanError)
  /-- A continuation token is rejected. -/
  | token (fault : TokenFault)
  /-- The memory limit would be exceeded. -/
  | memory (excess : MemoryExcess)
  /-- The rows to be grouped are not sorted. -/
  | unsortedGroups (fields : List String)
  /-- The state of a scan does not belong to its shards. -/
  | scanState (position : Nat)
  /-- Rows are merged by a sort over something else than a scan. -/
  | mergeInput (kind : NodeKind)
  /-- Shards must be asked, but there is nothing to ask. -/
  | noRequests
  /-- A shard request failed. -/
  | request (error : RequestError)
  /-- The time of a query is up. -/
  | timeout (milliseconds : Nat)
deriving DecidableEq, Repr

namespace QueryError

/-- The class of an error, which depends on its kind alone but for functions and tokens. -/
def code : QueryError → ErrorCode
  | .zeroOption _ | .zeroPosition | .unbound _ | .negation _ | .divisionByZero
  | .arithmetic .. | .aggregation .. | .sliceBound .. | .unprepared _ | .unreadablePlan =>
    .illegalArgument
  | .function (.invalidArgument ..) => .illegalArgument
  | .function _ | .plan _ => .badProtocol
  | .token fault => fault.code
  | .memory _ => .memoryLimitExceeded
  | .unsortedGroups _ | .scanState _ | .mergeInput _ | .noRequests => .illegalState
  | .request _ => .requestFailed
  | .timeout _ => .requestTimeout

/-- What is wrong, without the class: the names, types and amounts that the error is about. -/
def detail : QueryError → String
  | .zeroOption option => s!"{option} must be greater than zero"
  | .zeroPosition => "bind variable positions start at 1"
  | .unbound ref => s!"bind variable {ref.display} is not bound"
  | .function error => error.message
  | .negation typeName => s!"cannot negate a {typeName} value"
  | .divisionByZero => "division by zero"
  | .arithmetic left right => s!"arithmetic on {left} and {right} values"
  | .aggregation aggregate typeName => s!"{aggregate.name} over a {typeName} value"
  | .sliceBound bound typeName => s!"{bound} must be a non-negative integer, got {typeName}"
  | .unprepared statement => s!"statement not prepared: {statement}"
  | .unreadablePlan => "cannot read plan"
  | .plan error => error.message
  | .token fault => fault.message
  | .memory excess =>
    s!"Memory limit exceeded in {excess.context}: requested {excess.requested} bytes " ++
      s!"with {excess.used} of {excess.limit} in use"
  | .unsortedGroups fields => "group by input is not sorted on " ++ ", ".intercalate fields
  | .scanState position =>
    s!"operator state at position {position} is not a {NodeKind.receive.name} state"
  | .mergeInput kind => s!"merge sort over a {kind.name} step"
  | .noRequests => "operator needs input but queued no shard requests"
  | .request error => error.display
  | .timeout milliseconds => "Query timed out after " ++ durationText milliseconds

/-- The wording of an error. Three of the classes are named in front of it; the others explain
themselves. -/
def message (error : QueryError) : String :=
  match error.code with
  | .illegalArgument => "Illegal argument: " ++ error.detail
  | .badProtocol => "Bad protocol message: " ++ error.detail
  | .illegalState => "Illegal state: " ++ error.detail
  | .memoryLimitExceeded | .requestFailed | .requestTimeout => error.detail

/-- Whether the same query may succeed later. Only a failed shard request can say so. -/
def isRetryable : QueryError → Bool
  | .request error => error.retryable
  | _ => false

end QueryError

end ShardQuery
