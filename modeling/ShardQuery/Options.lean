import ShardQuery.Error
import ShardQuery.Json.Fields

/-!
# Options

A query is run under `QueryOptions` of its caller and the `EngineConfig` of the engine.
`QueryOptions.resolve` checks the options and fills in what they leave open. Times are in
milliseconds.
-/

namespace ShardQuery

/-- How recent the rows of a shard must be. -/
inductive Consistency where
  /-- Recent rows may be missing. -/
  | eventual
  /-- The latest rows are read. -/
  | absolute
deriving DecidableEq, Repr

/-- The name of a consistency, as it stands in plans and requests. -/
def Consistency.name : Consistency → String
  | .eventual => "eventual"
  | .absolute => "absolute"

/-- The consistency of a given name, if there is one of this name. -/
def Consistency.ofName? (name : String) : Option Consistency :=
  [Consistency.eventual, .absolute].find? fun consistency => consistency.name == name

/-- The settings of an engine, from which options that a query leaves out are taken. -/
structure EngineConfig where
  /-- The memory limit of an execution in units of `2 ^ 20` bytes. -/
  maxMemoryMb : Nat
  /-- How many shards are asked at once for rows in any order. -/
  maxFanOut : Nat
  /-- The row limit of batches. -/
  defaultLimit : Option Nat
  /-- The time limit of queries. -/
  defaultTimeoutMs : Option Nat
deriving DecidableEq, Repr

/-- What a caller may ask for. Every option may be left out. -/
structure QueryOptions where
  /-- The most rows of a batch. -/
  limit : Option Nat
  /-- The most units of 1024 bytes that a request may read. -/
  maxReadKb : Option Nat
  /-- The most units of 1024 bytes that a request may write. -/
  maxWriteKb : Option Nat
  /-- The memory limit in units of `2 ^ 20` bytes. -/
  maxMemoryMb : Option Nat
  /-- The size of rows at which a batch ends. -/
  maxBatchBytes : Option Nat
  /-- The most rounds of requests of a batch. -/
  maxRoundTrips : Option Nat
  /-- How recent the rows must be. -/
  consistency : Consistency
  /-- The time limit. -/
  timeoutMs : Option Nat
deriving DecidableEq, Repr

/-- The options under which a query is run. -/
structure ResolvedOptions where
  /-- The most rows of a batch. -/
  limit : Option Nat
  /-- The most units of 1024 bytes that a request may read. -/
  maxReadKb : Option Nat
  /-- The most units of 1024 bytes that a request may write. -/
  maxWriteKb : Option Nat
  /-- The memory limit in units of `2 ^ 20` bytes. -/
  maxMemoryMb : Nat
  /-- The size of rows at which a batch ends. -/
  maxBatchBytes : Option Nat
  /-- The most rounds of requests of a batch. -/
  maxRoundTrips : Option Nat
  /-- How recent the rows must be. -/
  consistency : Consistency
  /-- The time limit. -/
  timeoutMs : Option Nat
  /-- How many shards are asked at once for rows in any order. -/
  maxFanOut : Nat
deriving DecidableEq, Repr

namespace EngineConfig

/-- The settings of an engine by itself, without a file or variables that change them. -/
def standard : EngineConfig :=
  ⟨1024, 4, none, none⟩

/-- The document of settings, in which absent defaults are null. -/
def toJson (config : EngineConfig) : Json :=
  let optional : Option Nat → Json
    | some n => .int n
    | none => .null
  .object [
    ("max_memory_mb", .int config.maxMemoryMb),
    ("max_fan_out", .int config.maxFanOut),
    ("default_limit", optional config.defaultLimit),
    ("default_timeout_ms", optional config.defaultTimeoutMs)]

/-- The settings of a document. What is missing is as in `standard`. -/
def ofJson? (document : Json) : Option EngineConfig := do
  let members ← document.knownMembers?
    ⟨["max_memory_mb", "max_fan_out", "default_limit", "default_timeout_ms"], 0⟩
  let maxMemoryMb ← Json.withDefault? members "max_memory_mb" standard.maxMemoryMb Json.toWord?
  let maxFanOut ← Json.withDefault? members "max_fan_out" standard.maxFanOut Json.toWord?
  let defaultLimit ← Json.optional? members "default_limit" Json.toWord?
  let defaultTimeoutMs ← Json.optional? members "default_timeout_ms" Json.toWord?
  return ⟨maxMemoryMb, maxFanOut, defaultLimit, defaultTimeoutMs⟩

/-- The settings written by a text, if it is the text of such a document. -/
def parse? (text : String) : Option EngineConfig :=
  (Json.parse? text).bind ofJson?

end EngineConfig

namespace QueryOptions

/-- Nothing asked for: all options are left to the settings of the engine. -/
def standard : QueryOptions :=
  ⟨none, none, none, none, none, none, .eventual, none⟩

/-- Rejects an option that is zero, under the name that it has for callers. -/
def requirePositive (option : String) (value : Option Nat) : Except QueryError Unit :=
  if value = some 0 then .error (.zeroOption option) else .ok ()

/-- Accepts options that can be followed, that is, in which nothing asked for is zero. The first one
that is zero is reported. -/
def validate (options : QueryOptions) : Except QueryError Unit := do
  requirePositive "limit" options.limit
  requirePositive "max_read_kb" options.maxReadKb
  requirePositive "max_write_kb" options.maxWriteKb
  requirePositive "max_memory_mb" options.maxMemoryMb
  requirePositive "max_batch_bytes" options.maxBatchBytes
  requirePositive "max_round_trips" options.maxRoundTrips
  requirePositive "timeout" options.timeoutMs

/-- The options under which a query is run: what the caller asks for, otherwise what the
engine is set to. -/
def resolve (options : QueryOptions) (config : EngineConfig) :
    Except QueryError ResolvedOptions := do
  options.validate
  requirePositive "max_fan_out" (some config.maxFanOut)
  return {
    limit := options.limit <|> config.defaultLimit
    maxReadKb := options.maxReadKb
    maxWriteKb := options.maxWriteKb
    maxMemoryMb := options.maxMemoryMb.getD config.maxMemoryMb
    maxBatchBytes := options.maxBatchBytes
    maxRoundTrips := options.maxRoundTrips
    consistency := options.consistency
    timeoutMs := options.timeoutMs <|> config.defaultTimeoutMs
    maxFanOut := config.maxFanOut }

end QueryOptions

end ShardQuery
