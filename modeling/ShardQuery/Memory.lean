import ShardQuery.Error

/-!
# Memory Accounts

Rows and keys that an execution holds are paid for from an account with a limit. What a step
of an execution does to the account is described apart from it, as a list of
`MemoryEvent`s: the step itself never looks at the account. `Memory.settle` books the
events in order and stops at the first reservation that the limit does not allow.
-/

namespace ShardQuery

/-- The greatest amount that can be counted. Sums beyond it stay at it. -/
def maxAmount : Nat :=
  UInt64.size - 1

/-- An account of bytes, which every operator of an execution books its rows, groups and keys on. -/
structure Memory where
  /-- How many bytes may be in use. -/
  limit : Nat
  /-- How many bytes are in use. -/
  used : Nat
  /-- How many bytes were ever in use at once. -/
  peak : Nat
deriving DecidableEq, Repr

/-- A change of an account, as a computation gives it out to be booked. -/
inductive MemoryEvent where
  /-- Bytes are to be used; the context is named if the limit forbids it. -/
  | reserve (bytes : Nat) (context : String)
  /-- Bytes are no longer used. -/
  | release (bytes : Nat)
deriving DecidableEq, Repr

namespace Memory

/-- The unused account with a limit in bytes. -/
def ofLimit (limit : Nat) : Memory :=
  ⟨limit, 0, 0⟩

/-- How many bytes a unit of limits has. -/
def bytesPerMb : Nat :=
  1024 * 1024

/-- The unused account with a limit in units of `2 ^ 20` bytes. -/
def ofLimitMb (megabytes : Nat) : Memory :=
  ofLimit (min (megabytes * bytesPerMb) maxAmount)

/-- Uses more bytes, if the limit allows it. -/
def reserve (memory : Memory) (bytes : Nat) (context : String) : Except MemoryExcess Memory :=
  let wanted := min (memory.used + bytes) maxAmount
  if memory.limit < wanted then .error ⟨context, bytes, memory.used, memory.limit⟩
  else .ok { memory with used := wanted, peak := max memory.peak wanted }

/-- Uses fewer bytes. Giving back more than is in use leaves none, and is no error. -/
def release (memory : Memory) (bytes : Nat) : Memory :=
  { memory with used := memory.used - bytes }

/-- Uses no bytes any more, at the end of an execution or when it fails. -/
def releaseAll (memory : Memory) : Memory :=
  { memory with used := 0 }

/-- Books events in order, each given with a state. The account after the last event, or at
the first reservation that is not allowed, then together with the state of that event. -/
def settle {σ : Type} (memory : Memory) :
    List (MemoryEvent × σ) → Memory × Option (MemoryExcess × σ)
  | [] => (memory, none)
  | (.release bytes, _) :: events => (memory.release bytes).settle events
  | (.reserve bytes context, state) :: events =>
    match memory.reserve bytes context with
    | .ok memory => memory.settle events
    | .error excess => (memory, some (excess, state))

end Memory

/-- A computation that changes a state and the account on the way and may fail. What it does
to the account comes with the state at that time, because this is the state that is left if
the account does not allow it. -/
structure Metered (σ α : Type) where
  /-- The changes of the account in their order, each with the state at that time. -/
  events : List (MemoryEvent × σ)
  /-- The state at the end. -/
  state : σ
  /-- The outcome. -/
  result : Except QueryError α

namespace Metered

/-- Succeeds without a change of the account, in a state and with a result. -/
def done {σ α : Type} (state : σ) (a : α) : Metered σ α :=
  ⟨[], state, .ok a⟩

/-- Fails without a change of the account, in a state that is kept for what comes after. -/
def fail {σ α : Type} (state : σ) (error : QueryError) : Metered σ α :=
  ⟨[], state, .error error⟩

/-- A computation behind a change of the account, which is made in a given state. -/
def after {σ α : Type} (event : MemoryEvent) (state : σ) (x : Metered σ α) : Metered σ α :=
  { x with events := (event, state) :: x.events }

/-- A computation on a part of a state. -/
def within {σ τ α : Type} (whole : σ → τ) (x : Metered σ α) : Metered τ α :=
  ⟨x.events.map fun (event, state) => (event, whole state), whole x.state, x.result⟩

/-- One computation after the other, on one state. -/
def andThen {σ α β : Type} (x : Metered σ α) (f : α → σ → Metered σ β) : Metered σ β :=
  match x.result with
  | .ok a =>
    let y := f a x.state
    ⟨x.events ++ y.events, y.state, y.result⟩
  | .error error => ⟨x.events, x.state, .error error⟩

/-- Books the events of a computation. A reservation that is not allowed is its failure,
whatever the outcome would have been. -/
def run {σ α : Type} (x : Metered σ α) (memory : Memory) : Memory × σ × Except QueryError α :=
  match memory.settle x.events with
  | (memory, some (excess, state)) => (memory, state, .error (.memory excess))
  | (memory, none) => (memory, x.state, x.result)

end Metered

end ShardQuery
