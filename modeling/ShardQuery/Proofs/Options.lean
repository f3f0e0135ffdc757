import ShardQuery.Options
import ShardQuery.Proofs.Except

/-!
# Accepted Options

Options can be followed if none of the limits that the caller asks for is zero, and the engine asks
some shard at once. What else the engine is set to is not looked at: where the caller asks for none,
a limit of no rows, an account without memory and a time limit of nothing are taken over.

Main definitions:

* `QueryOptions.HasNoZero`, `ResolvedOptions.HasNoZero` — no limit is zero;
* `QueryOptions.Covers` — a limit is asked for wherever the engine is set to zero.

## Main results

* `QueryOptions.resolve_eq_ok_iff`: the options that can be followed, and what they resolve to.
* `QueryOptions.hasNoZero_iff_of_resolve`: zeros come from the settings of the engine.
-/

namespace ShardQuery

/-- Whether no limit that the caller asks for is zero. -/
structure QueryOptions.HasNoZero (options : QueryOptions) : Prop where
  /-- A batch may have a row. -/
  limit : options.limit ≠ some 0
  /-- A request may read. -/
  maxReadKb : options.maxReadKb ≠ some 0
  /-- A request may write. -/
  maxWriteKb : options.maxWriteKb ≠ some 0
  /-- There is memory. -/
  maxMemoryMb : options.maxMemoryMb ≠ some 0
  /-- A batch may have a row that has a size. -/
  maxBatchBytes : options.maxBatchBytes ≠ some 0
  /-- A batch may ask the shards. -/
  maxRoundTrips : options.maxRoundTrips ≠ some 0
  /-- There is time. -/
  timeoutMs : options.timeoutMs ≠ some 0

/-- Whether no limit under which a query is run is zero. -/
structure ResolvedOptions.HasNoZero (options : ResolvedOptions) : Prop where
  /-- A batch may have a row. -/
  limit : options.limit ≠ some 0
  /-- A request may read. -/
  maxReadKb : options.maxReadKb ≠ some 0
  /-- A request may write. -/
  maxWriteKb : options.maxWriteKb ≠ some 0
  /-- There is memory. -/
  maxMemoryMb : options.maxMemoryMb ≠ 0
  /-- A batch may have a row that has a size. -/
  maxBatchBytes : options.maxBatchBytes ≠ some 0
  /-- A batch may ask the shards. -/
  maxRoundTrips : options.maxRoundTrips ≠ some 0
  /-- There is time. -/
  timeoutMs : options.timeoutMs ≠ some 0
  /-- A shard may be asked. -/
  maxFanOut : options.maxFanOut ≠ 0

namespace QueryOptions

variable {options : QueryOptions} {config : EngineConfig} {resolved : ResolvedOptions}

/-- An option is accepted if it is not zero. An option that is not given is accepted too. -/
theorem requirePositive_eq_ok_iff {option : String} {value : Option Nat} :
    requirePositive option value = .ok () ↔ value ≠ some 0 := by
  rw [requirePositive]
  split
  · next h => exact iff_of_false nofun (not_not_intro h)
  · next h => exact iff_of_true rfl h

/-- The options of a query are accepted exactly if none of them is zero. -/
theorem validate_eq_ok_iff : options.validate = .ok () ↔ options.HasNoZero := by
  simp only [validate, check_bind_eq_ok_iff, requirePositive_eq_ok_iff]
  constructor
  · rintro ⟨hlimit, hread, hwrite, hmemory, hbytes, hrounds, htime⟩
    exact ⟨hlimit, hread, hwrite, hmemory, hbytes, hrounds, htime⟩
  · rintro ⟨hlimit, hread, hwrite, hmemory, hbytes, hrounds, htime⟩
    exact ⟨hlimit, hread, hwrite, hmemory, hbytes, hrounds, htime⟩

/-- **The options that can be followed**, and what they resolve to. -/
theorem resolve_eq_ok_iff : options.resolve config = .ok resolved ↔
    options.HasNoZero ∧ config.maxFanOut ≠ 0 ∧
      resolved = ⟨options.limit <|> config.defaultLimit, options.maxReadKb, options.maxWriteKb,
        options.maxMemoryMb.getD config.maxMemoryMb, options.maxBatchBytes, options.maxRoundTrips,
        options.consistency, options.timeoutMs <|> config.defaultTimeoutMs, config.maxFanOut⟩ := by
  have hpure {a b : ResolvedOptions} : (pure a : Except QueryError _) = .ok b ↔ b = a :=
    ⟨fun h => (Except.ok.inj h).symm, fun h => congrArg Except.ok h.symm⟩
  simp only [resolve, check_bind_eq_ok_iff, validate_eq_ok_iff, requirePositive_eq_ok_iff, hpure,
    ne_eq, Option.some.injEq]

/-- Whether a limit is asked for wherever the engine is set to zero. -/
structure Covers (options : QueryOptions) (config : EngineConfig) : Prop where
  /-- The engine lets batches have a row, or a number of rows is asked for. -/
  limit : options.limit = none → config.defaultLimit ≠ some 0
  /-- The engine has memory, or some is asked for. -/
  maxMemoryMb : options.maxMemoryMb = none → config.maxMemoryMb ≠ 0
  /-- The engine gives time, or some is asked for. -/
  timeoutMs : options.timeoutMs = none → config.defaultTimeoutMs ≠ some 0

/-- An option that is not zero, or what the engine is set to instead. -/
theorem orElse_ne_zero_iff {asked : Option Nat} (h : asked ≠ some 0) (default : Option Nat) :
    (asked <|> default) ≠ some 0 ↔ (asked = none → default ≠ some 0) := by
  cases asked with
  | none => exact ⟨fun hne _ => hne, fun hne => hne rfl⟩
  | some n => exact iff_of_true h nofun

/-- **Zeros come from the settings of the engine**: options that can be followed resolve to limits
without a zero exactly if the caller asks for one wherever the engine is set to zero. -/
theorem hasNoZero_iff_of_resolve (h : options.resolve config = .ok resolved) :
    resolved.HasNoZero ↔ options.Covers config := by
  obtain ⟨hasked, hfanOut, rfl⟩ := resolve_eq_ok_iff.1 h
  have hlimit := orElse_ne_zero_iff hasked.limit config.defaultLimit
  have htime := orElse_ne_zero_iff hasked.timeoutMs config.defaultTimeoutMs
  have hmemory : options.maxMemoryMb.getD config.maxMemoryMb ≠ 0 ↔
      (options.maxMemoryMb = none → config.maxMemoryMb ≠ 0) := by
    cases hmost : options.maxMemoryMb with
    | none => exact ⟨fun hne _ => hne, fun hne => hne rfl⟩
    | some n => exact iff_of_true (fun hzero => hasked.maxMemoryMb (hzero ▸ hmost)) nofun
  constructor
  · exact fun hno => ⟨hlimit.1 hno.limit, hmemory.1 hno.maxMemoryMb, htime.1 hno.timeoutMs⟩
  · exact fun hcovers => ⟨hlimit.2 hcovers.limit, hasked.maxReadKb, hasked.maxWriteKb,
      hmemory.2 hcovers.maxMemoryMb, hasked.maxBatchBytes, hasked.maxRoundTrips,
      htime.2 hcovers.timeoutMs, hfanOut⟩

end QueryOptions

end ShardQuery
