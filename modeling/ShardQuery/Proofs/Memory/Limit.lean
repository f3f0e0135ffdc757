import ShardQuery.Proofs.Memory.Ledger

/-!
# Memory Limits

What a query does never depends on its account: the account only records what is in use, and fails
the query where more is wanted than it allows. So another limit does one of two things to a
computation, depending on the peak of its account: nothing, or it fails the computation.

Main definitions:

* `Execution.withBudget`, `BatchRun.withBudget` — an execution and a batch under another limit.

## Main results

* `Metered.run_withLimit`, `Metered.run_of_lt_peak`: what another limit does to a computation.
* `BatchRun.moves_withBudget`, `BatchRun.moves_of_lt_peak`: what it does to a step of a batch.
-/

namespace ShardQuery

variable {σ α : Type}

/-- Whether a computation has failed because its account did not allow a reservation. -/
def OutOfMemory (result : Except QueryError α) : Prop :=
  ∃ excess, result = .error (.memory excess)

/-- A result that is there is no failure for want of memory. -/
theorem not_outOfMemory_ok (a : α) : ¬ OutOfMemory (.ok a : Except QueryError α) := by
  rintro ⟨excess, h⟩
  cases h

/-! ### Accounts -/

namespace Memory

/-- An account with another limit, and the same amounts in use and at the peak. -/
def withLimit (memory : Memory) (limit : Nat) : Memory :=
  { memory with limit := limit }

/-- What can become of an account: its limit stays, its peak only grows and stays within the
limit. -/
structure Grows (memory m : Memory) : Prop where
  /-- The limit stays. -/
  limit_eq : m.limit = memory.limit
  /-- The peak grows. -/
  peak_le : memory.peak ≤ m.peak
  /-- The peak stays within the limit. -/
  peak_le_limit : memory.peak ≤ memory.limit → m.peak ≤ m.limit

/-- An account on which nothing is booked has grown, trivially. -/
theorem Grows.refl (memory : Memory) : memory.Grows memory :=
  ⟨rfl, Nat.le_refl _, id⟩

/-- Growth over two stretches is growth over both. -/
theorem Grows.trans {a b c : Memory} (h₁ : a.Grows b) (h₂ : b.Grows c) : a.Grows c :=
  ⟨h₂.limit_eq.trans h₁.limit_eq, Nat.le_trans h₁.peak_le h₂.peak_le,
    fun h => h₂.peak_le_limit (h₁.peak_le_limit h)⟩

section

variable {memory m : Memory} {limit : Nat}

/-- A reservation that keeps to another limit is allowed under it as well, with the same amounts. -/
theorem reserve_withLimit {bytes : Nat} {context : String}
    (h : memory.reserve bytes context = .ok m) (hpeak : m.peak ≤ limit) :
    (memory.withLimit limit).reserve bytes context = .ok (m.withLimit limit) := by
  obtain ⟨-, rfl⟩ := reserve_eq_ok h
  have hwanted : min (memory.used + bytes) maxAmount ≤ limit :=
    Nat.le_trans (Nat.le_max_right _ _) hpeak
  exact if_neg (Nat.not_lt.2 hwanted)

/-- A reservation that is beyond another limit is refused under it. It is the first to be so, as the
peak was within the limit before. -/
theorem reserve_of_lt_peak {bytes : Nat} {context : String}
    (h : memory.reserve bytes context = .ok m) (hbefore : memory.peak ≤ limit)
    (hpeak : limit < m.peak) :
    ∃ excess, (memory.withLimit limit).reserve bytes context = .error excess := by
  obtain ⟨-, rfl⟩ := reserve_eq_ok h
  have hwanted : limit < min (memory.used + bytes) maxAmount := by
    simp only at hpeak
    omega
  exact ⟨_, if_pos hwanted⟩

/-- Events that keep to another limit are booked in the same way. -/
theorem settle_withLimit {events : List (MemoryEvent × σ)}
    (h : memory.settle events = (m, none)) (hpeak : m.peak ≤ limit) :
    (memory.withLimit limit).settle events = (m.withLimit limit, none) := by
  induction events generalizing memory with
  | nil =>
      cases h
      rfl
  | cons entry events ih =>
      obtain ⟨event, s⟩ := entry
      cases event with
      | release bytes => exact @ih (memory.release bytes) h
      | reserve bytes context =>
          rw [settle] at h ⊢
          rcases hr : memory.reserve bytes context with excess | next <;> rw [hr] at h
          · cases h
          · have hnext : next.peak ≤ m.peak := by
              have hle := peak_le_settle next events
              rwa [show next.settle events = (m, none) from h] at hle
            rw [reserve_withLimit hr (Nat.le_trans hnext hpeak)]
            exact ih h

/-- Among events whose peak is beyond another limit there is one that this limit does not allow. -/
theorem settle_of_lt_peak {events : List (MemoryEvent × σ)}
    (h : memory.settle events = (m, none)) (hbefore : memory.peak ≤ limit)
    (hpeak : limit < m.peak) :
    ∃ m' excess s, (memory.withLimit limit).settle events = (m', some (excess, s)) := by
  induction events generalizing memory with
  | nil =>
      cases h
      exact absurd hpeak (Nat.not_lt.2 hbefore)
  | cons entry events ih =>
      obtain ⟨event, s⟩ := entry
      cases event with
      | release bytes => exact @ih (memory.release bytes) h hbefore
      | reserve bytes context =>
          rw [settle] at h ⊢
          rcases hr : memory.reserve bytes context with excess | next <;> rw [hr] at h
          · cases h
          · rcases Nat.lt_or_ge limit next.peak with hlt | hle
            · obtain ⟨excess, hrefused⟩ := reserve_of_lt_peak hr hbefore hlt
              rw [hrefused]
              exact ⟨_, excess, s, rfl⟩
            · rw [reserve_withLimit hr hle]
              exact ih h hle

end

end Memory

namespace Metered

variable {memory m : Memory} {x : Metered σ α} {s : σ} {result : Except QueryError α} {limit : Nat}

/-- A booked computation that does not run out of memory has booked all of its events. -/
theorem settle_of_run (h : x.run memory = (m, s, result)) (hresult : ¬ OutOfMemory result) :
    memory.settle x.events = (m, none) ∧ x.state = s ∧ x.result = result := by
  cases result with
  | ok a => exact run_eq_ok_iff.1 h
  | error error =>
      obtain ⟨excess, -, rfl⟩ | hsettle := run_eq_error h
      · exact absurd ⟨excess, rfl⟩ hresult
      · exact hsettle

/-- Every computation makes its account grow, also one that fails. -/
theorem grows_of_run (h : x.run memory = (m, s, result)) : memory.Grows m := by
  have hm : (memory.settle x.events).1 = m := by rw [← run_memory, h]
  subst hm
  exact ⟨Memory.settle_limit _ _, Memory.peak_le_settle _ _,
    fun hle => Memory.peak_settle_le_limit hle _⟩

/-- A computation that keeps to another limit does the same under it. -/
theorem run_withLimit (h : x.run memory = (m, s, result)) (hresult : ¬ OutOfMemory result)
    (hpeak : m.peak ≤ limit) :
    x.run (memory.withLimit limit) = (m.withLimit limit, s, result) := by
  obtain ⟨hsettle, rfl, rfl⟩ := settle_of_run h hresult
  rw [run, Memory.settle_withLimit hsettle hpeak]

/-- A computation whose peak is beyond another limit runs out of memory under it. -/
theorem run_of_lt_peak (h : x.run memory = (m, s, result)) (hresult : ¬ OutOfMemory result)
    (hbefore : memory.peak ≤ limit) (hpeak : limit < m.peak) :
    ∃ m' s' excess, x.run (memory.withLimit limit) = (m', s', .error (.memory excess)) := by
  obtain ⟨hsettle, -, -⟩ := settle_of_run h hresult
  obtain ⟨m', excess, s', hrefused⟩ := Memory.settle_of_lt_peak hsettle hbefore hpeak
  exact ⟨m', s', excess, by rw [run, hrefused]⟩

end Metered

/-! ### Batches in the making -/

/-- Options with another memory limit, and everything else as it was. -/
def ResolvedOptions.withMemoryMb (options : ResolvedOptions) (megabytes : Nat) : ResolvedOptions :=
  { options with maxMemoryMb := megabytes }

/-- An execution with another memory limit, in its options and in its account. -/
def Execution.withBudget (execution : Execution) (megabytes limit : Nat) : Execution :=
  { execution with
    options := execution.options.withMemoryMb megabytes
    memory := execution.memory.withLimit limit }

namespace BatchRun

/-- A batch in the making with another memory limit. -/
def withBudget (run : BatchRun σ) (megabytes limit : Nat) : BatchRun σ :=
  { run with execution := run.execution.withBudget megabytes limit }

variable {reader : ShardReader σ} {run next : BatchRun σ} {reason : Option BatchEnd}
  {megabytes limit : Nat}

/-- Every step of a batch makes the account grow, in each of the ways in which a step may go. -/
theorem grows_of_moves (h : Moves reader run next reason) :
    run.execution.memory.Grows next.execution.memory := by
  cases h with
  | full => exact .refl _
  | broken _ hb | row _ hb | exhausted _ hb | again _ hb | noRound _ hb | idle _ hb | noTime _ hb
  | late _ hb => exact Metered.grows_of_run hb
  | refused _ hb _ _ _ _ hi | round _ hb _ _ _ _ hi =>
      exact (Metered.grows_of_run hb).trans (Metered.grows_of_run hi)

/-- A step that keeps to another limit is the same under it. -/
theorem moves_withBudget (megabytes : Nat) (h : Moves reader run next reason)
    (hreason : ∀ excess, reason ≠ some (.failed (.memory excess)))
    (hpeak : next.execution.memory.peak ≤ limit) :
    Moves reader (run.withBudget megabytes limit) (next.withBudget megabytes limit) reason := by
  -- Whatever a move asks of the batch apart from booking is the same under another limit.
  have htick {m : Memory} {p : Pipeline} {signal : Signal}
      (hb : run.booked = (m, p, .ok signal))
      (hm : m.peak ≤ limit) :
      (run.withBudget megabytes limit).booked = (m.withLimit _, p, .ok signal) :=
    Metered.run_withLimit hb (not_outOfMemory_ok _) hm
  cases h with
  | full hfull => exact .full hfull
  | broken hfull hb =>
      refine .broken hfull (Metered.run_withLimit hb ?_ hpeak)
      rintro ⟨excess, h⟩
      cases h
      exact hreason excess rfl
  | row hfull hb => exact .row hfull (htick hb hpeak)
  | exhausted hfull hb => exact .exhausted hfull (htick hb hpeak)
  | again hfull hb => exact .again hfull (htick hb hpeak)
  | noRound hfull hb hround => exact .noRound hfull (htick hb hpeak) hround
  | idle hfull hb hround hrequests => exact .idle hfull (htick hb hpeak) hround hrequests
  | noTime hfull hb hround hrequests htime =>
      exact .noTime hfull (htick hb hpeak) hround hrequests htime
  | late hfull hb hround hrequests htime hlate =>
      exact .late hfull (htick hb hpeak) hround hrequests htime hlate
  | refused hfull hb hround hrequests htime hlate hi =>
      have hm := Nat.le_trans (Metered.grows_of_run hi).peak_le hpeak
      refine .refused hfull (htick hb hm) hround hrequests htime hlate
        (Metered.run_withLimit hi ?_ hpeak)
      rintro ⟨excess, h⟩
      cases h
      exact hreason excess rfl
  | round hfull hb hround hrequests htime hlate hi =>
      have hm := Nat.le_trans (Metered.grows_of_run hi).peak_le hpeak
      exact .round hfull (htick hb hm) hround hrequests htime hlate
        (Metered.run_withLimit hi (not_outOfMemory_ok _) hpeak)

/-- A step whose peak is beyond another limit runs out of memory under it. -/
theorem moves_of_lt_peak (megabytes : Nat) (h : Moves reader run next reason)
    (hreason : ∀ excess, reason ≠ some (.failed (.memory excess)))
    (hbefore : run.execution.memory.peak ≤ limit)
    (hpeak : limit < next.execution.memory.peak) :
    ∃ last excess,
      Moves reader (run.withBudget megabytes limit) last (some (.failed (.memory excess))) := by
  have hbroken {m : Memory} {p : Pipeline} {result : Except QueryError Signal}
      (hfull : run.isFull = false) (hb : run.booked = (m, p, result))
      (hresult : ¬ OutOfMemory result) (hm : limit < m.peak) :
      ∃ last excess,
        Moves reader (run.withBudget megabytes limit) last (some (.failed (.memory excess))) := by
    obtain ⟨m', p', excess, hb'⟩ := Metered.run_of_lt_peak hb hresult hbefore hm
    exact ⟨_, excess, .broken hfull hb'⟩
  -- In a round the limit does not allow the tick or, if it does, the answers.
  have hround {m m' : Memory} {p p' : Pipeline} {wanted : List Nat}
      {result : Except QueryError Unit} (hfull : run.isFull = false)
      (hb : run.booked = (m, p, .ok (.fetch wanted))) (hrounds : run.hasRound = true)
      (hrequests : (run.moved m p).execution.requests wanted ≠ [])
      (htime : run.remainingMs reader ≠ some 0) (hlate : run.isLate reader = false)
      (hi : (run.moved m p).installed reader wanted = (m', p', result))
      (hresult : ¬ OutOfMemory result)
      (hm : limit < m'.peak) : ∃ last excess,
        Moves reader (run.withBudget megabytes limit) last (some (.failed (.memory excess))) := by
    rcases Nat.lt_or_ge limit m.peak with hlt | hle
    · exact hbroken hfull hb (not_outOfMemory_ok _) hlt
    · obtain ⟨m'', p'', excess, hi'⟩ := Metered.run_of_lt_peak hi hresult hle hm
      exact ⟨_, excess, .refused hfull (Metered.run_withLimit hb (not_outOfMemory_ok _) hle) hrounds
        hrequests htime hlate hi'⟩
  cases h with
  | full => exact absurd hpeak (Nat.not_lt.2 hbefore)
  | broken hfull hb =>
      refine hbroken hfull hb ?_ hpeak
      rintro ⟨excess, h⟩
      cases h
      exact hreason excess rfl
  | row hfull hb | exhausted hfull hb | again hfull hb | noRound hfull hb | idle hfull hb
  | noTime hfull hb | late hfull hb => exact hbroken hfull hb (not_outOfMemory_ok _) hpeak
  | refused hfull hb hrounds hrequests htime hlate hi =>
      refine hround hfull hb hrounds hrequests htime hlate hi ?_ hpeak
      rintro ⟨excess, h⟩
      cases h
      exact hreason excess rfl
  | round hfull hb hrounds hrequests htime hlate hi =>
      exact hround hfull hb hrounds hrequests htime hlate hi (not_outOfMemory_ok _) hpeak

end BatchRun

end ShardQuery
