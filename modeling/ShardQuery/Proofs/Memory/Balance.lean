import ShardQuery.Proofs.Metered

/-!
# Balanced Computations

A state weighs as many bytes as it is charged for. A computation is *balanced* if the account
and the weight of its state go together: it never gives back more than is in use, whenever it
reserves bytes it is in a state that weighs what is in use, and in the end the account has
changed by as much as the weight.

Being balanced is a property of the events alone. `Metered.run_used` carries it over to every
account that does not run into the end of the counted amounts: after a booked computation,
successful or not, exactly what the state weighs is in use.
-/

namespace ShardQuery

variable {σ τ α β : Type}

/-- Whether events, booked while `used` bytes are in use, never give back more than is in use
and leave `left` bytes in use. Whenever bytes are reserved, the state of that time weighs what
is in use. -/
def Balances (weight : σ → Nat) : Nat → List (MemoryEvent × σ) → Nat → Prop
  | used, [], left => used = left
  | used, (.release bytes, _) :: events, left =>
    bytes ≤ used ∧ Balances weight (used - bytes) events left
  | used, (.reserve bytes _, s) :: events, left =>
    used = weight s ∧ Balances weight (used + bytes) events left

/-- Whether a computation that starts while `used` bytes are in use is balanced. -/
def Metered.Balanced (weight : σ → Nat) (used : Nat) (x : Metered σ α) : Prop :=
  Balances weight used x.events (weight x.state)

/-! ### Composition -/

/-- Balanced events in a row are balanced, from what is in use at first to what is in use in the
end. -/
theorem Balances.append {weight : σ → Nat} {a b c : Nat} {first second : List (MemoryEvent × σ)}
    (h₁ : Balances weight a first b) (h₂ : Balances weight b second c) :
    Balances weight a (first ++ second) c := by
  induction first generalizing a with
  | nil =>
      obtain rfl : a = b := h₁
      exact h₂
  | cons entry first ih =>
      obtain ⟨event, s⟩ := entry
      cases event with
      | release bytes => exact ⟨h₁.1, ih h₁.2⟩
      | reserve bytes context => exact ⟨h₁.1, ih h₁.2⟩

/-- Events stay balanced within a state that weighs a fixed amount more. -/
theorem Balances.map {weight : σ → Nat} {weight' : τ → Nat} {f : σ → τ} {a b rest : Nat}
    {events : List (MemoryEvent × σ)} (h : Balances weight a events b)
    (hf : ∀ s, weight' (f s) = rest + weight s) :
    Balances weight' (rest + a) (events.map fun e => (e.1, f e.2)) (rest + b) := by
  induction events generalizing a with
  | nil =>
      obtain rfl : a = b := h
      rfl
  | cons entry events ih =>
      obtain ⟨event, s⟩ := entry
      cases event with
      | release bytes =>
          refine ⟨Nat.le_add_left_of_le h.1, ?_⟩
          rw [Nat.add_sub_assoc h.1]
          exact ih h.2
      | reserve bytes context =>
          refine ⟨by rw [hf, h.1], ?_⟩
          rw [Nat.add_assoc]
          exact ih h.2

namespace Metered

/-- A computation that does nothing is balanced: what is in use stays the weight of its state. -/
theorem balanced_done (weight : σ → Nat) (s : σ) (a : α) :
    (done s a).Balanced weight (weight s) := rfl

/-- A computation that fails at once is balanced as well, as it has booked nothing. -/
theorem balanced_fail (weight : σ → Nat) (s : σ) (e : QueryError) :
    (fail s e : Metered σ α).Balanced weight (weight s) := rfl

/-- A part of a state is balanced within the whole, beside a rest whose weight stays fixed. -/
theorem Balanced.within {weight : σ → Nat} {weight' : τ → Nat} {f : σ → τ} {used rest : Nat}
    {x : Metered σ α} (h : x.Balanced weight used) (hf : ∀ s, weight' (f s) = rest + weight s) :
    (x.within f).Balanced weight' (rest + used) := by
  have hmap := Balances.map h hf
  rw [← hf] at hmap
  exact hmap

/-- A part of a state that has all of the weight. -/
theorem Balanced.within_same {weight : σ → Nat} {weight' : τ → Nat} {f : σ → τ} {used : Nat}
    {x : Metered σ α} (h : x.Balanced weight used) (hf : ∀ s, weight' (f s) = weight s) :
    (x.within f).Balanced weight' used := by
  have hw : (x.within f).Balanced weight' (0 + used) :=
    h.within fun s => (hf s).trans (Nat.zero_add _).symm
  rwa [Nat.zero_add] at hw

/-- States that weigh a fixed amount more, for a computation that leaves everything beside its own
state alone. -/
theorem Balanced.add {weight : σ → Nat} {used : Nat} {x : Metered σ α}
    (h : x.Balanced weight used) (rest : Nat) :
    x.Balanced (fun s => rest + weight s) (rest + used) := by
  have hsame : x.events.map (fun e => (e.1, id e.2)) = x.events := List.map_id _
  have hmap := @Balances.map σ σ weight (fun s => rest + weight s) id _ _ rest _ h fun _ => rfl
  rwa [hsame] at hmap

/-- A computation after another is balanced if each of them is, the second from the weight that the
first has left. If the first fails, the second does not come up. -/
theorem Balanced.andThen {weight : σ → Nat} {used : Nat} {x : Metered σ α}
    {f : α → σ → Metered σ β} (h : x.Balanced weight used)
    (hf : ∀ a, x.result = .ok a → (f a x.state).Balanced weight (weight x.state)) :
    (x.andThen f).Balanced weight used := by
  cases hr : x.result with
  | error e =>
      rw [andThen_of_error hr]
      exact h
  | ok a =>
      rw [andThen_of_ok hr]
      exact Balances.append h (hf a hr)

end Metered

/-! ### Accounts -/

namespace Memory

/-- An account that allows a reservation: the sum, counted as far as amounts go, is within the
limit, and it is what is in use from then on. -/
theorem reserve_eq_ok {memory m : Memory} {bytes : Nat} {context : String}
    (h : memory.reserve bytes context = .ok m) :
    min (memory.used + bytes) maxAmount ≤ memory.limit ∧
      m = { memory with
        used := min (memory.used + bytes) maxAmount
        peak := max memory.peak (min (memory.used + bytes) maxAmount) } := by
  simp only [reserve] at h
  split at h
  · cases h
  · next hle =>
      cases h
      exact ⟨Nat.le_of_not_lt hle, rfl⟩

/-- Giving all back when nothing is in use changes nothing. -/
theorem releaseAll_of_used {memory : Memory} (h : memory.used = 0) :
    memory.releaseAll = memory := by
  obtain ⟨limit, used, peak⟩ := memory
  cases h
  rfl

/-- Whether an account never has to give back more than is in use. -/
def Covers (memory : Memory) : List (MemoryEvent × σ) → Prop
  | [] => True
  | (.release bytes, _) :: events => bytes ≤ memory.used ∧ (memory.release bytes).Covers events
  | (.reserve bytes context, _) :: events =>
    ∀ m, memory.reserve bytes context = .ok m → m.Covers events

/-- What releases and allowed reservations keep is kept by events booked in a row. A reservation
that is refused leaves the account as it was before. -/
theorem settle_keeps (p : Memory → Prop) (hrelease : ∀ m bytes, p m → p (m.release bytes))
    (hreserve : ∀ {m next : Memory} {bytes : Nat} {context : String}, p m →
      m.reserve bytes context = .ok next → p next)
    {memory : Memory} (h : p memory) (events : List (MemoryEvent × σ)) :
    p (memory.settle events).1 := by
  induction events generalizing memory with
  | nil => exact h
  | cons entry events ih =>
      obtain ⟨event, s⟩ := entry
      cases event with
      | release bytes => exact ih (hrelease memory bytes h)
      | reserve bytes context =>
          rw [settle]
          rcases hr : memory.reserve bytes context with excess | next
          · exact h
          · exact ih (hreserve h hr)

/-- Bookings never change the limit, neither those that succeed nor the one that is refused. -/
@[simp] theorem settle_limit (memory : Memory) (events : List (MemoryEvent × σ)) :
    (memory.settle events).1.limit = memory.limit := by
  refine settle_keeps (·.limit = memory.limit) (fun _ _ h => h) ?_ rfl events
  intro m next bytes context h hr
  rw [(reserve_eq_ok hr).2]
  exact h

/-- The most that was ever in use only grows. -/
theorem peak_le_settle (memory : Memory) (events : List (MemoryEvent × σ)) :
    memory.peak ≤ (memory.settle events).1.peak := by
  refine settle_keeps (memory.peak ≤ ·.peak) (fun _ _ h => h) ?_ (Nat.le_refl _) events
  intro m next bytes context h hr
  rw [(reserve_eq_ok hr).2]
  exact Nat.le_trans h (Nat.le_max_left _ _)

/-- The most that was ever in use stays within the limit. -/
theorem peak_settle_le_limit {memory : Memory} (h : memory.peak ≤ memory.limit)
    (events : List (MemoryEvent × σ)) :
    (memory.settle events).1.peak ≤ (memory.settle events).1.limit := by
  refine settle_keeps (fun m => m.peak ≤ m.limit) (fun _ _ h => h) ?_ h events
  intro m next bytes context h hr
  obtain ⟨hle, rfl⟩ := reserve_eq_ok hr
  exact Nat.max_le.2 ⟨h, hle⟩

/-- An account in which no more is in use than its limit and its peak say. -/
structure Sound (memory : Memory) : Prop where
  /-- The limit is kept. -/
  used_le_limit : memory.used ≤ memory.limit
  /-- The peak is at least what is in use. -/
  used_le_peak : memory.used ≤ memory.peak

/-- A new account is sound, since nothing is in use. -/
theorem sound_ofLimit (limit : Nat) : (ofLimit limit).Sound :=
  ⟨Nat.zero_le _, Nat.zero_le _⟩

/-- An account that allows a reservation is sound behind it. -/
theorem sound_of_reserve {memory m : Memory} {bytes : Nat} {context : String}
    (h : memory.reserve bytes context = .ok m) : m.Sound := by
  obtain ⟨hle, rfl⟩ := reserve_eq_ok h
  exact ⟨hle, Nat.le_max_right _ _⟩

/-- An account stays sound when bytes are given back. -/
theorem Sound.release {memory : Memory} (h : memory.Sound) (bytes : Nat) :
    (memory.release bytes).Sound :=
  ⟨Nat.le_trans (Nat.sub_le _ _) h.used_le_limit, Nat.le_trans (Nat.sub_le _ _) h.used_le_peak⟩

/-- Booking keeps accounts sound, also where a reservation is refused on the way. -/
theorem Sound.settle {memory : Memory} (h : memory.Sound) (events : List (MemoryEvent × σ)) :
    (memory.settle events).1.Sound :=
  settle_keeps Sound (fun _ bytes h => h.release bytes) (fun _ hr => sound_of_reserve hr) h events

/-- Booking balanced events, as long as amounts can be counted: nothing is given back that is
not in use, and afterwards the state weighs what is in use. -/
theorem settle_of_balances {weight : σ → Nat} {memory : Memory} {left : Nat}
    {events : List (MemoryEvent × σ)} (h : Balances weight memory.used events left)
    (hpeak : (memory.settle events).1.peak < maxAmount) :
    memory.Covers events ∧
      match (memory.settle events).2 with
      | none => (memory.settle events).1.used = left
      | some (_, s) => (memory.settle events).1.used = weight s := by
  induction events generalizing memory with
  | nil => exact ⟨trivial, h⟩
  | cons entry events ih =>
      obtain ⟨event, s⟩ := entry
      cases event with
      | release bytes =>
          have hrest : Balances weight (memory.release bytes).used events left := h.2
          obtain ⟨hcovers, hused⟩ := ih hrest hpeak
          exact ⟨⟨h.1, hcovers⟩, hused⟩
      | reserve bytes context =>
          rw [settle] at hpeak ⊢
          rw [Covers]
          rcases hr : memory.reserve bytes context with excess | m <;> rw [hr] at hpeak
          · exact ⟨by simp, h.1⟩
          · -- The peak tells that the sum has not been cut off.
            have hlt : m.peak < maxAmount := Nat.lt_of_le_of_lt (peak_le_settle m events) hpeak
            have hused : m.used = memory.used + bytes := by
              obtain ⟨-, rfl⟩ := reserve_eq_ok hr
              simp only at hlt ⊢
              omega
            have hrest : Balances weight m.used events left := hused ▸ h.2
            obtain ⟨hcovers, hleft⟩ := ih hrest hpeak
            refine ⟨?_, hleft⟩
            rintro m' h'
            cases h'
            exact hcovers

end Memory

namespace Metered

/-- The account after a computation is the one after its events, whatever the result. -/
theorem run_memory (x : Metered σ α) (memory : Memory) :
    (x.run memory).1 = (memory.settle x.events).1 := by
  unfold run
  rcases memory.settle x.events with ⟨m, _ | ⟨excess, s⟩⟩ <;> rfl

/-- The peak never goes down: bytes that are given back do not count against it. -/
theorem peak_le_of_run {x : Metered σ α} {memory m : Memory} {s : σ} {result : Except QueryError α}
    (h : x.run memory = (m, s, result)) : memory.peak ≤ m.peak := by
  have hm : (x.run memory).1 = m := by rw [h]
  rw [← hm, run_memory]
  exact Memory.peak_le_settle _ _

/-- After a balanced computation has been booked, successful or not, exactly what the state
weighs is in use. -/
theorem run_used {weight : σ → Nat} {x : Metered σ α} {memory : Memory}
    (h : x.Balanced weight memory.used) (hpeak : (x.run memory).1.peak < maxAmount) :
    (x.run memory).1.used = weight (x.run memory).2.1 := by
  rw [run_memory] at hpeak
  have hused := (Memory.settle_of_balances h hpeak).2
  unfold run
  rcases hs : memory.settle x.events with ⟨m, _ | ⟨excess, s⟩⟩ <;> rw [hs] at hused <;>
    exact hused

/-- A balanced computation never gives back more than is in use. -/
theorem covers_of_balanced {weight : σ → Nat} {x : Metered σ α} {memory : Memory}
    (h : x.Balanced weight memory.used) (hpeak : (x.run memory).1.peak < maxAmount) :
    memory.Covers x.events := by
  rw [run_memory] at hpeak
  exact (Memory.settle_of_balances h hpeak).1

end Metered

end ShardQuery
