import ShardQuery.Proofs.Memory.Balance

/-!
# Accounts with Room

A balanced computation that gives bytes back before it takes any has the most in use at its end. So
an account whose limit allows what the state weighs then never refuses it anything.

## Main results

* `Metered.run_of_room`: a computation whose end the limit allows is booked as it is.
-/

namespace ShardQuery

variable {σ α : Type}

/-- Whether an event takes bytes. Only such events can be refused. -/
def MemoryEvent.isReserve : MemoryEvent → Bool
  | .reserve .. => true
  | .release _ => false

/-- Whether no bytes are given back behind some that are taken. -/
def ReleasesFirst (events : List (MemoryEvent × σ)) : Prop :=
  events.Pairwise fun earlier later =>
    earlier.1.isReserve = true → later.1.isReserve = true

/-- Events that only give bytes back release first, there being nothing that takes any. -/
theorem releasesFirst_of_releases {events : List (MemoryEvent × σ)}
    (h : ∀ e ∈ events, e.1.isReserve = false) : ReleasesFirst events := by
  refine List.pairwise_of_forall_mem_list fun earlier hearlier _ _ htakes => ?_
  rw [h earlier hearlier] at htakes
  cases htakes

/-- Events that only take bytes release first as well, there being nothing that gives any back. -/
theorem releasesFirst_of_reserves {events : List (MemoryEvent × σ)}
    (h : ∀ e ∈ events, e.1.isReserve = true) : ReleasesFirst events :=
  List.pairwise_of_forall_mem_list fun _ _ later hlater _ => h later hlater

/-- Events that give back, followed by events that take, release first. Each tick of a stage is of
this form. -/
theorem releasesFirst_append {first second : List (MemoryEvent × σ)}
    (hfirst : ∀ e ∈ first, e.1.isReserve = false) (hsecond : ∀ e ∈ second, e.1.isReserve = true) :
    ReleasesFirst (first ++ second) :=
  List.pairwise_append.2 ⟨releasesFirst_of_releases hfirst, releasesFirst_of_reserves hsecond,
    fun _ _ later hlater _ => hsecond later hlater⟩

/-- Taking bytes only, no less is in use in the end. -/
theorem Balances.le {weight : σ → Nat} {used left : Nat} {events : List (MemoryEvent × σ)}
    (h : Balances weight used events left) (hevents : ∀ e ∈ events, e.1.isReserve = true) :
    used ≤ left := by
  induction events generalizing used with
  | nil => exact Nat.le_of_eq h
  | cons entry events ih =>
      obtain ⟨hfirst, hrest⟩ := List.forall_mem_cons.1 hevents
      obtain ⟨event, s⟩ := entry
      cases event with
      | release => cases hfirst
      | reserve bytes => exact Nat.le_of_add_right_le (ih h.2 hrest)

/-- Booking events that release first is not refused if the limit allows what is in use in the
end. -/
theorem Memory.settle_of_room {weight : σ → Nat} {memory : Memory} {left : Nat}
    {events : List (MemoryEvent × σ)} (h : Balances weight memory.used events left)
    (hevents : ReleasesFirst events) (hcounted : memory.limit ≤ maxAmount)
    (hleft : left ≤ memory.limit) :
    ∃ peak, memory.settle events = (⟨memory.limit, left, peak⟩, none) := by
  induction events generalizing memory with
  | nil =>
      obtain rfl : memory.used = left := h
      exact ⟨memory.peak, rfl⟩
  | cons entry events ih =>
      obtain ⟨hfirst, hrest⟩ := List.pairwise_cons.1 hevents
      obtain ⟨event, s⟩ := entry
      cases event with
      | release bytes => exact @ih (memory.release bytes) h.2 hrest hcounted hleft
      | reserve bytes context =>
          -- From here on bytes are only taken, so that no less is in use in the end.
          have hle : memory.used + bytes ≤ memory.limit :=
            Nat.le_trans (h.2.le fun e he => hfirst e he rfl) hleft
          have hwanted : min (memory.used + bytes) maxAmount = memory.used + bytes :=
            Nat.min_eq_left (Nat.le_trans hle hcounted)
          have hreserve : memory.reserve bytes context =
              .ok ⟨memory.limit, memory.used + bytes, max memory.peak (memory.used + bytes)⟩ := by
            rw [reserve, hwanted, if_neg (Nat.not_lt_of_le hle)]
          rw [settle, hreserve]
          exact @ih ⟨memory.limit, memory.used + bytes, _⟩ h.2 hrest hcounted hleft

/-- **A computation that releases first is booked as it is if the limit allows its end.** -/
theorem Metered.run_of_room {weight : σ → Nat} {x : Metered σ α} {memory : Memory}
    (h : x.Balanced weight memory.used) (hevents : ReleasesFirst x.events)
    (hcounted : memory.limit ≤ maxAmount) (hfits : weight x.state ≤ memory.limit) :
    ∃ peak, x.run memory = (⟨memory.limit, weight x.state, peak⟩, x.state, x.result) := by
  obtain ⟨peak, hsettle⟩ := Memory.settle_of_room h hevents hcounted hfits
  exact ⟨peak, by rw [run, hsettle]⟩

end ShardQuery
