import ShardQuery.Memory

/-!
# Laws of Metered Computations

What the ways to combine `Metered` computations do to their three parts, and what booking
the events of a combined computation amounts to.

## Main results

* `Metered.Leaves`: what a computation leaves behind and gives, also if it fails.
* `Metered.run_eq_ok_iff`: a booked computation succeeds exactly if the account allows all
  of its events and it succeeds by itself.
* `Memory.settle_append`: booking is done piece by piece.
-/

namespace ShardQuery

variable {σ τ α β : Type}

namespace Metered

/-- A computation that is done has booked nothing. With the next two lemmas `simp` takes such a
computation apart without opening it. -/
@[simp] theorem done_events (s : σ) (a : α) : (done s a).events = [] := rfl

/-- What is done leaves the state that it was given, so that whoever goes on starts from there. -/
@[simp] theorem done_state (s : σ) (a : α) : (done s a).state = s := rfl

/-- What is done cannot fail: its result is the value that it was given. -/
@[simp] theorem done_result (s : σ) (a : α) : (done s a).result = .ok a := rfl

/-- A computation that fails at once has booked nothing, so the account is as it was before. -/
@[simp] theorem fail_events (s : σ) (e : QueryError) : (fail s e : Metered σ α).events = [] := rfl

/-- A failure leaves the state that it was given. The state still matters, since closing releases
what it holds. -/
@[simp] theorem fail_state (s : σ) (e : QueryError) : (fail s e : Metered σ α).state = s := rfl

/-- A failure has the error that it was given as its result, whatever type of value was expected. -/
@[simp] theorem fail_result (s : σ) (e : QueryError) :
    (fail s e : Metered σ α).result = .error e := rfl

/-- An event that comes first is booked first, and it carries the state at which the computation
stops if the account refuses it. -/
@[simp] theorem after_events (event : MemoryEvent) (s : σ) (x : Metered σ α) :
    (after event s x).events = (event, s) :: x.events := rfl

/-- An event that comes first does not change the state that the computation ends in, if it is
booked at all. -/
@[simp] theorem after_state (event : MemoryEvent) (s : σ) (x : Metered σ α) :
    (after event s x).state = x.state := rfl

/-- An event that comes first does not change the result that the computation has, if it is booked
at all. -/
@[simp] theorem after_result (event : MemoryEvent) (s : σ) (x : Metered σ α) :
    (after event s x).result = x.result := rfl

/-- A computation on a part of a state books the same events, each with the part put back into the
whole. -/
@[simp] theorem within_events (f : σ → τ) (x : Metered σ α) :
    (x.within f).events = x.events.map fun e => (e.1, f e.2) := rfl

/-- A computation on a part of a state ends in the whole with the part that it ended in. -/
@[simp] theorem within_state (f : σ → τ) (x : Metered σ α) : (x.within f).state = f x.state := rfl

/-- A computation on a part of a state has the result that it has on the part by itself. -/
@[simp] theorem within_result (f : σ → τ) (x : Metered σ α) :
    (x.within f).result = x.result := rfl

/-- Two computations one after the other: the second one books behind the first and starts in the
state that the first one has left. -/
theorem andThen_of_ok {x : Metered σ α} {a : α} (h : x.result = .ok a)
    (f : α → σ → Metered σ β) :
    x.andThen f =
      ⟨x.events ++ (f a x.state).events, (f a x.state).state, (f a x.state).result⟩ := by
  simp only [andThen, h]

/-- Behind a failure nothing is computed: the events, the state and the error are those of the first
computation alone. -/
theorem andThen_of_error {x : Metered σ α} {e : QueryError} (h : x.result = .error e)
    (f : α → σ → Metered σ β) : x.andThen f = ⟨x.events, x.state, .error e⟩ := by
  simp only [andThen, h]

end Metered

/-! ### Booking -/

/-- Booking is done piece by piece. An account that refuses an event of the first piece never sees
the second one. -/
theorem Memory.settle_append (memory : Memory) (first second : List (MemoryEvent × σ)) :
    memory.settle (first ++ second) =
      match memory.settle first with
      | (memory, none) => memory.settle second
      | (memory, some excess) => (memory, some excess) := by
  induction first generalizing memory with
  | nil => rfl
  | cons entry first ih =>
      obtain ⟨event, s⟩ := entry
      cases event with
      | release bytes => exact ih _
      | reserve bytes context =>
          simp only [List.cons_append, Memory.settle]
          split
          · exact ih _
          · rfl

/-- The state that is left when a reservation is refused is that of one of the events. -/
theorem Memory.mem_of_settle {memory m : Memory} {events : List (MemoryEvent × σ)}
    {excess : MemoryExcess} {s : σ} (h : memory.settle events = (m, some (excess, s))) :
    ∃ entry ∈ events, entry.2 = s := by
  induction events generalizing memory with
  | nil => cases h
  | cons entry events ih =>
      obtain ⟨event, s'⟩ := entry
      cases event with
      | release bytes =>
          obtain ⟨entry, hmem, hs⟩ := ih h
          exact ⟨entry, List.mem_cons_of_mem _ hmem, hs⟩
      | reserve bytes context =>
          rw [Memory.settle] at h
          split at h
          · obtain ⟨entry, hmem, hs⟩ := ih h
            exact ⟨entry, List.mem_cons_of_mem _ hmem, hs⟩
          · cases h
            exact ⟨_, List.mem_cons_self, rfl⟩

namespace Metered

/-- What holds of all states of a computation holds of the one that is left. -/
theorem run_state {p : σ → Prop} {x : Metered σ α} (hstate : p x.state)
    (hevents : ∀ entry ∈ x.events, p entry.2) (memory : Memory) : p (x.run memory).2.1 := by
  unfold run
  rcases hs : memory.settle x.events with ⟨m, _ | ⟨excess, s⟩⟩
  · exact hstate
  · obtain ⟨entry, hmem, rfl⟩ := Memory.mem_of_settle hs
    exact hevents entry hmem

/-- A booked computation succeeds exactly if the account allows all of its events and it
succeeds by itself. -/
theorem run_eq_ok_iff {x : Metered σ α} {memory m : Memory} {s : σ} {a : α} :
    x.run memory = (m, s, .ok a) ↔
      memory.settle x.events = (m, none) ∧ x.state = s ∧ x.result = .ok a := by
  unfold run
  rcases memory.settle x.events with ⟨m', _ | ⟨excess, s'⟩⟩
  · simp only [Prod.mk.injEq, and_true]
  · simp

/-- A booked computation fails because the account refuses one of its events, or by
itself. -/
theorem run_eq_error {x : Metered σ α} {memory m : Memory} {s : σ} {e : QueryError}
    (h : x.run memory = (m, s, .error e)) :
    (∃ excess, memory.settle x.events = (m, some (excess, s)) ∧ e = .memory excess) ∨
      (memory.settle x.events = (m, none) ∧ x.state = s ∧ x.result = .error e) := by
  unfold run at h
  rcases hs : memory.settle x.events with ⟨m', _ | ⟨excess, s'⟩⟩
  · rw [hs] at h
    simp only [Prod.mk.injEq] at h
    obtain ⟨rfl, rfl, hr⟩ := h
    exact .inr ⟨rfl, rfl, hr⟩
  · rw [hs] at h
    simp only [Prod.mk.injEq, Except.error.injEq] at h
    obtain ⟨rfl, rfl, rfl⟩ := h
    exact .inl ⟨excess, rfl, rfl⟩

/-! ### What computations leave -/

/-- Whether what a computation leaves has a property, and what it gives another one. -/
structure Leaves (p : σ → Prop) (q : α → Prop) (x : Metered σ α) : Prop where
  /-- What it leaves has the one, also if it fails. -/
  state : p x.state
  /-- What it gives has the other. -/
  result : ∀ a, x.result = .ok a → q a

/-- A computation that is done leaves what holds of its state and its value. -/
theorem leaves_done {p : σ → Prop} {q : α → Prop} {s : σ} {a : α} (hs : p s) (ha : q a) :
    (done s a).Leaves p q := by
  refine ⟨hs, fun b h => ?_⟩
  cases h
  exact ha

/-- A failure leaves what holds of its state. Nothing is asked of a value, since there is none. -/
theorem leaves_fail {p : σ → Prop} {q : α → Prop} {s : σ} (hs : p s) (error : QueryError) :
    (fail s error).Leaves p q := by
  refine ⟨hs, fun b h => ?_⟩
  cases h

/-- An event that comes first leaves what the computation leaves without it, since events change
neither state nor value. -/
theorem leaves_after {p : σ → Prop} {q : α → Prop} {x : Metered σ α} (h : x.Leaves p q)
    (event : MemoryEvent) (s : σ) : (after event s x).Leaves p q :=
  ⟨h.state, h.result⟩

end Metered

end ShardQuery
