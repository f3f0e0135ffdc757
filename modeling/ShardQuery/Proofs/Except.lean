import Mathlib.Data.List.Forall2

/-!
# Laws of Failing Computations

When a computation built from others succeeds.
-/

namespace ShardQuery

variable {ε ε' α β : Type}

/-- A sequence of two computations succeeds exactly if the first one does and the second one
succeeds with its value. With this lemma `simp only` takes a do block apart. -/
theorem bind_eq_ok_iff {x : Except ε α} {f : α → Except ε β} {b : β} :
    x >>= f = .ok b ↔ ∃ a, x = .ok a ∧ f a = .ok b := by
  cases x with
  | error error => simp [bind, Except.bind]
  | ok a => simp [bind, Except.bind]

/-- A check before a computation gives no value, so that it only has to succeed. -/
theorem check_bind_eq_ok_iff {check : Except ε Unit} {x : Except ε β} {b : β} :
    (check >>= fun _ => x) = .ok b ↔ check = .ok () ∧ x = .ok b :=
  bind_eq_ok_iff.trans ⟨fun ⟨_, hcheck, hx⟩ => ⟨hcheck, hx⟩, fun h => ⟨(), h⟩⟩

/-- A sequence of two computations fails in one of two ways: the first one fails, or it succeeds and
the second one fails with its value. -/
theorem bind_eq_error_iff {x : Except ε α} {f : α → Except ε β} {error : ε} :
    x >>= f = .error error ↔ x = .error error ∨ ∃ a, x = .ok a ∧ f a = .error error := by
  cases x with
  | error error => simp [bind, Except.bind]
  | ok a => simp [bind, Except.bind]

/-- A computation in two parts succeeds if the first part does, and then the second one. -/
theorem exists_bind_eq_ok_iff {x : Except ε α} {f : α → Except ε β} :
    (∃ b, x >>= f = .ok b) ↔ ∃ a, x = .ok a ∧ ∃ b, f a = .ok b := by
  simp only [bind_eq_ok_iff]
  exact ⟨fun ⟨b, a, ha, hb⟩ => ⟨a, ha, b, hb⟩, fun ⟨a, ha, b, hb⟩ => ⟨b, a, ha, hb⟩⟩

/-- A computation without steps succeeds. This closes the end of a do block once its steps have been
taken apart. -/
theorem exists_pure_eq_ok (a : α) : ∃ b, (pure a : Except ε α) = .ok b :=
  ⟨a, rfl⟩

/-- A change of the errors is no change of the successes, so that wrapping an error hides none. -/
theorem mapError_eq_ok_iff {f : ε → ε'} {x : Except ε α} {a : α} :
    x.mapError f = .ok a ↔ x = .ok a := by
  cases x <;> simp [Except.mapError]

/-- A check of all items of a list succeeds if it does so for every item. -/
theorem forM_eq_ok_iff {f : α → Except ε Unit} {l : List α} :
    l.forM f = .ok () ↔ ∀ a ∈ l, f a = .ok () := by
  induction l with
  | nil => simp [pure, Except.pure]
  | cons a l ih =>
      rw [List.forM_eq_forM, List.forM_cons, bind_eq_ok_iff, List.forall_mem_cons, ← ih]
      constructor
      · rintro ⟨⟨⟩, ha, hl⟩
        exact ⟨ha, hl⟩
      · rintro ⟨ha, hl⟩
        exact ⟨(), ha, hl⟩

/-- Computing all items of a list succeeds if every item can be computed. -/
theorem mapM_eq_ok_iff {f : α → Except ε β} {l : List α} {m : List β} :
    l.mapM f = .ok m ↔ List.Forall₂ (fun a b => f a = .ok b) l m := by
  induction l generalizing m with
  | nil =>
      rw [List.mapM_nil, List.forall₂_nil_left_iff]
      exact ⟨fun h => (Except.ok.inj h).symm, fun h => h ▸ rfl⟩
  | cons a l ih =>
      rw [List.mapM_cons, bind_eq_ok_iff, List.forall₂_cons_left_iff]
      refine exists_congr fun b => ?_
      rw [bind_eq_ok_iff]
      constructor
      · rintro ⟨hb, bs, hbs, h⟩
        cases h
        exact ⟨bs, hb, ih.1 hbs, rfl⟩
      · rintro ⟨bs, hb, hbs, rfl⟩
        exact ⟨hb, bs, ih.2 hbs, rfl⟩

/-- All items of a list can be computed if every item can. -/
theorem exists_mapM_eq_ok_iff {f : α → Except ε β} {l : List α} :
    (∃ m, l.mapM f = .ok m) ↔ ∀ a ∈ l, ∃ b, f a = .ok b := by
  induction l with
  | nil => simp [pure, Except.pure]
  | cons a l ih =>
      rw [List.mapM_cons, exists_bind_eq_ok_iff, List.forall_mem_cons, ← ih]
      simp only [exists_bind_eq_ok_iff, exists_pure_eq_ok, and_true, exists_and_right]

/-- Computing the items of a list fails like one of them. -/
theorem exists_of_mapM_eq_error {f : α → Except ε β} {l : List α} {error : ε}
    (h : l.mapM f = .error error) : ∃ a ∈ l, f a = .error error := by
  induction l with
  | nil => cases h
  | cons a l ih =>
      rw [List.mapM_cons] at h
      obtain ha | ⟨b, -, h⟩ := bind_eq_error_iff.1 h
      · exact ⟨a, List.mem_cons_self, ha⟩
      · obtain hl | ⟨bs, -, h⟩ := bind_eq_error_iff.1 h
        · obtain ⟨a', hmem, ha'⟩ := ih hl
          exact ⟨a', List.mem_cons_of_mem _ hmem, ha'⟩
        · cases h

end ShardQuery
