import Mathlib.Data.List.Perm.Basic
import ShardQuery.Total

/-!
# Laws of Totals

How `total` goes together with the ways lists are taken apart and rearranged.
-/

namespace ShardQuery

variable {α β : Type} (amount : α → Nat)

/-- Nothing has no total. Together with the next lemmas this makes `simp` compute totals along the
structure of a list. -/
@[simp] theorem total_nil : total amount [] = 0 := rfl

/-- The first item of a list adds its own amount to the total of the others. -/
@[simp] theorem total_cons (a : α) (l : List α) :
    total amount (a :: l) = amount a + total amount l := rfl

/-- Totals add up where lists are joined, which is how rows that move from one buffer to another
keep their total. -/
@[simp] theorem total_append (l m : List α) :
    total amount (l ++ m) = total amount l + total amount m := by
  induction l with
  | nil => simp
  | cons a l ih => simp only [List.cons_append, total_cons, ih, Nat.add_assoc]

/-- The total of changed items is the total of the items, with the change made before an amount is
taken. -/
@[simp] theorem total_map (f : β → α) (l : List β) :
    total amount (l.map f) = total (fun b => amount (f b)) l := by
  induction l with
  | nil => rfl
  | cons b l ih => simp only [List.map_cons, total_cons, ih]

/-- A total does not depend on the order of the items, so that sorting rows does not change what
they are charged. -/
theorem total_perm {l m : List α} (h : l.Perm m) : total amount l = total amount m := by
  induction h with
  | nil => rfl
  | cons a _ ih => simp only [total_cons, ih]
  | swap a b l => simp only [total_cons]; omega
  | trans _ _ ih₁ ih₂ => exact ih₁.trans ih₂

/-- Items whose amounts agree one by one have the same total. -/
theorem total_congr {amount amount' : α → Nat} {l : List α}
    (h : ∀ a ∈ l, amount a = amount' a) : total amount l = total amount' l := by
  induction l with
  | nil => rfl
  | cons a l ih =>
      rw [total_cons, total_cons, h a List.mem_cons_self,
        ih fun b hb => h b (List.mem_cons_of_mem a hb)]

/-- Items whose amounts are less or equal one by one have a total that is less or equal. -/
theorem total_le_total {amount amount' : α → Nat} {l : List α}
    (h : ∀ a ∈ l, amount a ≤ amount' a) : total amount l ≤ total amount' l := by
  induction l with
  | nil => exact Nat.le_refl _
  | cons a l ih =>
      exact Nat.add_le_add (h a List.mem_cons_self)
        (ih fun b hb => h b (List.mem_cons_of_mem a hb))

/-- Items without amounts have no total, as the stages of a pipeline at its start. -/
theorem total_eq_zero {amount : α → Nat} {l : List α} (h : ∀ a ∈ l, amount a = 0) :
    total amount l = 0 := by
  induction l with
  | nil => rfl
  | cons a l ih =>
      rw [total_cons, h a List.mem_cons_self, ih fun b hb => h b (List.mem_cons_of_mem a hb)]

/-- An item of a list is part of the total. -/
theorem le_total_of_getElem? {l : List α} {i : Nat} {a : α} (h : l[i]? = some a) :
    amount a ≤ total amount l := by
  induction l generalizing i with
  | nil => simp at h
  | cons b l ih =>
      cases i with
      | zero =>
          obtain rfl : b = a := by simpa using h
          exact Nat.le_add_right _ _
      | succ i => exact Nat.le_add_left_of_le (ih (by simpa using h))

/-- Each item of a list amounts to no more than the total, since amounts are natural numbers. -/
theorem le_total_of_mem {l : List α} {a : α} (h : a ∈ l) : amount a ≤ total amount l := by
  obtain ⟨i, hi⟩ := List.getElem?_of_mem h
  exact le_total_of_getElem? amount hi

/-- A total after an item of the list has been exchanged. -/
theorem total_set {l : List α} {i : Nat} {a : α} (h : l[i]? = some a) (b : α) :
    total amount (l.set i b) + amount a = total amount l + amount b := by
  induction l generalizing i with
  | nil => simp at h
  | cons c l ih =>
      cases i with
      | zero =>
          obtain rfl : c = a := by simpa using h
          simp only [List.set_cons_zero, total_cons]
          omega
      | succ i =>
          have ih := ih (i := i) (by simpa using h)
          simp only [List.set_cons_succ, total_cons]
          omega

end ShardQuery
