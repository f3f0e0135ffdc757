import Mathlib.Data.List.Nodup
import Mathlib.Data.List.Perm.Basic

/-!
# Entries by Key

A map is a list of entries in ascending order of their keys, every key once. An entry is put into
its place, or into that of the entry with the same key. What stands under the keys tells such lists
apart: there is one list for each map.

Main definitions:

* `AreAscending` — whether entries stand in ascending order of their keys;
* `valueAt?` — what stands under a key;
* `insertEntry` — entries with one more.

## Main results

* `valueAt?_insertEntry`: what stands under the keys after an entry has been put in.
* `AreAscending.insertEntry`: the order is kept.
* `AreAscending.eq_of_valueAt?`: lists with the same values under all keys are equal.
-/

namespace ShardQuery

variable {κ α : Type} {entries others : List (κ × α)}

/-- Whether entries stand in ascending order of their keys, every key once. -/
def AreAscending [LT κ] (entries : List (κ × α)) : Prop :=
  entries.Pairwise fun a b => a.1 < b.1

/-- Entries in ascending order of their keys do not repeat, since no key is less than itself. -/
theorem AreAscending.nodup [LT κ] [LE κ] [Std.LawfulOrderLT κ] (h : AreAscending entries) :
    entries.Nodup := by
  refine List.Pairwise.imp (fun {a b} hlt heq => ?_) h
  rw [heq] at hlt
  exact Std.lt_irrefl hlt

variable [DecidableEq κ]

/-! ### Values -/

/-- What stands under a key: the value of the first entry with it, none if there is no such entry.
-/
def valueAt? (key : κ) (entries : List (κ × α)) : Option α :=
  (entries.find? (·.1 == key)).map (·.2)

/-- The first entry decides about its own key, and the rest of the entries about all others. -/
theorem valueAt?_cons (key other : κ) (a : α) (entries : List (κ × α)) :
    valueAt? other ((key, a) :: entries) =
      if key = other then some a else valueAt? other entries := by
  by_cases h : key = other
  · simp [valueAt?, h]
  · simp [valueAt?, h]

variable [LT κ]

section

variable [DecidableLT κ]

/-- Puts an entry into a list in ascending order of keys. An entry of the same key is replaced. -/
def insertEntry (key : κ) (a : α) : List (κ × α) → List (κ × α)
  | [] => [(key, a)]
  | (k, b) :: entries =>
    if key < k then (key, a) :: (k, b) :: entries
    else if k = key then (key, a) :: entries
    else (k, b) :: insertEntry key a entries

/-- Nothing but the new entry gets into a list in which an entry is inserted. -/
theorem mem_insertEntry {key : κ} {a : α} {entry : κ × α}
    (h : entry ∈ insertEntry key a entries) : entry = (key, a) ∨ entry ∈ entries := by
  induction entries with
  | nil => exact .inl (List.mem_singleton.1 h)
  | cons first entries ih =>
      rw [insertEntry] at h
      split at h
      · exact List.mem_cons.1 h
      · split at h
        · exact (List.mem_cons.1 h).imp_right (List.mem_cons_of_mem _)
        · rcases List.mem_cons.1 h with rfl | h
          · exact .inr List.mem_cons_self
          · exact (ih h).imp_right (List.mem_cons_of_mem _)

/-- The keys after an entry has been put in are its key and the ones before. -/
theorem forall_keys_insertEntry (p : κ → Prop) (key : κ) (a : α) (entries : List (κ × α)) :
    (∀ entry ∈ insertEntry key a entries, p entry.1) ↔ p key ∧ ∀ entry ∈ entries, p entry.1 := by
  induction entries with
  | nil => rw [insertEntry, List.forall_mem_cons]
  | cons first entries ih =>
      rw [insertEntry]
      split
      · rw [List.forall_mem_cons]
      · split
        · next heq =>
            rw [List.forall_mem_cons, List.forall_mem_cons, heq, ← and_assoc, and_self]
        · rw [List.forall_mem_cons, List.forall_mem_cons, ih]
          exact and_left_comm

/-- **What stands under the keys** after an entry has been put in. -/
theorem valueAt?_insertEntry (key other : κ) (a : α) (entries : List (κ × α)) :
    valueAt? other (insertEntry key a entries) =
      if key = other then some a else valueAt? other entries := by
  induction entries with
  | nil => exact valueAt?_cons key other a []
  | cons first entries ih =>
      obtain ⟨k, b⟩ := first
      rw [insertEntry]
      split
      · exact valueAt?_cons key other a _
      · split
        · next hkey =>
            subst hkey
            rw [valueAt?_cons, valueAt?_cons]
            split <;> rfl
        · next hkey =>
            rw [valueAt?_cons, valueAt?_cons, ih]
            by_cases h : k = other
            · have hother : key ≠ other := fun heq => hkey (h.trans heq.symm)
              rw [if_pos h, if_neg hother, if_pos h]
            · rw [if_neg h, if_neg h]

end

/-! ### Order -/

namespace AreAscending

variable [LE κ] [Std.LawfulOrderLT κ]

/-- The entries are what stands under the keys: in ascending order no entry is hidden by one before
it. -/
theorem mem_iff (h : AreAscending entries) {key : κ} {a : α} :
    (key, a) ∈ entries ↔ valueAt? key entries = some a := by
  constructor
  · intro hmem
    induction entries with
    | nil => simp at hmem
    | cons first entries ih =>
        obtain ⟨hfirst, hentries⟩ := List.pairwise_cons.1 h
        obtain ⟨k, b⟩ := first
        rw [valueAt?_cons]
        rcases List.mem_cons.1 hmem with heq | hmem
        · cases heq
          rw [if_pos rfl]
        · -- The first key is another one, since it comes before all others.
          have hlt : k < key := hfirst (key, a) hmem
          have hne : k ≠ key := by
            intro heq
            rw [heq] at hlt
            exact Std.lt_irrefl hlt
          rw [if_neg hne]
          exact ih hentries hmem
  · intro hvalue
    obtain ⟨⟨k, b⟩, hfind, rfl⟩ := Option.map_eq_some_iff.1 hvalue
    obtain rfl : k = key := by simpa using List.find?_some hfind
    exact List.mem_of_find?_eq_some hfind

variable [Std.IsLinearOrder κ]

/-- An entry is put into its place, so that the order of the keys is kept. With the empty list this
gives the order of all maps that are built by insertions. -/
theorem insertEntry [DecidableLT κ] {key : κ} {a : α} (h : AreAscending entries) :
    AreAscending (insertEntry key a entries) := by
  induction entries with
  | nil => exact List.pairwise_singleton _ _
  | cons first entries ih =>
      obtain ⟨hfirst, hentries⟩ := List.pairwise_cons.1 h
      rw [ShardQuery.insertEntry]
      split
      · next hlt =>
          refine List.pairwise_cons.2 ⟨List.forall_mem_cons.2 ⟨hlt, fun entry hmem => ?_⟩, h⟩
          exact Std.lt_trans hlt (hfirst entry hmem)
      · next hnlt =>
          split
          · next heq => exact List.pairwise_cons.2 ⟨heq ▸ hfirst, hentries⟩
          · next hne =>
              refine List.pairwise_cons.2 ⟨fun entry hmem => ?_, ih hentries⟩
              rcases mem_insertEntry hmem with rfl | hmem
              · exact Std.lt_of_le_of_ne (Std.not_lt.1 hnlt) hne
              · exact hfirst entry hmem

/-- **There is one list for each map.** Two lists in ascending order that have the same values under
all keys are equal, whatever insertions have led to them. -/
theorem eq_of_valueAt? (h : AreAscending entries) (hothers : AreAscending others)
    (heq : ∀ key, valueAt? key entries = valueAt? key others) : entries = others := by
  have hperm : entries.Perm others := by
    refine (List.perm_ext_iff_of_nodup h.nodup hothers.nodup).2 fun ⟨key, a⟩ => ?_
    rw [h.mem_iff, hothers.mem_iff, heq]
  refine hperm.eq_of_pairwise (fun a b _ _ hab hba => ?_) h hothers
  exact absurd (Std.lt_trans hab hba) Std.lt_irrefl

end AreAscending

end ShardQuery
