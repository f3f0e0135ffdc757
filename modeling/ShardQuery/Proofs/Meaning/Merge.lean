import Mathlib.Data.List.Basic
import ShardQuery.Proofs.Meaning.Lists
import ShardQuery.Proofs.Row.Sorting

/-!
# Merging

How `Meaning.merged` goes from row to row: it sends every row on once, and if the lists are sorted
it sends the rows on as they would stand if all the lists, one behind the other, were sorted stably.

## Main results

* `Meaning.perm_merged`: merging sends every row on once.
* `Meaning.precedes_of_leastFront`: the front that is found comes before all others.
* `Meaning.merged_eq_sortBy`: merging sorted lists is sorting.
-/

namespace ShardQuery.Meaning

/-- The front that is found is the best one before, or that of one of the lists. -/
theorem leastFront_eq_some {keys : List OrderKey} {best : Option (Nat × Row × List Row)}
    {index i : Nat} {row : Row} {rows : List Row} {lists : List (List Row)}
    (h : leastFront keys best index lists = some (i, row, rows)) :
    best = some (i, row, rows) ∨ ∃ j, i = index + j ∧ lists[j]? = some (row :: rows) := by
  induction lists generalizing best index with
  | nil => exact .inl h
  | cons list lists ih =>
      have hlater {best' : Option (Nat × Row × List Row)}
          (h : leastFront keys best' (index + 1) lists = some (i, row, rows)) :
          best' = some (i, row, rows) ∨
            ∃ j, i = index + j ∧ (list :: lists)[j]? = some (row :: rows) := by
        rcases ih h with hbest | ⟨j, rfl, hj⟩
        · exact .inl hbest
        · exact .inr ⟨j + 1, by omega, by rwa [List.getElem?_cons_succ]⟩
      have hhere {r : Row} {rs : List Row} (hlist : list = r :: rs)
          (h : leastFront keys (some (index, r, rs)) (index + 1) lists = some (i, row, rows)) :
          best = some (i, row, rows) ∨
            ∃ j, i = index + j ∧ (list :: lists)[j]? = some (row :: rows) := by
        rcases hlater h with hbest | hj
        · cases hbest
          exact .inr ⟨0, rfl, congrArg some hlist⟩
        · exact .inr hj
      cases list with
      | nil => exact hlater h
      | cons r rs =>
          unfold leastFront at h
          split at h
          · exact hhere rfl h
          · split at h
            · exact hhere rfl h
            · exact hlater h

/-- The least front is merged first, and the rest is merged from lists in which that row has been
taken off. -/
theorem merged_of_some {keys : List OrderKey} {i : Nat} {row : Row} {rows : List Row}
    {lists : List (List Row)} (h : leastFront keys none 0 lists = some (i, row, rows)) :
    lists[i]? = some (row :: rows) ∧ merged keys lists = row :: merged keys (lists.set i rows) := by
  obtain hnone | ⟨j, rfl, hj⟩ := leastFront_eq_some h
  · cases hnone
  · rw [Nat.zero_add] at h ⊢
    refine ⟨hj, ?_⟩
    have hset := total_set List.length hj rows
    have hcount : total List.length lists = total List.length (lists.set j rows) + 1 := by
      rw [List.length_cons] at hset
      omega
    rw [merged, hcount, mergeUpTo, h]
    rfl

/-- Empty lists have nothing to be merged: where no least front is found, no row is left. -/
theorem merged_of_none {keys : List OrderKey} {lists : List (List Row)}
    (h : leastFront keys none 0 lists = none) : merged keys lists = [] := by
  unfold merged mergeUpTo
  split
  · rfl
  · rw [h]

/-- Nothing is found only in empty lists. A front that is there is always found, since it is at
least as good as none. -/
theorem nil_of_leastFront {keys : List OrderKey} {best : Option (Nat × Row × List Row)}
    {index : Nat} {lists : List (List Row)} (h : leastFront keys best index lists = none) :
    best = none ∧ ∀ list ∈ lists, list = [] := by
  induction lists generalizing best index with
  | nil => exact ⟨h, nofun⟩
  | cons list lists ih =>
      cases list with
      | nil =>
          obtain ⟨hbest, hlists⟩ := ih h
          exact ⟨hbest, List.forall_mem_cons.2 ⟨rfl, hlists⟩⟩
      | cons row rows =>
          unfold leastFront at h
          split at h
          · cases (ih h).1
          · split at h <;> cases (ih h).1

/-- Taking the first item of one list takes it from all items. -/
theorem perm_flatten_set {α : Type} {i : Nat} {a : α} {rest : List α} {lists : List (List α)}
    (h : lists[i]? = some (a :: rest)) :
    lists.flatten.Perm (a :: (lists.set i rest).flatten) := by
  induction lists generalizing i with
  | nil => cases h
  | cons list lists ih =>
      cases i with
      | zero =>
          cases h
          exact .refl _
      | succ i => exact ((ih h).append_left list).trans List.perm_middle

/-- What holds of lists without a front, and of lists with one if it holds of them without their
least front, holds of all lists. -/
theorem merged_induct (keys : List OrderKey) {motive : List (List Row) → Prop}
    (done : ∀ lists, leastFront keys none 0 lists = none → motive lists)
    (step : ∀ lists i row rows, leastFront keys none 0 lists = some (i, row, rows) →
      motive (lists.set i rows) → motive lists) (lists : List (List Row)) : motive lists := by
  induction hcount : total List.length lists generalizing lists with
  | zero =>
      refine done lists (Option.eq_none_iff_forall_ne_some.2 fun front hfront => ?_)
      obtain ⟨i, row, rows⟩ := front
      have hle := le_total_of_mem List.length (List.mem_of_getElem? (merged_of_some hfront).1)
      rw [hcount, List.length_cons] at hle
      exact absurd hle (Nat.not_succ_le_zero _)
  | succ count ih =>
      cases hfront : leastFront keys none 0 lists with
      | none => exact done lists hfront
      | some front =>
          obtain ⟨i, row, rows⟩ := front
          have hset := total_set List.length (merged_of_some hfront).1 rows
          rw [List.length_cons] at hset
          exact step lists i row rows hfront (ih _ (by omega))

/-- **Merging sends every row on once**, sorted lists or not: the merged rows are a permutation of
all rows. -/
theorem perm_merged (keys : List OrderKey) (lists : List (List Row)) :
    (merged keys lists).Perm lists.flatten := by
  induction lists using merged_induct keys with
  | done lists hfront =>
      rw [merged_of_none hfront, List.flatten_eq_nil_iff.2 (nil_of_leastFront hfront).2]
  | step lists i row rows hfront ih =>
      obtain ⟨hlist, hmerged⟩ := merged_of_some hfront
      rw [hmerged]
      exact (ih.cons row).trans (perm_flatten_set hlist).symm

/-! ### Sorted lists -/

/-- Whether a row at one place comes before a row at another place: it is not greater, and it is
less if the other place is in front of its own one. -/
def Precedes (keys : List OrderKey) (i : Nat) (row : Row) (j : Nat) (other : Row) : Prop :=
  Row.compareBy keys row other ≠ .gt ∧ (j < i → Row.compareBy keys row other = .lt)

variable {keys : List OrderKey} {p : Row → Prop}

/-- What comes before a row comes before all that are not less and not in front of it. -/
theorem Precedes.trans (hkeys : Row.Coherent keys p) {i j k : Nat} {row other third : Row}
    (h : Precedes keys i row j other) (hjk : j ≤ k) (hrow : p row) (hother : p other)
    (hthird : p third) (hle : Row.compareBy keys other third ≠ .gt) :
    Precedes keys i row k third := by
  obtain ⟨hnot, hless⟩ := h
  refine ⟨hkeys _ _ _ hrow hother hthird hnot hle, fun hki => ?_⟩
  exact hkeys.lt_of_lt_of_le hrow hother hthird (hless (Nat.lt_of_le_of_lt hjk hki)) hle

/-- Whether a row at a place comes before the first rows of all lists from a place on. -/
def Leads (keys : List OrderKey) (i : Nat) (row : Row) (index : Nat) (lists : List (List Row)) :
    Prop :=
  ∀ j front others, lists[j]? = some (front :: others) → Precedes keys i row (index + j) front

/-- To lead lists is to precede the front of the first one and to lead the others, one place further
on. -/
theorem Leads.cons {i index : Nat} {row : Row} {list : List Row} {lists : List (List Row)}
    (hhere : ∀ front others, list = front :: others → Precedes keys i row index front)
    (h : Leads keys i row (index + 1) lists) : Leads keys i row index (list :: lists) := by
  intro j front others hj
  cases j with
  | zero => exact hhere front others (Option.some.inj hj)
  | succ j =>
      rw [Nat.add_comm j 1, ← Nat.add_assoc]
      exact h j front others hj

/-- **The front that is found comes before all others**, and before the best one before. -/
theorem precedes_of_leastFront (hkeys : Row.Coherent keys p)
    {best : Option (Nat × Row × List Row)} {index i : Nat} {row : Row} {rows : List Row}
    {lists : List (List Row)} (hbest : ∀ front ∈ best, front.1 < index ∧ p front.2.1)
    (hlists : ∀ list ∈ lists, ∀ row ∈ list, p row)
    (h : leastFront keys best index lists = some (i, row, rows)) :
    (∀ front ∈ best, Precedes keys i row front.1 front.2.1) ∧ Leads keys i row index lists := by
  induction lists generalizing best index with
  | nil =>
      obtain rfl : best = some (i, row, rows) := h
      refine ⟨?_, nofun⟩
      rintro front ⟨⟩
      exact ⟨by simp, fun hlt => absurd hlt (Nat.lt_irrefl i)⟩
  | cons list lists ih =>
      have hrow : p row := by
        obtain heq | ⟨j, -, hj⟩ := leastFront_eq_some h
        · exact (hbest _ heq).2
        · exact hlists _ (List.mem_of_getElem? hj) _ (List.mem_cons_self ..)
      obtain ⟨hlist, hlists'⟩ := List.forall_mem_cons.1 hlists
      have hbest' : ∀ front ∈ best, front.1 < index + 1 ∧ p front.2.1 := fun front hfront =>
        ⟨Nat.lt_succ_of_lt (hbest front hfront).1, (hbest front hfront).2⟩
      cases list with
      | nil =>
          obtain ⟨hbefore, hbehind⟩ := ih hbest' hlists' h
          exact ⟨hbefore, hbehind.cons nofun⟩
      | cons r rs =>
          have hr : p r := hlist r (List.mem_cons_self ..)
          have htaken : ∀ front ∈ some (index, r, rs), front.1 < index + 1 ∧ p front.2.1 := by
            rintro front ⟨⟩
            exact ⟨Nat.lt_succ_self index, hr⟩
          have hcons (hhere : Precedes keys i row index r)
              (hbehind : Leads keys i row (index + 1) lists) :
              Leads keys i row index ((r :: rs) :: lists) := by
            refine hbehind.cons ?_
            rintro front others ⟨⟩
            exact hhere
          unfold leastFront at h
          split at h
          · obtain ⟨hhere, hbehind⟩ := ih htaken hlists' h
            exact ⟨by rintro _ ⟨⟩, hcons (hhere _ rfl) hbehind⟩
          · next b least others =>
              obtain ⟨hb, hleast⟩ := hbest _ rfl
              split at h
              · next hlt =>
                  -- The first row of this list is less than the best one before.
                  obtain ⟨hhere, hbehind⟩ := ih htaken hlists' h
                  refine ⟨?_, hcons (hhere _ rfl) hbehind⟩
                  rintro front ⟨⟩
                  have hless := hkeys.lt_of_le_of_lt hrow hr hleast (hhere _ rfl).1 hlt
                  exact ⟨by rw [hless]; nofun, fun _ => hless⟩
              · next hnot =>
                  obtain ⟨hbefore, hbehind⟩ := ih hbest' hlists' h
                  refine ⟨hbefore, hcons ?_ hbehind⟩
                  refine (hbefore _ rfl).trans hkeys hb.le hrow hleast hr fun hgt => hnot ?_
                  exact Row.compareBy_eq_lt_iff.2 hgt

/-- Whether the rows of lists satisfy a predicate and are sorted, list by list. -/
structure AreSorted (keys : List OrderKey) (p : Row → Prop) (lists : List (List Row)) : Prop where
  /-- The rows satisfy the predicate. -/
  holds : ∀ list ∈ lists, ∀ row ∈ list, p row
  /-- No row of a list is greater than one behind it. -/
  pairwise : ∀ list ∈ lists, list.Pairwise fun a b => Row.compareBy keys a b ≠ .gt

/-- What holds of the rows of each list holds of all rows together. -/
theorem AreSorted.holds_flatten {lists : List (List Row)} (h : AreSorted keys p lists) :
    ∀ row ∈ lists.flatten, p row := by
  intro row hrow
  obtain ⟨list, hlist, hrow⟩ := List.mem_flatten.1 hrow
  exact h.holds list hlist row hrow

/-- Lists stay sorted without the first row of one of them. -/
theorem AreSorted.set {lists : List (List Row)} (h : AreSorted keys p lists) {i : Nat} {row : Row}
    {rows : List Row} (hi : lists[i]? = some (row :: rows)) :
    AreSorted keys p (lists.set i rows) := by
  have hmem := List.mem_of_getElem? hi
  refine ⟨fun list hlist => ?_, fun list hlist => ?_⟩ <;>
    rcases List.mem_or_eq_of_mem_set hlist with hlist | rfl
  · exact h.holds list hlist
  · exact (List.forall_mem_cons.1 (h.holds _ hmem)).2
  · exact h.pairwise list hlist
  · exact (h.pairwise _ hmem).tail

variable {i : Nat} {row : Row} {rows : List Row} {lists : List (List Row)}

/-- The row that is merged first: none of the others is less, and those of the lists in front of its
own one are greater. -/
theorem AreSorted.precedes (hkeys : Row.Coherent keys p) (h : AreSorted keys p lists)
    (hfront : leastFront keys none 0 lists = some (i, row, rows)) {j : Nat} {list : List Row}
    (hj : lists[j]? = some list) : ∀ other ∈ list, Precedes keys i row j other := by
  obtain ⟨-, hleads⟩ := precedes_of_leastFront hkeys (by rintro _ ⟨⟩) h.holds hfront
  have hrow : p row :=
    h.holds _ (List.mem_of_getElem? (merged_of_some hfront).1) _ (List.mem_cons_self ..)
  have hmem := List.mem_of_getElem? hj
  cases list with
  | nil => exact List.forall_mem_nil _
  | cons front others =>
      have hle := Nat.zero_add j ▸ hleads j front others hj
      obtain ⟨hp, hps⟩ := List.forall_mem_cons.1 (h.holds _ hmem)
      refine List.forall_mem_cons.2 ⟨hle, fun other hother => ?_⟩
      refine hle.trans hkeys (Nat.le_refl j) hrow hp (hps other hother) ?_
      exact (List.pairwise_cons.1 (h.pairwise _ hmem)).1 other hother

/-- Of the rows that are equal to another one, the first that is merged is the first of all: no list
in front of its own one has such a row. -/
theorem AreSorted.filter_ties (hkeys : Row.Coherent keys p) (h : AreSorted keys p lists)
    (hfront : leastFront keys none 0 lists = some (i, row, rows)) {other : Row} (hother : p other) :
    lists.flatten.filter (Row.ties keys other) =
      (row :: (lists.set i rows).flatten).filter (Row.ties keys other) := by
  have hi := (merged_of_some hfront).1
  have hrow : p row := h.holds _ (List.mem_of_getElem? hi) _ (List.mem_cons_self ..)
  obtain ⟨hlt, hlist⟩ := List.getElem?_eq_some_iff.1 hi
  obtain ⟨before, behind, hsplit, hlength, hset⟩ := @List.exists_of_set _ _ rows _ hlt
  rw [hlist] at hsplit
  have hbefore (htie : Row.ties keys other row = true) :
      before.flatten.filter (Row.ties keys other) = [] := by
    refine List.filter_eq_nil_iff.2 fun third hthird htie' => ?_
    obtain ⟨list, hmem, hthird⟩ := List.mem_flatten.1 hthird
    obtain ⟨j, hj, rfl⟩ := List.getElem_of_mem hmem
    have hat : lists[j]? = some before[j] := by
      rw [hsplit, List.getElem?_append_left hj, List.getElem?_eq_getElem hj]
    have hp := h.holds _ (List.mem_of_getElem? hat) third hthird
    have hless := (h.precedes hkeys hfront hat third hthird).2 (hlength ▸ hj)
    exact hkeys.le_of_ties hother hp hrow htie' htie (Row.compareBy_eq_lt_iff.1 hless)
  rw [hset, hsplit]
  simp only [List.flatten_append, List.flatten_cons, List.filter_append, List.filter_cons]
  by_cases htie : Row.ties keys other row = true
  · simp only [hbefore htie, if_pos htie, List.nil_append, List.cons_append]
  · simp only [if_neg htie]

/-- What is merged from sorted lists is sorted: each row that goes out precedes all fronts, and so
all rows behind them. -/
theorem pairwise_merged (hkeys : Row.Coherent keys p) (h : AreSorted keys p lists) :
    (merged keys lists).Pairwise fun a b => Row.compareBy keys a b ≠ .gt := by
  induction lists using merged_induct keys with
  | done lists hfront =>
      rw [merged_of_none hfront]
      exact .nil
  | step lists i row rows hfront ih =>
      obtain ⟨hi, hmerged⟩ := merged_of_some hfront
      rw [hmerged]
      refine List.pairwise_cons.2 ⟨fun other hother => ?_, ih (h.set hi)⟩
      have hmem : other ∈ lists.flatten :=
        (perm_flatten_set hi).mem_iff.2 (List.mem_cons_of_mem _ ((perm_merged ..).mem_iff.1 hother))
      obtain ⟨list, hlist, hother⟩ := List.mem_flatten.1 hmem
      obtain ⟨j, hj⟩ := List.getElem?_of_mem hlist
      exact (h.precedes hkeys hfront hj other hother).1

/-- Rows that are equal to another one are merged in the order in which they stand in the lists, one
list behind the other. -/
theorem filter_merged (hkeys : Row.Coherent keys p) (h : AreSorted keys p lists) {other : Row}
    (hother : p other) :
    (merged keys lists).filter (Row.ties keys other) =
      lists.flatten.filter (Row.ties keys other) := by
  induction lists using merged_induct keys with
  | done lists hfront =>
      rw [merged_of_none hfront, List.flatten_eq_nil_iff.2 (nil_of_leastFront hfront).2]
  | step lists i row rows hfront ih =>
      obtain ⟨hi, hmerged⟩ := merged_of_some hfront
      rw [hmerged, h.filter_ties hkeys hfront hother, List.filter_cons, List.filter_cons,
        ih (h.set hi)]

/-- **Merging sorted lists is sorting stably** all their rows, those of the first list in front. -/
theorem stablySorts_merged (hkeys : Row.Coherent keys p) (h : AreSorted keys p lists) :
    Row.StablySorts keys lists.flatten (merged keys lists) :=
  ⟨perm_merged keys lists, pairwise_merged hkeys h,
    fun row hrow => filter_merged hkeys h (h.holds_flatten row hrow)⟩

/-- **Merging sorted lists is sorting** all their rows at once. -/
theorem merged_eq_sortBy (hkeys : Row.Coherent keys p) (h : AreSorted keys p lists) :
    merged keys lists = Row.sortBy keys lists.flatten :=
  (stablySorts_merged hkeys h).unique (Row.stablySorts_sortBy hkeys h.holds_flatten)

end ShardQuery.Meaning
