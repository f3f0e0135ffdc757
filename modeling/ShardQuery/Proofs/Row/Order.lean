import ShardQuery.Proofs.Value.Order
import ShardQuery.Row.Order

/-!
# Laws of the Order of Rows

The order of rows under keys is the same in both directions, as that of values is. Whether it
is transitive depends on the values: rows on which it is are `Row.Coherent`. Sorting coherent
rows puts every row before all rows that are not less.

## Main results

* `Row.compareBy_eq_swap`: comparing the other way round.
* `Row.pairwise_sortBy`: coherent rows are sorted by sorting.
* `Row.sublist_sortBy`: what is in order before stays so.
-/

namespace ShardQuery

/-- Comparing two values the other way round gives the opposite outcome, wherever the key places
absent ones. -/
theorem OrderKey.compareValues_eq_swap (key : OrderKey) (a b : Value) :
    key.compareValues a b = (key.compareValues b a).swap := by
  unfold compareValues
  cases a.isNull <;> cases b.isNull
  · cases key.descending
    · exact a.compare_eq_swap b
    · exact b.compare_eq_swap a
  · cases key.nullsFirst <;> rfl
  · cases key.nullsFirst <;> rfl
  · rfl

/-- The same for lists of values under several keys, where the first difference decides. -/
theorem compareKeyValues_eq_swap (keys : List OrderKey) (as bs : List Value) :
    compareKeyValues keys as bs = (compareKeyValues keys bs as).swap := by
  induction keys generalizing as bs with
  | nil => rfl
  | cons key keys ih =>
      cases as with
      | nil => cases bs <;> rfl
      | cons a as =>
          cases bs with
          | nil => rfl
          | cons b bs =>
              rw [compareKeyValues, compareKeyValues, Ordering.swap_then,
                ← key.compareValues_eq_swap, ← ih]

namespace Row

/-- Comparing two rows the other way round reverses the outcome. -/
theorem compareBy_eq_swap (keys : List OrderKey) (a b : Row) :
    compareBy keys a b = (compareBy keys b a).swap :=
  compareKeyValues_eq_swap keys _ _

/-- Every row is equal to itself, under any keys. -/
@[simp] theorem compareBy_self (keys : List OrderKey) (a : Row) : compareBy keys a a = .eq := by
  have h := compareBy_eq_swap keys a a
  cases hc : compareBy keys a a with
  | eq => rfl
  | lt | gt =>
      rw [hc] at h
      cases h

/-- Whether the order under keys is transitive on rows. -/
def Coherent (keys : List OrderKey) (p : Row → Prop) : Prop :=
  ∀ a b c, p a → p b → p c →
    compareBy keys a b ≠ .gt → compareBy keys b c ≠ .gt → compareBy keys a c ≠ .gt

/-- A row is less than another one that is greater. -/
theorem compareBy_eq_lt_iff {keys : List OrderKey} {a b : Row} :
    compareBy keys a b = .lt ↔ compareBy keys b a = .gt := by
  rw [compareBy_eq_swap]
  cases compareBy keys b a <;> simp

/-- A row that is less than one that is not greater than a third is less than the third. -/
theorem Coherent.lt_of_lt_of_le {keys : List OrderKey} {p : Row → Prop} (h : Coherent keys p)
    {a b c : Row} (ha : p a) (hb : p b) (hc : p c) (hab : compareBy keys a b = .lt)
    (hbc : compareBy keys b c ≠ .gt) : compareBy keys a c = .lt := by
  refine compareBy_eq_lt_iff.2 <| Decidable.byContradiction fun hca => ?_
  exact h b c a hb hc ha hbc hca (compareBy_eq_lt_iff.1 hab)

/-- A row that is not greater than one that is less than a third is less than the third. -/
theorem Coherent.lt_of_le_of_lt {keys : List OrderKey} {p : Row → Prop} (h : Coherent keys p)
    {a b c : Row} (ha : p a) (hb : p b) (hc : p c) (hab : compareBy keys a b ≠ .gt)
    (hbc : compareBy keys b c = .lt) : compareBy keys a c = .lt := by
  refine compareBy_eq_lt_iff.2 <| Decidable.byContradiction fun hca => ?_
  exact h c a b hc ha hb hca hab (compareBy_eq_lt_iff.1 hbc)

/-- A row comes no later than another one if it is not greater, in the form that the sort of the
library tests. -/
theorem isLE_compareBy_iff {keys : List OrderKey} {a b : Row} :
    (compareBy keys a b).isLE = true ↔ compareBy keys a b ≠ .gt := by
  cases compareBy keys a b <;> simp

/-- Sorting neither adds rows nor drops any. -/
theorem perm_sortBy (keys : List OrderKey) (rows : List Row) : (sortBy keys rows).Perm rows :=
  List.mergeSort_perm rows _

/-- The sorted rows are the rows. -/
theorem mem_sortBy {keys : List OrderKey} {rows : List Row} {row : Row} :
    row ∈ sortBy keys rows ↔ row ∈ rows :=
  (perm_sortBy keys rows).mem_iff

/-! ### Sorting coherent rows -/

/-- The order under keys among the rows that satisfy a predicate. -/
def leAmong (keys : List OrderKey) (p : Row → Prop) (a b : {row // p row}) : Bool :=
  (compareBy keys a b).isLE

/-- Of two rows, one comes no later than the other, whether or not the order is transitive. -/
theorem leAmong_total (keys : List OrderKey) (p : Row → Prop) (a b : {row // p row}) :
    (leAmong keys p a b || leAmong keys p b a) = true := by
  rw [leAmong, leAmong, compareBy_eq_swap keys b a]
  cases compareBy keys a b <;> rfl

variable {keys : List OrderKey} {p : Row → Prop} {rows : List Row}

/-- On coherent rows the order is transitive, which is all that is missing for the lemmas about
sorting to apply. -/
theorem Coherent.leAmong_trans (h : Coherent keys p) (a b c : {row // p row})
    (hab : leAmong keys p a b = true) (hbc : leAmong keys p b c = true) :
    leAmong keys p a c = true :=
  isLE_compareBy_iff.2 <| h a b c a.2 b.2 c.2 (isLE_compareBy_iff.1 hab) (isLE_compareBy_iff.1 hbc)

/-- Sorting rows that satisfy a predicate is sorting among these. -/
theorem sortBy_eq_map (keys : List OrderKey) (hrows : ∀ row ∈ rows, p row) :
    sortBy keys rows = ((rows.attachWith p hrows).mergeSort (leAmong keys p)).map (·.1) := by
  have hmap : ((rows.attachWith p hrows).mergeSort (leAmong keys p)).map (·.1) =
      ((rows.attachWith p hrows).map (·.1)).mergeSort fun a b => (compareBy keys a b).isLE :=
    List.map_mergeSort fun _ _ _ _ => rfl
  rw [hmap, List.attachWith_map_subtype_val hrows, sortBy]

/-- Coherent rows are sorted by sorting: no row is greater than one behind it. -/
theorem pairwise_sortBy (h : Coherent keys p) (hrows : ∀ row ∈ rows, p row) :
    (sortBy keys rows).Pairwise fun a b => compareBy keys a b ≠ .gt := by
  rw [sortBy_eq_map keys hrows, List.pairwise_map]
  exact (List.pairwise_mergeSort h.leAmong_trans (leAmong_total keys p) _).imp
    isLE_compareBy_iff.1

/-- Coherent rows that are in order already, with or without others between them, stay in order. -/
theorem sublist_sortBy (h : Coherent keys p) (hrows : ∀ row ∈ rows, p row) {part : List Row}
    (hpart : part.Pairwise fun a b => compareBy keys a b ≠ .gt) (hsub : part.Sublist rows) :
    part.Sublist (sortBy keys rows) := by
  have hattach := List.attachWith_map_subtype_val hrows
  rw [← hattach] at hsub
  obtain ⟨chosen, hchosen, rfl⟩ := List.sublist_map_iff.1 hsub
  rw [sortBy_eq_map keys hrows]
  refine (List.sublist_mergeSort h.leAmong_trans (leAmong_total keys p) ?_ hchosen).map _
  exact (List.pairwise_map.1 hpart).imp isLE_compareBy_iff.2

end Row

end ShardQuery
