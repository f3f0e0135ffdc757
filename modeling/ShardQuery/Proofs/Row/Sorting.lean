import ShardQuery.Proofs.Row.Order
import ShardQuery.Proofs.Value.Totality

/-!
# Stable Sorting

A list of rows is *the* stable sorting of another one: it has the same rows, none is greater than
one behind it, and those that are equal under the keys stand as they stood before. There is only
one such list. Where the order of rows is transitive, `Row.sortBy` makes it; and it is transitive
wherever that of the values under the keys is, for all directions and places of absent values.

## Main results

* `Row.StablySorts.unique`: there is only one stable sorting.
* `Row.stablySorts_sortBy`: sorting coherent rows sorts them stably.
* `Row.coherent_of_holds`: rows are coherent if the doubles under their keys are.
-/

namespace ShardQuery

/-! ### Keys -/

/-- The two comparisons that compose may change places, which descending keys make use of. -/
theorem Composes.symm {x y z : Ordering} (h : Composes x y z) : Composes y x z := by
  unfold Composes at *
  cases x <;> cases y <;> simp_all

/-- What is not greater than something less is itself less. A comparison the other way says
nothing. -/
theorem composes_lt (x : Ordering) : Composes x .lt .lt := by
  cases x <;> simp [Composes]

/-- Comparisons of values under a key compose if those of the values do, in whatever direction
the key orders and wherever it places absent values. -/
theorem OrderKey.composes_compareValues {held : Double → Prop} (h : Double.Coherent held)
    (key : OrderKey) {a b c : Value} (ha : a.Holds held) (hb : b.Holds held) (hc : c.Holds held) :
    Composes (key.compareValues a b) (key.compareValues b c) (key.compareValues a c) := by
  unfold compareValues
  cases a.isNull <;> cases b.isNull <;> cases c.isNull
  case false.false.false =>
    cases key.descending
    · exact Value.composes_compare_of_coherent h a b c ha hb hc
    · exact (Value.composes_compare_of_coherent h c b a hc hb ha).symm
  case false.false.true =>
    cases key.nullsFirst
    · exact composes_lt _
    · exact composes_gt _
  all_goals cases key.nullsFirst <;> simp [Composes]

namespace Row

/-- Whether all doubles under the keys of a row, at any depth, belong to a class. -/
def KeysHold (keys : List OrderKey) (held : Double → Prop) (row : Row) : Prop :=
  ∀ key ∈ keys, (row.getOrNull key.field).Holds held

/-- Comparisons of rows compose if the doubles under their keys are coherent. -/
theorem composes_compareBy {held : Double → Prop} (h : Double.Coherent held)
    {keys : List OrderKey} {a b c : Row} (ha : a.KeysHold keys held) (hb : b.KeysHold keys held)
    (hc : c.KeysHold keys held) :
    Composes (compareBy keys a b) (compareBy keys b c) (compareBy keys a c) := by
  induction keys with
  | nil => exact fun _ => rfl
  | cons key keys ih =>
      obtain ⟨ha, has⟩ := List.forall_mem_cons.1 ha
      obtain ⟨hb, hbs⟩ := List.forall_mem_cons.1 hb
      obtain ⟨hc, hcs⟩ := List.forall_mem_cons.1 hc
      exact (key.composes_compareValues h ha hb hc).then fun _ _ => ih has hbs hcs

/-- Rows are coherent if the doubles under their keys are. -/
theorem coherent_of_holds {held : Double → Prop} (h : Double.Coherent held)
    (keys : List OrderKey) : Coherent keys (KeysHold keys held) := by
  intro a b c ha hb hc hab hbc
  have hcomposes := composes_compareBy h ha hb hc
  unfold Composes at hcomposes
  cases hx : compareBy keys a b <;> cases hy : compareBy keys b c <;> simp_all

/-- Without doubles there are none that do not go together. -/
theorem coherent_of_no_doubles (keys : List OrderKey) :
    Coherent keys (KeysHold keys fun _ => False) :=
  coherent_of_holds ⟨fun h => h.1, nofun, nofun⟩ keys

/-! ### Stable sortings -/

/-- Whether two rows are equal under the keys, as a test by which lists can be filtered. -/
def ties (keys : List OrderKey) (a b : Row) : Bool :=
  compareBy keys a b == .eq

/-- The test tells exactly the rows that compare as equal. -/
theorem ties_iff {keys : List OrderKey} {a b : Row} :
    ties keys a b = true ↔ compareBy keys a b = .eq :=
  beq_iff_eq

/-- Every row is equal to itself under the keys. -/
@[simp] theorem ties_self (keys : List OrderKey) (a : Row) : ties keys a a = true :=
  ties_iff.2 (compareBy_self keys a)

/-- Whether a list is the stable sorting of rows: the same rows in the order of the keys, and those
that are equal as they were before. -/
structure StablySorts (keys : List OrderKey) (rows sorted : List Row) : Prop where
  /-- The rows are the same. -/
  perm : sorted.Perm rows
  /-- No row is greater than one behind it. -/
  pairwise : sorted.Pairwise fun a b => compareBy keys a b ≠ .gt
  /-- Rows that are equal under the keys stay as they were. -/
  stable : ∀ row ∈ rows, sorted.filter (ties keys row) = rows.filter (ties keys row)

variable {keys : List OrderKey} {p : Row → Prop}

/-- Two sorted lists of the same rows in which equal rows stand in the same way are the same. -/
theorem eq_of_sorted {as bs : List Row} (hperm : as.Perm bs)
    (has : as.Pairwise fun a b => compareBy keys a b ≠ .gt)
    (hbs : bs.Pairwise fun a b => compareBy keys a b ≠ .gt)
    (hties : ∀ row ∈ as, as.filter (ties keys row) = bs.filter (ties keys row)) : as = bs := by
  induction as generalizing bs with
  | nil => exact hperm.nil_eq
  | cons a as ih =>
      cases bs with
      | nil => exact hperm.eq_nil
      | cons b bs =>
          obtain ⟨ha, has'⟩ := List.pairwise_cons.1 has
          obtain ⟨hb, hbs'⟩ := List.pairwise_cons.1 hbs
          -- Each of the first rows is in the other list, so that neither is less.
          have hab : compareBy keys a b ≠ .gt := by
            rcases List.mem_cons.1 (hperm.mem_iff.2 (List.mem_cons_self ..)) with rfl | hmem
            · simp
            · exact ha b hmem
          have hba : compareBy keys b a ≠ .gt := by
            rcases List.mem_cons.1 (hperm.mem_iff.1 (List.mem_cons_self ..)) with rfl | hmem
            · simp
            · exact hb a hmem
          have htie : ties keys a b = true := by
            rw [compareBy_eq_swap] at hba
            rw [ties_iff]
            cases hcompare : compareBy keys a b <;> simp_all
          have hfirst := hties a (List.mem_cons_self ..)
          rw [List.filter_cons_of_pos (ties_self keys a), List.filter_cons_of_pos htie] at hfirst
          obtain rfl : a = b := (List.cons.inj hfirst).1
          refine congrArg (a :: ·) (ih hperm.cons_inv has' hbs' fun row hrow => ?_)
          have hrest := hties row (List.mem_cons_of_mem _ hrow)
          rw [List.filter_cons, List.filter_cons] at hrest
          split at hrest
          · exact (List.cons.inj hrest).2
          · exact hrest

/-- **There is only one stable sorting.** The three conditions therefore say everything about the
order of the result, ties included. -/
theorem StablySorts.unique {rows sorted sorted' : List Row} (h : StablySorts keys rows sorted)
    (h' : StablySorts keys rows sorted') : sorted = sorted' := by
  refine eq_of_sorted (h.perm.trans h'.perm.symm) h.pairwise h'.pairwise fun row hrow => ?_
  have hrow := h.perm.mem_iff.1 hrow
  exact (h.stable row hrow).trans (h'.stable row hrow).symm

/-- Coherent rows that are equal to one row are equal. -/
theorem Coherent.le_of_ties (h : Coherent keys p) {row a b : Row} (hrow : p row) (ha : p a)
    (hb : p b) (hta : ties keys row a = true) (htb : ties keys row b = true) :
    compareBy keys a b ≠ .gt := by
  rw [ties_iff] at hta htb
  refine h a row b ha hrow hb ?_ (by rw [htb]; nofun)
  rw [compareBy_eq_swap, hta]
  nofun

/-- **Sorting coherent rows sorts them stably**: the rows come out in order, and equal ones as they
were. -/
theorem stablySorts_sortBy (h : Coherent keys p) {rows : List Row} (hrows : ∀ row ∈ rows, p row) :
    StablySorts keys rows (sortBy keys rows) := by
  refine ⟨perm_sortBy keys rows, pairwise_sortBy h hrows, fun row hrow => ?_⟩
  -- The equal rows are in order, so that they are still among the sorted ones.
  have hequal : (rows.filter (ties keys row)).Pairwise fun a b => compareBy keys a b ≠ .gt := by
    refine List.pairwise_of_forall_mem_list fun a hmem b hmem' => ?_
    obtain ⟨ha, hta⟩ := List.mem_filter.1 hmem
    obtain ⟨hb, htb⟩ := List.mem_filter.1 hmem'
    exact h.le_of_ties (hrows row hrow) (hrows a ha) (hrows b hb) hta htb
  have hsub := (sublist_sortBy h hrows hequal List.filter_sublist).filter (ties keys row)
  rw [List.filter_filter, show (fun a => ties keys row a && ties keys row a) = ties keys row from
    funext fun a => Bool.and_self _] at hsub
  exact (hsub.eq_of_length ((perm_sortBy keys rows).filter _).length_eq.symm).symm

end Row

end ShardQuery
