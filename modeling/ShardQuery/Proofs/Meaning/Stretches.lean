import Mathlib.Data.List.Chain
import ShardQuery.Proofs.Grouping.Lists
import ShardQuery.Proofs.Meaning.Lists

/-!
# The Groups of Ascending Rows

Rows *descend* if one of them is less than the one before it. Coherent rows that do not descend are
sorted as a whole, although only neighbours have been compared. Then every stretch of
neighbours that are equal under the keys has all rows with these keys, so that every key has
one stretch.

## Main results

* `Row.groupKeys_eq_none_iff_descends`: rows are refused as out of order exactly if they descend.
* `Meaning.exists_heads_of_ascending`: the stretches of other rows are their groups, one for each
  key.
-/

namespace ShardQuery

/-- Where no item outside a class stands before one inside, those inside come first. -/
theorem takeWhile_eq_filter {α : Type} {q : α → Bool} {l : List α}
    (h : l.Pairwise fun a b => q b = true → q a = true) :
    l.takeWhile q = l.filter q ∧ l.dropWhile q = l.filter (!q ·) := by
  induction l with
  | nil => exact ⟨rfl, rfl⟩
  | cons a l ih =>
      obtain ⟨hfirst, hrest⟩ := List.pairwise_cons.1 h
      cases hq : q a with
      | true =>
          obtain ⟨htake, hdrop⟩ := ih hrest
          rw [List.takeWhile_cons_of_pos hq, List.dropWhile_cons_of_pos hq,
            List.filter_cons_of_pos hq, List.filter_cons_of_neg (by simp [hq]), htake, hdrop]
          exact ⟨rfl, rfl⟩
      | false =>
          have hnone : ∀ b ∈ a :: l, q b = false := by
            refine List.forall_mem_cons.2 ⟨hq, fun b hb => ?_⟩
            cases hb' : q b with
            | false => rfl
            | true => cases hq.symm.trans (hfirst b hb hb')
          rw [List.takeWhile_cons_of_neg (by simp [hq]), List.dropWhile_cons_of_neg (by simp [hq])]
          refine ⟨?_, (List.filter_eq_self.2 fun b hb => ?_).symm⟩
          · exact (List.filter_eq_nil_iff.2 fun b hb => by simp [hnone b hb]).symm
          · rw [hnone b hb]
            rfl

namespace Row

variable {keys : List OrderKey} {p : Row → Prop} {rows : List Row}

/-- Whether some row is less than the one before it. -/
def Descends (keys : List OrderKey) (rows : List Row) : Prop :=
  ∃ before a b after, rows = before ++ a :: b :: after ∧ compareBy keys b a = .lt

/-- Rows descend nowhere exactly if no row is greater than the one after it, which is the usual form
of being sorted. -/
theorem not_descends_iff :
    ¬ Descends keys rows ↔ rows.IsChain fun a b => compareBy keys a b ≠ .gt := by
  rw [List.isChain_iff_forall_rel_of_append_cons_cons]
  constructor
  · exact fun h a b before after heq hgt =>
      h ⟨before, a, b, after, heq, compareBy_eq_lt_iff.2 hgt⟩
  · rintro h ⟨before, a, b, after, heq, hlt⟩
    exact h heq (compareBy_eq_lt_iff.1 hlt)

/-- Coherent rows of which none is greater than the next one are sorted. -/
theorem Coherent.pairwise_of_isChain (h : Coherent keys p) (hrows : ∀ row ∈ rows, p row)
    (hchain : rows.IsChain fun a b => compareBy keys a b ≠ .gt) :
    rows.Pairwise fun a b => compareBy keys a b ≠ .gt := by
  induction rows with
  | nil => exact List.Pairwise.nil
  | cons first rows ih =>
      obtain ⟨hfirst, hothers⟩ := List.forall_mem_cons.1 hrows
      refine List.pairwise_cons.2 ⟨?_, ih hothers hchain.tail⟩
      cases rows with
      | nil => exact List.forall_mem_nil _
      | cons second rows =>
          obtain ⟨hsecond, hrest⟩ := List.forall_mem_cons.1 hothers
          obtain ⟨hle, htail⟩ := List.isChain_cons_cons.1 hchain
          have hsorted := (List.pairwise_cons.1 (ih hothers htail)).1
          exact List.forall_mem_cons.2 ⟨hle, fun row hrow =>
            h first second row hfirst hsecond (hrest row hrow) hle (hsorted row hrow)⟩

/-- Rows that can be grouped behind a row that is not greater than the first one of the group in the
making are, with it, in order one by one. -/
theorem Coherent.isChain_of_groupKeys (h : Coherent keys p) {first latest : Row} (hfirst : p first)
    (hlatest : p latest) (hrows : ∀ row ∈ rows, p row) (hle : compareBy keys latest first ≠ .gt)
    (hgroups : groupKeys keys (some (first.keyValues keys)) rows ≠ none) :
    (latest :: rows).IsChain fun a b => compareBy keys a b ≠ .gt := by
  induction rows generalizing first latest with
  | nil => exact List.isChain_singleton _
  | cons row rows ih =>
      obtain ⟨hrow, hothers⟩ := List.forall_mem_cons.1 hrows
      have hnext : compareBy keys first row ≠ .gt → compareBy keys latest row ≠ .gt :=
        h latest first row hlatest hfirst hrow hle
      have hswap := compareBy_eq_swap keys first row
      cases hcompare : compareBy keys row first with
      | eq =>
          rw [groupKeys_of_eq rows hcompare] at hgroups
          rw [hcompare] at hswap
          exact List.isChain_cons_cons.2 ⟨hnext (by rw [hswap]; nofun),
            ih hfirst hrow hothers (by rw [hcompare]; nofun) hgroups⟩
      | gt =>
          rw [groupKeys_of_gt rows hcompare] at hgroups
          rw [hcompare] at hswap
          exact List.isChain_cons_cons.2 ⟨hnext (by rw [hswap]; nofun),
            ih hrow hrow hothers (by rw [compareBy_self]; nofun)
              fun hnone => hgroups (by rw [hnone]; rfl)⟩
      | lt => exact absurd (groupKeys_of_lt rows hcompare) hgroups

/-- **Coherent rows are refused as out of order exactly if they descend.** -/
theorem Coherent.groupKeys_eq_none_iff_descends (h : Coherent keys p)
    (hrows : ∀ row ∈ rows, p row) : groupKeys keys none rows = none ↔ Descends keys rows := by
  rw [← not_iff_not, not_descends_iff]
  cases rows with
  | nil => exact iff_of_true (Option.some_ne_none _) List.isChain_nil
  | cons first rows =>
      obtain ⟨hfirst, hothers⟩ := List.forall_mem_cons.1 hrows
      constructor
      · exact h.isChain_of_groupKeys hfirst hfirst hothers (by rw [compareBy_self]; nofun)
      · intro hchain
        obtain ⟨heads, hkeys, -⟩ :=
          exists_groupKeys h hfirst hothers (h.pairwise_of_isChain hrows hchain)
        rw [groupKeys, hkeys]
        exact Option.some_ne_none _

end Row

namespace Meaning

open Row

variable {keys : List OrderKey} {p : Row → Prop} {rows : List Row}

/-- The heads of the groups of rows: the first row of every key, the keys ascending, such that the
stretches of the rows are all rows with the keys of the heads. -/
structure Heads (keys : List OrderKey) (rows heads : List Row) : Prop where
  /-- Every stretch has all rows with the keys of its head. -/
  stretches_eq : stretches keys rows =
    heads.map fun head => rows.filter (inGroup keys (head.keyValues keys))
  /-- Every head is the first one of its group. -/
  head?_eq : ∀ head ∈ heads,
    (rows.filter (inGroup keys (head.keyValues keys))).head? = some head
  /-- The heads ascend. -/
  pairwise : heads.Pairwise fun a b => compareBy keys a b = .lt
  /-- Every row has the keys of a head. -/
  covers : ∀ row ∈ rows, ∃ head ∈ heads, compareBy keys row head = .eq

/-- Every head is one of the rows: it is the first one of its own group. -/
theorem Heads.mem {heads : List Row} (h : Heads keys rows heads) {head : Row}
    (hhead : head ∈ heads) : head ∈ rows :=
  (List.mem_filter.1 (List.mem_of_mem_head? (h.head?_eq head hhead))).1

/-- To be in the group of a head is to compare as equal to it. -/
theorem inGroup_iff {head row : Row} :
    inGroup keys (head.keyValues keys) row = true ↔ compareBy keys row head = .eq :=
  beq_iff_eq

/-- Every row is in the group that it heads. -/
theorem inGroup_self (head : Row) : inGroup keys (head.keyValues keys) head = true :=
  inGroup_iff.2 (compareBy_self keys head)

/-- Among sorted rows, those of the group of the first one come first. -/
theorem pairwise_inGroup (h : Coherent keys p) {first : Row} (hrows : ∀ row ∈ first :: rows, p row)
    (hsorted : (first :: rows).Pairwise fun a b => compareBy keys a b ≠ .gt) :
    rows.Pairwise fun a b => inGroup keys (first.keyValues keys) b = true →
      inGroup keys (first.keyValues keys) a = true := by
  obtain ⟨hle, hrest⟩ := List.pairwise_cons.1 hsorted
  obtain ⟨hfirst, hothers⟩ := List.forall_mem_cons.1 hrows
  refine hrest.imp_of_mem fun {a b} ha hb hab hgroup => inGroup_iff.2 ?_
  have hbfirst : compareBy keys b first ≠ .gt := by
    rw [inGroup_iff.1 hgroup]
    nofun
  have hafirst : compareBy keys a first ≠ .gt :=
    h a b first (hothers a ha) (hothers b hb) hfirst hab hbfirst
  cases hcompare : compareBy keys a first with
  | eq => rfl
  | gt => exact absurd hcompare hafirst
  | lt => exact absurd (compareBy_eq_lt_iff.1 hcompare) (hle a ha)

/-- The group of a greater row has none of the rows that are equal to the first one. -/
theorem filter_inGroup_of_lt (h : Coherent keys p) {first head : Row}
    (hrows : ∀ row ∈ first :: rows, p row) (hhead : p head)
    (hlt : compareBy keys first head = .lt) :
    (first :: rows).filter (inGroup keys (head.keyValues keys)) =
      (rows.filter (!inGroup keys (first.keyValues keys) ·)).filter
        (inGroup keys (head.keyValues keys)) := by
  obtain ⟨hfirst, hothers⟩ := List.forall_mem_cons.1 hrows
  have hgt : compareBy keys head first = .gt := compareBy_eq_lt_iff.1 hlt
  have hout : ¬ inGroup keys (head.keyValues keys) first = true := by
    rw [inGroup_iff, hlt]
    nofun
  rw [List.filter_cons_of_neg hout, List.filter_filter]
  refine List.filter_congr fun row hrow => ?_
  cases hgroup : inGroup keys (head.keyValues keys) row with
  | false => rfl
  | true =>
      cases hequal : inGroup keys (first.keyValues keys) row with
      | false => rfl
      | true =>
          -- The head would be equal to the row, and this to the first one.
          have hle : compareBy keys head row ≠ .gt := by
            rw [compareBy_eq_swap, inGroup_iff.1 hgroup]
            nofun
          have hle' : compareBy keys row first ≠ .gt := by
            rw [inGroup_iff.1 hequal]
            nofun
          exact absurd hgt (h head row first hhead (hothers row hrow) hfirst hle hle')

/-- The heads of the rows behind a group, with the head of this group. -/
theorem Heads.cons (h : Coherent keys p) {first : Row} {heads : List Row}
    (hrows : ∀ row ∈ first :: rows, p row)
    (hsorted : (first :: rows).Pairwise fun a b => compareBy keys a b ≠ .gt)
    (hheads : Heads keys (rows.filter (!inGroup keys (first.keyValues keys) ·)) heads) :
    Heads keys (first :: rows) (first :: heads) := by
  obtain ⟨hle, -⟩ := List.pairwise_cons.1 hsorted
  obtain ⟨htake, hdrop⟩ := takeWhile_eq_filter (pairwise_inGroup h hrows hsorted)
  have hmem : ∀ head ∈ heads, head ∈ rows ∧ compareBy keys first head = .lt := by
    intro head hhead
    obtain ⟨hrow, hother⟩ := List.mem_filter.1 (hheads.mem hhead)
    refine ⟨hrow, ?_⟩
    cases hcompare : compareBy keys first head with
    | lt => rfl
    | gt => exact absurd hcompare (hle head hrow)
    | eq =>
        have hgroup : inGroup keys (first.keyValues keys) head = true := by
          rw [inGroup_iff, compareBy_eq_swap, hcompare]
          rfl
        rw [hgroup] at hother
        cases hother
  have hfilter : ∀ head ∈ heads, (first :: rows).filter (inGroup keys (head.keyValues keys)) =
      (rows.filter (!inGroup keys (first.keyValues keys) ·)).filter
        (inGroup keys (head.keyValues keys)) := fun head hhead =>
    filter_inGroup_of_lt h hrows (hrows head (List.mem_cons_of_mem _ (hmem head hhead).1))
      (hmem head hhead).2
  refine ⟨?_, ?_, ?_, ?_⟩
  · rw [stretches, htake, hdrop, hheads.stretches_eq, List.map_cons,
      List.filter_cons_of_pos (inGroup_self first)]
    exact congrArg (_ :: ·) (List.map_congr_left fun head hhead => (hfilter head hhead).symm)
  · refine List.forall_mem_cons.2 ⟨?_, fun head hhead => ?_⟩
    · rw [List.filter_cons_of_pos (inGroup_self first)]
      rfl
    · rw [hfilter head hhead]
      exact hheads.head?_eq head hhead
  · exact List.pairwise_cons.2 ⟨fun head hhead => (hmem head hhead).2, hheads.pairwise⟩
  · refine List.forall_mem_cons.2 ⟨⟨first, List.mem_cons_self, compareBy_self keys first⟩, ?_⟩
    intro row hrow
    cases hgroup : inGroup keys (first.keyValues keys) row with
    | true => exact ⟨first, List.mem_cons_self, inGroup_iff.1 hgroup⟩
    | false =>
        obtain ⟨head, hhead, hequal⟩ :=
          hheads.covers row (List.mem_filter.2 ⟨hrow, by simp [hgroup]⟩)
        exact ⟨head, List.mem_cons_of_mem _ hhead, hequal⟩

/-- **The stretches of coherent rows that are sorted are their groups.** -/
theorem exists_heads_of_sorted (h : Coherent keys p) (hrows : ∀ row ∈ rows, p row)
    (hsorted : rows.Pairwise fun a b => compareBy keys a b ≠ .gt) :
    ∃ heads, Heads keys rows heads := by
  induction rows using stretches.induct keys with
  | case1 =>
      refine ⟨[], ?_, nofun, List.Pairwise.nil, nofun⟩
      rw [stretches]
      rfl
  | case2 first rows ih =>
      obtain ⟨-, hdrop⟩ := takeWhile_eq_filter (pairwise_inGroup h hrows hsorted)
      have hsublist := (List.dropWhile_sublist (inGroup keys (first.keyValues keys))).trans
        (List.sublist_cons_self first rows)
      obtain ⟨heads, hheads⟩ := ih (fun row hrow => hrows row (hsublist.subset hrow))
        (hsorted.sublist hsublist)
      rw [hdrop] at hheads
      exact ⟨first :: heads, hheads.cons h hrows hsorted⟩

/-- Rows that do not descend have heads, since for coherent keys they are sorted throughout and not
only from one row to the next. -/
theorem exists_heads_of_ascending (h : Coherent keys p) (hrows : ∀ row ∈ rows, p row)
    (hascends : ¬ Descends keys rows) : ∃ heads, Heads keys rows heads :=
  exists_heads_of_sorted h hrows (h.pairwise_of_isChain hrows (not_descends_iff.1 hascends))

end Meaning

end ShardQuery
