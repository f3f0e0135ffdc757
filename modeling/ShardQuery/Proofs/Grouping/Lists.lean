import ShardQuery.Proofs.Row.Order

/-!
# Grouping Sorted Rows

Rows are sorted by comparing neighbours with each other, but grouped by comparing every row
with the first one of its group. The two fit together on the rows of a class exactly if the
order is transitive there. Otherwise three rows of the class are enough to build a list that,
once sorted, is rejected as unsorted or has two groups of one key.

Main definitions:

* `groupKeys` — the keys of the groups of a list;
* `GroupsApart` — whether a list, once sorted, has groups, and these have different keys.

## Main results

* `groupsApart_of_coherent`, `coherent_of_groupsApart`: all lists of a class have groups of
  different keys exactly if the class is coherent.
-/

namespace ShardQuery

/-- The keys of the groups of rows, after those of a group in the making. There are none if a
row is less than the group before. -/
def groupKeys (keys : List OrderKey) :
    Option (List Value) → List Row → Option (List (List Value))
  | current, [] => some current.toList
  | none, row :: rows => groupKeys keys (some (row.keyValues keys)) rows
  | some key, row :: rows =>
    match compareKeyValues keys (row.keyValues keys) key with
    | .eq => groupKeys keys (some key) rows
    | .gt => (groupKeys keys (some (row.keyValues keys)) rows).map (key :: ·)
    | .lt => none

/-- Whether keys are all different, in the sense that no two of them compare as equal, adjacent or
not. -/
def Apart (keys : List OrderKey) (groups : List (List Value)) : Prop :=
  groups.Pairwise fun a b => compareKeyValues keys a b ≠ .eq

/-- Whether rows, once sorted, have groups, and these have different keys. -/
def GroupsApart (keys : List OrderKey) (rows : List Row) : Prop :=
  ∃ groups, groupKeys keys none (Row.sortBy keys rows) = some groups ∧ Apart keys groups

section

variable {keys : List OrderKey}

/-- A row with the key of the group in the making adds no group. -/
theorem groupKeys_of_eq {key : List Value} {row : Row} (rows : List Row)
    (h : compareKeyValues keys (row.keyValues keys) key = .eq) :
    groupKeys keys (some key) (row :: rows) = groupKeys keys (some key) rows := by
  simp only [groupKeys, h]

/-- A row with a greater key ends the group in the making, whose key is the first of the list from
then on. -/
theorem groupKeys_of_gt {key : List Value} {row : Row} (rows : List Row)
    (h : compareKeyValues keys (row.keyValues keys) key = .gt) :
    groupKeys keys (some key) (row :: rows) =
      (groupKeys keys (some (row.keyValues keys)) rows).map (key :: ·) := by
  simp only [groupKeys, h]

/-- A row with a smaller key leaves no groups at all, since this is the failure of a grouping over
unsorted rows. -/
theorem groupKeys_of_lt {key : List Value} {row : Row} (rows : List Row)
    (h : compareKeyValues keys (row.keyValues keys) key = .lt) :
    groupKeys keys (some key) (row :: rows) = none := by
  simp only [groupKeys, h]

/-! ### Coherent rows -/

/-- The groups of sorted rows have ascending keys, each of them that of a row. -/
theorem exists_groupKeys {p : Row → Prop} (h : Row.Coherent keys p) {first : Row}
    {rows : List Row} (hfirst : p first) (hrows : ∀ row ∈ rows, p row)
    (hsorted : (first :: rows).Pairwise fun a b => Row.compareBy keys a b ≠ .gt) :
    ∃ heads : List Row, groupKeys keys (some (first.keyValues keys)) rows =
        some (heads.map (Row.keyValues keys)) ∧
      (∀ head ∈ heads, head ∈ first :: rows) ∧
      heads.Pairwise fun a b => Row.compareBy keys a b = .lt := by
  induction rows generalizing first with
  | nil => exact ⟨[first], rfl, fun _ hmem => hmem, List.pairwise_singleton _ _⟩
  | cons row rows ih =>
      obtain ⟨hrow, hrest⟩ := List.forall_mem_cons.1 hrows
      obtain ⟨hle, htail⟩ := List.pairwise_cons.1 hsorted
      cases hcompare : Row.compareBy keys row first with
      | eq =>
          obtain ⟨heads, hkeys, hmem, hlt⟩ := ih hfirst hrest <| List.pairwise_cons.2
            ⟨fun other hother => hle other (List.mem_cons_of_mem _ hother),
              (List.pairwise_cons.1 htail).2⟩
          refine ⟨heads, (groupKeys_of_eq rows hcompare).trans hkeys, fun head hhead => ?_, hlt⟩
          rcases List.mem_cons.1 (hmem head hhead) with rfl | hother
          · exact List.mem_cons_self
          · exact List.mem_cons_of_mem _ (List.mem_cons_of_mem _ hother)
      | gt =>
          obtain ⟨heads, hkeys, hmem, hlt⟩ := ih hrow hrest htail
          have hless : Row.compareBy keys first row = .lt := by
            rw [Row.compareBy_eq_swap, hcompare]
            rfl
          refine ⟨first :: heads, ?_, ?_, List.pairwise_cons.2 ⟨fun head hhead => ?_, hlt⟩⟩
          · rw [groupKeys_of_gt rows hcompare, hkeys]
            rfl
          · rintro head (_ | ⟨_, hhead⟩)
            · exact List.mem_cons_self
            · exact List.mem_cons_of_mem _ (hmem head hhead)
          · rcases List.mem_cons.1 (hmem head hhead) with rfl | hother
            · exact hless
            · exact h.lt_of_lt_of_le hfirst hrow (hrest head hother) hless
                ((List.pairwise_cons.1 htail).1 head hother)
      | lt =>
          have hgreater : Row.compareBy keys first row = .gt := by
            rw [Row.compareBy_eq_swap, hcompare]
            rfl
          exact absurd hgreater (hle row List.mem_cons_self)

/-- Coherent rows have groups of different keys: sorting is then a real sort, and equal keys cannot
come back after greater ones. -/
theorem groupsApart_of_coherent {p : Row → Prop} (h : Row.Coherent keys p) {rows : List Row}
    (hrows : ∀ row ∈ rows, p row) : GroupsApart keys rows := by
  have hsorted := Row.pairwise_sortBy h hrows
  have hp : ∀ row ∈ Row.sortBy keys rows, p row := fun row hrow => hrows row (Row.mem_sortBy.1 hrow)
  unfold GroupsApart
  cases hlist : Row.sortBy keys rows with
  | nil => exact ⟨[], rfl, List.Pairwise.nil⟩
  | cons first others =>
      rw [hlist] at hsorted hp
      obtain ⟨hfirst, hothers⟩ := List.forall_mem_cons.1 hp
      obtain ⟨heads, hkeys, -, hlt⟩ := exists_groupKeys h hfirst hothers hsorted
      refine ⟨_, hkeys, List.pairwise_map.2 (hlt.imp fun {a b} hab => ?_)⟩
      change Row.compareBy keys a b ≠ .eq
      rw [hab]
      nofun

/-! ### Incoherent rows -/

/-- Four rows that are in order one by one stay as they are. -/
theorem sortBy_four {x y z : Row} (hxy : (Row.compareBy keys x y).isLE = true)
    (hyz : (Row.compareBy keys y z).isLE = true) :
    Row.sortBy keys [x, y, y, z] = [x, y, y, z] := by
  simp [Row.sortBy, List.mergeSort, hxy, hyz]

/-- A row that is equal to one that is not greater than a third, but greater than this: sorting
leaves the third one behind the group of the first. -/
theorem not_groupsApart_of_eq {x y z : Row} (hxy : Row.compareBy keys x y = .eq)
    (hyz : Row.compareBy keys y z ≠ .gt) (hzx : Row.compareBy keys z x = .lt) :
    ¬ GroupsApart keys [x, y, y, z] := by
  have hyx : compareKeyValues keys (y.keyValues keys) (x.keyValues keys) = .eq := by
    rw [compareKeyValues_eq_swap]
    exact congrArg Ordering.swap hxy
  rintro ⟨groups, hgroups, -⟩
  rw [sortBy_four (by rw [hxy]; rfl) (Row.isLE_compareBy_iff.2 hyz), groupKeys,
    groupKeys_of_eq _ hyx, groupKeys_of_eq _ hyx, groupKeys_of_lt _ hzx] at hgroups
  cases hgroups

/-- Three rows each of which is less than the next one around: one of them comes both first and
last when eight of them are sorted. -/
theorem not_groupsApart_of_cycle {x y z : Row} (hxy : Row.compareBy keys x y = .lt)
    (hyz : Row.compareBy keys y z = .lt) (hzx : Row.compareBy keys z x = .lt) :
    ¬ GroupsApart keys [x, y, y, z, z, x, x, y] := by
  have hyx : Row.compareBy keys y x = .gt := by rw [Row.compareBy_eq_swap, hxy]; rfl
  have hzy : Row.compareBy keys z y = .gt := by rw [Row.compareBy_eq_swap, hyz]; rfl
  have hxz : Row.compareBy keys x z = .gt := by rw [Row.compareBy_eq_swap, hzx]; rfl
  have hsorted : Row.sortBy keys [x, y, y, z, z, x, x, y] = [z, x, x, x, y, y, y, z] := by
    simp [Row.sortBy, List.mergeSort, hxy, hyz, hzx, hyx, hzy, hxz, Row.compareBy_self]
  rintro ⟨groups, hgroups, hapart⟩
  rw [hsorted, groupKeys, groupKeys_of_gt _ hxz, groupKeys_of_eq _ (Row.compareBy_self keys x),
    groupKeys_of_eq _ (Row.compareBy_self keys x), groupKeys_of_gt _ hyx,
    groupKeys_of_eq _ (Row.compareBy_self keys y), groupKeys_of_eq _ (Row.compareBy_self keys y),
    groupKeys_of_gt _ hzy, groupKeys] at hgroups
  cases hgroups
  exact (List.pairwise_cons.1 hapart).1 _ (by simp) (Row.compareBy_self keys z)

/-- Only coherent rows have groups of different keys, whatever their list. -/
theorem coherent_of_groupsApart {p : Row → Prop}
    (h : ∀ rows, (∀ row ∈ rows, p row) → GroupsApart keys rows) : Row.Coherent keys p := by
  intro a b c ha hb hc hab hbc hac
  have hca : Row.compareBy keys c a = .lt := by rw [Row.compareBy_eq_swap, hac]; rfl
  cases hab' : Row.compareBy keys a b with
  | gt => exact hab hab'
  | eq => exact not_groupsApart_of_eq hab' hbc hca (h _ (by simp [ha, hb, hc]))
  | lt =>
      cases hbc' : Row.compareBy keys b c with
      | gt => exact hbc hbc'
      | eq =>
          have hle : Row.compareBy keys c a ≠ .gt := by rw [hca]; nofun
          exact not_groupsApart_of_eq hbc' hle hab' (h _ (by simp [ha, hb, hc]))
      | lt => exact not_groupsApart_of_cycle hab' hbc' hca (h _ (by simp [ha, hb, hc]))

end

end ShardQuery
