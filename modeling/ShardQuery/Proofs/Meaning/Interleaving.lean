import ShardQuery.Proofs.Meaning.Sources

/-!
# Interleavings

Rows that are delivered in any order still keep the order of their shards: each of them is the first
one that is left of some shard. Taken from all shards up to their ends, they are an interleaving of
the rows of the shards.

Main definitions:

* `Meaning.Takes` — items taken one by one from the fronts of lists;
* `Meaning.Interleaves` — the items of lists, all of them, each list in its own order.

## Main results

* `Meaning.Interleaves.perm`, `Meaning.Interleaves.sublist`: what an interleaving has.
* `Source.takes_of_next_anyOrder`: the rows of a source are taken from the fronts of its shards.
-/

namespace ShardQuery

namespace Meaning

variable {α β : Type}

/-- Whether items are taken one by one from the fronts of lists, in whatever order, and which lists
are left. -/
inductive Takes : List (List α) → List α → List (List α) → Prop
  /-- Nothing is taken. -/
  | none (lists : List (List α)) : Takes lists [] lists
  /-- The first item of one of the lists is taken before others. -/
  | first {lists left : List (List α)} {index : Nat} {a : α} {rest taken : List α} :
      lists[index]? = some (a :: rest) → Takes (lists.set index rest) taken left →
      Takes lists (a :: taken) left

/-- Whether items are those of lists, all of them, each list in its own order. -/
def Interleaves (lists : List (List α)) (items : List α) : Prop :=
  ∃ left, Takes lists items left ∧ ∀ list ∈ left, list = []

/-- Taking some items and then others from what is left is taking all of them. -/
theorem Takes.append {lists middle left : List (List α)} {taken others : List α}
    (h : Takes lists taken middle) (h' : Takes middle others left) :
    Takes lists (taken ++ others) left := by
  induction h with
  | none => exact h'
  | first hlist _ ih => exact .first hlist (ih h')

/-- Nothing is lost, and nothing is taken twice: what has been taken and what is left are the items
of the lists. -/
theorem Takes.perm {lists left : List (List α)} {taken : List α} (h : Takes lists taken left) :
    lists.flatten.Perm (taken ++ left.flatten) := by
  induction h with
  | none => exact .refl _
  | first hlist _ ih => exact (perm_flatten_set hlist).trans (ih.cons _)

/-- What is taken of a list are its first items, in their order. -/
theorem Takes.exists_sublist {lists left : List (List α)} {taken list : List α} {index : Nat}
    (h : Takes lists taken left) (hlist : lists[index]? = some list) :
    ∃ before after, list = before ++ after ∧ before.Sublist taken ∧ left[index]? = some after := by
  induction h generalizing list with
  | none => exact ⟨[], list, rfl, .slnil, hlist⟩
  | @first lists left i a rest taken hfirst _ ih =>
      by_cases heq : i = index
      · subst heq
        cases hfirst.symm.trans hlist
        obtain ⟨hlt, -⟩ := List.getElem?_eq_some_iff.1 hlist
        obtain ⟨before, after, rfl, hbefore, hafter⟩ := ih (List.getElem?_set_self hlt)
        exact ⟨a :: before, after, rfl, hbefore.cons_cons a, hafter⟩
      · obtain ⟨before, after, rfl, hbefore, hafter⟩ :=
          ih ((List.getElem?_set_ne heq).trans hlist)
        exact ⟨before, after, rfl, hbefore.cons a, hafter⟩

/-- An interleaving has every item once, which is what remains of it when the order is forgotten. -/
theorem Interleaves.perm {lists : List (List α)} {items : List α} (h : Interleaves lists items) :
    items.Perm lists.flatten := by
  obtain ⟨left, htakes, hleft⟩ := h
  have hperm := htakes.perm
  rw [List.flatten_eq_nil_iff.2 hleft, List.append_nil] at hperm
  exact hperm.symm

/-- An interleaving has the items of every list in their order. -/
theorem Interleaves.sublist {lists : List (List α)} {items list : List α}
    (h : Interleaves lists items) (hlist : list ∈ lists) : list.Sublist items := by
  obtain ⟨left, htakes, hleft⟩ := h
  obtain ⟨index, hindex⟩ := List.mem_iff_getElem?.1 hlist
  obtain ⟨before, after, rfl, hbefore, hafter⟩ := htakes.exists_sublist hindex
  rw [hleft after (List.mem_of_getElem? hafter), List.append_nil]
  exact hbefore

/-- A first item and its image are put back in front of a list and of its images. -/
theorem exists_of_forall₂_set {R : α → β → Prop} {lists : List (List α)} {others : List (List β)}
    {index : Nat} {a : α} {b : β} {rest : List α} (hlist : lists[index]? = some (a :: rest))
    (h : List.Forall₂ (List.Forall₂ R) (lists.set index rest) others) (hfirst : R a b) :
    ∃ others' rest', List.Forall₂ (List.Forall₂ R) lists others' ∧
      others'[index]? = some (b :: rest') ∧ others'.set index rest' = others := by
  induction lists generalizing index others with
  | nil => cases hlist
  | cons list lists ih =>
      cases index with
      | zero =>
          cases hlist
          cases h with
          | @cons _ image _ others himage hrest =>
              exact ⟨(b :: image) :: others, image, .cons (.cons hfirst himage) hrest, rfl, rfl⟩
      | succ index =>
          cases h with
          | @cons _ image _ others himage hrest =>
              obtain ⟨others', rest', hall, hindex, rfl⟩ := ih hlist hrest
              exact ⟨image :: others', rest', .cons himage hall, hindex, rfl⟩

/-- What every item becomes by itself, an interleaving and its lists become together. -/
theorem Interleaves.images {R : α → β → Prop} {lists : List (List α)} {items : List α}
    {images : List β} (h : Interleaves lists items) (himages : List.Forall₂ R items images) :
    ∃ others, List.Forall₂ (List.Forall₂ R) lists others ∧ Interleaves others images := by
  obtain ⟨left, htakes, hleft⟩ := h
  induction htakes generalizing images with
  | none lists =>
      cases himages
      have hall : List.Forall₂ (List.Forall₂ R) lists (lists.map fun _ => []) := by
        rw [List.forall₂_map_right_iff, List.forall₂_same]
        exact fun list hlist => hleft list hlist ▸ .nil
      exact ⟨_, hall, _, .none _, by simp⟩
  | first hlist _ ih =>
      cases himages with
      | cons hfirst hothers =>
          obtain ⟨others, hall, left', htakes', hleft'⟩ := ih hothers hleft
          obtain ⟨others', rest', hall', hindex, rfl⟩ := exists_of_forall₂_set hlist hall hfirst
          exact ⟨others', hall', left', .first hindex htakes', hleft'⟩

end Meaning

/-! ### Sources -/

/-- The rows that a signal sends on: one row or none. -/
def Signal.rows : Signal → List Row
  | .row r => [r]
  | .exhausted | .fetch _ | .again => []

/-- In any order, a row is taken from any buffer, and the rows are at their end when no shard holds
any or can be asked for more. -/
theorem Source.takes_of_next_anyOrder {ahead : ShardId → Option Cursor → List Row → Prop}
    {source : Source} {lists : List (List Row)} {fanOut : Nat} {signal : Signal}
    (hdelivery : source.delivery = .anyOrder (fanOut + 1)) (h : source.Ahead ahead lists)
    (hsignal : source.next.result = .ok signal) :
    ∃ left, source.next.state.Ahead ahead left ∧ Meaning.Takes lists signal.rows left ∧
      (signal = .exhausted → ∀ list ∈ left, list = []) := by
  cases source.next_inv with
  | incomplete _ heq =>
      rw [heq] at hsignal
      cases hsignal
  | gives hp hb _ heq =>
      obtain ⟨others, hlist, hahead, -⟩ := h.popped hp hb
      rw [heq] at hsignal ⊢
      cases hsignal
      exact ⟨_, hahead, .first hlist (.none _), nofun⟩
  | ends hdrained heq =>
      have hpos : ∀ n, source.delivery = .anyOrder n → n ≠ 0 := by
        rw [hdelivery]
        rintro _ ⟨⟩
        exact Nat.succ_ne_zero fanOut
      rw [heq] at hsignal ⊢
      cases hsignal
      exact ⟨lists, h, .none _, fun _ => h.eq_nil_of_isDrained (hdrained hpos)⟩
  | wants _ _ heq =>
      rw [heq] at hsignal ⊢
      cases hsignal
      exact ⟨lists, h, .none _, nofun⟩

end ShardQuery
