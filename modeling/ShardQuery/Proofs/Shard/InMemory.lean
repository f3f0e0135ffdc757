import Mathlib.Algebra.Group.Nat.Defs
import ShardQuery.Proofs.Meaning.Sources
import ShardQuery.Shard.InMemory

/-!
# Tables in Memory Serve Their Rows

Tables in memory serve the rows of each shard in order, as long as these can be counted by an
unsigned word: a cursor then reads as the number of rows before it, and a page has the next rows
from there, however many a request allows. Failures that are arranged leave the rows where they
are.

## Main results

* `InMemory.position?_cursorOf`: cursors read back.
* `InMemory.serves`: tables in memory serve their rows.
-/

namespace ShardQuery.InMemory

/-! ### Cursors -/

/-- The lowest octets of a number, the highest of them first, give the number again. -/
theorem foldl_octets (count position : Nat) :
    ((List.range count).map fun i =>
      UInt8.ofNat (position >>> (8 * (count - 1 - i)))).foldl (fun n b => n * 256 + b.toNat) 0 =
        position % 256 ^ count := by
  induction count generalizing position with
  | zero => exact (Nat.mod_one position).symm
  | succ count ih =>
      -- The octets before the lowest one are those of the number without it.
      have hhigher : ((List.range count).map fun i =>
          UInt8.ofNat (position >>> (8 * (count + 1 - 1 - i)))) =
            (List.range count).map fun i =>
              UInt8.ofNat ((position / 256) >>> (8 * (count - 1 - i))) := by
        refine List.map_congr_left fun i hi => ?_
        have hi := List.mem_range.1 hi
        rw [show 8 * (count + 1 - 1 - i) = 8 + 8 * (count - 1 - i) by omega, Nat.shiftRight_add,
          Nat.shiftRight_eq_div_pow position 8]
      have hlowest : position % 256 ^ (count + 1) =
          position / 256 % 256 ^ count * 256 + position % 256 := by
        rw [Nat.pow_succ', Nat.mod_mul, Nat.mul_comm, Nat.add_comm]
      rw [List.range_succ, List.map_append, List.foldl_append, hhigher, ih, hlowest]
      simp only [Nat.add_sub_cancel, List.map_cons, List.map_nil, List.foldl_cons, List.foldl_nil,
        Nat.sub_self, Nat.mul_zero, Nat.shiftRight_zero, UInt8.toNat_ofNat', Nat.reducePow]

/-- A cursor is read as the number that it was made for. -/
theorem position?_cursorOf {position : Nat} (h : position < UInt64.size) :
    position? (cursorOf position) = some position := by
  rw [position?, if_pos (by simp [cursorOf])]
  exact congrArg some ((foldl_octets 8 position).trans (Nat.mod_eq_of_lt h))

/-! ### Pages -/

/-- The rows that are taken within some room are the first ones. -/
theorem takeWithin_isPrefix (room : Nat) (rows : List Row) : takeWithin room rows <+: rows := by
  have hgo (size : Nat) (rows : List Row) : takeWithin.go room size rows <+: rows := by
    induction rows generalizing size with
    | nil => exact List.prefix_rfl
    | cons row rows ih =>
        rw [takeWithin.go]
        split
        · exact List.nil_prefix
        · exact (List.prefix_cons_inj row).2 (ih _)
  cases rows with
  | nil => exact List.prefix_rfl
  | cons row rows => exact (List.prefix_cons_inj row).2 (hgo _ rows)

/-- A page has the first of the rows behind its place. -/
theorem page_rows_isPrefix (pageSize : Nat) (rows : List Row) (position : Nat)
    (request : ShardRequest) :
    (page pageSize rows position request).rows <+: rows.drop position := by
  have htake := List.take_prefix (min (request.limit.getD pageSize) pageSize) (rows.drop position)
  rw [page]
  simp only
  split
  · exact (takeWithin_isPrefix _ _).trans htake
  · exact htake

/-- The cursor of a page is the place behind its rows, if there are more of them. -/
theorem page_cursor (pageSize : Nat) (rows : List Row) (position : Nat) (request : ShardRequest) :
    (page pageSize rows position request).cursor =
      if position + (page pageSize rows position request).rows.length < rows.length then
        some (cursorOf (position + (page pageSize rows position request).rows.length))
      else none :=
  rfl

/-! ### Answers -/

/-- The rows of a shard of a table, none if there is no such shard. -/
def contents (store : InMemory) (table : String) (shard : ShardId) : List Row :=
  ((store.tables.find? (·.1 == table)).bind fun entry =>
    (entry.2.find? (·.1 == shard)).map (·.2)).getD []

/-- Whether rows are those of a shard of a table behind a cursor, among rows that can be
counted. -/
def ahead (table : String) (store : InMemory) (shard : ShardId) (cursor : Option Cursor)
    (rows : List Row) : Prop :=
  (store.contents table shard).length ≤ UInt64.size ∧
    match cursor with
    | none => rows = store.contents table shard
    | some cursor => ∃ position < UInt64.size, cursor = cursorOf position ∧
        rows = (store.contents table shard).drop position

/-- Answering a request leaves the tables as they are. A planned failure is used up, which is all
that changes. -/
theorem tables_answer (request : ShardRequest) (store : InMemory) :
    (answer request store).2.tables = store.tables := by
  simp only [answer]
  split <;> rfl

/-- Answering a request leaves the rows of every shard as they are. -/
theorem contents_answer (request : ShardRequest) (store : InMemory) (table : String)
    (shard : ShardId) :
    (answer request store).2.contents table shard = store.contents table shard := by
  rw [contents, contents, tables_answer]

/-- A good answer is what has been looked up. -/
theorem lookup_of_answer {request : ShardRequest} {store : InMemory} {response : ShardResponse}
    (h : (answer request store).1 = .ok response) : store.lookup request = .ok response := by
  simp only [answer] at h
  split at h
  · cases h
  · exact h
  · exact h

/-- What is looked up is a page of the shard, from the place that the cursor says. -/
theorem lookup_eq_ok {request : ShardRequest} {store : InMemory} {response : ShardResponse}
    (h : store.lookup request = .ok response) :
    ∃ position, (request.cursor.elim (some 0) position? = some position) ∧
      response =
        page store.pageSize (store.contents request.table request.shard) position request := by
  rw [lookup] at h
  split at h
  · cases h
  · next shards htable =>
      split at h
      · cases h
      · next rows hshard =>
          have hcontents : store.contents request.table request.shard = rows := by
            rw [contents, htable, Option.bind_some, hshard]
            rfl
          rw [hcontents]
          split at h
          · next hcursor =>
              cases h
              exact ⟨0, by rw [hcursor]; rfl, rfl⟩
          · next cursor hcursor =>
              split at h
              · cases h
              · next position hposition =>
                  cases h
                  exact ⟨position, by rw [hcursor]; exact hposition, rfl⟩

/-- **Tables in memory serve their rows**: from any cursor on they give exactly the rows that lie
ahead of it, and a cursor behind those. -/
theorem serves (latencyMs : Nat) (table : String) :
    (reader latencyMs).Serves table (ahead table) := by
  refine ⟨?_, ?_⟩
  · rintro request s s' response rows rfl ⟨hlength, hrows⟩ hanswer
    obtain ⟨position, hposition, rfl⟩ :=
      lookup_eq_ok (lookup_of_answer (congrArg Prod.fst hanswer))
    have hcontents : s'.contents request.table request.shard =
        s.contents request.table request.shard := by
      have hs : s' = (answer request s).2 := (congrArg Prod.snd hanswer).symm
      rw [hs, contents_answer]
    have hdrop : rows = (s.contents request.table request.shard).drop position := by
      cases hcursor : request.cursor with
      | none =>
          rw [hcursor] at hrows hposition
          cases hposition
          exact hrows
      | some cursor =>
          rw [hcursor] at hrows hposition
          obtain ⟨place, hplace, rfl, rfl⟩ := hrows
          cases (position?_cursorOf hplace).symm.trans hposition
          rfl
    obtain ⟨others, hothers⟩ := page_rows_isPrefix s.pageSize
      (s.contents request.table request.shard) position request
    refine ⟨others, hdrop.trans hothers.symm, ?_⟩
    rw [page_cursor]
    split
    · next heq =>
        split at heq
        · cases heq
        · next hend =>
            have hsum := congrArg List.length hothers
            rw [List.length_append, List.length_drop] at hsum
            exact List.length_eq_zero_iff.1 (by omega)
    · next cursor heq =>
        split at heq
        · next hmore =>
            cases heq
            rw [ahead, hcontents]
            refine ⟨hlength, _, Nat.lt_of_lt_of_le hmore hlength, rfl, ?_⟩
            rw [← List.drop_drop, ← hothers, List.drop_left]
        · cases heq
  · rintro request s shard cursor rows - ⟨hlength, hrows⟩
    unfold ahead
    simp only [reader, contents_answer]
    exact ⟨hlength, hrows⟩

end ShardQuery.InMemory
