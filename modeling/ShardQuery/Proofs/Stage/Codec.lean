import ShardQuery.Proofs.Row.Codec
import ShardQuery.Proofs.Total
import ShardQuery.Stage.State

/-!
# Node States Read Back

What is read from the document of a node's state is the state with all values that it holds
reread, and of its counters the lowest sixty-four bits. If the values are portable and the counters
are words, it is the state itself.

## Main results

* `NodeState.ofJson?_toJson`: what is read from the document of a state.
* `NodeState.reread_of_isPortable`: states of portable values read back.
* `NodeState.isWritable_toJson`: the documents of states are writable.
-/

namespace ShardQuery

namespace Json

/-! ### Parts of documents -/

/-- What is read from a member that occurs once. -/
theorem required?_eq {α : Type} {members : List (String × Json)} {name : String} {value : Json}
    {read : Json → Option α} (h : uniqueMember? members name = some (some value)) :
    required? members name read = read value := by
  rw [required?, h]

/-- Reading items that have been written, each of which reads back, gives the items that are read
from them. -/
theorem mapM_map_eq_some {α β γ : Type} {f : α → β} {read : β → Option γ} {g : α → γ}
    {l : List α} (h : ∀ a ∈ l, read (f a) = some (g a)) :
    (l.map f).mapM read = some (l.map g) := by
  induction l with
  | nil => rfl
  | cons a l ih =>
      obtain ⟨ha, hl⟩ := List.forall_mem_cons.1 h
      rw [List.map_cons, List.mapM_cons, ha, ih hl]
      rfl

/-- What is read from a member that is `null` if there is nothing to be written. -/
theorem optional?_eq {α β : Type} {members : List (String × Json)} {name : String}
    {toJson : α → Json} {read : Json → Option β} {g : α → β} {x : Option α}
    (hread : ∀ a ∈ x, read (toJson a) = some (g a)) (hnull : ∀ a, toJson a ≠ .null)
    (h : uniqueMember? members name = some (some (x.elim .null toJson))) :
    optional? members name read = some (x.map g) := by
  rw [optional?, h]
  cases x with
  | none => rfl
  | some a =>
      simp only [Option.elim_some]
      split
      · next heq => exact absurd (Option.some.inj (Option.some.inj heq)) (hnull a)
      · next heq =>
          cases heq
          rw [hread a rfl]
          rfl
      · next heq => cases heq
      · next heq => cases heq

/-- What is read from items, as a list, each of them being read back by itself. -/
theorem toList?_array {α β : Type} {f : α → Json} {read : Json → Option β} {g : α → β}
    {l : List α} (h : ∀ a ∈ l, read (f a) = some (g a)) :
    toList? read (.array (l.map f)) = some (l.map g) :=
  mapM_map_eq_some h

/-- Items that read back do so as a list. -/
theorem toList?_array_self {α : Type} {f : α → Json} {read : Json → Option α} {l : List α}
    (h : ∀ a ∈ l, read (f a) = some a) : toList? read (.array (l.map f)) = some l := by
  rw [@toList?_array _ _ f read id l h, List.map_id]

/-- A natural number below a bound is read within it. -/
theorem toNatBelow?_int {bound n : Nat} (h : n < bound) :
    toNatBelow? bound (.int n) = some n := by
  rw [toNatBelow?, if_pos ⟨Int.natCast_nonneg n, Int.ofNat_lt.2 h⟩]
  rfl

/-- A natural number that fits an unsigned word is read as such. -/
theorem toWord?_int {n : Nat} (h : n < UInt64.size) : toWord? (.int n) = some n :=
  toNatBelow?_int h

/-- A number that fits an unsigned word is written as an integer that documents can hold. -/
theorem fitsWord_natCast {n : Nat} (h : n < UInt64.size) : FitsWord n :=
  ⟨Int.le_trans (by decide) (Int.natCast_nonneg n), Int.ofNat_lt.2 h⟩

/-- What is read from the document of a counter. -/
theorem toWord?_counterToJson (count : Nat) :
    toWord? (counterToJson count) = some (count % UInt64.size) :=
  toWord?_int (Nat.mod_lt _ (by decide))

/-- The counters of states are always writable, since they are cut to a word. -/
theorem isWritable_counterToJson (count : Nat) : IsWritable (counterToJson count) :=
  fitsWord_natCast (Nat.mod_lt _ (by decide))

/-- Items are writable when the document of each of them is. -/
theorem areItemsWritable_map {α : Type} {f : α → Json} {l : List α}
    (h : ∀ a ∈ l, IsWritable (f a)) : AreItemsWritable (l.map f) := by
  induction l with
  | nil => trivial
  | cons a l ih =>
      obtain ⟨ha, hl⟩ := List.forall_mem_cons.1 h
      exact ⟨ha, ih hl⟩

end Json

/-! ### Aggregates -/

namespace AggregateState

/-- Whether the values of a running aggregate are portable. -/
def IsPortable : AggregateState → Prop
  | .sum value | .min value | .max value => value.IsPortable
  | .count _ => True
  | .avg total _ => (Value.double total).IsPortable
  | .collect items => Value.AreItemsPortable items

/-- A running count is read back, also one that has gone below zero by overflow. -/
theorem countOfJson?_toInt (n : Int64) : countOfJson? (.int n.toInt) = some n := by
  have h := Value.ofInteger_toInt n
  rw [Value.ofInteger] at h
  rw [countOfJson?]
  split at h
  · next exact heq =>
      rw [heq]
      exact congrArg some (Value.int.inj h)
  · cases h

/-- The sum of a running average is read back, up to the form of a non-number. -/
theorem sumOfJson?_toJson (d : Double) : sumOfJson? (Value.double d).toJson = some d.reread := by
  rw [sumOfJson?, Value.ofJson?_toJson]
  rfl

/-- What is read from the document of a running aggregate. -/
def reread : AggregateState → AggregateState
  | .sum total => .sum total.reread
  | .count n => .count n
  | .min value => .min value.reread
  | .max value => .max value.reread
  | .avg total n => .avg total.reread n
  | .collect items => .collect (Value.rereadItems items)

/-- A running aggregate is read back, up to the forms of the values that it holds. -/
theorem ofJson?_toJson (state : AggregateState) : ofJson? state.toJson = some state.reread := by
  simp only [ofJson?, Option.bind_eq_bind, Option.bind_eq_some_iff]
  cases state with
  | sum total =>
      refine ⟨("sum", _), rfl, ?_⟩
      simp only [Option.bind_eq_some_iff]
      exact ⟨_, (Json.required?_eq rfl).trans (Value.ofJson?_toJson total), rfl⟩
  | count n =>
      refine ⟨("count", _), rfl, ?_⟩
      simp only [Option.bind_eq_some_iff]
      exact ⟨_, (Json.required?_eq rfl).trans (countOfJson?_toInt n), rfl⟩
  | min value =>
      refine ⟨("min", _), rfl, ?_⟩
      simp only [Option.bind_eq_some_iff]
      exact ⟨_, (Json.required?_eq rfl).trans (Value.ofJson?_toJson value), rfl⟩
  | max value =>
      refine ⟨("max", _), rfl, ?_⟩
      simp only [Option.bind_eq_some_iff]
      exact ⟨_, (Json.required?_eq rfl).trans (Value.ofJson?_toJson value), rfl⟩
  | avg total n =>
      refine ⟨("avg", _), rfl, ?_⟩
      simp only [Option.bind_eq_some_iff]
      exact ⟨_, (Json.required?_eq rfl).trans (sumOfJson?_toJson total), _,
        (Json.required?_eq rfl).trans (countOfJson?_toInt n), rfl⟩
  | collect items =>
      have hitems : itemsOfJson? (.array (Value.itemsToJson items)) =
          some (Value.rereadItems items) :=
        Value.itemsOfJson?_itemsToJson items
      refine ⟨("collect", _), rfl, ?_⟩
      simp only [Option.bind_eq_some_iff]
      exact ⟨_, (Json.required?_eq rfl).trans hitems, rfl⟩

/-- Running aggregates of portable values read back as they are. -/
theorem reread_of_isPortable {state : AggregateState} (h : state.IsPortable) :
    state.reread = state := by
  cases state with
  | sum value => exact congrArg sum (Value.reread_of_isPortable value h)
  | min value => exact congrArg min (Value.reread_of_isPortable value h)
  | max value => exact congrArg max (Value.reread_of_isPortable value h)
  | count n => rfl
  | avg total n =>
      exact congrArg (avg · n) (Value.double.inj (Value.reread_of_isPortable (.double total) h))
  | collect items => exact congrArg collect (Value.rereadItems_of_portable items h)

/-- Rereading makes a running aggregate no larger, so it never needs more memory than it is charged
for. -/
theorem sizeEstimate_reread_le (state : AggregateState) :
    state.reread.sizeEstimate ≤ state.sizeEstimate := by
  cases state with
  | sum value | min value | max value => exact value.sizeEstimate_reread_le
  | count | avg => exact Nat.le_refl _
  | collect items => exact Nat.add_le_add_left (Value.itemsSize_reread_le items) _

/-- The document of a running aggregate is writable. -/
theorem isWritable_toJson (state : AggregateState) : Json.IsWritable state.toJson := by
  cases state with
  | sum value | min value | max value => exact ⟨trivial, Value.isWritable_toJson value, trivial⟩
  | count n => exact ⟨trivial, Value.fitsWord_toInt n, trivial⟩
  | avg total n =>
      exact ⟨trivial, Value.isWritable_toJson (.double total), Value.fitsWord_toInt n, trivial⟩
  | collect items => exact ⟨trivial, Value.areItemsWritable_itemsToJson items, trivial⟩

end AggregateState

/-! ### Groups and shards -/

/-- Whether the values of a group in the making are portable. -/
structure OpenGroup.IsPortable (group : OpenGroup) : Prop where
  /-- Those of its key. -/
  key : Value.AreItemsPortable group.key
  /-- Those of its aggregates. -/
  aggregates : ∀ state ∈ group.aggregates, state.IsPortable

/-- Whether the rows that have been received from a shard are portable. -/
def ShardProgress.IsPortable (progress : ShardProgress) : Prop :=
  ∀ row ∈ progress.buffer, row.IsPortable

/-- The documents of a list of values are those of its items. -/
theorem itemsToJson_eq (items : List Value) :
    Value.itemsToJson items = items.map Value.toJson := by
  induction items with
  | nil => rfl
  | cons item items ih => exact congrArg (item.toJson :: ·) ih

/-- Rereading a list of values rereads its items. -/
theorem rereadItems_eq (items : List Value) :
    Value.rereadItems items = items.map Value.reread := by
  induction items with
  | nil => rfl
  | cons item items ih => exact congrArg (item.reread :: ·) ih

/-- A list of values is read back, item by item. -/
theorem toList?_itemsToJson (items : List Value) :
    Json.toList? Value.ofJson? (.array (Value.itemsToJson items)) =
      some (Value.rereadItems items) := by
  rw [itemsToJson_eq, rereadItems_eq]
  exact Json.toList?_array fun item _ => Value.ofJson?_toJson item

/-- A list of rows is read back, row by row. -/
theorem toList?_rowsToJson (rows : List Row) :
    Json.toList? Row.ofJson? (rowsToJson rows) = some (rows.map Row.reread) :=
  Json.toList?_array fun row _ => row.ofJson?_toJson

/-- Rows of portable values read back as they are. -/
theorem map_reread_of_isPortable {rows : List Row} (h : ∀ row ∈ rows, row.IsPortable) :
    rows.map Row.reread = rows :=
  (List.map_congr_left fun row hrow => Row.reread_of_isPortable (h row hrow)).trans
    (List.map_id' rows)

/-- What is read from the documents of rows is not larger. -/
theorem totalSize_map_reread_le (rows : List Row) :
    Row.totalSize (rows.map Row.reread) ≤ Row.totalSize rows := by
  rw [Row.totalSize, total_map]
  exact total_le_total fun row _ => row.sizeEstimate_reread_le

/-- The document of some rows is writable. -/
theorem isWritable_rowsToJson (rows : List Row) : Json.IsWritable (rowsToJson rows) :=
  Json.areItemsWritable_map fun row _ => row.isWritable_toJson

/-- What is read from the document of a group in the making. -/
def OpenGroup.reread (group : OpenGroup) : OpenGroup :=
  ⟨Value.rereadItems group.key, group.aggregates.map AggregateState.reread⟩

/-- A group is read back, its key and its aggregates, up to the forms of their values. -/
theorem OpenGroup.ofJson?_toJson (group : OpenGroup) :
    ofJson? group.toJson = some group.reread := by
  have haggregates : Json.toList? AggregateState.ofJson?
      (.array (group.aggregates.map AggregateState.toJson)) =
        some (group.aggregates.map AggregateState.reread) :=
    Json.toList?_array fun state _ => state.ofJson?_toJson
  simp only [ofJson?, Option.bind_eq_bind, Option.bind_eq_some_iff]
  exact ⟨_, rfl, _, (Json.required?_eq rfl).trans (toList?_itemsToJson group.key), _,
    (Json.required?_eq rfl).trans haggregates, rfl⟩

/-- Groups of portable values read back as they are. -/
theorem OpenGroup.reread_of_isPortable {group : OpenGroup} (h : group.IsPortable) :
    group.reread = group := by
  have haggregates : group.aggregates.map AggregateState.reread = group.aggregates :=
    (List.map_congr_left fun state hstate =>
      AggregateState.reread_of_isPortable (h.aggregates state hstate)).trans (List.map_id' _)
  rw [reread, Value.rereadItems_of_portable group.key h.key, haggregates]

/-- Rereading makes a group no larger. -/
theorem OpenGroup.sizeEstimate_reread_le (group : OpenGroup) :
    group.reread.sizeEstimate ≤ group.sizeEstimate := by
  refine Nat.add_le_add (Value.itemsSize_reread_le group.key) ?_
  rw [reread, total_map]
  exact total_le_total fun state _ => state.sizeEstimate_reread_le

/-- The document of a group is writable. -/
theorem OpenGroup.isWritable_toJson (group : OpenGroup) : Json.IsWritable group.toJson :=
  ⟨Value.areItemsWritable_itemsToJson group.key,
    Json.areItemsWritable_map fun state _ => state.isWritable_toJson, trivial⟩

/-- Octets of cursors are read back from their numbers. -/
theorem octetOfJson?_int (b : UInt8) : octetOfJson? (.int b.toNat) = some b := by
  rw [octetOfJson?, Json.toNatBelow?_int b.toNat_lt, Option.map_some, UInt8.ofNat_toNat]

/-- Shards are read back from their numbers. -/
theorem shardOfJson?_int (shard : ShardId) : shardOfJson? (.int shard.toNat) = some shard := by
  rw [shardOfJson?, Json.toNatBelow?_int shard.toNat_lt, Option.map_some, UInt32.ofNat_toNat]

/-- What is read from the document of a shard's progress. -/
def ShardProgress.reread (progress : ShardProgress) : ShardProgress :=
  { progress with
    buffer := progress.buffer.map Row.reread
    bufferedBytes := progress.bufferedBytes % UInt64.size }

/-- The progress of a shard is read back, up to the forms of the rows in its buffer. -/
theorem ShardProgress.ofJson?_toJson (progress : ShardProgress) :
    ofJson? progress.toJson = some progress.reread := by
  have hoctets (octets : Cursor) : Json.toList? octetOfJson?
      (.array (octets.map fun b => .int b.toNat)) = some octets :=
    Json.toList?_array_self fun b _ => octetOfJson?_int b
  have hcursor : cursorToJson progress.cursor =
      progress.cursor.elim .null fun octets => .array (octets.map fun b => .int b.toNat) := by
    cases progress.cursor <;> rfl
  have hread {members : List (String × Json)}
      (h : Json.uniqueMember? members "continuation" =
        some (some (cursorToJson progress.cursor))) :
      Json.optional? members "continuation" (Json.toList? octetOfJson?) =
        some progress.cursor := by
    rw [hcursor] at h
    rw [Json.optional?_eq (g := id) (fun octets _ => hoctets octets) nofun h, Option.map_id]
    rfl
  simp only [ofJson?, Option.bind_eq_bind, Option.bind_eq_some_iff]
  exact ⟨_, rfl, _, (Json.required?_eq rfl).trans (shardOfJson?_int _), _, hread rfl, _,
    (Json.required?_eq rfl).trans (toList?_rowsToJson progress.buffer), _,
    (Json.required?_eq rfl).trans (Json.toWord?_counterToJson _), _,
    (Json.required?_eq rfl).trans rfl, rfl⟩

/-- The progress of shards with portable rows reads back if its counter is a word. -/
theorem ShardProgress.reread_of_isPortable {progress : ShardProgress} (h : progress.IsPortable)
    (hbytes : progress.bufferedBytes < UInt64.size) : progress.reread = progress := by
  rw [reread, map_reread_of_isPortable h, Nat.mod_eq_of_lt hbytes]

/-- The document of the progress of a shard is writable. -/
theorem ShardProgress.isWritable_toJson (progress : ShardProgress) :
    Json.IsWritable progress.toJson := by
  refine ⟨?_, ?_, isWritable_rowsToJson _, Json.isWritable_counterToJson _, trivial, trivial⟩
  · exact Json.fitsWord_natCast (Nat.lt_trans progress.shard.toNat_lt (by decide))
  · cases progress.cursor with
    | none => trivial
    | some octets =>
        exact Json.areItemsWritable_map fun b _ =>
          Json.fitsWord_natCast (Nat.lt_trans b.toNat_lt (by decide))

/-! ### Nodes -/

/-- A text behind all others is put at the end. -/
theorem insertText_of_last {text : String} {texts : List String} (h : ∀ t ∈ texts, t < text) :
    insertText text texts = texts ++ [text] := by
  induction texts with
  | nil => rfl
  | cons t texts ih =>
      obtain ⟨ht, htexts⟩ := List.forall_mem_cons.1 h
      have hne : text ≠ t := fun heq => String.lt_irrefl text (heq ▸ ht)
      rw [insertText, if_neg (String.lt_asymm ht), if_neg hne, ih htexts]
      rfl

/-- Texts in ascending order stay as they are when they are inserted one by one, as a reader does.
-/
theorem foldl_insertText {texts : List String} (h : texts.Pairwise (· < ·)) :
    texts.foldl (fun texts text => insertText text texts) [] = texts := by
  suffices hgeneral : ∀ done : List String, (done ++ texts).Pairwise (· < ·) →
      texts.foldl (fun texts text => insertText text texts) done = done ++ texts from
    hgeneral [] h
  intro done hdone
  induction texts generalizing done with
  | nil => exact (List.append_nil done).symm
  | cons text texts ih =>
      obtain ⟨hbefore, hafter, hbetween⟩ := List.pairwise_append.1 hdone
      rw [List.foldl_cons, insertText_of_last fun t ht => hbetween t ht text List.mem_cons_self,
        ih (List.Pairwise.of_cons hafter), List.append_assoc, List.singleton_append]
      rwa [List.append_assoc, List.singleton_append]

namespace NodeState

/-- Whether all values that a state holds are portable. -/
def IsPortable : NodeState → Prop
  | .receive shards => ∀ progress ∈ shards, progress.IsPortable
  | .sort state => ∀ row ∈ state.buffer, row.IsPortable
  | .groupBy state => ∀ group ∈ state.current, group.IsPortable
  | .distinct state => ∀ key ∈ state.last, Value.AreItemsPortable key
  | .project | .slice _ => True

/-- Whether the remembered texts of keys of a state are in ascending order. -/
def IsRegular : NodeState → Prop
  | .distinct state => state.seen.Pairwise (· < ·)
  | .receive _ | .sort _ | .groupBy _ | .project | .slice _ => True

/-- What is read from the document of a state: the counters as words, and the values reread. -/
def reread : NodeState → NodeState
  | .receive shards => .receive (shards.map ShardProgress.reread)
  | .sort state => .sort ⟨state.buffer.map Row.reread, state.bytes % UInt64.size, state.sorted⟩
  | .groupBy state =>
    .groupBy ⟨state.current.map OpenGroup.reread, state.bytes % UInt64.size, state.done,
      state.seenInput⟩
  | .distinct state =>
    .distinct ⟨state.last.map Value.rereadItems, state.seen, state.bytes % UInt64.size⟩
  | .project => .project
  | .slice state => .slice state

/-- Rereading a state leaves it one of the same kind. -/
@[simp] theorem kind_reread (state : NodeState) : state.reread.kind = state.kind := by
  cases state <;> rfl

/-- The counters stay if they are words, as a writer cuts them to one. -/
theorem trackedBytes_reread {state : NodeState} (h : state.trackedBytes < UInt64.size) :
    state.reread.trackedBytes = state.trackedBytes := by
  cases state with
  | receive shards =>
      change total ShardProgress.bufferedBytes (shards.map ShardProgress.reread) =
        total ShardProgress.bufferedBytes shards
      rw [total_map]
      refine total_congr fun progress hmem => Nat.mod_eq_of_lt ?_
      exact Nat.lt_of_le_of_lt (le_total_of_mem ShardProgress.bufferedBytes hmem) h
  | sort | groupBy | distinct => exact Nat.mod_eq_of_lt h
  | project | slice => rfl

/-- **What is read from the document of a state.** -/
theorem ofJson?_toJson {state : NodeState} (h : state.IsRegular) :
    ofJson? state.toJson = some state.reread := by
  simp only [ofJson?, Option.bind_eq_bind, Option.bind_eq_some_iff]
  cases state with
  | receive shards =>
      have hshards : Json.toList? ShardProgress.ofJson? (.array (shards.map ShardProgress.toJson)) =
          some (shards.map ShardProgress.reread) :=
        Json.toList?_array fun progress _ => progress.ofJson?_toJson
      refine ⟨("receive", _), rfl, ?_⟩
      simp only [Option.bind_eq_some_iff]
      exact ⟨_, (Json.required?_eq rfl).trans hshards, rfl⟩
  | sort state =>
      refine ⟨("sort", _), rfl, ?_⟩
      simp only [Option.bind_eq_some_iff]
      exact ⟨_, (Json.required?_eq rfl).trans (toList?_rowsToJson state.buffer), _,
        (Json.required?_eq rfl).trans (Json.toWord?_counterToJson _), _,
        (Json.required?_eq rfl).trans rfl, rfl⟩
  | groupBy state =>
      refine ⟨("group_by", _), rfl, ?_⟩
      simp only [Option.bind_eq_some_iff]
      exact ⟨_, Json.optional?_eq (fun group _ => group.ofJson?_toJson) (fun _ h => by cases h)
          (by rcases state with ⟨_ | _, _, _, _⟩ <;> rfl), _,
        (Json.required?_eq rfl).trans (Json.toWord?_counterToJson _), _,
        (Json.required?_eq rfl).trans rfl, _, (Json.required?_eq rfl).trans rfl, rfl⟩
  | distinct state =>
      have htexts : Json.toList? Json.toString? (.array (state.seen.map .string)) =
          some state.seen :=
        Json.toList?_array_self fun _ _ => rfl
      refine ⟨("distinct", _), rfl, ?_⟩
      simp only [Option.bind_eq_some_iff]
      refine ⟨_, Json.optional?_eq (x := state.last) (fun key _ => toList?_itemsToJson key)
          (fun _ h => by cases h) (by rcases state with ⟨_ | _, _, _⟩ <;> rfl), _,
        (Json.required?_eq rfl).trans htexts, _,
        (Json.required?_eq rfl).trans (Json.toWord?_counterToJson _), ?_⟩
      rw [foldl_insertText h]
      rfl
  | project => exact ⟨("project", _), rfl, rfl⟩
  | slice state =>
      refine ⟨("slice", _), rfl, ?_⟩
      simp only [Option.bind_eq_some_iff]
      refine ⟨_, (Json.required?_eq rfl).trans (Json.toWord?_int state.skipped.toNat_lt), _,
        (Json.required?_eq rfl).trans (Json.toWord?_int state.emitted.toNat_lt), ?_⟩
      rw [UInt64.ofNat_toNat, UInt64.ofNat_toNat]
      rfl

/-- States of portable values read back if their counters are words. -/
theorem reread_of_isPortable {state : NodeState} (h : state.IsPortable)
    (hbytes : state.trackedBytes < UInt64.size) : state.reread = state := by
  cases state with
  | receive shards =>
      refine congrArg receive ((List.map_congr_left fun progress hmem => ?_).trans
        (List.map_id' shards))
      exact ShardProgress.reread_of_isPortable (h progress hmem)
        (Nat.lt_of_le_of_lt (le_total_of_mem ShardProgress.bufferedBytes hmem) hbytes)
  | sort state =>
      have hmod : state.bytes % UInt64.size = state.bytes := Nat.mod_eq_of_lt hbytes
      rw [reread, map_reread_of_isPortable h, hmod]
  | groupBy state =>
      obtain ⟨current, bytes, done, seenInput⟩ := state
      have hmod : bytes % UInt64.size = bytes := Nat.mod_eq_of_lt hbytes
      cases current with
      | none => rw [reread, hmod]; rfl
      | some group =>
          rw [reread, hmod, Option.map_some, OpenGroup.reread_of_isPortable (h group rfl)]
  | distinct state =>
      obtain ⟨last, seen, bytes⟩ := state
      have hmod : bytes % UInt64.size = bytes := Nat.mod_eq_of_lt hbytes
      cases last with
      | none => rw [reread, hmod]; rfl
      | some key =>
          rw [reread, hmod, Option.map_some, Value.rereadItems_of_portable key (h key rfl)]
  | project | slice => rfl

/-- The document of a state is writable, whatever the state holds. -/
theorem isWritable_toJson (state : NodeState) : Json.IsWritable state.toJson := by
  refine ⟨trivial, ?_⟩
  cases state with
  | receive shards =>
      exact ⟨Json.areItemsWritable_map fun progress _ => progress.isWritable_toJson, trivial⟩
  | sort state =>
      exact ⟨isWritable_rowsToJson _, Json.isWritable_counterToJson _, trivial, trivial⟩
  | groupBy state =>
      refine ⟨?_, Json.isWritable_counterToJson _, trivial, trivial, trivial⟩
      cases state.current with
      | none => trivial
      | some group => exact group.isWritable_toJson
  | distinct state =>
      refine ⟨?_, Json.areItemsWritable_map fun _ _ => trivial, Json.isWritable_counterToJson _,
        trivial⟩
      cases state.last with
      | none => trivial
      | some key => exact Value.areItemsWritable_itemsToJson key
  | project => trivial
  | slice state =>
      exact ⟨Json.fitsWord_natCast state.skipped.toNat_lt,
        Json.fitsWord_natCast state.emitted.toNat_lt, trivial⟩

end NodeState

end ShardQuery
