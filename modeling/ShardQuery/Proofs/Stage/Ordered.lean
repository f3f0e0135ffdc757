import ShardQuery.Proofs.Json.Reading
import ShardQuery.Proofs.Stage.Codec
import ShardQuery.Proofs.Value.Ordered

/-!
# Ordered Node States

A node state is ordered if all values that it holds are. What is read from the document of an
ordered state may hold other values, but the document of what has been read is the same one: of
counters, both have the lowest sixty-four bits. States that have been read from a document are
ordered, whatever the document says.

Main definitions:

* `NodeState.IsOrdered` — whether all values that a state holds are ordered.

## Main results

* `NodeState.IsOrdered.toJson_reread`: ordered states are written again as they have been read.
* `NodeState.isOrdered_of_ofJson?`: states that have been read are ordered.
-/

namespace ShardQuery

open Json

/-! ### Rows -/

/-- Whether all values of a row are ordered, that is, all maps in them list their fields in order.
-/
def Row.IsOrdered (row : Row) : Prop :=
  row.All Value.IsOrdered

/-- An ordered row has the same document again when it has been reread. -/
theorem Row.IsOrdered.toJson_reread {row : Row} (h : row.IsOrdered) :
    row.reread.toJson = row.toJson :=
  congrArg Json.object (Value.areFieldsOrdered_iff.2 h).fieldsToJson_reread

/-- A row that has been read is ordered, since a reader sorts the fields of maps. -/
theorem Row.isOrdered_of_ofJson? {document : Json} {row : Row}
    (h : ofJson? document = some row) : row.IsOrdered :=
  Value.holdsWhenRead_isOrdered.all_of_ofJson? h

/-- Ordered rows have the same documents again when they have been reread. -/
theorem rowsToJson_reread {rows : List Row} (h : ∀ row ∈ rows, row.IsOrdered) :
    rowsToJson (rows.map Row.reread) = rowsToJson rows := by
  rw [rowsToJson, List.map_map]
  exact congrArg Json.array (List.map_congr_left fun row hmem => (h row hmem).toJson_reread)

/-! ### Aggregates -/

namespace AggregateState

/-- Whether all values of a running aggregate are ordered. -/
def IsOrdered : AggregateState → Prop
  | .sum value | .min value | .max value => value.IsOrdered
  | .count _ | .avg .. => True
  | .collect items => ∀ item ∈ items, item.IsOrdered

/-- An ordered running aggregate has the same document again when it has been reread. -/
theorem IsOrdered.toJson_reread {state : AggregateState} (h : state.IsOrdered) :
    state.reread.toJson = state.toJson := by
  cases state with
  | sum value | min value | max value =>
      rw [reread, toJson, toJson, Value.IsOrdered.toJson_reread h]
  | count n => rfl
  | avg total n => rw [reread, toJson, toJson, Value.toJson_reread]
  | collect items =>
      rw [reread, toJson, toJson, (Value.areItemsOrdered_iff.2 h).itemsToJson_reread]

/-- Items that have been read are ordered. -/
theorem isOrdered_of_itemsOfJson? {document : Json} {items : List Value}
    (h : itemsOfJson? document = some items) : ∀ item ∈ items, item.IsOrdered := by
  cases document with
  | array documents => exact Value.holdsWhenRead_isOrdered.of_itemsOfJson? h
  | null | bool | int | double | string | object | flawed => cases h

/-- A running aggregate that has been read is ordered. -/
theorem isOrdered_of_ofJson? {document : Json} {state : AggregateState}
    (h : ofJson? document = some state) : state.IsOrdered := by
  simp only [ofJson?, Option.bind_eq_bind, Option.bind_eq_some_iff] at h
  obtain ⟨⟨function, members⟩, -, h⟩ := h
  split at h
  case h_1 | h_3 | h_4 =>
    obtain ⟨value, hvalue, heq⟩ := Option.bind_eq_some_iff.1 h
    cases heq
    obtain ⟨item, -, hitem⟩ := exists_of_required? hvalue
    exact Value.isOrdered_of_ofJson? hitem
  case h_2 =>
    obtain ⟨count, -, heq⟩ := Option.bind_eq_some_iff.1 h
    cases heq
    trivial
  case h_5 =>
    simp only [Option.bind_eq_some_iff] at h
    obtain ⟨total, -, count, -, heq⟩ := h
    cases heq
    trivial
  case h_6 =>
    obtain ⟨items, hitems, heq⟩ := Option.bind_eq_some_iff.1 h
    cases heq
    obtain ⟨item, -, hitem⟩ := exists_of_required? hitems
    exact isOrdered_of_itemsOfJson? hitem
  case h_7 => cases h

end AggregateState

/-! ### Groups and shards -/

/-- Whether all values of a group in the making are ordered. -/
structure OpenGroup.IsOrdered (group : OpenGroup) : Prop where
  /-- Those of its key. -/
  key : ∀ value ∈ group.key, value.IsOrdered
  /-- Those of its aggregates. -/
  aggregates : ∀ state ∈ group.aggregates, state.IsOrdered

/-- An ordered group has the same document again when it has been reread. -/
theorem OpenGroup.IsOrdered.toJson_reread {group : OpenGroup} (h : group.IsOrdered) :
    group.reread.toJson = group.toJson := by
  have hkey := (Value.areItemsOrdered_iff.2 h.key).itemsToJson_reread
  have haggregates : (group.aggregates.map AggregateState.reread).map AggregateState.toJson =
      group.aggregates.map AggregateState.toJson := by
    rw [List.map_map]
    exact List.map_congr_left fun state hmem => (h.aggregates state hmem).toJson_reread
  rw [reread, toJson, toJson, hkey, haggregates]

/-- A group that has been read is ordered, in its key and in its aggregates. -/
theorem OpenGroup.isOrdered_of_ofJson? {document : Json} {group : OpenGroup}
    (h : ofJson? document = some group) : group.IsOrdered := by
  simp only [ofJson?, Option.bind_eq_bind, Option.bind_eq_some_iff] at h
  obtain ⟨members, -, key, hkey, aggregates, haggregates, heq⟩ := h
  cases heq
  obtain ⟨_, -, hkey⟩ := exists_of_required? hkey
  obtain ⟨_, -, haggregates⟩ := exists_of_required? haggregates
  exact ⟨forall_of_toList? Value.isOrdered_of_ofJson? hkey,
    forall_of_toList? AggregateState.isOrdered_of_ofJson? haggregates⟩

/-- Whether the rows that have been received from a shard are ordered. -/
def ShardProgress.IsOrdered (progress : ShardProgress) : Prop :=
  ∀ row ∈ progress.buffer, row.IsOrdered

/-- Of a counter, a document has the lowest sixty-four bits. -/
theorem counterToJson_mod (count : Nat) :
    counterToJson (count % UInt64.size) = counterToJson count := by
  rw [counterToJson, Nat.mod_mod, counterToJson]

/-- The progress of a shard with ordered rows has the same document again when it has been reread.
-/
theorem ShardProgress.IsOrdered.toJson_reread {progress : ShardProgress} (h : progress.IsOrdered) :
    progress.reread.toJson = progress.toJson := by
  simp only [reread, toJson, rowsToJson_reread h, counterToJson_mod]

/-- The progress of a shard that has been read has ordered rows. -/
theorem ShardProgress.isOrdered_of_ofJson? {document : Json} {progress : ShardProgress}
    (h : ofJson? document = some progress) : progress.IsOrdered := by
  simp only [ofJson?, Option.bind_eq_bind, Option.bind_eq_some_iff] at h
  obtain ⟨members, -, shard, -, cursor, -, buffer, hbuffer, bytes, -, exhausted, -, heq⟩ := h
  cases heq
  obtain ⟨_, -, hbuffer⟩ := exists_of_required? hbuffer
  exact forall_of_toList? Row.isOrdered_of_ofJson? hbuffer

/-! ### States -/

namespace NodeState

/-- Whether all values that a state holds are ordered. -/
def IsOrdered : NodeState → Prop
  | .receive shards => ∀ progress ∈ shards, progress.IsOrdered
  | .sort state => ∀ row ∈ state.buffer, row.IsOrdered
  | .groupBy state => ∀ group ∈ state.current, group.IsOrdered
  | .distinct state => ∀ key ∈ state.last, ∀ value ∈ key, value.IsOrdered
  | .project | .slice _ => True

/-- **Ordered states are written again as they have been read.** -/
theorem IsOrdered.toJson_reread {state : NodeState} (h : state.IsOrdered) :
    state.reread.toJson = state.toJson := by
  suffices hmembers : state.reread.members = state.members by
    rw [toJson, toJson, kind_reread, hmembers]
  cases state with
  | receive shards =>
      have hshards : (shards.map ShardProgress.reread).map ShardProgress.toJson =
          shards.map ShardProgress.toJson := by
        rw [List.map_map]
        exact List.map_congr_left fun progress hmem => (h progress hmem).toJson_reread
      rw [reread, members, members, hshards]
  | sort state =>
      simp only [reread, members, rowsToJson_reread h, counterToJson_mod]
  | groupBy state =>
      obtain ⟨current, bytes, done, seenInput⟩ := state
      cases current with
      | none => simp only [reread, members, Option.map_none, counterToJson_mod]
      | some group =>
          have hgroup : group.IsOrdered := h group rfl
          simp only [reread, members, Option.map_some, hgroup.toJson_reread, counterToJson_mod]
  | distinct state =>
      obtain ⟨last, seen, bytes⟩ := state
      cases last with
      | none => simp only [reread, members, Option.map_none, counterToJson_mod]
      | some key =>
          have hkey := (Value.areItemsOrdered_iff.2 (h key rfl)).itemsToJson_reread
          simp only [reread, members, Option.map_some, hkey, counterToJson_mod]
  | project | slice => rfl

/-- **States that have been read are ordered**, so whatever goes on with a token has an ordered
pipeline. -/
theorem isOrdered_of_ofJson? {document : Json} {state : NodeState}
    (h : ofJson? document = some state) : state.IsOrdered := by
  simp only [ofJson?, Option.bind_eq_bind, Option.bind_eq_some_iff] at h
  obtain ⟨⟨kind, members⟩, -, h⟩ := h
  split at h
  · obtain ⟨shards, hshards, heq⟩ := Option.bind_eq_some_iff.1 h
    cases heq
    obtain ⟨_, -, hshards⟩ := exists_of_required? hshards
    exact forall_of_toList? ShardProgress.isOrdered_of_ofJson? hshards
  · simp only [Option.bind_eq_some_iff] at h
    obtain ⟨buffer, hbuffer, bytes, -, sorted, -, heq⟩ := h
    cases heq
    obtain ⟨_, -, hbuffer⟩ := exists_of_required? hbuffer
    exact forall_of_toList? Row.isOrdered_of_ofJson? hbuffer
  · simp only [Option.bind_eq_some_iff] at h
    obtain ⟨current, hcurrent, bytes, -, done, -, seenInput, -, heq⟩ := h
    cases heq
    rintro group rfl
    obtain ⟨_, -, hgroup⟩ := exists_of_optional? hcurrent
    exact OpenGroup.isOrdered_of_ofJson? hgroup
  · simp only [Option.bind_eq_some_iff] at h
    obtain ⟨last, hlast, seen, -, bytes, -, heq⟩ := h
    cases heq
    rintro key rfl
    obtain ⟨_, -, hkey⟩ := exists_of_optional? hlast
    exact forall_of_toList? Value.isOrdered_of_ofJson? hkey
  · cases h
    trivial
  · simp only [Option.bind_eq_some_iff] at h
    obtain ⟨skipped, -, emitted, -, heq⟩ := h
    cases heq
    trivial
  · cases h

end NodeState

end ShardQuery
