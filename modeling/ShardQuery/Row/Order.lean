import ShardQuery.Plan.Basic
import ShardQuery.Row

/-!
# The Order of Rows

Rows are ordered by keys. Absent values come first or last as the key says, whatever its
direction; only the other values are reversed by a descending key.
-/

namespace ShardQuery

/-- The order of two values under a key. -/
def OrderKey.compareValues (key : OrderKey) (a b : Value) : Ordering :=
  match a.isNull, b.isNull with
  | true, true => .eq
  | true, false => if key.nullsFirst then .lt else .gt
  | false, true => if key.nullsFirst then .gt else .lt
  | false, false => if key.descending then b.compare a else a.compare b

/-- The order of two lists of values, one for each key. -/
def compareKeyValues : List OrderKey → List Value → List Value → Ordering
  | key :: keys, a :: as, b :: bs => (key.compareValues a b).then (compareKeyValues keys as bs)
  | _, _, _ => .eq

/-- The values of a row under keys, absent ones where it has no such field. -/
def Row.keyValues (keys : List OrderKey) (row : Row) : List Value :=
  keys.map fun key => row.getOrNull key.field

/-- The order of two rows under keys, decided by the first key whose values differ. -/
def Row.compareBy (keys : List OrderKey) (a b : Row) : Ordering :=
  compareKeyValues keys (a.keyValues keys) (b.keyValues keys)

/-- Rows in order. Rows that are equal under the keys stay in the order they had. -/
def Row.sortBy (keys : List OrderKey) (rows : List Row) : List Row :=
  rows.mergeSort fun a b => (Row.compareBy keys a b).isLE

end ShardQuery
