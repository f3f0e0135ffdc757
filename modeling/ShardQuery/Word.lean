/-!
# Words

Signed integers of sixty-four bits as far as they stand for integers.
-/

namespace ShardQuery

/-- The signed integer of sixty-four bits that stands for an integer, if one does. -/
def int64? (i : Int) : Option Int64 :=
  if Int64.minValue.toInt ≤ i ∧ i ≤ Int64.maxValue.toInt then some (Int64.ofInt i) else none

end ShardQuery
