import Mathlib.Logic.Basic
import ShardQuery.Word

/-!
# Laws of Words

Which integers signed words stand for.

Main definitions:

* `ExceedsWord` — whether an integer is beyond the signed words.
-/

namespace ShardQuery

/-- Whether an integer is beyond the signed words of sixty-four bits, on either side. Exact
arithmetic goes over to doubles there. -/
def ExceedsWord (i : Int) : Prop :=
  i < Int64.minValue.toInt ∨ Int64.maxValue.toInt < i

/-- An integer that no signed word stands for is beyond them. -/
theorem exceedsWord_of_int64? {i : Int} (h : int64? i = none) : ExceedsWord i := by
  rw [int64?] at h
  split at h
  · cases h
  · next hrange => exact (not_and_or.1 hrange).imp Int.lt_of_not_ge Int.lt_of_not_ge

/-- No word is beyond the words. This is what keeps the operands of an exact operation apart from
its result. -/
theorem not_exceedsWord_toInt (n : Int64) : ¬ ExceedsWord n.toInt :=
  not_or.2 ⟨Int.not_lt.2 n.minValue_le_toInt, Int.not_lt.2 n.toInt_le⟩

end ShardQuery
