/-!
# Totals

Sums of amounts over lists.
-/

namespace ShardQuery

/-- The sum of the amounts of the items of a list. -/
def total {α : Type} (amount : α → Nat) : List α → Nat
  | [] => 0
  | item :: items => amount item + total amount items

end ShardQuery
