import ShardQuery.Value.Order

/-!
# Laws of the Order of Values

`Value.compare` is the same in both directions, for all values: turning a comparison around
reverses its outcome, and every value is equal to itself. It is not transitive. An integer is
equal to both zeros, which are different doubles.

## Main results

* `Value.compare_eq_swap`: comparing the other way round.
* `Value.compare_self`: every value is equal to itself.
-/

namespace ShardQuery

namespace Double

/-- Comparing two doubles the other way round gives the opposite outcome. -/
theorem totalCompare_eq_swap (a b : Double) : a.totalCompare b = (b.totalCompare a).swap :=
  Std.OrientedOrd.eq_swap

end Double

namespace Value

mutual

/-- Comparing two values the other way round reverses the outcome. -/
theorem compare_eq_swap : ∀ a b : Value, a.compare b = (b.compare a).swap
  | .array as, b => by
    cases b with
    | array bs => exact compareItems_eq_swap as bs
    | null | bool | int | double | string | map => rfl
  | .map as, b => by
    cases b with
    | map bs => exact compareFields_eq_swap as bs
    | null | bool | int | double | string | array => rfl
  | .null, b => by cases b <;> rfl
  | .bool a, b => by
    cases b with
    | bool b => exact Std.OrientedOrd.eq_swap
    | null | int | double | string | array | map => rfl
  | .int a, b => by
    cases b with
    | int b => exact Std.OrientedOrd.eq_swap
    | double b => exact (Ordering.swap_swap).symm
    | null | bool | string | array | map => rfl
  | .double a, b => by
    cases b with
    | double b => exact Double.totalCompare_eq_swap a b
    | null | bool | int | string | array | map => rfl
  | .string a, b => by
    cases b with
    | string b => exact Std.OrientedOrd.eq_swap
    | null | bool | int | double | array | map => rfl

/-- Comparing two arrays the other way round reverses the outcome. -/
theorem compareItems_eq_swap :
    ∀ as bs : List Value, compareItems as bs = (compareItems bs as).swap
  | [], bs => by cases bs <;> rfl
  | a :: as, bs => by
    cases bs with
    | nil => rfl
    | cons b bs =>
      rw [compareItems, compareItems, Ordering.swap_then, ← compare_eq_swap a b,
        ← compareItems_eq_swap as bs]

/-- Comparing two maps the other way round reverses the outcome. -/
theorem compareFields_eq_swap :
    ∀ as bs : List (String × Value), compareFields as bs = (compareFields bs as).swap
  | [], bs => by cases bs <;> rfl
  | (m, a) :: as, bs => by
    cases bs with
    | nil => rfl
    | cons b bs =>
      obtain ⟨n, b⟩ := b
      have hnames : Ord.compare m n = (Ord.compare n m).swap := Std.OrientedOrd.eq_swap
      rw [compareFields, compareFields, Ordering.swap_then, Ordering.swap_then,
        ← compare_eq_swap a b, ← hnames, ← compareFields_eq_swap as bs]

end

/-- Every value is equal to itself, non-numbers among them. -/
@[simp] theorem compare_self (a : Value) : a.compare a = .eq := by
  have h := compare_eq_swap a a
  cases hc : a.compare a with
  | eq => rfl
  | lt | gt =>
      rw [hc] at h
      cases h

end Value

end ShardQuery
