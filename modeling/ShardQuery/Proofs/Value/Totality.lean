import ShardQuery.Proofs.Double.Order
import ShardQuery.Proofs.Value.Order

/-!
# Where the Order of Values Is Total

`Value.compare` is meant to be a total order, but it is so only on some classes of values, and
which ones depends on the doubles that the values hold. Three mixtures spoil it:

* both zeros: the integer `0` is equal to each of them, and yet `-0.0` comes before `0.0`;
* the double `2 ^ 63`: it is equal to every signed word that is rounded to it, and these are
  different;
* a non-number with a set sign, together with a number that is not beyond all signed words: it
  comes before the one and behind the others.

Main definitions:

* `Value.Holds` — all doubles in a value, at any depth, belong to a class;
* `Value.OrdersTotally` — the order of values is total on those that hold a class of doubles;
* `Double.Coherent` — a class of doubles without the three mixtures.

## Main results

* `Value.composes_compare`: over a coherent class, comparisons compose.
* `Value.ordersTotally_iff_coherent`: the order is total exactly over the coherent classes.
-/

namespace ShardQuery

/-! ### Composing comparisons -/

/-- Whether `z` is how `a` compares with `c` in an order in which `a` compares with `b` as `x`
and `b` with `c` as `y`. If `x` and `y` point in opposite directions they say nothing. -/
def Composes (x y z : Ordering) : Prop :=
  x = .eq ∨ y ≠ x.swap → z = x.then y

/-- In an order that is transitive, comparisons compose. Names, texts and numbers are compared in
such orders. -/
theorem composes_compare {α : Type} [Ord α] [Std.TransOrd α] (a b c : α) :
    Composes (compare a b) (compare b c) (compare a c) := by
  intro h
  cases hab : compare a b with
  | lt =>
      cases hbc : compare b c with
      | lt => exact Std.TransCmp.lt_trans hab hbc
      | eq => exact Std.TransCmp.lt_of_lt_of_eq hab hbc
      | gt => simp [hab, hbc] at h
  | eq => exact Std.TransCmp.congr_left hab
  | gt =>
      cases hbc : compare b c with
      | lt => simp [hab, hbc] at h
      | eq => exact Std.TransCmp.gt_of_gt_of_eq hab hbc
      | gt => exact Std.TransCmp.gt_trans hab hbc

/-- Comparing part by part composes if the first parts do, and the second ones do where the
first ones are equal. -/
theorem Composes.then {x y z x' y' z' : Ordering} (h : Composes x y z)
    (h' : x = .eq → y = .eq → Composes x' y' z') :
    Composes (x.then x') (y.then y') (z.then z') := by
  unfold Composes at *
  cases x <;> cases y <;> simp_all <;> cases x' <;> simp_all

/-- Nothing follows from a comparison with something greater than what comes after. -/
theorem composes_gt (x : Ordering) : Composes x .gt .gt := by
  cases x <;> simp [Composes]

/-! ### Classes of doubles -/

/-- A class of doubles on which the order is total, signed words included. -/
structure Double.Coherent (held : Double → Prop) : Prop where
  /-- It has only one zero. -/
  zero : ¬(held (.zero true) ∧ held (.zero false))
  /-- It lacks `2 ^ 63`. -/
  not_integerEnd : ¬held .integerEnd
  /-- If it has a non-number with a set sign, all its numbers are beyond the signed words. -/
  beyond : ∀ nan, held nan → nan.isNaN = true → nan.isNegative = true →
    ∀ d, held d → d.isNaN = false → ∀ i, Value.compareIntDouble i d = .lt

/-- Zeros of a class that does not have both are the same. -/
theorem Double.eq_of_isZero {held : Double → Prop}
    (h : ¬(held (.zero true) ∧ held (.zero false))) {a b : Double} (ha : held a) (hb : held b)
    (hza : a.isZero = true) (hzb : b.isZero = true) : a = b := by
  have heq (d : Double) (hd : d.isZero = true) : d = .zero d.isNegative := by
    rw [isZero, decide_eq_true_eq] at hd
    rw [zero, ← hd, ofMagnitude_magnitude]
  rw [heq a hza] at ha ⊢
  rw [heq b hzb] at hb ⊢
  generalize a.isNegative = negative at ha ⊢
  generalize b.isNegative = negative' at hb ⊢
  cases negative <;> cases negative'
  · rfl
  · exact absurd ⟨hb, ha⟩ h
  · exact absurd ⟨ha, hb⟩ h
  · rfl

namespace Value

mutual

/-- All doubles in a value, at any depth, belong to a class. -/
def Holds (held : Double → Prop) : Value → Prop
  | .double d => held d
  | .array items => HoldItems held items
  | .map fields => HoldFields held fields
  | _ => True

/-- All doubles in the items of an array belong to a class. -/
def HoldItems (held : Double → Prop) : List Value → Prop
  | [] => True
  | item :: items => Holds held item ∧ HoldItems held items

/-- All doubles in the fields of a map belong to a class. -/
def HoldFields (held : Double → Prop) : List (String × Value) → Prop
  | [] => True
  | (_, value) :: fields => Holds held value ∧ HoldFields held fields

end

/-- The order of values is total on those that hold a class of doubles. -/
structure OrdersTotally (held : Double → Prop) : Prop where
  /-- Comparing the other way round reverses the outcome. -/
  swap : ∀ a b : Value, a.Holds held → b.Holds held → b.compare a = (a.compare b).swap
  /-- The order is transitive. -/
  trans : ∀ a b c : Value, a.Holds held → b.Holds held → c.Holds held →
    a.compare b ≠ .gt → b.compare c ≠ .gt → a.compare c ≠ .gt
  /-- Every value is equal to itself. -/
  same_refl : ∀ a : Value, a.Holds held → a.compare a = .eq
  /-- Values that are equal to one value are equal. -/
  same_trans : ∀ a b c : Value, a.Holds held → b.Holds held → c.Holds held →
    a.compare b = .eq → b.compare c = .eq → a.compare c = .eq
  /-- Values that are equal have the same place among all others. -/
  congr : ∀ a b c : Value, a.Holds held → b.Holds held → c.Holds held →
    a.compare b = .eq → a.compare c = b.compare c

/-! ### Numbers -/

/-- A signed word is less than a double, equal to it or greater as the numbers they stand for
are. For `2 ^ 63` and non-numbers with a set sign this is wrong. -/
theorem compareIntDouble_eq {i : Int64} {d : Double} (hnan : d.isNaN = true → d.isNegative = false)
    (hend : d ≠ .integerEnd) :
    compareIntDouble i d = Ord.compare (i.toInt * Double.unitsPerOne) d.units := by
  have hlow := i.le_toInt
  have hhigh := i.toInt_lt
  have hpos : (0 : Int) < Double.unitsPerOne := by exact_mod_cast Double.unitsPerOne_pos
  cases hd : d.isNaN with
  | true =>
      -- Non-numbers continue the scale of the numbers beyond `2 ^ 63`.
      have hlt : Double.integerEnd.absUnits < d.absUnits := by
        refine Double.absUnits_lt_iff.2 (Double.integerEnd_lt_magnitude ?_)
        rw [Double.isNaN, decide_eq_true_eq] at hd
        rw [Double.isFinite, decide_eq_false_iff_not]
        exact Nat.lt_asymm hd
      have hunits := Double.units_integerEnd
      have hle : i.toInt * Double.unitsPerOne ≤ 9223372036854775808 * Double.unitsPerOne :=
        mul_le_mul_of_nonneg_right (by omega) hpos.le
      rw [compareIntDouble, if_pos hd, eq_comm, compare_lt_iff_lt,
        Double.units_of_not_isNegative (hnan hd)]
      omega
  | false =>
      obtain ⟨hle, hge⟩ := Double.position_ofInt_iff (d := d) (i := i.toInt) (by omega)
      rw [compareIntDouble, hd, if_neg Bool.false_ne_true, Double.compareReal]
      rcases lt_trichotomy (Double.ofInt i.toInt).position d.position with hlt | heq | hgt
      · rw [compare_lt_iff_lt.2 hlt, eq_comm, compare_lt_iff_lt]
        exact not_le.1 fun h => absurd hlt (not_lt.2 (hle h))
      · rw [compare_eq_iff_eq.2 heq]
        cases hj : d.toInt64? with
        | none => exact absurd (Double.eq_integerEnd_of_position_eq (by omega) heq hj) hend
        | some j =>
            rw [Double.units_of_toInt64? hj]
            refine compare_congr ?_ ?_ <;> exact (Int.mul_lt_mul_right hpos).symm
      · rw [compare_gt_iff_gt.2 hgt, eq_comm, compare_gt_iff_gt]
        exact not_le.1 fun h => absurd hgt (not_lt.2 (hge h))

/-- Where a number stands in the order: at its value, and a non-number with a set sign right
behind the greatest signed word. The second part tells such non-numbers apart. -/
def place : Value → Int × Int
  | .int i => (i.toInt * Double.unitsPerOne, 0)
  | .double d =>
    if d.isNaN ∧ d.isNegative then
      (Int64.maxValue.toInt * Double.unitsPerOne, d.totalPosition + 2 * Double.signBit)
    else
      (d.units, 0)
  | _ => (0, 0)

/-- The order of places, by which numbers of both kinds are brought into one line. -/
def comparePlaces (a b : Value) : Ordering :=
  (Ord.compare a.place.1 b.place.1).then (Ord.compare a.place.2 b.place.2)

/-- Comparing places the other way round gives the opposite outcome. -/
theorem comparePlaces_eq_swap (a b : Value) :
    a.comparePlaces b = (b.comparePlaces a).swap := by
  rw [comparePlaces, comparePlaces, Ordering.swap_then, ← Std.OrientedOrd.eq_swap,
    ← Std.OrientedOrd.eq_swap]

/-- Comparisons of places compose, as those of any lexicographic order do. -/
theorem composes_comparePlaces (a b c : Value) :
    Composes (a.comparePlaces b) (b.comparePlaces c) (a.comparePlaces c) :=
  (composes_compare _ _ _).then fun _ _ => composes_compare _ _ _

section Numbers

variable {held : Double → Prop} (h : Double.Coherent held)

include h

/-- In a coherent class there is no double `2 ^ 63`, which compares as equal to the greatest signed
word and is greater. -/
theorem ne_integerEnd_of_held {d : Double} (hd : held d) : d ≠ .integerEnd := fun heq =>
  h.not_integerEnd (heq ▸ hd)

/-- With a non-number with a set sign in the class, all that is not such a non-number is beyond
the signed words. -/
theorem lt_units_of_nan {nan d : Double} (hnan : held nan) (hd : held d)
    (hset : nan.isNaN = true ∧ nan.isNegative = true)
    (hother : ¬(d.isNaN = true ∧ d.isNegative = true)) :
    Int64.maxValue.toInt * Double.unitsPerOne < d.units := by
  rw [← compare_lt_iff_lt, ← compareIntDouble_eq
    (fun hd => Bool.eq_false_iff.2 fun hneg => hother ⟨hd, hneg⟩) (ne_integerEnd_of_held h hd)]
  cases hdnan : d.isNaN with
  | true => rw [compareIntDouble, if_pos hdnan]
  | false => exact h.beyond nan hnan hset.1 hset.2 d hd hdnan _

/-- Over a coherent class, an integer and a double compare as their places do. -/
theorem compareIntDouble_eq_places {i : Int64} {d : Double} (hd : held d) :
    compareIntDouble i d = (int i).comparePlaces (double d) := by
  by_cases hset : d.isNaN = true ∧ d.isNegative = true
  · have hle : i.toInt * Double.unitsPerOne ≤ Int64.maxValue.toInt * Double.unitsPerOne :=
      mul_le_mul_of_nonneg_right (Int64.le_iff_toInt_le.1 i.le_maxValue) (by positivity)
    have hpos : 0 < d.totalPosition + 2 * Double.signBit := by
      have hlt := d.magnitude_lt
      rw [Double.totalPosition]
      split <;> omega
    rw [compareIntDouble, if_pos hset.1, comparePlaces, place, place, if_pos hset,
      compare_lt_iff_lt.2 hpos]
    rcases hle.lt_or_eq with hlt | heq
    · rw [compare_lt_iff_lt.2 hlt]
      rfl
    · rw [compare_eq_iff_eq.2 heq]
      rfl
  · rw [compareIntDouble_eq (fun hd => Bool.eq_false_iff.2 fun hneg => hset ⟨hd, hneg⟩)
      (ne_integerEnd_of_held h hd), comparePlaces, place, place, if_neg hset,
      compare_eq_iff_eq.2 rfl, Ordering.then_eq]

/-- A non-number with a set sign comes before all other doubles. -/
theorem totalCompare_eq_places_of_nan {nan d : Double} (hnan : held nan) (hd : held d)
    (hset : nan.isNaN = true ∧ nan.isNegative = true)
    (hother : ¬(d.isNaN = true ∧ d.isNegative = true)) :
    nan.totalCompare d = (double nan).comparePlaces (double d) := by
  have hlt : nan.totalPosition < d.totalPosition := by
    obtain ⟨hbeyond, hneg⟩ := hset
    rw [Double.isNaN, decide_eq_true_eq] at hbeyond
    rw [Double.totalPosition, Double.totalPosition, if_pos hneg]
    split
    · next hset =>
        have hle := Double.isNaN_eq_false_iff.1 (Bool.eq_false_iff.2 fun h => hother ⟨h, hset⟩)
        omega
    · omega
  rw [comparePlaces, place, place, if_pos hset, if_neg hother,
    compare_lt_iff_lt.2 (lt_units_of_nan h hnan hd hset hother), Double.totalCompare,
    compare_lt_iff_lt.2 hlt]
  rfl

/-- Over a coherent class, two doubles compare as their places do. -/
theorem totalCompare_eq_places {a b : Double} (ha : held a) (hb : held b) :
    a.totalCompare b = (double a).comparePlaces (double b) := by
  by_cases hsa : a.isNaN = true ∧ a.isNegative = true
  · by_cases hsb : b.isNaN = true ∧ b.isNegative = true
    · rw [comparePlaces, place, place, if_pos hsa, if_pos hsb, compare_eq_iff_eq.2 rfl,
        Ordering.eq_then, Double.totalCompare]
      exact compare_congr (Int.add_lt_add_iff_right _).symm (Int.add_lt_add_iff_right _).symm
    · exact totalCompare_eq_places_of_nan h ha hb hsa hsb
  · by_cases hsb : b.isNaN = true ∧ b.isNegative = true
    · rw [Double.totalCompare_eq_swap, comparePlaces_eq_swap,
        totalCompare_eq_places_of_nan h hb ha hsb hsa]
    · rw [Double.compare_units (Double.eq_of_isZero h.zero ha hb), comparePlaces, place, place,
        if_neg hsa, if_neg hsb, compare_eq_iff_eq.2 rfl, Ordering.then_eq]

/-- Over a coherent class, the order of numbers is that of their places. -/
theorem compare_eq_places {a b : Value} (ha : a.Holds held) (hb : b.Holds held)
    (hranka : a.rank = 2) (hrankb : b.rank = 2) : a.compare b = a.comparePlaces b := by
  cases a with
  | null | bool | string | array | map => cases hranka
  | int i =>
      cases b with
      | null | bool | string | array | map => cases hrankb
      | int j =>
          have hpos : (0 : Int) < Double.unitsPerOne := by exact_mod_cast Double.unitsPerOne_pos
          rw [compare, comparePlaces, place, place, compare_eq_iff_eq.2 (rfl : (0 : Int) = 0),
            Ordering.then_eq]
          exact compare_congr (Int.mul_lt_mul_right hpos).symm (Int.mul_lt_mul_right hpos).symm
      | double d => exact compareIntDouble_eq_places h hb
  | double d =>
      cases b with
      | null | bool | string | array | map => cases hrankb
      | int i => rw [comparePlaces_eq_swap, compare, compareIntDouble_eq_places h ha]
      | double e => exact totalCompare_eq_places h ha hb

end Numbers

/-! ### All values -/

/-- Values of different types are in the order of their types. -/
theorem compare_eq_rank_then (a b : Value) :
    a.compare b = (Ord.compare a.rank b.rank).then (a.compare b) := by
  cases a <;> cases b <;> rfl

/-- Values that compare as equal have one rank: they are of one type, or numbers of both kinds. -/
theorem rank_eq_of_compare_eq {a b : Value} (h : a.compare b = .eq) : a.rank = b.rank := by
  rw [compare_eq_rank_then, Ordering.then_eq_eq, compare_eq_iff_eq] at h
  exact h.1

mutual

/-- Over a coherent class, comparisons compose, at every depth of nesting. This is what makes the
order of values a total one there. -/
theorem composes_compare_of_coherent {held : Double → Prop} (h : Double.Coherent held) :
    ∀ a b c : Value, a.Holds held → b.Holds held → c.Holds held →
      Composes (a.compare b) (b.compare c) (a.compare c) := by
  intro a b c ha hb hc
  rw [compare_eq_rank_then a b, compare_eq_rank_then b c, compare_eq_rank_then a c]
  refine (composes_compare _ _ _).then fun hab hbc => ?_
  rw [compare_eq_iff_eq] at hab hbc
  by_cases hnumber : a.rank = 2
  · rw [compare_eq_places h ha hb hnumber (hab ▸ hnumber),
      compare_eq_places h hb hc (hab ▸ hnumber) (hbc ▸ hab ▸ hnumber),
      compare_eq_places h ha hc hnumber (hbc ▸ hab ▸ hnumber)]
    exact composes_comparePlaces a b c
  cases a with
  | int | double => exact absurd rfl hnumber
  | null =>
      cases b <;> cases hab
      cases c <;> cases hbc
      exact composes_compare (0 : Nat) 0 0
  | bool a =>
      cases b <;> cases hab
      cases c <;> cases hbc
      exact composes_compare _ _ _
  | string a =>
      cases b <;> cases hab
      cases c <;> cases hbc
      exact composes_compare _ _ _
  | array as =>
      cases b <;> cases hab
      cases c <;> cases hbc
      exact composes_compareItems h as _ _ ha hb hc
  | map as =>
      cases b <;> cases hab
      cases c <;> cases hbc
      exact composes_compareFields h as _ _ ha hb hc

/-- Over a coherent class, comparisons of arrays compose, item by item. -/
theorem composes_compareItems {held : Double → Prop} (h : Double.Coherent held) :
    ∀ as bs cs : List Value, HoldItems held as → HoldItems held bs → HoldItems held cs →
      Composes (compareItems as bs) (compareItems bs cs) (compareItems as cs)
  | [], bs, cs, _, _, _ => by cases bs <;> cases cs <;> simp [Composes, compareItems]
  | _ :: _, [], cs, _, _, _ => by cases cs <;> simp [Composes, compareItems]
  | _ :: _, _ :: _, [], _, _, _ => composes_gt _
  | a :: as, b :: bs, c :: cs, ha, hb, hc =>
    (composes_compare_of_coherent h a b c ha.1 hb.1 hc.1).then fun _ _ =>
      composes_compareItems h as bs cs ha.2 hb.2 hc.2

/-- Over a coherent class, comparisons of maps compose, first by names and then by values. -/
theorem composes_compareFields {held : Double → Prop} (h : Double.Coherent held) :
    ∀ as bs cs : List (String × Value), HoldFields held as → HoldFields held bs →
      HoldFields held cs →
      Composes (compareFields as bs) (compareFields bs cs) (compareFields as cs)
  | [], bs, cs, _, _, _ => by cases bs <;> cases cs <;> simp [Composes, compareFields]
  | _ :: _, [], cs, _, _, _ => by cases cs <;> simp [Composes, compareFields]
  | _ :: _, _ :: _, [], _, _, _ => composes_gt _
  | (_, a) :: as, (_, b) :: bs, (_, c) :: cs, ha, hb, hc =>
    ((composes_compare _ _ _).then fun _ _ =>
      composes_compare_of_coherent h a b c ha.1 hb.1 hc.1).then fun _ _ =>
        composes_compareFields h as bs cs ha.2 hb.2 hc.2

end

/-- Over a coherent class, the order of values is total. -/
theorem ordersTotally_of_coherent {held : Double → Prop} (h : Double.Coherent held) :
    OrdersTotally held where
  swap a b _ _ := b.compare_eq_swap a
  trans a b c ha hb hc hab hbc := by
    have hcomposes := composes_compare_of_coherent h a b c ha hb hc
    unfold Composes at hcomposes
    cases hx : a.compare b <;> cases hy : b.compare c <;> simp_all
  same_refl a _ := a.compare_self
  same_trans a b c ha hb hc hab hbc := by
    rw [composes_compare_of_coherent h a b c ha hb hc (.inl hab), hab, hbc]
    rfl
  congr a b c ha hb hc hab := by
    rw [composes_compare_of_coherent h a b c ha hb hc (.inl hab), hab]
    rfl

/-- A class over which the order of values is total is coherent. -/
theorem coherent_of_ordersTotally {held : Double → Prop} (h : OrdersTotally held) :
    Double.Coherent held where
  zero hzeros := by
    have hsame := h.same_trans (.double (.zero true)) (.int 0) (.double (.zero false)) hzeros.1
      trivial hzeros.2 (by decide) (by decide)
    exact absurd hsame (by decide)
  not_integerEnd hend := by
    have hsame := h.same_trans (.int Int64.maxValue) (.double .integerEnd)
      (.int (Int64.maxValue - 1)) trivial hend trivial (by decide) (by decide)
    exact absurd hsame (by decide)
  beyond nan hnan hset hneg d hd hnumber i := by
    have hbefore : (Value.int i).compare (.double nan) = .lt := by
      rw [compare, compareIntDouble, if_pos hset]
    have hbehind : (Value.double nan).compare (.double d) = .lt := by
      rw [compare, Double.totalCompare, compare_lt_iff_lt, Double.totalPosition,
        Double.totalPosition, if_pos hneg]
      rw [Double.isNaN, decide_eq_true_eq] at hset
      rw [Double.isNaN_eq_false_iff] at hnumber
      split <;> omega
    have hle := h.trans (.int i) (.double nan) (.double d) trivial hnan hd
      (by simp [hbefore]) (by simp [hbehind])
    cases hcompare : (Value.int i).compare (.double d) with
    | lt => exact hcompare
    | gt => exact absurd hcompare hle
    | eq =>
        -- Then the number is before the non-number, and it is also behind it.
        have hcongr := h.congr (.int i) (.double d) (.double nan) trivial hd hnan hcompare
        have hswap := h.swap (.double nan) (.double d) hnan hd
        rw [hbefore, hswap, hbehind] at hcongr
        cases hcongr

/-- The order of values is total exactly over the classes of doubles without both zeros, without
`2 ^ 63`, and in which a non-number with a set sign goes only with numbers beyond the signed
words. -/
theorem ordersTotally_iff_coherent (held : Double → Prop) :
    OrdersTotally held ↔ Double.Coherent held :=
  ⟨coherent_of_ordersTotally, ordersTotally_of_coherent⟩

/-- Over all doubles the order is not total: `0` is equal to both zeros, and these are not
equal. -/
theorem compare_zeros_int :
    (double (.zero false)).compare (int 0) = .eq ∧ (int 0).compare (double (.zero true)) = .eq ∧
      (double (.zero false)).compare (double (.zero true)) = .gt ∧
      ¬OrdersTotally fun _ => True := by
  refine ⟨by decide, by decide, by decide, fun h => ?_⟩
  exact absurd (h.same_trans (double (.zero false)) (int 0) (double (.zero true)) trivial trivial
    trivial (by decide) (by decide)) (by decide)

end Value

end ShardQuery
