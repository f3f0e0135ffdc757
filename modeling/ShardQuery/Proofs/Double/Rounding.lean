import Mathlib.Algebra.Order.Field.Power
import Mathlib.Data.Int.Log
import Mathlib.Data.Rat.Floor
import Mathlib.Tactic.FieldSimp
import Mathlib.Tactic.Linarith
import Mathlib.Tactic.Positivity
import Mathlib.Tactic.Ring
import ShardQuery.Double.Basic

/-!
# Rounding to Doubles

The reals that round to a finite double make up an interval around it, `Double.Covers`. The
rounding of `Double.ofRatio` gives a double for every ratio in its interval.

## Main results

* `Double.floorLog2Ratio_eq`: the binary logarithm of a ratio is found exactly.
* `Double.ofRatio_eq_of_covers`: a ratio in the interval of a double is rounded to it.
-/

namespace ShardQuery.Double

/-! ### Fields -/

/-- The magnitude of a double leaves out the sign bit and is therefore below it. -/
theorem magnitude_lt (d : Double) : d.magnitude < signBit :=
  Nat.mod_lt _ (by decide)

/-- The bits are the sign bit and those below it. -/
theorem toNat_bits (d : Double) :
    d.bits.toNat = if d.isNegative then signBit + d.magnitude else d.magnitude := by
  have hlt := d.bits.toNat_lt
  cases h : d.isNegative with
  | false =>
      rw [isNegative, decide_eq_false_iff_not, not_le] at h
      exact (Nat.mod_eq_of_lt h).symm
  | true =>
      rw [isNegative, decide_eq_true_eq] at h
      simp only [magnitude, signBit, if_true] at h ⊢
      omega

/-- A double is determined by its sign and the bits below. -/
theorem ofMagnitude_magnitude (d : Double) : ofMagnitude d.isNegative d.magnitude = d := by
  rw [ofMagnitude, ← toNat_bits, UInt64.ofNat_toNat]

/-- The exponent field takes part in the bits below the sign through the scale and the
highest bit of the significand. -/
theorem magnitude_eq (d : Double) : d.magnitude = d.scaleSteps * exponentBit + d.significand := by
  have hfraction : d.fraction = d.magnitude % exponentBit := by
    rw [fraction, magnitude, Nat.mod_mod_of_dvd _ (by decide)]
  have hdiv : d.magnitude = exponentBit * d.exponentField + d.fraction := by
    rw [hfraction, exponentField, Nat.div_add_mod]
  rw [significand, scaleSteps, hdiv]
  rcases d.exponentField with - | n
  · rfl
  · rw [if_neg n.succ_ne_zero, Nat.add_sub_cancel]
    ring

/-- A significand has at most one bit more than a double stores, the leading one. -/
theorem significand_lt (d : Double) : d.significand < 2 * exponentBit := by
  have hlt : d.fraction < exponentBit := Nat.mod_lt _ (by decide)
  rw [significand]
  split <;> omega

/-- Only the significands of the smallest scale may lack the highest bit. -/
theorem exponentBit_le_significand {d : Double} (h : 0 < d.scaleSteps) :
    exponentBit ≤ d.significand := by
  rw [scaleSteps] at h
  rw [significand, if_neg (by omega)]
  exact Nat.le_add_right _ _

/-- The significand of a double is positive unless the double is a zero. Only denormal numbers lack
the leading bit. -/
theorem significand_pos {d : Double} (h : d.isZero = false) : 0 < d.significand := by
  rw [isZero, decide_eq_false_iff_not] at h
  by_contra hzero
  have hsteps : ¬0 < d.scaleSteps := fun hpos => by
    have := exponentBit_le_significand hpos
    have : 0 < exponentBit := by decide
    omega
  have := d.magnitude_eq
  simp only [Nat.eq_zero_of_not_pos hsteps, Nat.eq_zero_of_not_pos hzero] at this
  omega

/-! ### Logarithms -/

/-- Shifting to the left multiplies by a power of two. It brings the bits of a double into the
rational numbers. -/
theorem shiftLeft_eq_mul_pow (n k : Nat) : ((n <<< k : Nat) : ℚ) = n * 2 ^ k := by
  rw [Nat.shiftLeft_eq]
  push_cast
  rfl

/-- A power of two is not greater than a number exactly if its exponent is not greater than the
number's logarithm. -/
theorem two_zpow_le_iff {x : ℚ} (hx : 0 < x) {k : ℤ} : (2 : ℚ) ^ k ≤ x ↔ k ≤ Int.log 2 x :=
  Int.zpow_le_iff_le_log (b := 2) (by decide) hx

/-- A number is less than a power of two exactly if its logarithm is less than the exponent. It is
`two_zpow_le_iff` the other way around. -/
theorem lt_two_zpow_iff {x : ℚ} (hx : 0 < x) {k : ℤ} : x < (2 : ℚ) ^ k ↔ Int.log 2 x < k :=
  Int.lt_zpow_iff_log_lt (b := 2) (by decide) hx

/-- A positive number is in the binade of its number of bits. -/
theorem log2_bounds {n : Nat} (h : 0 < n) :
    (2 : ℚ) ^ (n.log2 : ℤ) ≤ n ∧ (n : ℚ) < 2 ^ (n.log2 + 1 : ℤ) := by
  constructor
  · exact_mod_cast Nat.log2_self_le h.ne'
  · exact_mod_cast Nat.lt_log2_self (n := n)

/-- The difference of the numbers of bits is the logarithm of a ratio or one more. -/
theorem ratio_bounds {num den : Nat} (hnum : 0 < num) (hden : 0 < den) :
    (2 : ℚ) ^ ((num.log2 : ℤ) - den.log2 - 1) ≤ num / den ∧
      (num / den : ℚ) < 2 ^ ((num.log2 : ℤ) - den.log2 + 1) := by
  have hden' : (0 : ℚ) < den := by positivity
  have two_ne : (2 : ℚ) ≠ 0 := two_ne_zero
  obtain ⟨hnum1, hnum2⟩ := log2_bounds hnum
  obtain ⟨hden1, hden2⟩ := log2_bounds hden
  constructor
  · rw [le_div_iff₀ hden']
    calc (2 : ℚ) ^ ((num.log2 : ℤ) - den.log2 - 1) * den
        ≤ 2 ^ ((num.log2 : ℤ) - den.log2 - 1) * 2 ^ (den.log2 + 1 : ℤ) := by gcongr
      _ = 2 ^ (num.log2 : ℤ) := by
          rw [← zpow_add₀ two_ne]
          congr 1
          ring
      _ ≤ num := hnum1
  · rw [div_lt_iff₀ hden']
    calc (num : ℚ) < 2 ^ (num.log2 + 1 : ℤ) := hnum2
      _ = 2 ^ ((num.log2 : ℤ) - den.log2 + 1) * 2 ^ (den.log2 : ℤ) := by
          rw [← zpow_add₀ two_ne]
          congr 1
          ring
      _ ≤ 2 ^ ((num.log2 : ℤ) - den.log2 + 1) * den := by gcongr

/-- A ratio is compared with a power of two by shifts of its sides. -/
theorem shiftLeft_le_shiftLeft_iff {num den : Nat} (hden : 0 < den) (k : ℤ) :
    den <<< k.toNat ≤ num <<< (-k).toNat ↔ (2 : ℚ) ^ k ≤ num / den := by
  have hden' : (0 : ℚ) < den := by positivity
  rw [le_div_iff₀ hden', ← Nat.cast_le (α := ℚ), shiftLeft_eq_mul_pow, shiftLeft_eq_mul_pow]
  rcases Int.le_total 0 k with hk | hk
  · lift k to ℕ using hk
    simp [mul_comm]
  · obtain ⟨n, rfl⟩ := Int.exists_eq_neg_ofNat hk
    simp only [Int.toNat_neg_natCast, pow_zero, mul_one, neg_neg, Int.toNat_natCast, zpow_neg,
      zpow_natCast]
    rw [inv_mul_le_iff₀ (by positivity), mul_comm]

/-- The binary logarithm of a ratio is found exactly. -/
theorem floorLog2Ratio_eq {num den : Nat} (hnum : 0 < num) (hden : 0 < den) :
    floorLog2Ratio num den = Int.log 2 (num / den : ℚ) := by
  have hr : (0 : ℚ) < num / den := by positivity
  obtain ⟨hlow, hhigh⟩ := ratio_bounds hnum hden
  -- The comparison of the definition decides between the two candidates.
  have htest := @shiftLeft_le_shiftLeft_iff num den hden
  rw [floorLog2Ratio]
  split_ifs with h
  · exact le_antisymm ((two_zpow_le_iff hr).1 ((htest _).1 h))
      (Int.lt_add_one_iff.1 ((lt_two_zpow_iff hr).1 hhigh))
  · exact le_antisymm ((two_zpow_le_iff hr).1 hlow)
      (Int.le_sub_one_of_lt ((lt_two_zpow_iff hr).1 (not_le.1 fun hle => h ((htest _).2 hle))))

/-! ### Halves -/

/-- A ratio is rounded to the natural number that is at most one half away, and to an even
one if it is one half away. -/
theorem roundHalfEven_eq {num den m : Nat} (hden : 0 < den)
    (hlow : (m - 1 / 2 : ℚ) ≤ num / den) (hhigh : (num / den : ℚ) ≤ m + 1 / 2)
    (hodd : m % 2 = 1 → (m - 1 / 2 : ℚ) < num / den ∧ (num / den : ℚ) < m + 1 / 2) :
    roundHalfEven num den = m := by
  have hden' : (0 : ℚ) < den := by positivity
  have hdiv : (num : ℚ) = den * (num / den : Nat) + (num % den : Nat) := by
    exact_mod_cast (Nat.div_add_mod num den).symm
  have hrest : ((num % den : Nat) : ℚ) < den := by exact_mod_cast Nat.mod_lt _ hden
  have hrest0 : (0 : ℚ) ≤ (num % den : Nat) := by positivity
  rw [le_div_iff₀ hden'] at hlow
  rw [div_le_iff₀ hden'] at hhigh
  rw [lt_div_iff₀ hden', div_lt_iff₀ hden'] at hodd
  rw [roundHalfEven]
  generalize num / den = q at hdiv ⊢
  generalize num % den = r at hdiv hrest hrest0 ⊢
  rw [hdiv] at hlow hhigh hodd
  have hq : m = q ∨ m = q + 1 := by
    have hle : (q : ℚ) < m + 1 := by
      by_contra! h
      nlinarith
    have hge : (m : ℚ) < q + 2 := by
      by_contra! h
      nlinarith
    have hle : q < m + 1 := by exact_mod_cast hle
    have hge : m < q + 2 := by exact_mod_cast hge
    omega
  rcases hq with rfl | rfl
  · refine if_neg ?_
    rintro (h | ⟨h, hq⟩)
    · have h : (den : ℚ) < 2 * r := by exact_mod_cast h
      linarith
    · have h : (2 * r : ℚ) = den := by exact_mod_cast h
      linarith [(hodd hq).2]
  · refine if_pos ?_
    push_cast at hlow hodd
    have hle : den ≤ 2 * r := by
      have : (den : ℚ) ≤ 2 * r := by linarith
      exact_mod_cast this
    rcases hle.lt_or_eq with h | h
    · exact .inl h
    · refine .inr ⟨h.symm, ?_⟩
      by_contra hq
      have h : (den : ℚ) = 2 * r := by exact_mod_cast h
      linarith [(hodd (by omega)).1]

/-! ### The interval of a double -/

/-- What the last bit of the significand counts: the distance from a double to its neighbour away
from zero. -/
def ulp (d : Double) : ℚ :=
  2 ^ ((d.scaleSteps : ℤ) - 1074)

/-- By how many quarters of the last bit a number may be less than the absolute value of a
double to be rounded to it: one at the foot of a binade. -/
def quartersBelow (d : Double) : Nat :=
  if d.fraction = 0 ∧ 1 < d.exponentField then 1 else 2

/-- Whether a number is rounded to the absolute value of a finite double. The ends of the
interval belong to it if the significand is even. -/
structure Covers (d : Double) (x : ℚ) : Prop where
  /-- The number is not too small. -/
  low : (d.significand - d.quartersBelow / 4 : ℚ) * d.ulp ≤ x
  /-- The number is not too great. -/
  high : x ≤ (d.significand + 1 / 2 : ℚ) * d.ulp
  /-- The number is inside if the significand is odd. -/
  inside : d.significand % 2 = 1 →
    (d.significand - d.quartersBelow / 4 : ℚ) * d.ulp < x ∧
      x < (d.significand + 1 / 2 : ℚ) * d.ulp

/-- The last bit of a significand counts something, so that neighbours are different numbers. -/
theorem ulp_pos (d : Double) : 0 < d.ulp := by
  rw [ulp]
  positivity

/-- The powers of two that are multiples of the last bit. -/
theorem two_zpow_add (d : Double) (k : Nat) :
    (2 : ℚ) ^ ((d.scaleSteps : ℤ) - 1074 + k) = 2 ^ k * d.ulp := by
  rw [zpow_add₀ two_ne_zero, zpow_natCast, mul_comm, ulp]

/-- Below a double the half way to its neighbour is at most half of what the last bit counts. It is
half as much where a scale begins. -/
theorem quartersBelow_le (d : Double) : (d.quartersBelow : ℚ) ≤ 2 := by
  rw [quartersBelow]
  split_ifs <;> norm_num

/-- Every number that is rounded to a double other than zero is positive. -/
theorem Covers.pos {d : Double} {x : ℚ} (h : d.Covers x) (hzero : d.isZero = false) : 0 < x := by
  have hm : (1 : ℚ) ≤ d.significand := by exact_mod_cast significand_pos hzero
  have hq := d.quartersBelow_le
  exact lt_of_lt_of_le (mul_pos (by linarith) d.ulp_pos) h.low

/-- A number that is rounded to a double is less than all of the next binade. -/
theorem Covers.lt_binade {d : Double} {x : ℚ} (h : d.Covers x) :
    x < 2 ^ ((d.scaleSteps : ℤ) - 1074 + 53) := by
  have hulp := d.ulp_pos
  have hlt := d.significand_lt
  change x < 2 ^ ((d.scaleSteps : ℤ) - 1074 + (53 : Nat))
  rw [two_zpow_add]
  rcases Nat.lt_or_ge (d.significand + 1) (2 * exponentBit) with hm | hm
  · have hm : (d.significand + 2 : ℚ) ≤ 2 * exponentBit := by exact_mod_cast hm
    refine lt_of_le_of_lt h.high (mul_lt_mul_of_pos_right ?_ hulp)
    norm_num [exponentBit] at hm ⊢
    linarith
  · -- The greatest significand is odd.
    have hm : d.significand = 2 * exponentBit - 1 := by omega
    have hinside := (h.inside (by rw [hm]; decide)).2
    refine lt_of_lt_of_le hinside (mul_le_mul_of_nonneg_right ?_ hulp.le)
    rw [hm]
    norm_num [exponentBit]

/-- A ratio in units, shifted down by the steps of its scale, is the ratio over the value of the
last bit. Rounding to doubles is done on the left, reasoning on the right. -/
theorem ratio_units (num den steps : Nat) :
    ((num * unitsPerOne : Nat) : ℚ) / (den <<< steps : Nat) =
      (num / den : ℚ) / 2 ^ ((steps : ℤ) - 1074) := by
  rw [shiftLeft_eq_mul_pow, unitsPerOne, Nat.cast_mul, shiftLeft_eq_mul_pow, Nat.cast_one,
    one_mul, zpow_sub₀ two_ne_zero]
  field_simp
  norm_cast

/-- The rounding of a ratio, if its binary logarithm is known. -/
theorem ofRatio_eq {negative : Bool} {num den steps m : Nat} (hnum : 0 < num) (hden : 0 < den)
    (hsteps : (Int.log 2 (num / den : ℚ) - 52 + 1074).toNat = steps)
    (hlow : (m - 1 / 2 : ℚ) ≤ (num / den : ℚ) / 2 ^ ((steps : ℤ) - 1074))
    (hhigh : (num / den : ℚ) / 2 ^ ((steps : ℤ) - 1074) ≤ m + 1 / 2)
    (hodd : m % 2 = 1 → (m - 1 / 2 : ℚ) < (num / den : ℚ) / 2 ^ ((steps : ℤ) - 1074) ∧
      (num / den : ℚ) / 2 ^ ((steps : ℤ) - 1074) < m + 1 / 2) :
    ofRatio negative num den =
      ofMagnitude negative (min (steps * exponentBit + m) infiniteMagnitude) := by
  have hpos : 0 < den <<< steps := by
    rw [Nat.shiftLeft_eq]
    positivity
  rw [← ratio_units] at hlow hhigh hodd
  rw [ofRatio, if_neg (by omega), floorLog2Ratio_eq hnum hden, hsteps]
  simp only
  rw [roundHalfEven_eq hpos hlow hhigh hodd]

/-- The bits of the rounding to a finite double do not reach those of an infinity. -/
theorem min_magnitude {d : Double} (h : d.isFinite = true) :
    min (d.scaleSteps * exponentBit + d.significand) infiniteMagnitude = d.magnitude := by
  rw [isFinite, decide_eq_true_eq] at h
  rw [← magnitude_eq]
  exact Nat.min_eq_left h.le

/-- A ratio in the binade of a double that covers it, or of the smallest scale, is rounded to
the double. -/
theorem ofRatio_eq_of_binade {d : Double} (hfinite : d.isFinite = true) {num den : Nat}
    (hnum : 0 < num) (hden : 0 < den) (h : d.Covers (num / den))
    (hbinade : d.scaleSteps = 0 ∨ (2 : ℚ) ^ ((d.scaleSteps : ℤ) - 1074 + 52) ≤ num / den) :
    ofRatio d.isNegative num den = d := by
  have hpos : (0 : ℚ) < num / den := by positivity
  have hulp := d.ulp_pos
  have hq := d.quartersBelow_le
  have hsteps : (Int.log 2 (num / den : ℚ) - 52 + 1074).toNat = d.scaleSteps := by
    have := (lt_two_zpow_iff hpos).1 h.lt_binade
    rcases hbinade with hs | hs
    · omega
    · have := (two_zpow_le_iff hpos).1 hs
      omega
  have hlow := (le_div_iff₀ hulp).2 h.low
  have hhigh := (div_le_iff₀ hulp).2 h.high
  rw [ofRatio_eq hnum hden hsteps (m := d.significand), min_magnitude hfinite,
    ofMagnitude_magnitude]
  · exact le_trans (by linarith) hlow
  · exact hhigh
  · intro hm
    obtain ⟨hlow, hhigh⟩ := h.inside hm
    exact ⟨lt_of_le_of_lt (by linarith) ((lt_div_iff₀ hulp).2 hlow), (div_lt_iff₀ hulp).2 hhigh⟩

/-- A number below a binade counts fewer of its last bits than the highest bit does. -/
theorem div_ulp_lt {d : Double} {x : ℚ} (h : x < 2 ^ ((d.scaleSteps : ℤ) - 1074 + 52)) :
    x / d.ulp < exponentBit := by
  rw [div_lt_iff₀ d.ulp_pos]
  rw [show (52 : ℤ) = (52 : Nat) from rfl, two_zpow_add] at h
  exact_mod_cast h

/-- A double that covers a ratio below its binade is at the foot of it. -/
theorem Covers.foot {d : Double} {x : ℚ} (h : d.Covers x) (hsteps : 0 < d.scaleSteps)
    (hfoot : x < 2 ^ ((d.scaleSteps : ℤ) - 1074 + 52)) :
    d.significand = exponentBit ∧ d.quartersBelow = 1 := by
  have hulp := d.ulp_pos
  have hq := d.quartersBelow_le
  have hlow := (le_div_iff₀ hulp).2 h.low
  have hlt := div_ulp_lt hfoot
  have hm : d.significand = exponentBit := by
    refine Nat.le_antisymm ?_ (exponentBit_le_significand hsteps)
    have : (d.significand : ℚ) < exponentBit + 1 := by linarith
    exact Nat.lt_add_one_iff.1 (by exact_mod_cast this)
  refine ⟨hm, if_pos ⟨?_, Nat.lt_of_sub_pos hsteps⟩⟩
  have hfield : 1 < d.exponentField := Nat.lt_of_sub_pos hsteps
  rw [significand, if_neg (by omega)] at hm
  omega

/-- A ratio below the binade of a double that covers it is rounded to the double. -/
theorem ofRatio_eq_of_foot {d : Double} (hfinite : d.isFinite = true) {num den : Nat}
    (hnum : 0 < num) (hden : 0 < den) (h : d.Covers (num / den)) (hsteps : 0 < d.scaleSteps)
    (hfoot : (num / den : ℚ) < 2 ^ ((d.scaleSteps : ℤ) - 1074 + 52)) :
    ofRatio d.isNegative num den = d := by
  have hpos : (0 : ℚ) < num / den := by positivity
  have hulp := d.ulp_pos
  obtain ⟨hm, hquarter⟩ := h.foot hsteps hfoot
  have hlow := (le_div_iff₀ hulp).2 h.low
  have hlt := div_ulp_lt hfoot
  rw [hm, hquarter] at hlow
  -- One scale further down, the significand has one more bit.
  have hratio : (num / den : ℚ) / 2 ^ (((d.scaleSteps - 1 : Nat) : ℤ) - 1074) =
      2 * ((num / den : ℚ) / d.ulp) := by
    rw [Nat.cast_sub hsteps, ulp, show ((d.scaleSteps : ℤ) - (1 : Nat) - 1074) =
      (d.scaleSteps : ℤ) - 1074 - 1 by push_cast; ring, zpow_sub_one₀ two_ne_zero]
    field_simp
  have hlog : (Int.log 2 (num / den : ℚ) - 52 + 1074).toNat = d.scaleSteps - 1 := by
    have hle : (2 : ℚ) ^ ((d.scaleSteps : ℤ) - 1074 + (51 : Nat)) ≤ num / den := by
      rw [two_zpow_add, ← le_div_iff₀ hulp]
      refine le_trans ?_ hlow
      norm_num [exponentBit]
    have := (two_zpow_le_iff hpos).1 hle
    have := (lt_two_zpow_iff hpos).1 hfoot
    omega
  have hbits : (d.scaleSteps - 1) * exponentBit + 2 * exponentBit =
      d.scaleSteps * exponentBit + d.significand := by
    obtain ⟨n, hn⟩ := Nat.exists_eq_add_of_le' hsteps
    rw [hn, hm, Nat.add_sub_cancel]
    ring
  rw [ofRatio_eq hnum hden hlog (m := 2 * exponentBit), hbits, min_magnitude hfinite,
    ofMagnitude_magnitude]
  · rw [hratio]
    push_cast at hlow ⊢
    linarith
  · rw [hratio]
    push_cast
    linarith
  · intro hodd
    omega

/-- **A ratio that a double covers is rounded to it.** -/
theorem ofRatio_eq_of_covers {d : Double} (hfinite : d.isFinite = true)
    (hzero : d.isZero = false) {num den : Nat} (hden : 0 < den) (h : d.Covers (num / den)) :
    ofRatio d.isNegative num den = d := by
  have hnum : 0 < num := by
    have hpos := h.pos hzero
    by_contra hnum
    rw [Nat.eq_zero_of_not_pos hnum] at hpos
    simp at hpos
  rcases Nat.eq_zero_or_pos d.scaleSteps with hs | hs
  · exact ofRatio_eq_of_binade hfinite hnum hden h (.inl hs)
  · rcases le_or_gt ((2 : ℚ) ^ ((d.scaleSteps : ℤ) - 1074 + 52)) (num / den) with hle | hlt
    · exact ofRatio_eq_of_binade hfinite hnum hden h (.inr hle)
    · exact ofRatio_eq_of_foot hfinite hnum hden h hs hlt

end ShardQuery.Double
