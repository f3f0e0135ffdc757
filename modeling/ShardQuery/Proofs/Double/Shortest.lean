import ShardQuery.Double.Decimal
import ShardQuery.Proofs.Double.Rounding

/-!
# Shortest Decimals Round Back

The decimal number that `Double.shortest` finds is rounded to the double that it was found
for. The search tries finer and finer grids, and the last of them has steps of less than a
quarter of the last bit of the double, so that it does not run out.

## Main results

* `Double.covers_shortest`: the double covers its shortest decimal number.
* `Double.ofDecimal_eq_of_covers`: a decimal number that a double covers is rounded to it.
-/

namespace ShardQuery.Double

/-! ### Powers of ten -/

/-- A power of ten with any exponent as a ratio of two natural powers, one of which is one. The
search for digits computes with these. -/
theorem ten_zpow_eq (k : ℤ) :
    (10 : ℚ) ^ k = (powerOfTen k.toNat : ℚ) / (powerOfTen (-k).toNat : ℚ) := by
  have hpow (n : Nat) : ((powerOfTen n : Nat) : ℚ) = 10 ^ n := by
    rw [powerOfTen, Nat.pow_eq]
    push_cast
    rfl
  rw [hpow, hpow]
  rcases Int.le_total 0 k with hk | hk
  · lift k to ℕ using hk
    simp
  · obtain ⟨n, rfl⟩ := Int.exists_eq_neg_ofNat hk
    simp

/-- Powers of ten are positive, so that they may stand in denominators. -/
theorem powerOfTen_pos (n : Nat) : 0 < powerOfTen n :=
  Nat.pow_pos (by decide)

/-- The steps of a grid are small compared to a power of two if their logarithms say so with
some room. -/
theorem four_mul_ten_zpow_le {e t : ℤ} (hlow : -1074 ≤ e) (hhigh : e ≤ 971)
    (h : 100000 * (t + 22) ≤ (e + 53) * 30103) : (4 : ℚ) * 10 ^ t ≤ 2 ^ e := by
  suffices hpow : (10 : ℚ) ^ t ≤ 2 ^ (e - 2) by
    calc (4 : ℚ) * 10 ^ t ≤ 4 * 2 ^ (e - 2) := by gcongr
      _ = 2 ^ e := by
          rw [zpow_sub₀ two_ne_zero]
          norm_num
          ring
  rcases Int.le_total 0 t with ht | ht
  · -- `10 ^ 3 ≤ 2 ^ 10`
    refine le_of_pow_le_pow_left₀ (n := 3) (by decide) (by positivity) ?_
    calc ((10 : ℚ) ^ t) ^ 3 = (10 ^ 3) ^ t := by
          rw [← zpow_natCast, ← zpow_mul, mul_comm, zpow_mul]
          norm_num
      _ ≤ (2 ^ 10) ^ t := zpow_le_zpow_left₀ ht (by norm_num) (by norm_num)
      _ = 2 ^ (10 * t) := by
          rw [zpow_mul]
          norm_num
      _ ≤ 2 ^ ((e - 2) * 3) := zpow_le_zpow_right₀ (by norm_num) (by omega)
      _ = (2 ^ (e - 2)) ^ 3 := by
          rw [zpow_mul]
          norm_num
  · -- `2 ^ 93 ≤ 10 ^ 28`
    obtain ⟨n, rfl⟩ := Int.exists_eq_neg_ofNat ht
    refine le_of_pow_le_pow_left₀ (n := 28) (by decide) (by positivity) ?_
    calc ((10 : ℚ) ^ (-(n : ℤ))) ^ 28 = ((10 ^ 28) ^ n)⁻¹ := by
          rw [zpow_neg, zpow_natCast, inv_pow, ← pow_mul, mul_comm, pow_mul]
      _ ≤ ((2 ^ 93) ^ n)⁻¹ := by
          gcongr
          norm_num
      _ = 2 ^ (-(93 * n : ℤ)) := by
          rw [zpow_neg, ← pow_mul, ← zpow_natCast]
          push_cast
          rfl
      _ ≤ 2 ^ ((e - 2) * 28) := zpow_le_zpow_right₀ (by norm_num) (by omega)
      _ = (2 ^ (e - 2)) ^ 28 := by
          rw [zpow_mul]
          norm_num

/-! ### Grids -/

/-- Shifting to the left keeps positive numbers positive. -/
theorem shiftLeft_pos {n : Nat} (h : 0 < n) (k : Nat) : 0 < n <<< k := by
  rw [Nat.shiftLeft_eq]
  positivity

/-- A point of the grid of `10 ^ k` in units of the last bit of a double. -/
theorem grid_point (d : Double) (k : ℤ) (point : Nat) :
    (point * 10 ^ k : ℚ) =
      point * (powerOfTen k.toNat <<< 1074 : Nat) /
        (powerOfTen (-k).toNat <<< d.scaleSteps : Nat) * d.ulp := by
  have hpos : (powerOfTen (-k).toNat : ℚ) ≠ 0 := by exact_mod_cast (powerOfTen_pos _).ne'
  rw [shiftLeft_eq_mul_pow, shiftLeft_eq_mul_pow, ten_zpow_eq, ulp, zpow_sub₀ two_ne_zero]
  field_simp
  norm_cast

/-- The points of a grid that are said to be rounded to a double are covered by it. -/
theorem roundsTo_iff_covers {d : Double} (hzero : d.isZero = false) {k : ℤ} {point : Nat} :
    roundsTo d (powerOfTen (-k).toNat <<< d.scaleSteps) (powerOfTen k.toNat <<< 1074) point =
      true ↔ d.Covers (point * 10 ^ k) := by
  have hulp := d.ulp_pos
  have hpoint := grid_point d k point
  have hnum : (0 : ℚ) < (powerOfTen (-k).toNat <<< d.scaleSteps : Nat) := by
    exact_mod_cast shiftLeft_pos (powerOfTen_pos _) _
  have hq : d.quartersBelow ≤ 4 * d.significand := by
    have hle : d.quartersBelow ≤ 2 := by exact_mod_cast d.quartersBelow_le
    have hm := significand_pos hzero
    omega
  have hcast : ((4 * d.significand - d.quartersBelow : Nat) : ℚ) =
      4 * (d.significand - d.quartersBelow / 4) := by
    push_cast [Nat.cast_sub hq]
    ring
  rw [roundsTo, ← quartersBelow]
  generalize powerOfTen (-k).toNat <<< d.scaleSteps = num at hnum hpoint ⊢
  generalize powerOfTen k.toNat <<< 1074 = den at hpoint ⊢
  -- Each comparison of `roundsTo` is one of `Covers` in quarters of the last bit.
  have hlow : (4 * d.significand - d.quartersBelow) * num ≤ 4 * point * den ↔
      (d.significand - d.quartersBelow / 4 : ℚ) * d.ulp ≤ point * 10 ^ k := by
    rw [hpoint, mul_le_mul_iff_of_pos_right hulp, le_div_iff₀ hnum, ← Nat.cast_le (α := ℚ),
      Nat.cast_mul, hcast]
    push_cast
    constructor <;> intro h <;> linarith
  have hhigh : 4 * point * den ≤ (4 * d.significand + 2) * num ↔
      (point * 10 ^ k : ℚ) ≤ (d.significand + 1 / 2) * d.ulp := by
    rw [hpoint, mul_le_mul_iff_of_pos_right hulp, div_le_iff₀ hnum, ← Nat.cast_le (α := ℚ)]
    push_cast
    constructor <;> intro h <;> linarith
  have hlow' : (4 * d.significand - d.quartersBelow) * num < 4 * point * den ↔
      (d.significand - d.quartersBelow / 4 : ℚ) * d.ulp < point * 10 ^ k := by
    rw [hpoint, mul_lt_mul_iff_of_pos_right hulp, lt_div_iff₀ hnum, ← Nat.cast_lt (α := ℚ),
      Nat.cast_mul, hcast]
    push_cast
    constructor <;> intro h <;> linarith
  have hhigh' : 4 * point * den < (4 * d.significand + 2) * num ↔
      (point * 10 ^ k : ℚ) < (d.significand + 1 / 2) * d.ulp := by
    rw [hpoint, mul_lt_mul_iff_of_pos_right hulp, div_lt_iff₀ hnum, ← Nat.cast_lt (α := ℚ)]
    push_cast
    constructor <;> intro h <;> linarith
  split_ifs with heven
  · rw [decide_eq_true_eq, hlow, hhigh]
    exact ⟨fun h => ⟨h.1, h.2, fun hodd => by omega⟩, fun h => ⟨h.low, h.high⟩⟩
  · rw [decide_eq_true_eq, hlow', hhigh']
    exact ⟨fun h => ⟨h.1.le, h.2.le, fun _ => h⟩, fun h => h.inside (by omega)⟩

/-! ### The search -/

/-- The point of a grid just below a double, or the double itself. -/
def pointBelow (d : Double) (k : ℤ) : Nat :=
  d.significand * (powerOfTen (-k).toNat <<< d.scaleSteps) / (powerOfTen k.toNat <<< 1074)

/-- Two points of a grid are tried, and one of them is the point below. -/
theorem gridPoint?_eq (tie : Tie) (d : Double) (k : ℤ) :
    ∃ first second, (first = d.pointBelow k ∨ second = d.pointBelow k) ∧
      gridPoint? tie d k =
        if roundsTo d (powerOfTen (-k).toNat <<< d.scaleSteps) (powerOfTen k.toNat <<< 1074) first
        then some first
        else if
          roundsTo d (powerOfTen (-k).toNat <<< d.scaleSteps) (powerOfTen k.toNat <<< 1074) second
        then some second
        else none := by
  have hchoice (up : Bool) (low : Nat) :
      (if up then low + 1 else low) = low ∨ (if up then low else low + 1) = low := by
    cases up <;> simp
  exact ⟨_, _, hchoice _ _, rfl⟩

/-- The point below is less than one step away. -/
theorem pointBelow_bounds (d : Double) (k : ℤ) :
    (d.pointBelow k * 10 ^ k : ℚ) ≤ d.significand * d.ulp ∧
      d.significand * d.ulp < d.pointBelow k * 10 ^ k + 10 ^ k := by
  have hulp := d.ulp_pos
  have hnum : (0 : ℚ) < (powerOfTen (-k).toNat <<< d.scaleSteps : Nat) := by
    exact_mod_cast shiftLeft_pos (powerOfTen_pos _) _
  have hden : 0 < powerOfTen k.toNat <<< 1074 := shiftLeft_pos (powerOfTen_pos _) _
  constructor
  · rw [grid_point d, mul_le_mul_iff_of_pos_right hulp, div_le_iff₀ hnum]
    exact_mod_cast Nat.div_mul_le_self _ _
  · have hnext := grid_point d k (d.pointBelow k + 1)
    rw [Nat.cast_add_one, add_one_mul] at hnext
    rw [hnext, mul_lt_mul_iff_of_pos_right hulp, lt_div_iff₀ hnum]
    exact_mod_cast (Nat.lt_mul_div_succ _ hden).trans_eq (Nat.mul_comm _ _)

/-- A grid whose steps are at most a quarter of the last bit has a point that is rounded to
the double. -/
theorem gridPoint?_ne_none (tie : Tie) {d : Double} (hzero : d.isZero = false) {k : ℤ}
    (h : 4 * 10 ^ k ≤ d.ulp) : gridPoint? tie d k ≠ none := by
  have hulp := d.ulp_pos
  obtain ⟨hle, hlt⟩ := d.pointBelow_bounds k
  have hquarter : (1 : ℚ) ≤ d.quartersBelow := by
    rw [quartersBelow]
    split_ifs <;> norm_num
  have hlow : (d.significand - d.quartersBelow / 4 : ℚ) * d.ulp < d.pointBelow k * 10 ^ k := by
    nlinarith
  have hhigh : (d.pointBelow k * 10 ^ k : ℚ) < (d.significand + 1 / 2) * d.ulp := by
    linarith
  have hcovers : d.Covers (d.pointBelow k * 10 ^ k) :=
    ⟨hlow.le, hhigh.le, fun _ => ⟨hlow, hhigh⟩⟩
  have hrounds := (roundsTo_iff_covers hzero).2 hcovers
  obtain ⟨first, second, hpoint, heq⟩ := gridPoint?_eq tie d k
  rw [heq]
  rcases hpoint with rfl | rfl
  · rw [if_pos hrounds]
    exact Option.some_ne_none _
  · rw [if_pos hrounds]
    split <;> exact Option.some_ne_none _

/-- The point that is found on a grid is covered by the double. -/
theorem covers_of_gridPoint {tie : Tie} {d : Double} (hzero : d.isZero = false) {k : ℤ}
    {point : Nat} (h : gridPoint? tie d k = some point) : d.Covers (point * 10 ^ k) := by
  obtain ⟨first, second, -, heq⟩ := gridPoint?_eq tie d k
  rw [heq] at h
  split_ifs at h with hfirst hsecond
  · cases h
    exact (roundsTo_iff_covers hzero).1 hfirst
  · cases h
    exact (roundsTo_iff_covers hzero).1 hsecond

/-- What the search for short digits finds lies within the reach of the double, at whichever length
of digits the search has stopped. -/
theorem covers_of_searchGrids {tie : Tie} {d : Double} (hzero : d.isZero = false) {fuel : Nat}
    {k : ℤ} {x : Decimal} (h : searchGrids tie d fuel k = some x) :
    d.Covers (x.digits * 10 ^ x.exponent) := by
  induction fuel generalizing k with
  | zero => cases h
  | succ fuel ih =>
      rw [searchGrids] at h
      split at h
      · next hpoint =>
          cases h
          exact covers_of_gridPoint hzero hpoint
      · exact ih h

/-- The search finds a point if one of its grids has one. -/
theorem searchGrids_ne_none {tie : Tie} {d : Double} {steps fuel : Nat} {k : ℤ}
    (hsteps : steps < fuel) (h : gridPoint? tie d (k - steps) ≠ none) :
    searchGrids tie d fuel k ≠ none := by
  induction fuel generalizing k steps with
  | zero => omega
  | succ fuel ih =>
      rw [searchGrids]
      split
      · nofun
      · next hnone =>
          cases steps with
          | zero => exact absurd (by simpa using hnone) h
          | succ steps =>
              refine ih (Nat.lt_of_succ_lt_succ hsteps) ?_
              rwa [sub_sub, add_comm, ← Nat.cast_succ]

/-- Finite doubles have at most this many steps of scale. It bounds the exponents that the search
has to go through. -/
theorem scaleSteps_le {d : Double} (hfinite : d.isFinite = true) : d.scaleSteps ≤ 2045 := by
  rw [isFinite, decide_eq_true_eq, infiniteMagnitude] at hfinite
  have : d.exponentField < 2047 := Nat.div_lt_of_lt_mul (Nat.mul_comm .. ▸ hfinite)
  rw [scaleSteps]
  omega

/-- The last grid of the search is fine enough. -/
theorem four_mul_coarsestGrid_le {d : Double} (hfinite : d.isFinite = true) :
    4 * 10 ^ (d.coarsestGrid - (23 : Nat)) ≤ d.ulp := by
  have hsteps := scaleSteps_le hfinite
  have hlog : d.significand.log2 ≤ 52 := by
    rcases Nat.eq_zero_or_pos d.significand with hzero | hpos
    · rw [hzero]
      decide
    · have := (Nat.log2_lt hpos.ne').2 (show d.significand < 2 ^ 53 from d.significand_lt)
      omega
  refine four_mul_ten_zpow_le (by omega) (by omega) ?_
  rw [coarsestGrid]
  omega

/-- **The search succeeds**, and the double covers its shortest decimal number. -/
theorem covers_shortest (tie : Tie) {d : Double} (hfinite : d.isFinite = true)
    (hzero : d.isZero = false) :
    d.Covers ((d.shortest tie).digits * 10 ^ (d.shortest tie).exponent) := by
  have hne : searchGrids tie d 24 d.coarsestGrid ≠ none :=
    @searchGrids_ne_none _ _ 23 _ _ (by decide)
      (gridPoint?_ne_none tie hzero (four_mul_coarsestGrid_le hfinite))
  obtain ⟨x, hx⟩ := Option.ne_none_iff_exists'.1 hne
  rw [shortest, hx, Option.getD_some]
  exact covers_of_searchGrids hzero hx

/-! ### Reading decimal numbers -/

/-- The numbers that a finite double other than zero covers are far from those that are
settled without rounding. -/
theorem Covers.bounds {d : Double} {x : ℚ} (h : d.Covers x) (hfinite : d.isFinite = true)
    (hzero : d.isZero = false) : (10 : ℚ) ^ (-400 : ℤ) ≤ x ∧ x < 10 ^ (400 : ℤ) := by
  have hsteps := scaleSteps_le hfinite
  constructor
  · have hm : (1 : ℚ) ≤ d.significand := by exact_mod_cast significand_pos hzero
    have hq := d.quartersBelow_le
    have hten : (4 : ℚ) * 10 ^ (-400 : ℤ) ≤ d.ulp :=
      four_mul_ten_zpow_le (by omega) (by omega) (by omega)
    calc (10 : ℚ) ^ (-400 : ℤ) ≤ 1 / 2 * d.ulp := by linarith [d.ulp_pos]
      _ ≤ (d.significand - d.quartersBelow / 4) * d.ulp :=
          mul_le_mul_of_nonneg_right (by linarith) d.ulp_pos.le
      _ ≤ x := h.low
  · calc x < 2 ^ ((d.scaleSteps : ℤ) - 1074 + 53) := h.lt_binade
      _ ≤ 2 ^ (3 * 400 : ℤ) := zpow_le_zpow_right₀ (by norm_num) (by omega)
      _ = (2 ^ (3 : ℤ)) ^ (400 : ℤ) := zpow_mul _ _ _
      _ ≤ 10 ^ (400 : ℤ) := zpow_le_zpow_left₀ (by norm_num) (by norm_num) (by norm_num)

/-- **A decimal number that a double covers is rounded to it.** -/
theorem ofDecimal_eq_of_covers {d : Double} (hfinite : d.isFinite = true)
    (hzero : d.isZero = false) {digits : Nat} {exponent : ℤ}
    (h : d.Covers (digits * 10 ^ exponent)) : ofDecimal d.isNegative digits exponent = d := by
  obtain ⟨hlow, hhigh⟩ := h.bounds hfinite hzero
  have hdigits : digits ≠ 0 := by
    rintro rfl
    have := h.pos hzero
    simp at this
  have hlow : ¬exponent + digits.log2 + 1 < -400 := by
    intro hlt
    have hlog : (digits : ℚ) < 10 ^ (digits.log2 + 1 : ℤ) := by
      have hlog2 : digits < 2 ^ (digits.log2 + 1) := Nat.lt_log2_self
      have hten := Nat.pow_le_pow_left (show 2 ≤ 10 by decide) (digits.log2 + 1)
      exact_mod_cast hlog2.trans_le hten
    refine absurd hlow (not_le.2 ?_)
    calc (digits * 10 ^ exponent : ℚ)
        < 10 ^ (digits.log2 + 1 : ℤ) * 10 ^ exponent := by gcongr
      _ = 10 ^ (digits.log2 + 1 + exponent : ℤ) := (zpow_add₀ (by norm_num) _ _).symm
      _ ≤ 10 ^ (-400 : ℤ) := zpow_le_zpow_right₀ (by norm_num) (by omega)
  have hhigh : ¬400 < exponent := by
    intro hlt
    refine absurd hhigh (not_lt.2 ?_)
    calc (10 : ℚ) ^ (400 : ℤ) ≤ 10 ^ exponent := zpow_le_zpow_right₀ (by norm_num) hlt.le
      _ ≤ digits * 10 ^ exponent :=
          le_mul_of_one_le_left (by positivity)
            (by exact_mod_cast Nat.one_le_iff_ne_zero.2 hdigits)
  rw [ofDecimal, if_neg (by tauto), if_neg hhigh]
  refine ofRatio_eq_of_covers hfinite hzero (powerOfTen_pos _) ?_
  rw [Nat.cast_mul, mul_div_assoc, ← ten_zpow_eq]
  exact h

end ShardQuery.Double
