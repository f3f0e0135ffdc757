import ShardQuery.Proofs.Double.Rounding

/-!
# The Order of Doubles

All bit patterns but the zeros are in the order of their `Double.units`, infinities and
non-numbers included: these continue the scale of the finite numbers. Rounding keeps the order,
so an integer and the double nearest to it are on the same side of every other double.

## Main results

* `Double.compare_units`: the total order is that of the units, the two zeros aside.
* `Double.magnitude_ofRatio_le`: rounding keeps the order of ratios.
* `Double.isWord_iff`: the doubles that stand for signed words, by their values.
* `Double.eq_integerEnd_of_position_eq`: the only double that is the nearest one of a signed word
  without being one is `2 ^ 63`.
-/

namespace ShardQuery

/-- Two pairs of integers in the same order compare the same. -/
theorem compare_congr {x y x' y' : Int} (hlt : x < y ↔ x' < y') (hgt : y < x ↔ y' < x') :
    compare x y = compare x' y' := by
  rcases lt_trichotomy x y with h | rfl | h
  · rw [compare_lt_iff_lt.2 h, compare_lt_iff_lt.2 (hlt.1 h)]
  · have heq : x' = y' := le_antisymm (not_lt.1 fun h => lt_irrefl _ (hgt.2 h))
      (not_lt.1 fun h => lt_irrefl _ (hlt.2 h))
    rw [compare_eq_iff_eq.2 rfl, compare_eq_iff_eq.2 heq]
  · rw [compare_gt_iff_gt.2 h, compare_gt_iff_gt.2 (hgt.1 h)]

namespace Double

/-! ### Fields -/

/-- A double that is made of a sign and a magnitude has that magnitude. The bound says that the sign
bit is not touched. -/
theorem magnitude_ofMagnitude {negative : Bool} {m : Nat} (h : m < signBit) :
    (ofMagnitude negative m).magnitude = m := by
  have hbits : (if negative then signBit + m else m) < UInt64.size := by
    rw [signBit] at h ⊢
    split <;> rw [UInt64.size] <;> omega
  rw [magnitude, ofMagnitude, UInt64.toNat_ofNat_of_lt' hbits]
  cases negative with
  | false => exact Nat.mod_eq_of_lt h
  | true => rw [if_pos rfl, Nat.add_mod_left, Nat.mod_eq_of_lt h]

/-- A double that is made of a sign and a magnitude has that sign, also if the magnitude is zero. -/
theorem isNegative_ofMagnitude {negative : Bool} {m : Nat} (h : m < signBit) :
    (ofMagnitude negative m).isNegative = negative := by
  have hbits : (if negative then signBit + m else m) < UInt64.size := by
    rw [signBit] at h ⊢
    split <;> rw [UInt64.size] <;> omega
  rw [isNegative, ofMagnitude, UInt64.toNat_ofNat_of_lt' hbits]
  cases negative with
  | false => simpa using h
  | true => simp

/-- The magnitude of the infinities leaves the sign bit free, and so do those of all finite doubles
below it. -/
theorem infiniteMagnitude_lt : infiniteMagnitude < signBit := by
  decide

/-- Bits in the form of a scale and a significand have these. -/
theorem fields_of_magnitude_eq {d : Double} {steps m : Nat}
    (h : d.magnitude = steps * exponentBit + m) (hlow : exponentBit ≤ m)
    (hhigh : m < 2 * exponentBit) : d.scaleSteps = steps ∧ d.significand = m := by
  have heq := d.magnitude_eq
  have hlt := d.significand_lt
  have hge : 0 < d.scaleSteps → exponentBit ≤ d.significand := exponentBit_le_significand
  rw [h] at heq
  simp only [exponentBit] at heq hlt hge hlow hhigh
  omega

/-! ### Absolute values -/

/-- More bits below the sign mean a greater scale, or the same one and a greater significand. -/
theorem scaleSteps_of_magnitude_le {a b : Double} (h : a.magnitude ≤ b.magnitude) :
    a.scaleSteps < b.scaleSteps ∨ a.scaleSteps = b.scaleSteps ∧ a.significand ≤ b.significand := by
  have ha := a.significand_lt
  have hb := b.significand_lt
  have hge : 0 < a.scaleSteps → exponentBit ≤ a.significand := exponentBit_le_significand
  rw [magnitude_eq, magnitude_eq] at h
  simp only [exponentBit] at h ha hb hge
  omega

/-- A number of a smaller scale is less, since its significand is bounded and each scale is twice
the one before. -/
theorem absUnits_lt_of_scaleSteps_lt {a b : Double} (h : a.scaleSteps < b.scaleSteps) :
    a.absUnits < b.absUnits := by
  rw [absUnits, absUnits, Nat.shiftLeft_eq, Nat.shiftLeft_eq]
  calc a.significand * 2 ^ a.scaleSteps
      < 2 * exponentBit * 2 ^ a.scaleSteps :=
        Nat.mul_lt_mul_of_pos_right a.significand_lt (by positivity)
    _ = exponentBit * 2 ^ (a.scaleSteps + 1) := by ring
    _ ≤ b.significand * 2 ^ b.scaleSteps :=
        Nat.mul_le_mul (exponentBit_le_significand (Nat.zero_lt_of_lt h))
          (Nat.pow_le_pow_right (by decide) h)

/-- A double of a magnitude that is not greater is not greater in units either. This holds across
scales, which is why doubles may be compared as words. -/
theorem absUnits_le_of_magnitude_le {a b : Double} (h : a.magnitude ≤ b.magnitude) :
    a.absUnits ≤ b.absUnits := by
  rcases scaleSteps_of_magnitude_le h with hlt | ⟨heq, hle⟩
  · exact (absUnits_lt_of_scaleSteps_lt hlt).le
  · rw [absUnits, absUnits, heq, Nat.shiftLeft_eq, Nat.shiftLeft_eq]
    exact Nat.mul_le_mul_right _ hle

/-- The bits below the sign are in the order of the absolute values. -/
theorem absUnits_lt_iff {a b : Double} : a.absUnits < b.absUnits ↔ a.magnitude < b.magnitude := by
  refine ⟨fun h => Nat.lt_of_not_le fun hle => ?_, fun h => ?_⟩
  · exact absurd (absUnits_le_of_magnitude_le hle) (Nat.not_le.2 h)
  · rcases scaleSteps_of_magnitude_le h.le with hlt | ⟨heq, hle⟩
    · exact absUnits_lt_of_scaleSteps_lt hlt
    · rw [magnitude_eq, magnitude_eq, heq] at h
      rw [absUnits, absUnits, heq, Nat.shiftLeft_eq, Nat.shiftLeft_eq]
      exact Nat.mul_lt_mul_of_pos_right (Nat.lt_of_add_lt_add_left h) (by positivity)

/-- Zero is no units. It is the case in which the significand has no leading bit. -/
theorem absUnits_zero : (zero false).absUnits = 0 := by
  decide

/-- Any double but the zeros is at least one unit away from zero. -/
theorem absUnits_pos {d : Double} (h : d.isZero = false) : 0 < d.absUnits := by
  rw [isZero, decide_eq_false_iff_not] at h
  rw [← absUnits_zero, absUnits_lt_iff]
  exact Nat.pos_of_ne_zero h

/-- Both zeros are no units, although they are two doubles. -/
theorem absUnits_of_isZero {d : Double} (h : d.isZero = true) : d.absUnits = 0 := by
  rw [isZero, decide_eq_true_eq] at h
  exact Nat.le_zero.1 (absUnits_zero ▸ absUnits_le_of_magnitude_le (b := zero false) h.le)

/-! ### Units -/

/-- The total order is that of the units, the two zeros aside. -/
theorem compare_units {a b : Double} (h : a.isZero = true → b.isZero = true → a = b) :
    a.totalCompare b = compare a.units b.units := by
  have habs := @absUnits_lt_iff a b
  have habs' := @absUnits_lt_iff b a
  -- Of numbers of different signs one is not zero, and that settles the order.
  have hpos : a.isNegative ≠ b.isNegative → 0 < a.absUnits + b.absUnits := by
    intro hsign
    cases ha : a.isZero with
    | false => exact Nat.add_pos_left (absUnits_pos ha) _
    | true =>
        cases hb : b.isZero with
        | false => exact Nat.add_pos_right _ (absUnits_pos hb)
        | true => exact absurd (congrArg isNegative (h ha hb)) hsign
  rw [totalCompare, totalPosition, totalPosition, units, units]
  refine compare_congr ?_ ?_ <;> cases ha : a.isNegative <;> cases hb : b.isNegative <;>
    rw [ha, hb] at hpos <;>
    simp only [Bool.false_eq_true, reduceCtorEq, ne_eq, not_false_eq_true, not_true, if_true,
      if_false, forall_const] at hpos ⊢ <;>
    omega

/-- The units of a double without a sign are counted upwards. -/
theorem units_of_not_isNegative {d : Double} (h : d.isNegative = false) : d.units = d.absUnits := by
  rw [units, h]
  rfl

/-- The units of a double with a sign are counted downwards, so that the negative zero is no units
as well. -/
theorem units_of_isNegative {d : Double} (h : d.isNegative = true) : d.units = -d.absUnits := by
  rw [units, if_pos h]

/-! ### Rounding -/

/-- Rounding to natural numbers keeps the order of ratios, which are compared without division by
multiplying across. -/
theorem roundHalfEven_le {num den num' den' : Nat} (hden : 0 < den) (hden' : 0 < den')
    (h : num * den' ≤ num' * den) : roundHalfEven num den ≤ roundHalfEven num' den' := by
  have hdiv := Nat.div_add_mod num den
  have hdiv' := Nat.div_add_mod num' den'
  have hmod := Nat.mod_lt num hden
  have hmod' := Nat.mod_lt num' hden'
  have hquot : num / den ≤ num' / den' := by
    rw [Nat.le_div_iff_mul_le hden']
    refine Nat.le_of_mul_le_mul_right ?_ hden
    calc num / den * den' * den = num / den * den * den' := by ring
      _ ≤ num * den' := Nat.mul_le_mul_right _ (Nat.div_mul_le_self _ _)
      _ ≤ num' * den := h
  simp only [roundHalfEven]
  generalize num / den = q, num % den = r, num' / den' = q', num' % den' = r' at *
  rcases hquot.lt_or_eq with hlt | rfl
  · split <;> split <;> omega
  · -- With equal quotients, the greater rest is rounded up if the smaller one is.
    have hrest : r * den' ≤ r' * den := by
      rw [← hdiv, ← hdiv'] at h
      nlinarith
    split
    · next hup =>
        rw [if_pos]
        rcases hup with hhalf | ⟨hhalf, hodd⟩
        · left
          by_contra hle
          nlinarith
        · rcases Nat.lt_or_ge den' (2 * r') with hlt | hge
          · exact .inl hlt
          · refine .inr ⟨le_antisymm hge ?_, hodd⟩
            by_contra hlt
            nlinarith
    · split <;> omega

/-- A natural number is not rounded, however its ratio is written. -/
theorem roundHalfEven_mul (n : Nat) {den : Nat} (hden : 0 < den) :
    roundHalfEven (n * den) den = n := by
  rw [roundHalfEven, Nat.mul_mod_left, Nat.mul_div_cancel _ hden]
  exact if_neg (by omega)

/-- The significand of a rounded ratio: it lacks the highest bit only on the smallest scale. -/
theorem rounded_bounds {num den steps : Nat} (hnum : 0 < num) (hden : 0 < den)
    (hsteps : (Int.log 2 (num / den : ℚ) - 52 + 1074).toNat = steps) :
    roundHalfEven (num * unitsPerOne) (den <<< steps) ≤ 2 * exponentBit ∧
      (0 < steps → exponentBit ≤ roundHalfEven (num * unitsPerOne) (den <<< steps)) := by
  have hpos : 0 < den <<< steps := by
    rw [Nat.shiftLeft_eq]
    positivity
  have hratio : (0 : ℚ) < num / den := by positivity
  have hshift : (0 : ℚ) < (den <<< steps : Nat) := by exact_mod_cast hpos
  have hscale : (0 : ℚ) < 2 ^ ((steps : ℤ) - 1074) := by positivity
  have hunits := ratio_units num den steps
  constructor
  · rw [← roundHalfEven_mul (2 * exponentBit) Nat.one_pos]
    refine roundHalfEven_le hpos Nat.one_pos ?_
    have hlt : (num / den : ℚ) < 2 ^ (((steps : ℤ) - 1074) + 53) := by
      rw [lt_two_zpow_iff hratio]
      omega
    have hle : ((num * unitsPerOne : Nat) : ℚ) / (den <<< steps : Nat) ≤ 2 * exponentBit := by
      rw [hunits, div_le_iff₀ hscale]
      rw [zpow_add₀ two_ne_zero, mul_comm] at hlt
      refine hlt.le.trans_eq ?_
      norm_num [exponentBit]
    rw [div_le_iff₀ hshift] at hle
    rw [Nat.mul_one, Nat.mul_one]
    exact_mod_cast hle
  · intro hs
    rw [← roundHalfEven_mul exponentBit Nat.one_pos]
    refine roundHalfEven_le Nat.one_pos hpos ?_
    have hle : (2 : ℚ) ^ (((steps : ℤ) - 1074) + 52) ≤ num / den := by
      rw [two_zpow_le_iff hratio]
      omega
    have hge : (exponentBit : ℚ) ≤ ((num * unitsPerOne : Nat) : ℚ) / (den <<< steps : Nat) := by
      rw [hunits, le_div_iff₀ hscale]
      rw [zpow_add₀ two_ne_zero, mul_comm] at hle
      refine Eq.trans_le ?_ hle
      norm_num [exponentBit]
    rw [le_div_iff₀ hshift] at hge
    rw [Nat.mul_one, Nat.mul_one]
    exact_mod_cast hge

/-- The bits below the sign of a rounded ratio. -/
theorem magnitude_ofRatio {negative : Bool} {num den : Nat} (hnum : 0 < num) (hden : 0 < den) :
    (ofRatio negative num den).magnitude =
      min ((Int.log 2 (num / den : ℚ) - 52 + 1074).toNat * exponentBit +
        roundHalfEven (num * unitsPerOne)
          (den <<< (Int.log 2 (num / den : ℚ) - 52 + 1074).toNat)) infiniteMagnitude := by
  rw [ofRatio, if_neg (by omega), floorLog2Ratio_eq hnum hden]
  exact magnitude_ofMagnitude (Nat.lt_of_le_of_lt (Nat.min_le_right _ _) infiniteMagnitude_lt)

/-- No ratio but zero is rounded from a numerator of zero, whatever the sign and the denominator. -/
theorem magnitude_ofRatio_zero (negative : Bool) (den : Nat) :
    (ofRatio negative 0 den).magnitude = 0 := by
  rw [ofRatio, if_pos (.inl rfl)]
  exact magnitude_ofMagnitude (by decide)

/-- Rounding keeps the order of ratios. Two ratios that are close may round to one double, but never
to two in the wrong order. -/
theorem magnitude_ofRatio_le {negative negative' : Bool} {num den num' den' : Nat}
    (hden : 0 < den) (hden' : 0 < den') (h : num * den' ≤ num' * den) :
    (ofRatio negative num den).magnitude ≤ (ofRatio negative' num' den').magnitude := by
  rcases Nat.eq_zero_or_pos num with rfl | hnum
  · rw [magnitude_ofRatio_zero]
    exact Nat.zero_le _
  have hnum' : 0 < num' := by
    by_contra hzero
    rw [Nat.eq_zero_of_not_pos hzero, Nat.zero_mul] at h
    exact absurd h (Nat.not_le.2 (Nat.mul_pos hnum hden'))
  have hratio : (num / den : ℚ) ≤ num' / den' := by
    rw [div_le_div_iff₀ (by positivity) (by positivity)]
    exact_mod_cast h
  have hlog : Int.log 2 (num / den : ℚ) ≤ Int.log 2 (num' / den' : ℚ) :=
    Int.log_mono_right (by positivity) hratio
  rw [magnitude_ofRatio hnum hden, magnitude_ofRatio hnum' hden']
  refine min_le_min_right _ ?_
  obtain ⟨hhigh, -⟩ := rounded_bounds hnum hden rfl
  obtain ⟨-, hlow⟩ := rounded_bounds hnum' hden' rfl
  generalize hs : (Int.log 2 (num / den : ℚ) - 52 + 1074).toNat = s,
    hs' : (Int.log 2 (num' / den' : ℚ) - 52 + 1074).toNat = s' at *
  have hle : s ≤ s' := by omega
  rcases hle.lt_or_eq with hlt | rfl
  · have hlow := hlow (Nat.zero_lt_of_lt hlt)
    simp only [exponentBit] at hhigh hlow ⊢
    omega
  · refine Nat.add_le_add_left (roundHalfEven_le ?_ ?_ ?_) _
    · rw [Nat.shiftLeft_eq]
      positivity
    · rw [Nat.shiftLeft_eq]
      positivity
    · rw [Nat.shiftLeft_eq, Nat.shiftLeft_eq]
      calc num * unitsPerOne * (den' * 2 ^ s) = num * den' * (unitsPerOne * 2 ^ s) := by ring
        _ ≤ num' * den * (unitsPerOne * 2 ^ s) := Nat.mul_le_mul_right _ h
        _ = num' * unitsPerOne * (den * 2 ^ s) := by ring

/-- The number of units in one. The exponent is kept apart, so that nobody computes the power. -/
theorem exists_unitsPerOne_eq : ∃ k, k = 1074 ∧ unitsPerOne = 2 ^ k := by
  obtain ⟨k, hk⟩ : ∃ k, k = 1074 := ⟨_, rfl⟩
  exact ⟨k, hk, by rw [unitsPerOne, ← hk, Nat.one_shiftLeft]⟩

/-- One is a positive number of units, so that multiples of it are in the order of their factors. -/
theorem unitsPerOne_pos : 0 < unitsPerOne := by
  obtain ⟨k, -, h⟩ := exists_unitsPerOne_eq
  rw [h]
  positivity

/-- A finite number is the rounding of its own value. -/
theorem magnitude_ofRatio_absUnits {d : Double} (hfinite : d.isFinite = true) (negative : Bool) :
    (ofRatio negative d.absUnits unitsPerOne).magnitude = d.magnitude := by
  have hone := unitsPerOne_pos
  have hsign (negative' : Bool) : (ofRatio negative d.absUnits unitsPerOne).magnitude =
      (ofRatio negative' d.absUnits unitsPerOne).magnitude :=
    le_antisymm (magnitude_ofRatio_le hone hone le_rfl) (magnitude_ofRatio_le hone hone le_rfl)
  cases hzero : d.isZero with
  | true =>
      rw [absUnits_of_isZero hzero, magnitude_ofRatio_zero]
      rw [isZero, decide_eq_true_eq] at hzero
      exact hzero.symm
  | false =>
      rw [hsign d.isNegative, ofRatio_eq_of_covers hfinite hzero hone]
      have hulp := d.ulp_pos
      have hvalue : (d.absUnits / unitsPerOne : ℚ) = d.significand * d.ulp := by
        obtain ⟨k, hk, hunits⟩ := exists_unitsPerOne_eq
        rw [absUnits, shiftLeft_eq_mul_pow, hunits, ulp, show (1074 : ℤ) = (k : ℤ) by rw [hk]; rfl,
          zpow_sub₀ two_ne_zero, mul_div_assoc, zpow_natCast, zpow_natCast]
        push_cast
        rfl
      have hquarters : (0 : ℚ) < d.quartersBelow := by
        rw [quartersBelow]
        split <;> norm_num
      rw [hvalue]
      refine ⟨?_, ?_, fun _ => ⟨?_, ?_⟩⟩ <;> nlinarith

/-! ### Integers -/

/-- The units of a small integer fill up the significand on the scale of its logarithm. -/
theorem mul_unitsPerOne_eq {n : Nat} (h : Nat.log 2 n < 52) :
    n * unitsPerOne = n * 2 ^ (52 - Nat.log 2 n) * 1 <<< (Nat.log 2 n + 1022) := by
  obtain ⟨k, hk, hunits⟩ := exists_unitsPerOne_eq
  rw [hunits, Nat.shiftLeft_eq, Nat.one_mul, Nat.mul_assoc, ← Nat.pow_add,
    show 52 - Nat.log 2 n + (Nat.log 2 n + 1022) = k by omega]

/-- The significand of a small integer does not have a bit too many. -/
theorem mul_pow_lt {n : Nat} (h : Nat.log 2 n < 52) :
    n * 2 ^ (52 - Nat.log 2 n) < 2 * exponentBit :=
  calc n * 2 ^ (52 - Nat.log 2 n)
      < 2 ^ (Nat.log 2 n + 1) * 2 ^ (52 - Nat.log 2 n) :=
        Nat.mul_lt_mul_of_pos_right (Nat.lt_pow_succ_log_self (by decide) n) (by positivity)
    _ = 2 * exponentBit := by
        rw [← Nat.pow_add, show Nat.log 2 n + 1 + (52 - Nat.log 2 n) = 53 by omega]
        rfl

/-- The bits below the sign of the rounding of an integer that does not become an infinity. -/
theorem magnitude_ofRatio_one {negative : Bool} {n : Nat} (hn : 0 < n)
    (hfinite : (ofRatio negative n 1).magnitude ≠ infiniteMagnitude) :
    (ofRatio negative n 1).magnitude = (Nat.log 2 n + 1022) * exponentBit +
        roundHalfEven (n * unitsPerOne) (1 <<< (Nat.log 2 n + 1022)) ∧
      exponentBit ≤ roundHalfEven (n * unitsPerOne) (1 <<< (Nat.log 2 n + 1022)) := by
  have hmagnitude := @magnitude_ofRatio negative _ _ hn Nat.one_pos
  obtain ⟨-, hlow⟩ := rounded_bounds hn Nat.one_pos rfl
  have hlog : (Int.log 2 ((n : ℚ) / (1 : Nat)) - 52 + 1074).toNat = Nat.log 2 n + 1022 := by
    rw [Nat.cast_one, div_one, Int.log_natCast]
    omega
  rw [hlog] at hmagnitude hlow
  refine ⟨?_, hlow (Nat.succ_pos _)⟩
  rcases Nat.le_total infiniteMagnitude ((Nat.log 2 n + 1022) * exponentBit +
    roundHalfEven (n * unitsPerOne) (1 <<< (Nat.log 2 n + 1022))) with hge | hle
  · exact absurd (hmagnitude.trans (Nat.min_eq_right hge)) hfinite
  · exact hmagnitude.trans (Nat.min_eq_left hle)

/-- Integers are rounded to integers: a double between two integers is not the nearest one to either
of them. -/
theorem dvd_absUnits_ofRatio {negative : Bool} {n : Nat}
    (hfinite : (ofRatio negative n 1).magnitude ≠ infiniteMagnitude) :
    unitsPerOne ∣ (ofRatio negative n 1).absUnits := by
  rcases Nat.eq_zero_or_pos n with rfl | hn
  · rw [absUnits_of_isZero (by rw [isZero, magnitude_ofRatio_zero]; rfl)]
    exact dvd_zero _
  obtain ⟨hmagnitude, hlow⟩ := magnitude_ofRatio_one hn hfinite
  rcases Nat.lt_or_ge (Nat.log 2 n) 52 with hsmall | hgreat
  · -- A small integer is not rounded at all.
    have hunits := mul_unitsPerOne_eq hsmall
    have hpos : 0 < 1 <<< (Nat.log 2 n + 1022) := by
      rw [Nat.shiftLeft_eq]
      positivity
    rw [hunits, roundHalfEven_mul _ hpos] at hmagnitude hlow
    obtain ⟨hscale, hsignificand⟩ := fields_of_magnitude_eq hmagnitude hlow (mul_pow_lt hsmall)
    refine ⟨n, ?_⟩
    rw [Nat.mul_comm, hunits, absUnits, hscale, hsignificand, Nat.shiftLeft_eq,
      Nat.shiftLeft_eq 1, Nat.one_mul]
  · -- The last bit of a great one counts integers.
    obtain ⟨k, hk, hunits⟩ := exists_unitsPerOne_eq
    have hscale : k ≤ (ofRatio negative n 1).scaleSteps := by
      have heq := (ofRatio negative n 1).magnitude_eq
      have hlt := (ofRatio negative n 1).significand_lt
      rw [hmagnitude] at heq
      simp only [exponentBit] at heq hlt hlow
      omega
    rw [absUnits, Nat.shiftLeft_eq, hunits]
    exact Dvd.dvd.mul_left (pow_dvd_pow 2 hscale) _

/-! ### Integers and doubles -/

/-- The double `2 ^ 63`, the least one beyond all signed words. -/
def integerEnd : Double :=
  ofMagnitude false (1086 * exponentBit)

/-- The end of the range of words, two to the power of sixty-three, has this magnitude. It is
computed. -/
theorem magnitude_integerEnd : integerEnd.magnitude = 1086 * exponentBit :=
  magnitude_ofMagnitude (by decide)

/-- The end of the range of words is far from infinity, so that its units say what it is. -/
theorem isFinite_integerEnd : integerEnd.isFinite = true := by
  decide

/-- In units the end of the range of words is exactly two to the power of sixty-three. -/
theorem units_integerEnd : (integerEnd.absUnits : Int) = 9223372036854775808 * unitsPerOne := by
  obtain ⟨hscale, hsignificand⟩ := @fields_of_magnitude_eq integerEnd 1085 exponentBit
    (by decide) le_rfl (by decide)
  obtain ⟨k, hk, hunits⟩ := exists_unitsPerOne_eq
  rw [absUnits, hscale, hsignificand, hunits, Nat.shiftLeft_eq, show 1085 = 11 + k by omega,
    Nat.pow_add]
  push_cast [exponentBit]
  ring

/-- Doubles of one magnitude are the same number of units away from zero. Signs are of no matter
here. -/
theorem absUnits_eq_of_magnitude_eq {a b : Double} (h : a.magnitude = b.magnitude) :
    a.absUnits = b.absUnits :=
  le_antisymm (absUnits_le_of_magnitude_le h.le) (absUnits_le_of_magnitude_le h.ge)

/-- The double nearest to an integer is the rounded ratio of its absolute value and one. -/
theorem ofInt_eq (i : Int) : ofInt i = ofRatio (decide (i < 0)) i.natAbs 1 :=
  rfl

/-- Rounding a ratio does not touch the sign that is given with it. -/
theorem isNegative_ofRatio {negative : Bool} {num den : Nat} :
    (ofRatio negative num den).isNegative = negative := by
  rw [ofRatio]
  split
  · exact isNegative_ofMagnitude (by decide)
  · exact isNegative_ofMagnitude (Nat.lt_of_le_of_lt (Nat.min_le_right _ _) infiniteMagnitude_lt)

/-- The double nearest to an integer has the sign of the integer, and zero becomes the zero without
a sign. -/
theorem isNegative_ofInt (i : Int) : (ofInt i).isNegative = decide (i < 0) :=
  isNegative_ofRatio

/-- Where the double nearest to an integer stands in the order of doubles: at its magnitude, on the
side of its sign. -/
theorem position_ofInt (i : Int) :
    (ofInt i).position =
      if i < 0 then -((ofInt i).magnitude : Int) else ((ofInt i).magnitude : Int) := by
  rw [position, isNegative_ofInt]
  simp only [decide_eq_true_eq]

/-- The absolute values of signed words are rounded to `2 ^ 63` at most. -/
theorem magnitude_ofInt_le_integerEnd {i : Int} (h : i.natAbs ≤ 9223372036854775808) :
    (ofInt i).magnitude ≤ integerEnd.magnitude := by
  rw [ofInt_eq, ← magnitude_ofRatio_absUnits isFinite_integerEnd (decide (i < 0))]
  refine magnitude_ofRatio_le Nat.one_pos unitsPerOne_pos ?_
  have hunits := units_integerEnd
  have hle : i.natAbs * unitsPerOne ≤ 9223372036854775808 * unitsPerOne :=
    Nat.mul_le_mul_right _ h
  rw [Nat.mul_one]
  omega

/-- What is not finite is beyond `2 ^ 63`. -/
theorem integerEnd_lt_magnitude {d : Double} (h : d.isFinite = false) :
    integerEnd.magnitude < d.magnitude := by
  rw [isFinite, decide_eq_false_iff_not, Nat.not_lt] at h
  exact Nat.lt_of_lt_of_le (of_decide_eq_true isFinite_integerEnd) h

/-- A signed word whose absolute value is not less than a double is rounded to one for which
this is so. -/
theorem magnitude_le_ofInt {d : Double} {i : Int} (hi : i.natAbs ≤ 9223372036854775808)
    (h : d.absUnits ≤ i.natAbs * unitsPerOne) : d.magnitude ≤ (ofInt i).magnitude := by
  cases hfinite : d.isFinite with
  | true =>
      rw [ofInt_eq, ← magnitude_ofRatio_absUnits hfinite (decide (i < 0))]
      exact magnitude_ofRatio_le unitsPerOne_pos Nat.one_pos (by rwa [Nat.mul_one])
  | false =>
      have hlt := absUnits_lt_iff.2 (integerEnd_lt_magnitude hfinite)
      have hunits := units_integerEnd
      have hle : i.natAbs * unitsPerOne ≤ 9223372036854775808 * unitsPerOne :=
        Nat.mul_le_mul_right _ hi
      omega

/-- A signed word whose absolute value is not greater than a double is rounded to one for which
this is so. -/
theorem ofInt_le_magnitude {d : Double} {i : Int} (hi : i.natAbs ≤ 9223372036854775808)
    (h : i.natAbs * unitsPerOne ≤ d.absUnits) : (ofInt i).magnitude ≤ d.magnitude := by
  cases hfinite : d.isFinite with
  | true =>
      rw [ofInt_eq, ← magnitude_ofRatio_absUnits hfinite (decide (i < 0))]
      exact magnitude_ofRatio_le Nat.one_pos unitsPerOne_pos (by rwa [Nat.mul_one])
  | false => exact (magnitude_ofInt_le_integerEnd hi).trans (integerEnd_lt_magnitude hfinite).le

/-- A signed word and the double nearest to it are on the same side of every double. -/
theorem position_ofInt_iff {d : Double} {i : Int} (hi : i.natAbs ≤ 9223372036854775808) :
    (d.units ≤ i * unitsPerOne → d.position ≤ (ofInt i).position) ∧
      (i * unitsPerOne ≤ d.units → (ofInt i).position ≤ d.position) := by
  have hle := magnitude_le_ofInt (d := d) hi
  have hge := ofInt_le_magnitude (d := d) hi
  have hzero : d.absUnits = 0 → d.magnitude = 0 := fun h =>
    Nat.le_zero.1 (Nat.not_lt.1 fun hpos => absurd (absUnits_lt_iff (a := zero false).2 hpos)
      (by rw [absUnits_zero, h]; exact Nat.lt_irrefl 0))
  have hnone : i.natAbs * unitsPerOne = 0 → (ofInt i).magnitude = 0 := fun h => by
    rw [ofInt_eq, (Nat.mul_eq_zero.1 h).resolve_right unitsPerOne_pos.ne', magnitude_ofRatio_zero]
  have hproduct : i * unitsPerOne = if i < 0 then -((i.natAbs * unitsPerOne : Nat) : Int) else
      ((i.natAbs * unitsPerOne : Nat) : Int) := by
    push_cast
    split
    · next hneg => rw [abs_of_neg hneg, neg_mul, neg_neg]
    · next hpos => rw [abs_of_nonneg (not_lt.1 hpos)]
  rw [hproduct, units, position_ofInt, position]
  generalize i.natAbs * unitsPerOne = x at *
  constructor <;> split_ifs <;> omega

/-! ### Doubles that are signed words -/

/-- If an integer is one of the words, the word that is found is that integer. -/
theorem int64?_eq_some {i : Int} {j : Int64} (h : int64? i = some j) : j.toInt = i := by
  rw [int64?] at h
  split at h
  · next hrange =>
      cases h
      exact Int64.toInt_ofInt_of_le hrange.1 (Int.lt_of_le_of_lt hrange.2 (by decide))
  · cases h

/-- A double that is a signed word has its value. -/
theorem units_of_toInt64? {d : Double} {j : Int64} (h : d.toInt64? = some j) :
    d.units = j.toInt * unitsPerOne := by
  obtain ⟨i, hi, hj⟩ := Option.bind_eq_some_iff.1 h
  rw [toInt?] at hi
  split at hi
  · next hwhole =>
      cases hi
      rw [int64?_eq_some hj]
      have hdvd : unitsPerOne ∣ d.absUnits := by
        rw [Bool.and_eq_true, decide_eq_true_eq] at hwhole
        exact Nat.dvd_of_mod_eq_zero hwhole.2
      refine (Int.ediv_mul_cancel ?_).symm
      rw [units]
      split
      · exact (Int.natCast_dvd_natCast.2 hdvd).neg_right
      · exact Int.natCast_dvd_natCast.2 hdvd
  · cases hi

/-- A finite double whose units are those of a word is turned into a word. With `units_of_toInt64?`
this says which doubles are words. -/
theorem toInt64?_of_units {d : Double} {i : Int} (hfinite : d.isFinite = true)
    (h : d.units = i * unitsPerOne) (hlow : -9223372036854775808 ≤ i)
    (hhigh : i < 9223372036854775808) : ∃ j, d.toInt64? = some j := by
  have hdvd : d.absUnits % unitsPerOne = 0 := by
    have hdvd : (unitsPerOne : Int) ∣ d.units := h ▸ Int.dvd_mul_left _ _
    refine Nat.mod_eq_zero_of_dvd (Int.natCast_dvd_natCast.1 ?_)
    rw [units] at hdvd
    split at hdvd
    · exact (Int.dvd_neg).1 hdvd
    · exact hdvd
  refine ⟨Int64.ofInt i, ?_⟩
  have hpos : (unitsPerOne : Int) ≠ 0 := by exact_mod_cast unitsPerOne_pos.ne'
  rw [toInt64?, toInt?, hfinite, hdvd, h, Int.mul_ediv_cancel _ hpos]
  exact if_pos ⟨hlow, Int.le_of_lt_add_one hhigh⟩

/-- A double that stands for an integer is finite. -/
theorem isFinite_of_toInt64? {d : Double} {i : Int64} (h : d.toInt64? = some i) :
    d.isFinite = true := by
  obtain ⟨whole, hwhole, -⟩ := Option.bind_eq_some_iff.1 h
  rw [toInt?] at hwhole
  split at hwhole
  · next hboth => exact (Bool.and_eq_true_iff.1 hboth).1
  · cases hwhole

/-- Infinities and what is not a number are not turned into words. -/
theorem toInt64?_of_not_isFinite {d : Double} (h : d.isFinite = false) : d.toInt64? = none := by
  cases hi : d.toInt64? with
  | none => rfl
  | some i => cases h.symm.trans (isFinite_of_toInt64? hi)

/-- The end of the range of words is not one of them. This is the bound that the conversion must not
include. -/
theorem ne_integerEnd_of_toInt64? {d : Double} {i : Int64} (h : d.toInt64? = some i) :
    d ≠ integerEnd := by
  rintro rfl
  have hnone : integerEnd.toInt64? = none := by decide
  cases h.symm.trans hnone

/-- Whether a double stands for a signed word: its value is a whole number that is not less than
`-2 ^ 63` and less than `2 ^ 63`. -/
def IsWord (d : Double) : Prop :=
  d.isFinite = true ∧ ∃ i : Int, d.units = i * unitsPerOne ∧
    -9223372036854775808 ≤ i ∧ i < 9223372036854775808

/-- A double is a word in its units exactly if it is turned into a word by the program. -/
theorem isWord_iff {d : Double} : d.IsWord ↔ ∃ j, d.toInt64? = some j := by
  constructor
  · rintro ⟨hfinite, i, hunits, hlow, hhigh⟩
    exact toInt64?_of_units hfinite hunits hlow hhigh
  · rintro ⟨j, hj⟩
    exact ⟨isFinite_of_toInt64? hj, j.toInt, units_of_toInt64? hj, j.le_toInt, j.toInt_lt⟩

/-- What is not turned into a word is what has no word's units, or is not finite. -/
theorem toInt64?_eq_none_iff {d : Double} : d.toInt64? = none ↔ ¬d.IsWord := by
  rw [isWord_iff, Option.eq_none_iff_forall_ne_some, not_exists]

/-- The rounding of a signed word is finite, and its value is an integer. -/
theorem exists_absUnits_ofInt {i : Int} (hi : i.natAbs ≤ 9223372036854775808) :
    (ofInt i).isFinite = true ∧ ∃ k : Nat, ((ofInt i).absUnits : Int) = k * unitsPerOne := by
  have hfinite : (ofInt i).isFinite = true := by
    by_contra hinfinite
    exact absurd (integerEnd_lt_magnitude (Bool.eq_false_iff.2 hinfinite))
      (Nat.not_lt.2 (magnitude_ofInt_le_integerEnd hi))
  refine ⟨hfinite, ?_⟩
  rw [isFinite, decide_eq_true_eq, ofInt_eq] at hfinite
  obtain ⟨k, hk⟩ := dvd_absUnits_ofRatio hfinite.ne
  refine ⟨k, ?_⟩
  rw [ofInt_eq, hk, Nat.mul_comm]
  push_cast
  rfl

/-- The only double that is the nearest one of a signed word without being one is `2 ^ 63`. -/
theorem eq_integerEnd_of_position_eq {d : Double} {i : Int} (hi : i.natAbs ≤ 9223372036854775808)
    (h : (ofInt i).position = d.position) (hnone : d.toInt64? = none) : d = integerEnd := by
  have hmagnitude : d.magnitude = (ofInt i).magnitude := by
    rw [position, position] at h
    split_ifs at h <;> omega
  have hle : d.magnitude ≤ integerEnd.magnitude :=
    hmagnitude.trans_le (magnitude_ofInt_le_integerEnd hi)
  -- The value is an integer, because that of the rounded word is one.
  obtain ⟨hfinite, k, hunits⟩ := exists_absUnits_ofInt hi
  rw [isFinite, ← hmagnitude, ← isFinite] at hfinite
  rw [← absUnits_eq_of_magnitude_eq hmagnitude] at hunits
  have hend := units_integerEnd
  have hpos : (0 : Int) < unitsPerOne := by exact_mod_cast unitsPerOne_pos
  have hkle : (k : Int) ≤ 9223372036854775808 := by
    refine le_of_mul_le_mul_right ?_ hpos
    rw [← hunits, ← hend]
    exact_mod_cast absUnits_le_of_magnitude_le hle
  cases hsign : d.isNegative with
  | true =>
      obtain ⟨j, hj⟩ := toInt64?_of_units (i := -k) hfinite
        (by rw [units_of_isNegative hsign, hunits, Int.neg_mul]) (by omega) (by omega)
      rw [hnone] at hj
      cases hj
  | false =>
      have hge : ¬(k : Int) < 9223372036854775808 := fun hlt => by
        obtain ⟨j, hj⟩ := toInt64?_of_units (i := k) hfinite
          (by rw [units_of_not_isNegative hsign, hunits]) (by omega) hlt
        rw [hnone] at hj
        cases hj
      have heq : d.magnitude = integerEnd.magnitude := by
        refine le_antisymm hle (Nat.not_lt.1 fun hlt => ?_)
        have hlt := absUnits_lt_iff.2 hlt
        rw [show (k : Int) = 9223372036854775808 by omega] at hunits
        omega
      rw [← ofMagnitude_magnitude d, hsign, heq, magnitude_integerEnd, integerEnd]

/-! ### Non-numbers -/

/-- The magnitudes of numbers go up to that of an infinity. -/
theorem isNaN_eq_false_iff {d : Double} : d.isNaN = false ↔ d.magnitude ≤ infiniteMagnitude := by
  rw [isNaN, decide_eq_false_iff_not, Nat.not_lt]

/-- A finite double is a number. The exponent that tells the others from it is the same for
infinities and for what is not a number. -/
theorem isNaN_of_isFinite {d : Double} (h : d.isFinite = true) : d.isNaN = false := by
  rw [isFinite, decide_eq_true_eq] at h
  rw [isNaN, decide_eq_false_iff_not]
  exact Nat.lt_asymm h

/-- What is not a number is not finite, although it is not infinite either. -/
theorem isFinite_of_isNaN {d : Double} (h : d.isNaN = true) : d.isFinite = false := by
  cases hfinite : d.isFinite with
  | false => rfl
  | true => cases h.symm.trans (isNaN_of_isFinite hfinite)

/-- The sign does not count for whether a double is a number. -/
theorem isNaN_ofMagnitude (negative : Bool) (d : Double) :
    (ofMagnitude negative d.magnitude).isNaN = d.isNaN := by
  rw [isNaN, isNaN, magnitude_ofMagnitude d.magnitude_lt]

/-- What is nearest to a word is finite, since words end long before the greatest double. -/
theorem isFinite_ofInt {i : Int} (h : i.natAbs ≤ 18446744073709551616) :
    (ofInt i).isFinite = true := by
  have hle : (ofInt i).magnitude ≤ (ofInt 18446744073709551616).magnitude := by
    rw [ofInt_eq, ofInt_eq]
    exact magnitude_ofRatio_le Nat.one_pos Nat.one_pos (Nat.mul_le_mul_right 1 h)
  have hfinite : (ofInt 18446744073709551616).isFinite = true := by decide +kernel
  rw [isFinite, decide_eq_true_eq] at hfinite ⊢
  exact Nat.lt_of_le_of_lt hle hfinite

end Double

end ShardQuery
