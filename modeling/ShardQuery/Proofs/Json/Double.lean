import ShardQuery.Proofs.Json.Number

/-!
# Doubles Read Back

A finite double is written as a literal of its shortest decimal number, in one of four
layouts. Whatever the layout, the literal has the value of the decimal number, which is
rounded to the double when it is read.

## Main results

* `Json.writes_render`: every layout is a literal of the value.
* `Json.scanNumber?_double`: finite doubles read back.
-/

namespace ShardQuery.Json

/-! ### Layouts -/

/-- Whether characters are a literal of a given value that is read as a double. -/
def Writes (chars : List Char) (value : ℚ) : Prop :=
  ∃ literal : Literal, literal.IsValid ∧ literal.chars = chars ∧
    (literal.fraction.isNone = false ∨ literal.exponent.isNone = false) ∧
    (literal.digits * 10 ^ literal.lastPower : ℚ) = value

/-- Padding with zeros pads with digits, so a padded run of digits is again one. -/
theorem isDigit_zeros (n : Nat) : ∀ c ∈ zeros n, c.isDigit = true := by
  intro c hc
  rw [List.eq_of_mem_replicate hc]
  rfl

/-- The single zero before a point is a run of digits by itself. -/
theorem areDigits_zero : AreDigits ['0'] :=
  ⟨List.forall_mem_singleton.2 rfl, List.cons_ne_nil _ _⟩

/-- A whole number with a fraction of zero, the form of a double of at least one whose digits all
stand before the point. The zeros after the digits are its power of ten. -/
theorem writes_whole {digits : List Char} (h : AreDigits digits)
    (hleading : digits.head? ≠ some '0') (n : Nat) :
    Writes (digits ++ zeros n ++ ['.', '0']) (Nat.ofDigitChars 10 digits 0 * 10 ^ n) := by
  refine ⟨⟨digits ++ zeros n, some ['0'], none⟩, ⟨⟨?_, ?_⟩, ?_, ?_, nofun⟩, ?_, .inl rfl, ?_⟩
  · exact fun c hc => (List.mem_append.1 hc).elim (h.isDigit c) (isDigit_zeros n c)
  · simp [h.ne_nil]
  · exact .inr (by rwa [List.head?_append_of_ne_nil _ h.ne_nil])
  · rintro _ ⟨⟩
    exact areDigits_zero
  · simp [Literal.chars, Literal.fractionChars, Literal.exponentChars]
  · simp only [Literal.digits, Literal.lastPower, Literal.power, Option.getD_some,
      Nat.ofDigitChars_append, zeros, Nat.ofDigitChars_replicate_zero]
    simp [Nat.ofDigitChars_cons]
    field_simp

/-- A point among the digits, the form of a double whose digits stand on both sides of the point.
Moving the point left divides by a power of ten. -/
theorem writes_pointInside {digits : List Char} (h : AreDigits digits)
    (hleading : digits.head? ≠ some '0') {places : Nat} (hpos : 0 < places)
    (hplaces : places < digits.length) :
    Writes (digits.take (digits.length - places) ++ '.' :: digits.drop (digits.length - places))
      (Nat.ofDigitChars 10 digits 0 * 10 ^ (-(places : Int))) := by
  have hne : digits.take (digits.length - places) ≠ [] := by
    rw [Ne, List.take_eq_nil_iff, not_or]
    exact ⟨by omega, h.ne_nil⟩
  refine ⟨⟨digits.take (digits.length - places), some (digits.drop (digits.length - places)),
    none⟩, ⟨⟨?_, hne⟩, ?_, ?_, nofun⟩, ?_, .inl rfl, ?_⟩
  · exact fun c hc => h.isDigit c (List.mem_of_mem_take hc)
  · right
    rwa [List.head?_take, if_neg (by omega)]
  · rintro _ ⟨⟩
    refine ⟨fun c hc => h.isDigit c (List.mem_of_mem_drop hc), ?_⟩
    rw [Ne, List.drop_eq_nil_iff]
    omega
  · simp [Literal.chars, Literal.fractionChars, Literal.exponentChars]
  · simp only [Literal.digits, Literal.lastPower, Literal.power, Option.getD_some,
      Option.getD_none, List.take_append_drop, List.length_drop]
    congr 2
    omega

/-- A point before all of the digits, the form of a double below one: a zero, the point, padding and
then the digits. -/
theorem writes_pointBefore {digits : List Char} (h : AreDigits digits) {places : Nat}
    (hplaces : digits.length ≤ places) :
    Writes ('0' :: '.' :: (zeros (places - digits.length) ++ digits))
      (Nat.ofDigitChars 10 digits 0 * 10 ^ (-(places : Int))) := by
  refine ⟨⟨['0'], some (zeros (places - digits.length) ++ digits), none⟩,
    ⟨areDigits_zero, .inl rfl, ?_, nofun⟩, ?_, .inl rfl, ?_⟩
  · rintro _ ⟨⟩
    refine ⟨fun c hc => (List.mem_append.1 hc).elim (isDigit_zeros _ c) (h.isDigit c), ?_⟩
    simp [h.ne_nil]
  · simp [Literal.chars, Literal.fractionChars, Literal.exponentChars]
  · simp only [Literal.digits, Literal.lastPower, Literal.power, Option.getD_some,
      Option.getD_none, Nat.ofDigitChars_append, zeros, Nat.ofDigitChars_replicate_zero,
      List.length_append, List.length_replicate]
    congr 2
    omega

/-- An exponent with its sign, in the form in which a literal carries it: whether it is negative,
and the digits of its amount. -/
def exponentOf (leading : Int) : Bool × List Char :=
  (decide (leading < 0), Nat.toDigits 10 leading.natAbs)

/-- The exponent put into a literal is the one the scanner finds in it. -/
theorem power_exponentOf (leading : Int) :
    Literal.power (some (exponentOf leading)) = some leading := by
  simp only [exponentOf, Literal.power, Nat.ofDigitChars_ten_toDigits, decide_eq_true_eq,
    Option.some.injEq]
  split <;> omega

/-- The characters of an exponent: its letter, the sign, which is written in both cases, and the
digits of its amount. -/
theorem exponentChars_exponentOf (leading : Int) :
    Literal.exponentChars (some (exponentOf leading)) =
      'e' :: (if leading < 0 then '-' else '+') :: (Nat.repr leading.natAbs).toList := by
  simp only [exponentOf, Literal.exponentChars, decide_eq_true_eq, Nat.toList_repr]

/-- The digits behind the first one as a fraction, and an exponent. -/
theorem writes_exponentText {digits : List Char} (h : AreDigits digits)
    (hleading : digits.head? ≠ some '0') (exponent : Int) :
    Writes (Decimal.exponentText digits (exponent + digits.length - 1))
      (Nat.ofDigitChars 10 digits 0 * 10 ^ exponent) := by
  generalize hpower : exponent + digits.length - 1 = leading
  have hexponent : ∀ e ∈ some (exponentOf leading), AreDigits e.2 := by
    rintro _ ⟨⟩
    exact areDigits_toDigits _
  obtain _ | ⟨d, _ | ⟨e, rest⟩⟩ := digits
  case nil => exact absurd rfl h.ne_nil
  case cons.nil =>
      refine ⟨⟨[d], none, some (exponentOf leading)⟩, ⟨h, .inr hleading, by simp, hexponent⟩, ?_,
        .inr rfl, ?_⟩
      · simp only [Literal.chars, Literal.fractionChars, exponentChars_exponentOf,
          Decimal.exponentText]
        rfl
      · simp only [Literal.digits, Literal.lastPower, power_exponentOf, Option.getD_some,
          Option.getD_none, List.append_nil, List.length_nil]
        congr 2
        simp only [List.length_singleton] at hpower
        omega
  case cons.cons =>
      refine ⟨⟨[d], some (e :: rest), some (exponentOf leading)⟩,
        ⟨⟨?_, List.cons_ne_nil _ _⟩, .inr hleading, ?_, hexponent⟩, ?_, .inl rfl, ?_⟩
      · exact fun c hc => h.isDigit c (List.mem_singleton.1 hc ▸ List.mem_cons_self)
      · rintro _ ⟨⟩
        exact ⟨fun c hc => h.isDigit c (List.mem_cons_of_mem _ hc), List.cons_ne_nil _ _⟩
      · simp only [Literal.chars, Literal.fractionChars, exponentChars_exponentOf,
          Decimal.exponentText]
        rfl
      · simp only [Literal.digits, Literal.lastPower, power_exponentOf, Option.getD_some,
          List.singleton_append]
        congr 2
        simp only [List.length_cons] at hpower ⊢
        omega

/-! ### Decimal numbers -/

/-- The zeros that are dropped are those at the end. -/
theorem trimZeros_mul (fuel n : Nat) :
    (trimZeros fuel n).1 * 10 ^ (trimZeros fuel n).2 = n := by
  induction fuel generalizing n with
  | zero => exact Nat.mul_one n
  | succ fuel ih =>
      rw [trimZeros]
      split
      · next h =>
          rw [Nat.pow_succ, ← Nat.mul_assoc, ih, Nat.div_mul_cancel (Nat.dvd_of_mod_eq_zero h)]
      · exact Nat.mul_one n

/-- **Every layout of a positive decimal number is a literal of its value.** -/
theorem writes_render (style : DecimalStyle) (hstyle : style.keepsFraction = true) {x : Decimal}
    (hx : x.digits ≠ 0) : Writes (x.render style) (x.digits * 10 ^ x.exponent) := by
  have hmul := trimZeros_mul (x.digits.log2 + 1) x.digits
  rw [Decimal.render]
  generalize trimZeros (x.digits.log2 + 1) x.digits = trimmed at hmul ⊢
  obtain ⟨n, dropped⟩ := trimmed
  have hn : 0 < n := by
    rcases Nat.eq_zero_or_pos n with rfl | hn
    · exact absurd (by simpa using hmul.symm) hx
    · exact hn
  have hdigits := areDigits_toDigits n
  have hleading := head?_toDigits_ne hn
  have hvalue : (x.digits * 10 ^ x.exponent : ℚ) =
      Nat.ofDigitChars 10 (Nat.toDigits 10 n) 0 * 10 ^ (x.exponent + dropped) := by
    rw [Nat.ofDigitChars_ten_toDigits, ← hmul, zpow_add₀ (by norm_num), zpow_natCast]
    push_cast
    ring
  rw [hvalue]
  simp only [Nat.toList_repr, hstyle]
  generalize x.exponent + (dropped : Int) = exponent
  have hpositional : Writes (Decimal.positionalText true (Nat.toDigits 10 n) exponent)
      (Nat.ofDigitChars 10 (Nat.toDigits 10 n) 0 * 10 ^ exponent) := by
    rw [Decimal.positionalText]
    split
    · next hexponent =>
        lift exponent to ℕ using hexponent
        exact writes_whole hdigits hleading exponent
    · next hexponent =>
        obtain ⟨places, rfl⟩ := Int.exists_eq_neg_ofNat (not_le.1 hexponent).le
        simp only [neg_neg, Int.toNat_natCast]
        split
        · next hplaces =>
            exact writes_pointInside hdigits hleading (by omega) hplaces
        · next hplaces =>
            exact writes_pointBefore hdigits (not_lt.1 hplaces)
  cases style.positional with
  | none => exact hpositional
  | some range =>
      simp only
      split
      · exact hpositional
      · exact writes_exponentText hdigits hleading exponent

/-! ### Finite doubles -/

/-- The characters of a finite double without its sign. -/
def bodyChars (d : Double) : List Char :=
  if d.isZero then Decimal.positionalText true ['0'] 0
  else Decimal.render doubleStyle (d.shortest doubleStyle.tie)

/-- The text of a finite double is its body, with a minus sign before it for the doubles whose sign
is negative, minus zero included. -/
theorem render_of_finite {d : Double} (h : d.isFinite = true) :
    d.render doubleStyle =
      String.ofList (if d.isNegative then '-' :: bodyChars d else bodyChars d) := by
  rw [Double.isFinite, decide_eq_true_eq] at h
  have hnan : d.isNaN = false := decide_eq_false (by omega)
  have hinfinite : d.isInfinite = false := decide_eq_false (by omega)
  rw [Double.render, hnan, hinfinite]
  rfl

/-- A zero is the zero of its sign, which is what the scanner rebuilds when all the digits it read
are zeros. -/
theorem ofMagnitude_zero {d : Double} (h : d.isZero = true) : Double.zero d.isNegative = d := by
  rw [Double.isZero, decide_eq_true_eq] at h
  rw [Double.zero, ← h, Double.ofMagnitude_magnitude]

/-- A finite double is written as a literal whose decimal number is rounded to it. -/
theorem exists_literal {d : Double} (h : d.isFinite = true) :
    ∃ literal : Literal, literal.IsValid ∧ literal.chars = bodyChars d ∧
      (literal.fraction.isNone = false ∨ literal.exponent.isNone = false) ∧
      Double.ofDecimal d.isNegative literal.digits literal.lastPower = d := by
  cases hzero : d.isZero with
  | true =>
      refine ⟨⟨['0'], some ['0'], none⟩, ⟨areDigits_zero, .inl rfl, ?_, nofun⟩, ?_, .inl rfl, ?_⟩
      · rintro _ ⟨⟩
        exact areDigits_zero
      · rw [bodyChars, if_pos hzero]
        rfl
      · exact ofMagnitude_zero hzero
  | false =>
      have hcovers := Double.covers_shortest doubleStyle.tie h hzero
      have hdigits : (d.shortest doubleStyle.tie).digits ≠ 0 := by
        intro hdigits
        have hpos := hcovers.pos hzero
        rw [hdigits] at hpos
        simp at hpos
      obtain ⟨literal, hvalid, hchars, hparts, hvalue⟩ :=
        writes_render doubleStyle rfl hdigits
      refine ⟨literal, hvalid, ?_, hparts, Double.ofDecimal_eq_of_covers h hzero ?_⟩
      · rw [hchars, bodyChars, hzero]
        rfl
      · rw [hvalue]
        exact hcovers

/-- **Finite doubles read back**, to the last bit, the sign of a zero included: the shortest digits
determine the double, and the scanner rounds to it. -/
theorem scanNumber?_double {d : Double} (h : d.isFinite = true) {rest : List UInt8}
    (hrest : Delimited rest) :
    scanNumber? (utf8Octets (d.render doubleStyle) ++ rest) = some (.double d, rest) := by
  obtain ⟨literal, hvalid, hchars, hparts, hrounds⟩ := exists_literal h
  have hscan := hvalid.scanUnsigned?_eq hrest d.isNegative
  rw [hvalid.number_eq_double h hparts hrounds] at hscan
  rw [render_of_finite h, utf8Octets_ofList, ← hchars]
  cases hnegative : d.isNegative with
  | true =>
      rw [hnegative] at hscan
      exact hscan
  | false =>
      rw [hnegative] at hscan
      rw [if_neg (by decide), Literal.chars, charOctets_append, List.append_assoc,
        scanNumber?_of_digit hvalid.whole, ← List.append_assoc, ← charOctets_append,
        ← Literal.chars]
      exact hscan

end ShardQuery.Json
