import ShardQuery.Json.Token
import ShardQuery.Proofs.Double.Shortest
import ShardQuery.Proofs.Text.Octets

/-!
# Numbers Read Back

A `Literal` is a number as it is written: digits, a fraction and an exponent. The scanner
reads a literal up to the delimiter behind it, and what it reads is decided by the parts of
the literal alone.

## Main results

* `Json.Literal.IsValid.scanUnsigned?_eq`: the scanner finds the parts of a literal.
* `Json.scanNumber?_int`: integers read back.
-/

namespace ShardQuery.Json

/-! ### Digits -/

/-- Whether characters are digits, at least one. The scanner refuses an empty run of digits in each
of the places where a literal has one. -/
structure AreDigits (chars : List Char) : Prop where
  /-- All are digits. -/
  isDigit : ∀ c ∈ chars, c.isDigit = true
  /-- There is one. -/
  ne_nil : chars ≠ []

/-- Whether a text ends or goes on with something else than a digit. -/
def StopsDigits (rest : List UInt8) : Prop :=
  ∀ b ∈ rest.head?, isDigit b = false

/-- A digit lies between the numbers of `0` and `9`, the form in which the scanner tests an octet.
-/
theorem toNat_of_isDigit {c : Char} (h : c.isDigit = true) : 48 ≤ c.toNat ∧ c.toNat ≤ 57 := by
  simp only [Char.isDigit, Bool.and_eq_true, decide_eq_true_eq] at h
  exact h

/-- A digit is one octet, so that characters and octets of a literal can be counted alike. -/
theorem utf8EncodeChar_of_isDigit {c : Char} (h : c.isDigit = true) :
    String.utf8EncodeChar c = [UInt8.ofNat c.toNat] :=
  utf8EncodeChar_of_ascii (by have := toNat_of_isDigit h; omega)

/-- The octet of a digit has the digit's own number: nothing is lost where the number of the
character is cut to eight bits. -/
theorem toNat_octet_of_isDigit {c : Char} (h : c.isDigit = true) :
    (UInt8.ofNat c.toNat).toNat = c.toNat :=
  UInt8.toNat_ofNat_of_lt' (by have := toNat_of_isDigit h; simp only [UInt8.size]; omega)

/-- The octet of a digit is a digit for the scanner, which tests octets where the writer's side
speaks of characters. -/
theorem isDigit_octet {c : Char} (h : c.isDigit = true) : isDigit (UInt8.ofNat c.toNat) = true := by
  have hc := toNat_of_isDigit h
  rw [isDigit, decide_eq_true_eq, UInt8.le_iff_toNat_le, UInt8.le_iff_toNat_le,
    toNat_octet_of_isDigit h]
  exact hc

/-- A run of digits is taken up to its end, and no further. -/
theorem span_digits {chars : List Char} (h : ∀ c ∈ chars, c.isDigit = true)
    {rest : List UInt8} (hrest : StopsDigits rest) :
    (charOctets chars ++ rest).takeWhile isDigit = charOctets chars ∧
      (charOctets chars ++ rest).dropWhile isDigit = rest := by
  induction chars with
  | nil =>
      cases rest with
      | nil => exact ⟨rfl, rfl⟩
      | cons b rest =>
          have hb := hrest b rfl
          simp [hb]
  | cons c chars ih =>
      obtain ⟨hc, hchars⟩ := List.forall_mem_cons.1 h
      obtain ⟨htake, hdrop⟩ := ih hchars
      simp [utf8EncodeChar_of_isDigit hc, isDigit_octet hc, htake, hdrop]

/-- As many octets as digits. The exponent of a literal counts the octets of its fraction. -/
theorem length_charOctets {chars : List Char} (h : ∀ c ∈ chars, c.isDigit = true) :
    (charOctets chars).length = chars.length := by
  induction chars with
  | nil => rfl
  | cons c chars ih =>
      obtain ⟨hc, hchars⟩ := List.forall_mem_cons.1 h
      rw [charOctets_cons, utf8EncodeChar_of_isDigit hc, List.singleton_append, List.length_cons,
        List.length_cons, ih hchars]

/-- The number written by a run of digits, continued from what stands to its left, is the same in
octets as in characters. -/
theorem digitsValue_charOctets {chars : List Char} (h : ∀ c ∈ chars, c.isDigit = true)
    (left : Nat) : digitsValue left (charOctets chars) = Nat.ofDigitChars 10 chars left := by
  induction chars generalizing left with
  | nil => rfl
  | cons c chars ih =>
      obtain ⟨hc, hchars⟩ := List.forall_mem_cons.1 h
      rw [Nat.ofDigitChars_cons, ← ih hchars, charOctets_cons, utf8EncodeChar_of_isDigit hc]
      simp only [digitsValue, List.singleton_append, List.foldl_cons, toNat_octet_of_isDigit hc,
        Nat.mul_comm 10 left]
      rfl

/-- A run of digits is not empty as octets either, so the scanner does not refuse it. -/
theorem AreDigits.charOctets_ne_nil {chars : List Char} (h : AreDigits chars) :
    charOctets chars ≠ [] := by
  intro hnil
  have hlength := length_charOctets h.isDigit
  rw [hnil] at hlength
  exact h.ne_nil (List.length_eq_zero_iff.1 hlength.symm)

/-- The digits of a natural number are a run of digits, zero included, whose one digit is `0`. -/
theorem areDigits_toDigits (n : Nat) : AreDigits (Nat.toDigits 10 n) :=
  ⟨fun _ hc => Nat.isDigit_of_mem_toDigits (by decide) (by decide) hc, Nat.toDigits_ne_nil⟩

/-- The digits of a positive number do not start with a zero. -/
theorem head?_toDigits_ne {n : Nat} (h : 0 < n) : (Nat.toDigits 10 n).head? ≠ some '0' := by
  induction n using Nat.strongRecOn with
  | ind n ih =>
      rw [Nat.toDigits_eq_if (by decide)]
      split
      · next hlt =>
          have hdigit : ∀ k < 10, 0 < k → Nat.digitChar k ≠ '0' := by decide
          simpa using hdigit n hlt h
      · next hge =>
          rw [List.head?_append_of_ne_nil _ Nat.toDigits_ne_nil]
          exact ih (n / 10) (by omega) (by omega)

/-! ### Literals -/

/-- A number without its sign as it is written. -/
structure Literal where
  /-- The digits before the point. -/
  whole : List Char
  /-- The digits behind the point, if there is one. -/
  fraction : Option (List Char)
  /-- Whether the exponent is negative, and its digits, if there is one. -/
  exponent : Option (Bool × List Char)

/-- Whether a text can stand behind a number: it is at its end, or goes on with a delimiter. -/
def Delimited (rest : List UInt8) : Prop :=
  ∀ b ∈ rest.head?, b = 0x2c ∨ b = 0x5d ∨ b = 0x7d

namespace Literal

/-- The characters of a fraction, its point included; none at all where a literal has no fraction.
-/
def fractionChars : Option (List Char) → List Char
  | none => []
  | some digits => '.' :: digits

/-- The characters of an exponent, with its letter and a sign that is always written; none where a
literal has no exponent. -/
def exponentChars : Option (Bool × List Char) → List Char
  | none => []
  | some (negative, digits) => 'e' :: (if negative then '-' else '+') :: digits

/-- The characters of a literal: the whole digits, then the fraction, then the exponent, the last
two only where they are there. -/
def chars (literal : Literal) : List Char :=
  literal.whole ++ (fractionChars literal.fraction ++ exponentChars literal.exponent)

/-- Whether the parts of a literal are digits as the grammar demands them. -/
structure IsValid (literal : Literal) : Prop where
  /-- The digits before the point. -/
  whole : AreDigits literal.whole
  /-- A leading zero stands alone. -/
  leading : literal.whole = ['0'] ∨ literal.whole.head? ≠ some '0'
  /-- The digits behind the point. -/
  fraction : ∀ digits ∈ literal.fraction, AreDigits digits
  /-- The digits of the exponent. -/
  exponent : ∀ exponent ∈ literal.exponent, AreDigits exponent.2

/-- The digits before and behind the point, as one number. -/
def digits (literal : Literal) : Nat :=
  Nat.ofDigitChars 10 (literal.whole ++ literal.fraction.getD []) 0

/-- The number written as an exponent, with its sign: the value the scanner has to find behind the
letter. -/
def power : Option (Bool × List Char) → Option Int
  | none => none
  | some (negative, digits) =>
    let value : Int := Nat.ofDigitChars 10 digits 0
    some (if negative then -value else value)

/-- The power of ten that the last digit counts. -/
def lastPower (literal : Literal) : Int :=
  (power literal.exponent).getD 0 - (literal.fraction.getD []).length

end Literal

/-- What delimits a number stops a run of digits too: a comma, a bracket, white space or the end of
the text is no digit. -/
theorem Delimited.stopsDigits {rest : List UInt8} (h : Delimited rest) : StopsDigits rest := by
  intro b hb
  rcases h b hb with rfl | rfl | rfl <;> rfl

/-- The digits of an exponent are read as its number, up to the first octet that is no digit. -/
theorem scanExponentDigits?_eq {digits : List Char} (h : AreDigits digits) {rest : List UInt8}
    (hrest : StopsDigits rest) (negative : Bool) :
    scanExponentDigits? negative (charOctets digits ++ rest) =
      some (Literal.power (some (negative, digits)), rest) := by
  obtain ⟨htake, hdrop⟩ := span_digits h.isDigit hrest
  rw [scanExponentDigits?, htake, hdrop]
  split
  · next hnil => exact absurd hnil h.charOctets_ne_nil
  · rw [digitsValue_charOctets h.isDigit, Literal.power]

/-- The exponent is read up to the delimiter, and an exponent that is not there is read as none. -/
theorem scanExponent?_eq {exponent : Option (Bool × List Char)}
    (h : ∀ e ∈ exponent, AreDigits e.2) {rest : List UInt8} (hrest : Delimited rest) :
    scanExponent? (charOctets (Literal.exponentChars exponent) ++ rest) =
      some (Literal.power exponent, rest) := by
  cases exponent with
  | none =>
      cases rest with
      | nil => rfl
      | cons b rest =>
          rcases hrest b rfl with rfl | rfl | rfl <;> rfl
  | some e =>
      obtain ⟨negative, digits⟩ := e
      have hdigits := scanExponentDigits?_eq (h _ rfl) hrest.stopsDigits
      cases negative with
      | false => exact hdigits false
      | true => exact hdigits true

/-- Neither an exponent nor a delimiter is a digit or a point. -/
theorem head?_exponent (exponent : Option (Bool × List Char)) {rest : List UInt8}
    (hrest : Delimited rest) :
    ∀ b ∈ (charOctets (Literal.exponentChars exponent) ++ rest).head?,
      isDigit b = false ∧ b ≠ 0x2e := by
  intro b hb
  cases exponent with
  | none => rcases hrest b hb with rfl | rfl | rfl <;> decide
  | some e =>
      obtain ⟨negative, digits⟩ := e
      cases hb
      decide

/-- The fraction is read up to the exponent. What follows must begin neither with a digit, which
would belong to the fraction, nor with a point. -/
theorem scanFraction?_eq {fraction : Option (List Char)}
    (h : ∀ digits ∈ fraction, AreDigits digits) {rest : List UInt8}
    (hrest : ∀ b ∈ rest.head?, isDigit b = false ∧ b ≠ 0x2e) :
    scanFraction? (charOctets (Literal.fractionChars fraction) ++ rest) =
      some (fraction.map charOctets, rest) := by
  cases fraction with
  | none =>
      change scanFraction? rest = some (none, rest)
      unfold scanFraction?
      split
      · next text => exact absurd rfl (hrest 0x2e rfl).2
      · rfl
  | some digits =>
      have hdigits := h digits rfl
      obtain ⟨htake, hdrop⟩ := span_digits hdigits.isDigit fun b hb => (hrest b hb).1
      change scanFraction? (0x2e :: (charOctets digits ++ rest)) = _
      rw [scanFraction?, htake, hdrop]
      split
      · next hnil => exact absurd hnil hdigits.charOctets_ne_nil
      · rfl

/-- The digits before the point are read up to what follows them. -/
theorem scanWhole?_eq {whole : List Char} (h : AreDigits whole)
    (hleading : whole = ['0'] ∨ whole.head? ≠ some '0') {rest : List UInt8}
    (hrest : StopsDigits rest) :
    scanWhole? (charOctets whole ++ rest) = some (charOctets whole, rest) := by
  rcases hleading with rfl | hleading
  · rfl
  · obtain ⟨htake, hdrop⟩ := span_digits h.isDigit hrest
    unfold scanWhole?
    split
    · next heq =>
        cases whole with
        | nil => exact absurd rfl h.ne_nil
        | cons c chars =>
            have hc := h.isDigit c List.mem_cons_self
            rw [charOctets_cons, utf8EncodeChar_of_isDigit hc] at heq
            have hzero : c.toNat = 48 := by
              rw [← toNat_octet_of_isDigit hc, (List.cons.inj heq).1]
              rfl
            refine absurd ?_ hleading
            rw [List.head?_cons, ← Char.ofNat_toNat c, hzero]
    · rw [htake, hdrop]
      split
      · next hnil => exact absurd hnil h.charOctets_ne_nil
      · rfl

/-- **The scanner finds the parts of a literal**: the whole digits, the fraction and the exponent,
each as they were written, and it stops at the delimiter. -/
theorem Literal.IsValid.scanUnsigned?_eq {literal : Literal} (h : literal.IsValid)
    {rest : List UInt8} (hrest : Delimited rest) (negative : Bool) :
    scanUnsigned? negative (charOctets literal.chars ++ rest) =
      some (number negative (charOctets literal.whole) (literal.fraction.map charOctets)
        (Literal.power literal.exponent), rest) := by
  have hexponent := head?_exponent literal.exponent hrest
  have hstops : StopsDigits (charOctets (Literal.fractionChars literal.fraction) ++
      (charOctets (Literal.exponentChars literal.exponent) ++ rest)) := by
    intro b hb
    cases hfraction : literal.fraction with
    | none =>
        rw [hfraction] at hb
        exact (hexponent b hb).1
    | some digits =>
        rw [hfraction] at hb
        cases hb
        rfl
  simp only [scanUnsigned?, Literal.chars, charOctets_append, List.append_assoc,
    scanWhole?_eq h.whole h.leading hstops, scanFraction?_eq h.fraction hexponent,
    scanExponent?_eq h.exponent hrest, Option.bind_eq_bind, Option.bind_some, Option.pure_def]

/-! ### The number of a literal -/

namespace Literal

/-- The digits of a fraction are digits, and where there is no fraction there is nothing to check.
-/
theorem isDigit_fraction {literal : Literal} (h : literal.IsValid) :
    ∀ c ∈ literal.fraction.getD [], c.isDigit = true := by
  cases hfraction : literal.fraction with
  | none => nofun
  | some digits => exact (h.fraction digits hfraction).isDigit

/-- An absent fraction contributes no octets, so that it can be treated as one of no digits. -/
theorem getD_fraction (literal : Literal) :
    (literal.fraction.map charOctets).getD [] = charOctets (literal.fraction.getD []) := by
  cases literal.fraction <;> rfl

/-- The digits of the whole and of the fraction, read through as one run, give the number that the
literal writes without its point. -/
theorem digitsValue_eq {literal : Literal} (h : literal.IsValid) :
    digitsValue (digitsValue 0 (charOctets literal.whole))
      ((literal.fraction.map charOctets).getD []) = literal.digits := by
  rw [getD_fraction, digitsValue_charOctets h.whole.isDigit,
    digitsValue_charOctets (isDigit_fraction h), digits, Nat.ofDigitChars_append]

/-- A literal with a fraction or an exponent is the double that its decimal number is rounded
to. -/
theorem IsValid.number_eq_double {literal : Literal} (h : literal.IsValid) {d : Double}
    (hfinite : d.isFinite = true)
    (hparts : literal.fraction.isNone = false ∨ literal.exponent.isNone = false)
    (hrounds : Double.ofDecimal d.isNegative literal.digits literal.lastPower = d) :
    number d.isNegative (charOctets literal.whole) (literal.fraction.map charOctets)
      (power literal.exponent) = .double d := by
  have hparts : ((literal.fraction.map charOctets).isNone &&
      (power literal.exponent).isNone) = false := by
    rw [Option.isNone_map]
    rcases hparts with hparts | hparts
    · rw [hparts, Bool.false_and]
    · obtain ⟨e, he⟩ := Option.isSome_iff_exists.1 (Option.isNone_eq_false_iff.1 hparts)
      rw [he]
      exact Bool.and_false _
  have hlength : ((literal.fraction.map charOctets).getD []).length =
      (literal.fraction.getD []).length := by
    rw [getD_fraction, length_charOctets (isDigit_fraction h)]
  simp only [number, digitsValue_eq h, hparts, Bool.false_and, Bool.false_eq_true, if_false,
    hlength]
  rw [lastPower] at hrounds
  rw [hrounds, if_pos hfinite]

/-- A literal of digits alone is an integer if it fits into a word. -/
theorem number_eq_int {digits : List Char} (h : AreDigits digits) {negative : Bool} {n : Nat}
    (hvalue : Nat.ofDigitChars 10 digits 0 = n) (hzero : negative = true → n ≠ 0)
    (hrange : Int64.minValue.toInt ≤ (if negative then -(n : Int) else n) ∧
      (if negative then -(n : Int) else n) < UInt64.size) :
    number negative (charOctets digits) none none = .int (if negative then -(n : Int) else n) := by
  have hdigits : digitsValue (digitsValue 0 (charOctets digits)) (none.getD []) = n :=
    (digitsValue_charOctets h.isDigit 0).trans hvalue
  have hsign : (negative && n == 0) = false := by
    cases negative with
    | false => rfl
    | true => simpa using hzero rfl
  simp only [number, hdigits, hsign, decide_eq_true hrange, Option.isNone_none, Bool.and_self,
    Bool.not_false, if_true]

end Literal

/-! ### Integers -/

/-- The integers that fit a signed or an unsigned word. -/
def FitsWord (i : Int) : Prop :=
  Int64.minValue.toInt ≤ i ∧ i < UInt64.size

/-- An integer without its sign is read as an integer, not as a double, as long as it fits the word.
Minus zero is left out, since the scanner takes it for a double. -/
theorem scanUnsigned?_digits {n : Nat} (negative : Bool) (hzero : negative = true → n ≠ 0)
    (hrange : FitsWord (if negative then -(n : Int) else n)) {rest : List UInt8}
    (hrest : Delimited rest) :
    scanUnsigned? negative (charOctets (Nat.toDigits 10 n) ++ rest) =
      some (.int (if negative then -(n : Int) else n), rest) := by
  have hdigits := areDigits_toDigits n
  have hvalid : Literal.IsValid ⟨Nat.toDigits 10 n, none, none⟩ := by
    refine ⟨hdigits, ?_, nofun, nofun⟩
    rcases Nat.eq_zero_or_pos n with rfl | hpos
    · exact .inl (Nat.toDigits_zero 10)
    · exact .inr (head?_toDigits_ne hpos)
  have hscan := hvalid.scanUnsigned?_eq hrest negative
  simp only [Literal.chars, Literal.fractionChars, Literal.exponentChars, List.append_nil,
    Option.map_none, Literal.power] at hscan
  rw [hscan, Literal.number_eq_int hdigits Nat.ofDigitChars_ten_toDigits hzero hrange]

/-- A text that starts with a digit does not start with a sign. -/
theorem scanNumber?_of_digit {chars : List Char} (h : AreDigits chars) (rest : List UInt8) :
    scanNumber? (charOctets chars ++ rest) = scanUnsigned? false (charOctets chars ++ rest) := by
  cases chars with
  | nil => exact absurd rfl h.ne_nil
  | cons c chars =>
      have hc := h.isDigit c List.mem_cons_self
      rw [charOctets_cons, utf8EncodeChar_of_isDigit hc]
      unfold scanNumber?
      split
      · next heq =>
          have hdigit := isDigit_octet hc
          rw [(List.cons.inj heq).1] at hdigit
          cases hdigit
      · rfl

/-- **Integers read back.** Each integer that fits the word is read from its decimal text as itself,
with or without a sign, up to the delimiter. -/
theorem scanNumber?_int {i : Int} (h : FitsWord i) {rest : List UInt8} (hrest : Delimited rest) :
    scanNumber? (utf8Octets (toString i) ++ rest) = some (.int i, rest) := by
  cases i with
  | ofNat n =>
      change scanNumber? (utf8Octets n.repr ++ rest) = _
      rw [utf8Octets_eq, Nat.toList_repr, scanNumber?_of_digit (areDigits_toDigits n)]
      exact scanUnsigned?_digits false nofun h hrest
  | negSucc n =>
      change scanNumber? (utf8Octets ("-" ++ (n + 1).repr) ++ rest) = _
      rw [utf8Octets_append, utf8Octets_eq (Nat.repr _), Nat.toList_repr, List.append_assoc]
      exact scanUnsigned?_digits true (fun _ => n.succ_ne_zero) h hrest

end ShardQuery.Json
