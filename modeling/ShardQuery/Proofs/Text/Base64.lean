import ShardQuery.Text.Base64

/-!
# Base64 Text Reads Back

## Main results

* `Base64.decode?_encodeOctets`: octets read back from their text.
* `trimWhiteSpace_encodeOctets`: there is no white space in the text of octets.
-/

namespace ShardQuery

namespace Base64

/-- Every value has a character of its own: the alphabet's character for `n` is read back as `n`,
taken modulo 64 as the encoder takes it. -/
theorem digitValue?_digit (n : Nat) : digitValue? (digit n) = some (n % 64) := by
  have hall : ∀ k < 64, digitValue? (digit k) = some k := by decide +kernel
  have hdigit : digit n = digit (n % 64) := by rw [digit, digit, Nat.mod_mod]
  rw [hdigit, hall _ (Nat.mod_lt n (by decide))]

/-- No character of the alphabet is white space, so the decoder's step of dropping white space
leaves an encoded text as it is. -/
theorem isWhiteSpace_digit (n : Nat) : isWhiteSpace (digit n) = false := by
  have hall : ∀ k < 64, isWhiteSpace (digit k) = false := by decide +kernel
  have hdigit : digit n = digit (n % 64) := by rw [digit, digit, Nat.mod_mod]
  rw [hdigit, hall _ (Nat.mod_lt n (by decide))]

/-- The values of the characters that octets are written as: the encoder's own recursion over groups
of three octets, with the step from a value to its character left out. -/
def valuesOf : List UInt8 → List Nat
  | a :: b :: c :: rest =>
    let n := (a.toNat * 256 + b.toNat) * 256 + c.toNat
    (n >>> 18) % 64 :: (n >>> 12) % 64 :: (n >>> 6) % 64 :: n % 64 :: valuesOf rest
  | [a, b] =>
    let n := a.toNat * 256 + b.toNat
    [(n >>> 10) % 64, (n >>> 4) % 64, (n <<< 2) % 64]
  | [a] => [(a.toNat >>> 2) % 64, (a.toNat <<< 4) % 64]
  | [] => []

/-- The characters the encoder writes carry exactly these values, so decoding has only to undo the
arithmetic on the values. -/
theorem mapM_encodeOctets (octets : List UInt8) :
    (encodeOctets octets).mapM digitValue? = some (valuesOf octets) := by
  fun_induction encodeOctets octets with
  | case1 a b c rest n ih => simp [digitValue?_digit, ih, valuesOf, n]
  | case2 a b n => simp [digitValue?_digit, valuesOf, n]
  | case3 a => simp [digitValue?_digit, valuesOf]
  | case4 => rfl

/-- An octet is determined by any number that has its value in the low eight bits. The decoder
recovers octets from shifted sums, where the higher bits are still present. -/
theorem ofNat_eq {a : UInt8} {n : Nat} (h : n % 256 = a.toNat) : UInt8.ofNat n = a :=
  UInt8.toNat_inj.1 (by rw [UInt8.toNat_ofNat', h])

/-- The values of the characters of octets are read as the octets. -/
theorem decodeValues?_valuesOf (octets : List UInt8) :
    decodeValues? (valuesOf octets) = some octets := by
  fun_induction valuesOf octets with
  | case1 a b c rest n ih =>
      have ha := a.toNat_lt
      have hb := b.toNat_lt
      have hc := c.toNat_lt
      have hn : n = (a.toNat * 256 + b.toNat) * 256 + c.toNat := rfl
      simp only [Nat.shiftRight_eq_div_pow] at *
      have hpacked : ((n / 2 ^ 18 % 64 * 64 + n / 2 ^ 12 % 64) * 64 + n / 2 ^ 6 % 64) * 64 +
          n % 64 = n := by omega
      rw [decodeValues?, ih, hpacked]
      simp only [Nat.shiftRight_eq_div_pow, Option.map_some, List.cons_append, List.nil_append]
      rw [ofNat_eq (a := a) (by omega), ofNat_eq (a := b) (by omega), ofNat_eq (a := c) (by omega)]
  | case2 a b n =>
      have ha := a.toNat_lt
      have hb := b.toNat_lt
      have hn : n = a.toNat * 256 + b.toNat := rfl
      simp only [Nat.shiftRight_eq_div_pow, Nat.shiftLeft_eq] at *
      have hpacked : (n / 2 ^ 10 % 64 * 64 + n / 2 ^ 4 % 64) * 64 + n * 2 ^ 2 % 64 = 4 * n := by
        omega
      rw [decodeValues?, hpacked]
      simp only [Nat.shiftRight_eq_div_pow]
      rw [if_pos (by omega), ofNat_eq (a := a) (by omega), ofNat_eq (a := b) (by omega)]
  | case3 a =>
      have ha := a.toNat_lt
      simp only [Nat.shiftRight_eq_div_pow, Nat.shiftLeft_eq]
      have hpacked : a.toNat / 2 ^ 2 % 64 * 64 + a.toNat * 2 ^ 4 % 64 = 16 * a.toNat := by omega
      rw [decodeValues?, hpacked]
      simp only [Nat.shiftRight_eq_div_pow]
      rw [if_pos (by omega), ofNat_eq (a := a) (by omega)]
  | case4 => rfl

/-- **Octets read back from their text.** Whatever the octets, the decoder accepts what the encoder
wrote and returns them, also where the text ends in a group of one or two octets. -/
theorem decode?_encodeOctets (octets : List UInt8) :
    decode? (encodeOctets octets) = some octets := by
  rw [decode?, mapM_encodeOctets, Option.bind_some, decodeValues?_valuesOf]

end Base64

/-- There is no white space in the text of octets. -/
theorem trimWhiteSpace_encodeOctets (octets : List UInt8) :
    trimWhiteSpace (Base64.encodeOctets octets) = Base64.encodeOctets octets := by
  have hdigits : ∀ c ∈ Base64.encodeOctets octets, isWhiteSpace c = false := by
    fun_induction Base64.encodeOctets octets with
    | case1 a b c rest n ih => simpa [Base64.isWhiteSpace_digit] using ih
    | case2 a b n => simp [Base64.isWhiteSpace_digit]
    | case3 a => simp [Base64.isWhiteSpace_digit]
    | case4 => nofun
  have hdrop (chars : List Char) (h : ∀ c ∈ chars, isWhiteSpace c = false) :
      chars.dropWhile isWhiteSpace = chars := by
    cases chars with
    | nil => rfl
    | cons c chars => rw [List.dropWhile_cons, h c List.mem_cons_self, if_neg (by decide)]
  rw [trimWhiteSpace, hdrop _ hdigits, hdrop _ fun c hc => hdigits c (List.mem_reverse.1 hc),
    List.reverse_reverse]

end ShardQuery
