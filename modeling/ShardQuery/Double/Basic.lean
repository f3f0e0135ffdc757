import ShardQuery.Word

/-!
# Double Precision Numbers

A `Double` is the sixty-four bits of a binary interchange number: a sign, an eleven bit
exponent field and a fifty-two bit fraction. Everything else is computed from the bits in
exact integer arithmetic:

* every finite double is a whole number of *units* of `2 ^ -1074` (`Double.units`), so
  sums, products and quotients are exact integers or ratios of integers before they are
  rounded;
* `Double.ofRatio` rounds a ratio of natural numbers once, to the nearest double, and of
  two equally near ones to the even one;
* `Double.totalCompare` orders all doubles, zeros of both signs and non-numbers included,
  while `Double.compareReal` orders them as the real numbers they stand for.
-/

namespace ShardQuery

/-- A double precision number, given by its bits. Two doubles are equal as terms exactly
when their bits are; numeric comparison is `Double.compareReal`. -/
structure Double where
  /-- The sign bit, the exponent field and the fraction, from the top. -/
  bits : UInt64
deriving DecidableEq, Repr

namespace Double

/-! ### Fields -/

/-- The value of the sign bit, which is also the number of magnitudes below it. -/
def signBit : Nat :=
  0x8000000000000000

/-- The value of the lowest bit of the exponent field, and so the number of fractions. -/
def exponentBit : Nat :=
  0x10000000000000

/-- The sign bit. It is also set in `-0.0` and may be set in a non-number. -/
def isNegative (d : Double) : Bool :=
  decide (signBit ≤ d.bits.toNat)

/-- The bits below the sign. On numbers of one sign they grow with the absolute value. -/
def magnitude (d : Double) : Nat :=
  d.bits.toNat % signBit

/-- The exponent field. It is zero in both zeros and in subnormal numbers. -/
def exponentField (d : Double) : Nat :=
  d.magnitude / exponentBit

/-- The fraction field, the bits behind the point of the significand. -/
def fraction (d : Double) : Nat :=
  d.bits.toNat % exponentBit

/-- The double with a given sign and given bits below the sign. -/
def ofMagnitude (negative : Bool) (magnitude : Nat) : Double :=
  ⟨UInt64.ofNat (if negative then signBit + magnitude else magnitude)⟩

/-- The bits below the sign of an infinity, the first beyond all finite numbers. -/
def infiniteMagnitude : Nat :=
  2047 * exponentBit

/-- A number that is neither infinite nor a non-number. -/
def isFinite (d : Double) : Bool :=
  decide (d.magnitude < infiniteMagnitude)

/-- A non-number: all bits of the exponent field are set, and some bit of the fraction is. -/
def isNaN (d : Double) : Bool :=
  decide (infiniteMagnitude < d.magnitude)

/-- Either infinity: all bits of the exponent field are set, and no bit of the fraction is. -/
def isInfinite (d : Double) : Bool :=
  decide (d.magnitude = infiniteMagnitude)

/-- Either zero, the one double of its sign without any other bit set. -/
def isZero (d : Double) : Bool :=
  decide (d.magnitude = 0)

/-- The zero of a given sign; the two are equal as numbers but not as doubles. -/
def zero (negative : Bool) : Double :=
  ofMagnitude negative 0

/-- The infinity of a given sign, beyond all finite numbers of that sign. -/
def infinity (negative : Bool) : Double :=
  ofMagnitude negative infiniteMagnitude

/-- The quiet non-number with a clear sign, the one that arithmetic produces. -/
def nan : Double :=
  ofMagnitude false (infiniteMagnitude + exponentBit / 2)

/-! ### Exact values -/

/-- The significand `m` of a finite number `± m * 2 ^ scale`. -/
def significand (d : Double) : Nat :=
  if d.exponentField = 0 then d.fraction else exponentBit + d.fraction

/-- The power of two that scales the significand, counted from the smallest one: a finite
number is `± significand * 2 ^ (scaleSteps - 1074)`. -/
def scaleSteps (d : Double) : Nat :=
  d.exponentField - 1

/-- How many units of `2 ^ -1074` there are in one. -/
def unitsPerOne : Nat :=
  1 <<< 1074

/-- The absolute value of a finite number in units of `2 ^ -1074`. -/
def absUnits (d : Double) : Nat :=
  d.significand <<< d.scaleSteps

/-- The value of a finite number in units of `2 ^ -1074`. -/
def units (d : Double) : Int :=
  if d.isNegative then -(d.absUnits : Int) else d.absUnits

/-- The whole number that a finite double without a fractional part stands for. -/
def toInt? (d : Double) : Option Int :=
  if d.isFinite && decide (d.absUnits % unitsPerOne = 0) then
    some (d.units / unitsPerOne)
  else
    none

/-- The signed sixty-four bit integer that a double stands for exactly, if there is
one. Both zeros stand for `0`. -/
def toInt64? (d : Double) : Option Int64 :=
  d.toInt?.bind int64?

/-! ### Rounding -/

/-- The greatest `k` with `2 ^ k ≤ num / den`, for positive `num` and `den`. -/
def floorLog2Ratio (num den : Nat) : Int :=
  let k : Int := (num.log2 : Int) - den.log2
  if den <<< k.toNat ≤ num <<< (-k).toNat then k else k - 1

/-- The quotient of two natural numbers, rounded to the nearest natural number and from
the middle between two to the even one. -/
def roundHalfEven (num den : Nat) : Nat :=
  let q := num / den
  let r := num % den
  if den < 2 * r ∨ (2 * r = den ∧ q % 2 = 1) then q + 1 else q

/-- The double nearest to `± num / den`, of two equally near ones the one with the even
significand. Ratios beyond the greatest finite number become infinite, and a ratio of
zero keeps its sign. -/
def ofRatio (negative : Bool) (num den : Nat) : Double :=
  if num = 0 ∨ den = 0 then
    zero negative
  else
    let steps := (floorLog2Ratio num den - 52 + 1074).toNat
    let rounded := roundHalfEven (num * unitsPerOne) (den <<< steps)
    ofMagnitude negative (min (steps * exponentBit + rounded) infiniteMagnitude)

/-- The double nearest to an integer, and that integer itself as long as fifty-three bits hold it.
-/
def ofInt (i : Int) : Double :=
  ofRatio (decide (i < 0)) i.natAbs 1

/-- A power of ten, by which decimal exponents become ratios of natural numbers. -/
def powerOfTen (exponent : Nat) : Nat :=
  Nat.pow 10 exponent

/-- The double nearest to `± digits * 10 ^ exponent`. The first two cases settle, without
writing the power out, exponents far beyond the range of finite numbers. -/
def ofDecimal (negative : Bool) (digits : Nat) (exponent : Int) : Double :=
  if digits = 0 ∨ exponent + digits.log2 + 1 < -400 then
    zero negative
  else if 400 < exponent then
    infinity negative
  else
    ofRatio negative (digits * powerOfTen exponent.toNat) (powerOfTen (-exponent).toNat)

/-! ### Order -/

/-- The position of a double among all doubles as real numbers; both zeros have one
position. It is meaningless for non-numbers. -/
def position (d : Double) : Int :=
  if d.isNegative then -(d.magnitude : Int) else d.magnitude

/-- The order of the real numbers that two doubles stand for, neither a non-number. -/
def compareReal (a b : Double) : Ordering :=
  compare a.position b.position

/-- The position of a double in the order of all bit patterns: by sign, and within one
sign by magnitude. -/
def totalPosition (d : Double) : Int :=
  if d.isNegative then -(d.magnitude : Int) - 1 else d.magnitude

/-- The total order of doubles: `-0.0` comes before `0.0`, and non-numbers lie beyond the
infinity of their sign. -/
def totalCompare (a b : Double) : Ordering :=
  compare a.totalPosition b.totalPosition

/-! ### Arithmetic -/

/-- The opposite number; of any bit pattern, the one with the other sign. -/
def neg (d : Double) : Double :=
  ofMagnitude (!d.isNegative) d.magnitude

/-- The absolute value; of any bit pattern, the one with a clear sign. -/
def abs (d : Double) : Double :=
  ofMagnitude false d.magnitude

/-- The rounded sum. A zero sum is negative only if both numbers are. -/
def add (a b : Double) : Double :=
  if a.isNaN || b.isNaN then nan
  else if a.isInfinite then
    if b.isInfinite && a.isNegative != b.isNegative then nan else a
  else if b.isInfinite then b
  else
    let sum := a.units + b.units
    if sum = 0 then zero (a.isNegative && b.isNegative)
    else ofRatio (decide (sum < 0)) sum.natAbs unitsPerOne

/-- The rounded difference, which is the sum with the opposite number. -/
def sub (a b : Double) : Double :=
  a.add b.neg

/-- The rounded product, negative if exactly one factor is. Zero times an infinity is a non-number.
-/
def mul (a b : Double) : Double :=
  let negative := a.isNegative != b.isNegative
  if a.isNaN || b.isNaN then nan
  else if a.isInfinite || b.isInfinite then
    if a.isZero || b.isZero then nan else infinity negative
  else ofRatio negative (a.absUnits * b.absUnits) (unitsPerOne * unitsPerOne)

/-- The rounded quotient. A zero divisor gives an infinity, or a non-number for zero by
zero. -/
def div (a b : Double) : Double :=
  let negative := a.isNegative != b.isNegative
  if a.isNaN || b.isNaN then nan
  else if a.isInfinite then
    if b.isInfinite then nan else infinity negative
  else if b.isInfinite then zero negative
  else if b.isZero then
    if a.isZero then nan else infinity negative
  else ofRatio negative a.absUnits b.absUnits

end Double

end ShardQuery
