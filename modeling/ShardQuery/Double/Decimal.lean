import ShardQuery.Double.Basic

/-!
# Shortest Decimal Text

A finite double is written with the fewest significant digits that round back to it
(`Double.shortest`). The digits are found on decimal grids: the multiples of `10 ^ k`, from
coarse to fine. The first grid with a point among the reals that round to the number
decides the digits; of two such points the nearer one is taken.

What remains open is a format's own choice and collected in a `DecimalStyle`: which way an
exact tie between two points goes, which exponents are written out positionally, and
whether a whole number keeps a fraction `.0`. `Double.render` lays the digits out.
-/

namespace ShardQuery

/-- Which of two equally near decimal candidates is taken. -/
inductive Tie where
  /-- The candidate whose last digit is even. -/
  | toEven
  /-- The greater candidate. -/
  | up
deriving DecidableEq, Repr

/-- A positive decimal number `digits * 10 ^ exponent`. -/
structure Decimal where
  /-- The significant digits, as one number. -/
  digits : Nat
  /-- The power of ten that the last digit counts. -/
  exponent : Int
deriving DecidableEq, Repr

namespace Double

/-! ### The interval that rounds to a number -/

/-- Whether `point * 10 ^ k`, the ratio `point * den / num` of the absolute value, rounds
to the finite nonzero double `d`; here `num / den` is the unit `2 ^ (scaleSteps - 1074)`
over `10 ^ k`. The reals that round to `d` reach half a unit up, and down half a unit or, at
the foot of a binade, a quarter; the ends belong to the interval if the significand is
even. -/
def roundsTo (d : Double) (num den point : Nat) : Bool :=
  let m := d.significand
  let below := if d.fraction = 0 ∧ 1 < d.exponentField then 1 else 2
  let value := 4 * point * den
  let low := (4 * m - below) * num
  let high := (4 * m + 2) * num
  if m % 2 = 0 then decide (low ≤ value ∧ value ≤ high)
  else decide (low < value ∧ value < high)

/-- The point of the grid of multiples of `10 ^ k` by which `d` is written on that grid:
the nearer of the two neighbours of `d`, provided that it rounds to `d`. -/
def gridPoint? (tie : Tie) (d : Double) (k : Int) : Option Nat :=
  let num := powerOfTen (-k).toNat <<< d.scaleSteps
  let den := powerOfTen k.toNat <<< 1074
  let scaled := d.significand * num
  let low := scaled / den
  let rest := scaled % den
  let upFirst : Bool :=
    decide (den < 2 * rest) ||
      (decide (2 * rest = den) && (match tie with | .toEven => decide (low % 2 = 1) | .up => true))
  let first := if upFirst then low + 1 else low
  let second := if upFirst then low else low + 1
  if roundsTo d num den first then some first
  else if roundsTo d num den second then some second
  else none

/-- The first point found on the grids of `10 ^ k`, `10 ^ (k - 1)` and so on, `fuel` grids at
most. -/
def searchGrids (tie : Tie) (d : Double) : Nat → Int → Option Decimal
  | 0, _ => none
  | fuel + 1, k =>
    match gridPoint? tie d k with
    | some point => some ⟨point, k⟩
    | none => searchGrids tie d fuel (k - 1)

/-- An exponent `k` for which `10 ^ k` is greater than the absolute value of `d`, by a
factor of a thousand at most. -/
def coarsestGrid (d : Double) : Int :=
  ((d.significand.log2 + 1 + d.scaleSteps : Nat) - 1074 : Int) * 30103 / 100000 + 1

/-- The shortest decimal number that rounds to the absolute value of a finite nonzero
double. Seventeen significant digits always suffice, so the search does not run out. -/
def shortest (tie : Tie) (d : Double) : Decimal :=
  (searchGrids tie d 24 d.coarsestGrid).getD ⟨0, 0⟩

end Double

/-! ### Layout -/

/-- How a format writes decimal numbers; the digits are the same ones up to ties, the layout
differs. -/
structure DecimalStyle where
  /-- Which of two equally near digit strings is written. -/
  tie : Tie
  /-- The exponents of the first digit that are written positionally; none stands for
  all. -/
  positional : Option (Int × Int)
  /-- Whether a positional number without a fraction is written with `.0`. -/
  keepsFraction : Bool
deriving Repr

/-- The digits of a positive number without trailing zeros, and how many zeros were
dropped; at most `fuel` of them are. -/
def trimZeros : Nat → Nat → Nat × Nat
  | 0, n => (n, 0)
  | fuel + 1, n =>
    if n % 10 = 0 then
      let (m, k) := trimZeros fuel (n / 10)
      (m, k + 1)
    else
      (n, 0)

/-- A run of zeros, by which positional numbers are filled up to or from their point. -/
def zeros (n : Nat) : List Char :=
  List.replicate n '0'

/-- Writes `digits * 10 ^ exponent` without an exponent. -/
def Decimal.positionalText (keepsFraction : Bool) (digits : List Char) (exponent : Int) :
    List Char :=
  if 0 ≤ exponent then
    digits ++ zeros exponent.toNat ++ (if keepsFraction then ['.', '0'] else [])
  else
    let places := (-exponent).toNat
    if places < digits.length then
      digits.take (digits.length - places) ++ '.' :: digits.drop (digits.length - places)
    else
      '0' :: '.' :: (zeros (places - digits.length) ++ digits)

/-- Writes a number by its first digit, the others after a point, and the exponent of the
first digit with its sign. -/
def Decimal.exponentText (digits : List Char) (leading : Int) : List Char :=
  let mantissa :=
    match digits with
    | [] => []
    | [d] => [d]
    | d :: rest => d :: '.' :: rest
  let sign := if leading < 0 then '-' else '+'
  mantissa ++ 'e' :: sign :: (Nat.repr leading.natAbs).toList

/-- Lays out a positive decimal number, positionally if its first digit is near enough to the point
for the style. -/
def Decimal.render (style : DecimalStyle) (x : Decimal) : List Char :=
  let (digits, dropped) := trimZeros (x.digits.log2 + 1) x.digits
  let text := (Nat.repr digits).toList
  let exponent := x.exponent + dropped
  let leading := exponent + text.length - 1
  let positional :=
    match style.positional with
    | none => true
    | some (low, high) => decide (low ≤ leading ∧ leading ≤ high)
  if positional then Decimal.positionalText style.keepsFraction text exponent
  else Decimal.exponentText text leading

/-- Writes a double; the names of the infinities and of non-numbers are `inf`, `-inf` and
`NaN`. -/
def Double.render (style : DecimalStyle) (d : Double) : String :=
  if d.isNaN then "NaN"
  else
    let body :=
      if d.isInfinite then ['i', 'n', 'f']
      else if d.isZero then Decimal.positionalText style.keepsFraction ['0'] 0
      else Decimal.render style (d.shortest style.tie)
    String.ofList (if d.isNegative then '-' :: body else body)

end ShardQuery
