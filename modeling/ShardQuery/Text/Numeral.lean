/-!
# Numerals

Unsigned numbers of sixty-four bits as text. A numeral has at least one digit; what is
beyond sixty-four bits is no number.
-/

namespace ShardQuery.Numeral

/-- The value of a digit in either case. -/
def digitValue? (c : Char) : Option Nat :=
  if '0' ≤ c ∧ c ≤ '9' then some (c.toNat - '0'.toNat)
  else if 'a' ≤ c ∧ c ≤ 'z' then some (c.toNat - 'a'.toNat + 10)
  else if 'A' ≤ c ∧ c ≤ 'Z' then some (c.toNat - 'A'.toNat + 10)
  else none

/-- The value of a digit below a radix. -/
def digitBelow? (radix : Nat) (c : Char) : Option Nat :=
  (digitValue? c).filter (· < radix)

/-- The number of digits in a radix, none without digits or beyond sixty-four bits. -/
def ofDigits? (radix : Nat) (digits : List Char) : Option Nat := do
  let values ← digits.mapM (digitBelow? radix)
  if values.isEmpty then none
  else
    let n := values.foldl (fun n value => n * radix + value) 0
    if n < UInt64.size then some n else none

/-- A text without a plus sign before it. -/
def dropPlus : List Char → List Char
  | '+' :: digits => digits
  | digits => digits

/-- The number of decimal digits that may have a plus sign before them. -/
def decimal? (text : String) : Option Nat :=
  ofDigits? 10 (dropPlus text.toList)

end ShardQuery.Numeral
