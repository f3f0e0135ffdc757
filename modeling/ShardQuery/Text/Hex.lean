/-!
# Hexadecimal Text

Octets written as two lower case hexadecimal digits each.
-/

namespace ShardQuery.Hex

/-- The digit of a number below sixteen, in lower case. -/
def digit (n : Nat) : Char :=
  "0123456789abcdef".toList.getD n '0'

/-- The two digits of an octet, the higher one first. -/
def octetDigits (b : UInt8) : List Char :=
  [digit (b.toNat / 16), digit (b.toNat % 16)]

/-- The digits of octets, two for each and nothing between them. -/
def encode (octets : List UInt8) : String :=
  String.ofList (octets.flatMap octetDigits)

/-- The value of a digit in either case. -/
def digitValue? (c : Char) : Option Nat :=
  if '0' ≤ c ∧ c ≤ '9' then some (c.toNat - '0'.toNat)
  else if 'a' ≤ c ∧ c ≤ 'f' then some (c.toNat - 'a'.toNat + 10)
  else if 'A' ≤ c ∧ c ≤ 'F' then some (c.toNat - 'A'.toNat + 10)
  else none

/-- The octets of a list of digits, none if it is odd in length or has other characters. -/
def decodeDigits? : List Char → Option (List UInt8)
  | [] => some []
  | high :: low :: rest => do
    let h ← digitValue? high
    let l ← digitValue? low
    return UInt8.ofNat (16 * h + l) :: (← decodeDigits? rest)
  | [_] => none

/-- The octets that a text writes, none unless all of it consists of pairs of digits. -/
def decode? (text : String) : Option (List UInt8) :=
  decodeDigits? text.toList

end ShardQuery.Hex
