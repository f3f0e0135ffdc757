import ShardQuery.Text.Hex

/-!
# Base64 Text

Octets as text over sixty-four characters that need no escaping in addresses, without
padding. Three octets make four characters; a rest of one or two octets makes two or three
characters, whose unused bits are zero. Reading is strict: every text has at most one
meaning, and every list of octets exactly one text.
-/

namespace ShardQuery

namespace Base64

/-- The characters in the order of their values. -/
def alphabet : List Char :=
  "ABCDEFGHIJKLMNOPQRSTUVWXYZabcdefghijklmnopqrstuvwxyz0123456789-_".toList

/-- The character of a value below sixty-four; only the lowest six bits of a number count. -/
def digit (n : Nat) : Char :=
  alphabet.getD (n % 64) 'A'

/-- The value of a character, none if it is not one of the alphabet. -/
def digitValue? (c : Char) : Option Nat :=
  if 'A' ≤ c ∧ c ≤ 'Z' then some (c.toNat - 'A'.toNat)
  else if 'a' ≤ c ∧ c ≤ 'z' then some (c.toNat - 'a'.toNat + 26)
  else if '0' ≤ c ∧ c ≤ '9' then some (c.toNat - '0'.toNat + 52)
  else if c = '-' then some 62
  else if c = '_' then some 63
  else none

/-- The characters of octets, four for every three and fewer for the rest. -/
def encodeOctets : List UInt8 → List Char
  | a :: b :: c :: rest =>
    let n := (a.toNat * 256 + b.toNat) * 256 + c.toNat
    digit (n >>> 18) :: digit (n >>> 12) :: digit (n >>> 6) :: digit n :: encodeOctets rest
  | [a, b] =>
    let n := a.toNat * 256 + b.toNat
    [digit (n >>> 10), digit (n >>> 4), digit (n <<< 2)]
  | [a] => [digit (a.toNat >>> 2), digit (a.toNat <<< 4)]
  | [] => []

/-- The text of octets, which needs no escaping in addresses. -/
def encode (octets : List UInt8) : String :=
  String.ofList (encodeOctets octets)

/-- The octets of a list of character values. -/
def decodeValues? : List Nat → Option (List UInt8)
  | a :: b :: c :: d :: rest =>
    let n := ((a * 64 + b) * 64 + c) * 64 + d
    (decodeValues? rest).map
      ([UInt8.ofNat (n >>> 16), UInt8.ofNat (n >>> 8), UInt8.ofNat n] ++ ·)
  | [a, b, c] =>
    let n := (a * 64 + b) * 64 + c
    if n % 4 = 0 then some [UInt8.ofNat (n >>> 10), UInt8.ofNat (n >>> 2)] else none
  | [a, b] =>
    let n := a * 64 + b
    if n % 16 = 0 then some [UInt8.ofNat (n >>> 4)] else none
  | [_] => none
  | [] => some []

/-- The octets of a text, none if a character is foreign or an unused bit is set. -/
def decode? (text : List Char) : Option (List UInt8) :=
  (text.mapM digitValue?).bind decodeValues?

end Base64

/-- The characters that count as white space around texts. -/
def isWhiteSpace (c : Char) : Bool :=
  let n := c.toNat
  (0x09 ≤ n && n ≤ 0x0d) || n == 0x20 || n == 0x85 || n == 0xa0 || n == 0x1680 ||
    (0x2000 ≤ n && n ≤ 0x200a) || n == 0x2028 || n == 0x2029 || n == 0x202f || n == 0x205f ||
    n == 0x3000

/-- A text without the white space around it. -/
def trimWhiteSpace (text : List Char) : List Char :=
  ((text.dropWhile isWhiteSpace).reverse.dropWhile isWhiteSpace).reverse

end ShardQuery
