import ShardQuery.Text.Hex

/-!
# Identifiers

A `Uuid` is a number of one hundred and twenty-eight bits, written as thirty-two
hexadecimal digits in groups of 8, 4, 4, 4 and 12. It may be read without hyphens, and with
them also within braces or behind `urn:uuid:`.
-/

namespace ShardQuery

/-- An identifier of a hundred and twenty-eight bits, as a number. -/
structure Uuid where
  /-- The bits. -/
  bits : BitVec 128
deriving DecidableEq, Repr

namespace Uuid

/-- The identifier made of random octets, marked as a random one. -/
def ofRandom (octets : List UInt8) : Uuid :=
  let bits := octets.foldl (fun n octet => n * 256 + octet.toNat) 0
  let version : BitVec 128 := 0x4000 <<< 64
  let versionMask : BitVec 128 := 0xf000 <<< 64
  let variant : BitVec 128 := 2 <<< 62
  let variantMask : BitVec 128 := 3 <<< 62
  ⟨(BitVec.ofNat 128 bits &&& ~~~(versionMask ||| variantMask)) ||| version ||| variant⟩

/-- The thirty-two digits, from the highest, leading zeros included. -/
def digits (id : Uuid) : List Char :=
  (List.range 32).map fun i => Hex.digit ((id.bits.toNat >>> (4 * (31 - i))) % 16)

/-- The text of an identifier: its digits in five groups with hyphens between them. -/
def render (id : Uuid) : String :=
  let ds := id.digits
  String.ofList (ds.take 8 ++ '-' :: (ds.drop 8).take 4 ++ '-' :: (ds.drop 12).take 4 ++
    '-' :: (ds.drop 16).take 4 ++ '-' :: ds.drop 20)

/-- The identifier of thirty-two digits, in either case of letters. -/
def ofDigits? (digits : List Char) : Option Uuid :=
  if digits.length = 32 then
    (digits.mapM Hex.digitValue?).map fun values =>
      ⟨BitVec.ofNat 128 (values.foldl (fun n value => n * 16 + value) 0)⟩
  else none

/-- The identifier of digits in groups, with hyphens at the four places between them. -/
def ofGroups? (text : List Char) : Option Uuid :=
  if text.length = 36 ∧ [8, 13, 18, 23].all (fun i => text[i]? == some '-') then
    ofDigits? (text.take 8 ++ (text.drop 9).take 4 ++ (text.drop 14).take 4 ++
      (text.drop 19).take 4 ++ text.drop 24)
  else none

/-- The characters that may stand before the groups. -/
def urnLead : List Char :=
  ['u', 'r', 'n', ':', 'u', 'u', 'i', 'd', ':']

/-- The identifier written by a text, in any of the forms that are in use. -/
def parse? (text : String) : Option Uuid :=
  let chars := text.toList
  if chars.length = 32 then ofDigits? chars
  else if chars.length = 36 then ofGroups? chars
  else if chars.length = 38 then
    if chars.head? = some '\x7b' ∧ chars.getLast? = some '\x7d' then
      ofGroups? (chars.drop 1).dropLast
    else none
  else if chars.length = 45 then
    if chars.take 9 = urnLead then ofGroups? (chars.drop 9) else none
  else none

end Uuid

end ShardQuery
