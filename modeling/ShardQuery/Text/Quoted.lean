import ShardQuery.Text.HiddenTable

/-!
# Quoted Texts

A text as it is shown within a message: between double quotes, and so that every character
of it can be seen. Quotes and backslashes have a backslash before them, and a character
that does not show as itself is written by a letter or by its code point.
-/

namespace ShardQuery.Quoted

/-- Whether a character does not show as itself. -/
def isHidden (c : Char) : Bool :=
  hiddenRanges.any fun range => decide (range.1 ≤ c.toNat ∧ c.toNat ≤ range.2)

/-- The hexadecimal digits of a code point, without leading zeros. -/
def codePoint (c : Char) : List Char :=
  Nat.toDigits 16 c.toNat

/-- A character within quotes, behind a backslash or by its code point if it has to be. -/
def quoteChar (c : Char) : List Char :=
  if c = '"' then ['\\', '"']
  else if c = '\\' then ['\\', '\\']
  else if c = '\n' then ['\\', 'n']
  else if c = '\r' then ['\\', 'r']
  else if c = '\t' then ['\\', 't']
  else if c.toNat = 0 then ['\\', '0']
  else if isHidden c then ['\\', 'u', '\x7b'] ++ codePoint c ++ ['\x7d']
  else [c]

/-- A text within quotes, as messages show it, all of its characters visible. -/
def quote (text : String) : String :=
  String.ofList ('"' :: (text.toList.flatMap quoteChar ++ ['"']))

end ShardQuery.Quoted
