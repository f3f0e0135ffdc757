import ShardQuery.Json.Fields
import ShardQuery.Text.Numeral

/-!
# YAML Documents

The documents of configuration files, and how records are read from them. A scalar is a
text; what it stands for depends on who reads it, and on whether it is written plainly or in
quotes. A record skips keys that it does not know and must not repeat those it knows. An
empty value is a record without keys.
-/

namespace ShardQuery

/-- A YAML document, in which scalars are still texts and keys are in the order of the text. -/
inductive Yaml where
  /-- A text, written plainly or in quotes. -/
  | scalar (plain : Bool) (text : String)
  /-- A sequence. -/
  | sequence (items : List Yaml)
  /-- A mapping, its entries in the order of the text. -/
  | mapping (entries : List (String × Yaml))
deriving Inhabited

namespace Yaml

/-- The value that is not written at all. -/
def empty : Yaml :=
  .scalar true ""

/-- The entries of a record; a value that is not written at all has none. -/
def toEntries? : Yaml → Option (List (String × Yaml))
  | .mapping entries => some entries
  | .scalar true "" => some []
  | _ => none

/-- The text of a scalar, whatever it stands for and however it is written. -/
def toText? : Yaml → Option String
  | .scalar _ text => some text
  | _ => none

/-- Whether a document is a plainly written null. -/
def isNull : Yaml → Bool
  | .scalar true text => ["", "~", "null", "Null", "NULL"].contains text
  | _ => false

/-- The number of an unsigned decimal without leading zeros. -/
def decimalWord? (digits : List Char) : Option Nat :=
  if digits.head? = some '0' ∧ digits.length ≠ 1 then none else Numeral.ofDigits? 10 digits

/-- The number that a plain text stands for: hexadecimal, octal or binary behind `0x`, `0o`
or `0b`, otherwise decimal. -/
def wordOfPlain? (text : List Char) : Option Nat :=
  match Numeral.dropPlus text with
  | '0' :: 'x' :: digits => Numeral.ofDigits? 16 digits
  | '0' :: 'o' :: digits => Numeral.ofDigits? 8 digits
  | '0' :: 'b' :: digits => Numeral.ofDigits? 2 digits
  | digits => decimalWord? digits

/-- An unsigned number of sixty-four bits, which must be written plainly. -/
def toWord? : Yaml → Option Nat
  | .scalar true text => wordOfPlain? text.toList
  | _ => none

/-- An unsigned number of sixty-four bits, or a null. -/
def toOptionalWord? (document : Yaml) : Option (Option Nat) :=
  if document.isNull then some none else document.toWord?.map some

/-- Reads an entry of a record that has a default. -/
def withDefault? {α : Type} (entries : List (String × Yaml)) (key : String) (default : α)
    (read : Yaml → Option α) : Option α :=
  match Json.uniqueMember? entries key with
  | some (some value) => read value
  | some none => some default
  | none => none

end Yaml

end ShardQuery
