import ShardQuery.Double.Decimal
import ShardQuery.Text.Hex

/-!
# JSON Documents

`Json` is a document as it is read and as it is written. Objects keep the order of their
members and repeated names, because both matter to those who read a document. Numbers are
told apart by the way they are written: an integer literal within the range of signed or
unsigned sixty-four bit words is an `int`, any other number is a `double`.

A literal can be well formed and yet denote nothing: a number beyond all doubles, or a
string with half of a surrogate pair or with octets that are no UTF-8. Such a literal is
`flawed`, and so is an object one of whose names is. Parts of a document that nobody reads
may be flawed, so flaws are kept in the tree; `Json.isSound` tells that a part has none.

Main definitions:

* `Json.render` — the compact text of a document;
* `Json.isSound` — no flaws and no nesting beyond a bound.
-/

namespace ShardQuery

/-- The octets of a text in UTF-8, the form in which plans and tokens are read, written and hashed.
-/
def utf8Octets (s : String) : List UInt8 :=
  s.toByteArray.data.toList

/-- A JSON document, as it stands in a text: the members of an object keep their order and may
repeat a name. -/
inductive Json where
  /-- The literal `null`. -/
  | null
  /-- The literals `true` and `false`. -/
  | bool (b : Bool)
  /-- A number without fraction and exponent. -/
  | int (i : Int)
  /-- Any other number. -/
  | double (d : Double)
  /-- A string. -/
  | string (s : String)
  /-- An array. -/
  | array (items : List Json)
  /-- An object, its members in the order of the text. -/
  | object (members : List (String × Json))
  /-- A literal that denotes nothing. -/
  | flawed
deriving Inhabited

namespace Json

/-! ### Soundness -/

mutual

/-- Whether a document has no flaws and nests arrays and objects at most `depth` deep. -/
def isSound (depth : Nat) : Json → Bool
  | .array items =>
    match depth with
    | 0 => false
    | depth + 1 => areItemsSound depth items
  | .object members =>
    match depth with
    | 0 => false
    | depth + 1 => areMembersSound depth members
  | .flawed => false
  | _ => true

/-- Whether all items of an array are sound. -/
def areItemsSound (depth : Nat) : List Json → Bool
  | [] => true
  | item :: items => isSound depth item && areItemsSound depth items

/-- Whether all members of an object are sound. -/
def areMembersSound (depth : Nat) : List (String × Json) → Bool
  | [] => true
  | (_, value) :: members => isSound depth value && areMembersSound depth members

end

/-- How deep arrays and objects may nest in a document that is read. -/
def depthLimit : Nat :=
  127

/-! ### Text -/

/-- A character inside a string literal. Quotes, backslashes and control characters are
escaped, all else stands for itself. -/
def escapeChar (c : Char) : List Char :=
  if c = '"' then ['\\', '"']
  else if c = '\\' then ['\\', '\\']
  else if c = '\n' then ['\\', 'n']
  else if c = '\r' then ['\\', 'r']
  else if c = '\t' then ['\\', 't']
  else if c = '\x08' then ['\\', 'b']
  else if c = '\x0c' then ['\\', 'f']
  else if c.toNat < 0x20 then
    ['\\', 'u', '0', '0', Hex.digit (c.toNat / 16), Hex.digit (c.toNat % 16)]
  else [c]

/-- The literal of a string: its characters between quotes, escaped where they have to be. -/
def quote (s : String) : String :=
  String.ofList ('"' :: (s.toList.flatMap escapeChar ++ ['"']))

/-- Doubles have the fewest digits that read back, an even one where two are equally near,
and a fraction or an exponent, so that they never read as integers. -/
def doubleStyle : DecimalStyle :=
  ⟨.toEven, some (-5, 15), true⟩

mutual

/-- The compact text of a document. A flaw has no text of its own and is written as
`null`. -/
def render : Json → String
  | .null => "null"
  | .bool true => "true"
  | .bool false => "false"
  | .int i => toString i
  | .double d => d.render doubleStyle
  | .string s => quote s
  | .array items => "[" ++ renderItems items ++ "]"
  | .object members => "\x7b" ++ renderMembers members ++ "\x7d"
  | .flawed => "null"

/-- The items of an array, separated by commas. -/
def renderItems : List Json → String
  | [] => ""
  | [item] => render item
  | item :: items => render item ++ "," ++ renderItems items

/-- The members of an object, separated by commas. -/
def renderMembers : List (String × Json) → String
  | [] => ""
  | [(name, value)] => quote name ++ ":" ++ render value
  | (name, value) :: members =>
    quote name ++ ":" ++ render value ++ "," ++ renderMembers members

end

end Json

end ShardQuery
