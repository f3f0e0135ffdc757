import ShardQuery.Json.Basic

/-!
# Indented JSON

The text of a document for people: every item and every member on a line of its own,
indented by two spaces for each array or object around it. Empty arrays and objects take no
lines.
-/

namespace ShardQuery.Json

/-- The start of a line within a number of arrays and objects. -/
def lineStart (depth : Nat) : String :=
  String.ofList ('\n' :: List.replicate (2 * depth) ' ')

mutual

/-- The indented text of a document within a number of arrays and objects. -/
def prettyAt (depth : Nat) : Json → String
  | .array [] => "[]"
  | .array (item :: items) =>
    "[" ++ prettyItems (depth + 1) (item :: items) ++ lineStart depth ++ "]"
  | .object [] => "\x7b\x7d"
  | .object (member :: members) =>
    "\x7b" ++ prettyMembers (depth + 1) (member :: members) ++ lineStart depth ++ "\x7d"
  | scalar => render scalar

/-- The items of an array, each on its line. -/
def prettyItems (depth : Nat) : List Json → String
  | [] => ""
  | [item] => lineStart depth ++ prettyAt depth item
  | item :: items => lineStart depth ++ prettyAt depth item ++ "," ++ prettyItems depth items

/-- The members of an object, each on its line. -/
def prettyMembers (depth : Nat) : List (String × Json) → String
  | [] => ""
  | [(name, value)] => lineStart depth ++ quote name ++ ": " ++ prettyAt depth value
  | (name, value) :: members =>
    lineStart depth ++ quote name ++ ": " ++ prettyAt depth value ++ "," ++
      prettyMembers depth members

end

/-- The indented text of a document that stands by itself, without a line end behind it. -/
def pretty (document : Json) : String :=
  prettyAt 0 document

end ShardQuery.Json
