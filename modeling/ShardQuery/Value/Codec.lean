import ShardQuery.Json.Reader
import ShardQuery.Value.Basic

/-!
# Values as JSON

Values are written as the JSON documents of the same shape. JSON has no numbers that are
not finite, so these are written as an object with the single field `$double`, and an
object of that form reads as the number.
-/

namespace ShardQuery.Value

/-- The field that stands for a double that is not finite. -/
def nonFiniteField : String :=
  "$double"

/-- The name of a double that is not finite. -/
def nonFiniteName (d : Double) : String :=
  if d.isNaN then "NaN" else if d.isNegative then "-inf" else "inf"

/-- The double that is not finite and has a given name, if there is one. -/
def ofNonFiniteName? (name : String) : Option Double :=
  if name = "NaN" then some Double.nan
  else if name = "inf" then some (Double.infinity false)
  else if name = "-inf" then some (Double.infinity true)
  else none

mutual

/-- The document of a value, of the same shape but for doubles that are not finite. -/
def toJson : Value → Json
  | .null => .null
  | .bool b => .bool b
  | .int i => .int i.toInt
  | .double d =>
    if d.isFinite then .double d
    else .object [(nonFiniteField, .string (nonFiniteName d))]
  | .string s => .string s
  | .array items => .array (itemsToJson items)
  | .map fields => .object (fieldsToJson fields)

/-- The documents of the items of an array. -/
def itemsToJson : List Value → List Json
  | [] => []
  | item :: items => toJson item :: itemsToJson items

/-- The documents of named values, under the same names and in the same order. -/
def fieldsToJson : List (String × Value) → List (String × Json)
  | [] => []
  | (name, value) :: fields => (name, toJson value) :: fieldsToJson fields

end

/-- The value of an object with the given fields, in the order of their names. -/
def ofFields (fields : List (String × Value)) : Value :=
  match fields with
  | [(name, .string s)] =>
    if name = nonFiniteField then
      match ofNonFiniteName? s with
      | some d => .double d
      | none => .map fields
    else .map fields
  | fields => .map fields

/-- The value of an integer literal: an integer if it is one of sixty-four bits, otherwise
the nearest double. -/
def ofInteger (i : Int) : Value :=
  match int64? i with
  | some exact => .int exact
  | none => .double (Double.ofInt i)

mutual

/-- The value of a document, none if it has a flaw at any depth. -/
def ofJson? : Json → Option Value
  | .null => some .null
  | .bool b => some (.bool b)
  | .int i => some (ofInteger i)
  | .double d => some (.double d)
  | .string s => some (.string s)
  | .array items => (itemsOfJson? items).map .array
  | .object members => (fieldsOfJson? members).map fun fields => ofFields (sortFields fields)
  | .flawed => none

/-- The values of the items of an array. -/
def itemsOfJson? : List Json → Option (List Value)
  | [] => some []
  | item :: items => do
    let value ← ofJson? item
    let values ← itemsOfJson? items
    return value :: values

/-- The named values of the members of an object, in their order. -/
def fieldsOfJson? : List (String × Json) → Option (List (String × Value))
  | [] => some []
  | (name, item) :: members => do
    let value ← ofJson? item
    let fields ← fieldsOfJson? members
    return (name, value) :: fields

end

/-- The compact text of a value, the canonical one. -/
def render (value : Value) : String :=
  value.toJson.render

/-- The value written by a text, none if the text is no document or has a flaw anywhere. -/
def parse? (text : String) : Option Value :=
  (Json.parseSound? text).bind ofJson?

end ShardQuery.Value
