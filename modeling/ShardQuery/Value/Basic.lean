import ShardQuery.Double.Basic

/-!
# Field Values

A `Value` is what a row holds under a name, what a plan holds as a constant and what a bind
variable is bound to. Maps keep their fields in ascending order of their names, and every
name once: `Value.insertField` is the way to add one.

Main definitions:

* `Value.sizeEstimate` — the memory a value is charged for;
* `Value.normalized` — the value with whole doubles turned into integers.
-/

namespace ShardQuery

/-- A field value, of one of the types that documents of rows can hold. -/
inductive Value where
  /-- The absent value. -/
  | null
  /-- A truth value. -/
  | bool (b : Bool)
  /-- A signed sixty-four bit integer. -/
  | int (i : Int64)
  /-- A double precision number. -/
  | double (d : Double)
  /-- A text. -/
  | string (s : String)
  /-- A list of values. -/
  | array (items : List Value)
  /-- Named values, in ascending order of their names. -/
  | map (fields : List (String × Value))
deriving Inhabited

namespace Value

/-! ### Classification -/

/-- The name of a value's type, by which error messages tell values apart. -/
def typeName : Value → String
  | .null => "null"
  | .bool _ => "boolean"
  | .int _ => "integer"
  | .double _ => "double"
  | .string _ => "string"
  | .array _ => "array"
  | .map _ => "map"

/-- Whether a value is the absent one, which is also what a missing field has. -/
def isNull : Value → Bool
  | .null => true
  | _ => false

/-- Whether a value is an integer or a double. -/
def isNumeric : Value → Bool
  | .int _ | .double _ => true
  | _ => false

/-- The integer that a value is, if it is one. -/
def asInt? : Value → Option Int64
  | .int i => some i
  | _ => none

/-- The double that a number is, or is nearest to. -/
def asDouble? : Value → Option Double
  | .int i => some (Double.ofInt i.toInt)
  | .double d => some d
  | _ => none

/-- The text that a value is, if it is one. -/
def asString? : Value → Option String
  | .string s => some s
  | _ => none

/-! ### Maps -/

/-- Puts a field into a list of fields in ascending order of their names. A field of the
same name is replaced. -/
def insertField (name : String) (value : Value) : List (String × Value) → List (String × Value)
  | [] => [(name, value)]
  | (n, v) :: fields =>
    if name < n then (name, value) :: (n, v) :: fields
    else if n = name then (name, value) :: fields
    else (n, v) :: insertField name value fields

/-- The fields in ascending order of their names; of fields of one name the last counts. -/
def sortFields (fields : List (String × Value)) : List (String × Value) :=
  fields.foldl (fun sorted field => insertField field.1 field.2 sorted) []

/-- The value of a field, none if no field has the name. -/
def field? (name : String) (fields : List (String × Value)) : Option Value :=
  (fields.find? (fun field => field.1 == name)).map (·.2)

/-! ### Size -/

/-- What every value is charged, on top of its contents. -/
def overhead : Nat :=
  16

mutual

/-- The memory that a value is charged for: its overhead, and the octets of its text or the
sizes of its parts. -/
def sizeEstimate : Value → Nat
  | .string s => overhead + s.utf8ByteSize
  | .array items => overhead + itemsSize items
  | .map fields => overhead + fieldsSize fields
  | _ => overhead

/-- The sizes of the items of an array. -/
def itemsSize : List Value → Nat
  | [] => 0
  | item :: items => sizeEstimate item + itemsSize items

/-- The sizes of named values, the octets of their names included. -/
def fieldsSize : List (String × Value) → Nat
  | [] => 0
  | (name, value) :: fields => name.utf8ByteSize + sizeEstimate value + fieldsSize fields

end

/-! ### Normal form -/

mutual

/-- The value with every double that is a sixty-four bit integer turned into that integer,
at any depth. -/
def normalized : Value → Value
  | .double d =>
    match d.toInt64? with
    | some i => .int i
    | none => .double d
  | .array items => .array (normalizedItems items)
  | .map fields => .map (normalizedFields fields)
  | value => value

/-- The normal forms of the items of an array. -/
def normalizedItems : List Value → List Value
  | [] => []
  | item :: items => normalized item :: normalizedItems items

/-- The normal forms of the fields of a map. -/
def normalizedFields : List (String × Value) → List (String × Value)
  | [] => []
  | (name, value) :: fields => (name, normalized value) :: normalizedFields fields

end

end Value

end ShardQuery
