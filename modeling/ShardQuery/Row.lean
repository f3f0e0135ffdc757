import ShardQuery.Total
import ShardQuery.Value.Codec
import ShardQuery.Value.Order

/-!
# Rows

A `Row` is a list of named values in which every name occurs once. The order of the fields
is part of the row: it is the order in which they were first inserted, and it is kept by
the JSON form.
-/

namespace ShardQuery

/-- Puts a value under a name: in the place of the value that is there, or at the end. -/
def putField (name : String) (value : Value) : List (String × Value) → List (String × Value)
  | [] => [(name, value)]
  | (n, v) :: fields =>
    if n = name then (n, value) :: fields else (n, v) :: putField name value fields

/-- The names after a field has been put: the same ones, with a new name at the end. -/
theorem map_fst_putField (name : String) (value : Value) (fields : List (String × Value)) :
    (putField name value fields).map (·.1) =
      if name ∈ fields.map (·.1) then fields.map (·.1) else fields.map (·.1) ++ [name] := by
  induction fields with
  | nil => simp [putField]
  | cons field fields ih =>
    obtain ⟨n, v⟩ := field
    by_cases h : n = name
    · simp [putField, h]
    · have h' : ¬name = n := fun h' => h h'.symm
      simp only [putField, h, if_false, List.map_cons, ih, List.mem_cons, h', false_or]
      split <;> rfl

/-- A row of named values, in the order in which their names were first inserted. Every name occurs
once. -/
structure Row where
  /-- The fields in their order. -/
  fields : List (String × Value)
  /-- Every name occurs once. -/
  nodup_names : (fields.map (·.1)).Nodup

namespace Row

/-! ### Fields -/

/-- The row without fields, from which all rows are made. -/
def empty : Row :=
  ⟨[], by simp⟩

/-- Where some row is needed and none is there, it is the one without fields. -/
instance : Inhabited Row :=
  ⟨empty⟩

/-- Puts a value under a name: in the place of the value that is there, or at the end. -/
def insert (row : Row) (name : String) (value : Value) : Row where
  fields := putField name value row.fields
  nodup_names := by
    rw [map_fst_putField]
    split
    · exact row.nodup_names
    · next h =>
      rw [List.nodup_append]
      refine ⟨row.nodup_names, by simp, ?_⟩
      rintro a ha b hb rfl
      exact h (List.mem_singleton.1 hb ▸ ha)

/-- Inserts fields one after the other, each as `insert` does. -/
def insertAll (row : Row) (fields : List (String × Value)) : Row :=
  fields.foldl (fun row field => row.insert field.1 field.2) row

/-- The row of the given fields, each inserted in turn. -/
def ofList (fields : List (String × Value)) : Row :=
  empty.insertAll fields

/-- The value under a name, if the row has a field of this name. -/
def get? (row : Row) (name : String) : Option Value :=
  Value.field? name row.fields

/-- The value under a name, absent if there is none. -/
def getOrNull (row : Row) (name : String) : Value :=
  (row.get? name).getD .null

/-- The number of fields, which is also that of names. -/
def size (row : Row) : Nat :=
  row.fields.length

/-- The names in their order, which is that of first insertion. -/
def names (row : Row) : List String :=
  row.fields.map (·.1)

/-- The values in the order of their names. -/
def values (row : Row) : List Value :=
  row.fields.map (·.2)

/-- The map value with the fields of a row. -/
def toValue (row : Row) : Value :=
  .map (Value.sortFields row.fields)

/-- Whether two rows have the same names in the same order, and under each name values of
the same place in the order of values. -/
def same (a b : Row) : Bool :=
  a.names == b.names && (a.values.zip b.values).all fun (x, y) => x.same y

/-! ### Size -/

/-- What every row is charged, on top of its fields. -/
def overhead : Nat :=
  32

/-- The memory that a row is charged for. -/
def sizeEstimate (row : Row) : Nat :=
  overhead + Value.fieldsSize row.fields

/-- The memory that rows are charged for together. -/
def totalSize (rows : List Row) : Nat :=
  total sizeEstimate rows

/-! ### JSON -/

/-- The document of a row: an object with its fields in their order. -/
def toJson (row : Row) : Json :=
  .object (Value.fieldsToJson row.fields)

/-- The row of a document without flaws. Of fields of one name the first gives the place
and the last the value. -/
def ofJson? : Json → Option Row
  | .object members => (Value.fieldsOfJson? members).map ofList
  | _ => none

/-- The text of a row: a JSON object with the fields in their order. -/
def render (row : Row) : String :=
  row.toJson.render

/-- The row written by a text, if it is the text of an object whose values can be read. -/
def parse? (text : String) : Option Row :=
  (Json.parseSound? text).bind ofJson?

end Row

end ShardQuery
