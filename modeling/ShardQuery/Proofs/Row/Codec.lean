import ShardQuery.Proofs.Value.Codec
import ShardQuery.Row

/-!
# Rows Read Back

The names of a row occur once, so inserting its fields in their order gives the row again. A
row is never taken for the name of a number.

## Main results

* `Row.ofList_fields`: a row is made of its fields.
* `Row.ofJson?_toJson`: what is read from the document of a row.
* `Row.reread_of_isPortable`: rows of portable values read back.
-/

namespace ShardQuery

/-- A new name is put at the end, with its value; nothing before it is touched. -/
theorem putField_of_not_mem {name : String} {value : Value} {fields : List (String × Value)}
    (h : name ∉ fields.map (·.1)) : putField name value fields = fields ++ [(name, value)] := by
  induction fields with
  | nil => rfl
  | cons field fields ih =>
      rw [List.map_cons, List.mem_cons, not_or] at h
      rw [putField, if_neg fun heq => h.1 heq.symm, ih h.2]
      rfl

namespace Row

/-- Rows are their fields: the property that no name occurs twice is no further data. -/
theorem ext {a b : Row} (h : a.fields = b.fields) : a = b := by
  cases a
  cases b
  cases h
  rfl

/-- Fields of new names are put at the end. -/
theorem insertAll_fields {row : Row} {fields : List (String × Value)}
    (h : ((row.fields ++ fields).map (·.1)).Nodup) :
    (row.insertAll fields).fields = row.fields ++ fields := by
  induction fields generalizing row with
  | nil => exact (List.append_nil _).symm
  | cons field fields ih =>
      have hnew : field.1 ∉ row.fields.map (·.1) := by
        rw [List.map_append, List.nodup_append] at h
        exact fun hmem => h.2.2 _ hmem _ List.mem_cons_self rfl
      have hfields : (row.insert field.1 field.2).fields = row.fields ++ [field] :=
        putField_of_not_mem hnew
      change ((row.insert field.1 field.2).insertAll fields).fields = _
      rw [ih (by rwa [hfields, List.append_assoc, List.singleton_append]), hfields,
        List.append_assoc, List.singleton_append]

/-- A row is made of its fields, as inserting them one by one gives the row back. -/
theorem ofList_fields (row : Row) : ofList row.fields = row :=
  ext (insertAll_fields row.nodup_names)

/-- What is read from the document of a row. -/
def reread (row : Row) : Row where
  fields := Value.rereadFields row.fields
  nodup_names := by
    rw [Value.map_fst_rereadFields]
    exact row.nodup_names

/-- **What is read from the document of a row.** -/
theorem ofJson?_toJson (row : Row) : ofJson? row.toJson = some row.reread := by
  rw [toJson, ofJson?, Value.fieldsOfJson?_fieldsToJson, Option.map_some]
  exact congrArg some (ofList_fields row.reread)

/-- Whether all values of a row are portable, that is, come back from their documents as they are.
-/
def IsPortable (row : Row) : Prop :=
  Value.AreFieldsPortable row.fields

/-- Rows of portable values read back from their documents. -/
theorem reread_of_isPortable {row : Row} (h : row.IsPortable) : row.reread = row :=
  ext (Value.rereadFields_of_portable row.fields h)

/-- What is read from the document of a row is not larger. -/
theorem sizeEstimate_reread_le (row : Row) : row.reread.sizeEstimate ≤ row.sizeEstimate :=
  Nat.add_le_add_left (Value.fieldsSize_reread_le row.fields) _

/-- The document of a row is writable, whatever its values are. -/
theorem isWritable_toJson (row : Row) : Json.IsWritable row.toJson :=
  Value.areMembersWritable_fieldsToJson row.fields

end Row

end ShardQuery
