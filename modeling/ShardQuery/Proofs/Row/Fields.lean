import ShardQuery.Proofs.Entries
import ShardQuery.Row

/-!
# Fields of Rows

What a row has under a name after fields have been inserted.

## Main results

* `Row.get?_insert`: one field.
* `Row.get?_insertAll`: several fields that agree on a name.
-/

namespace ShardQuery

/-- What stands under a name in fields is the value of the first of them if it has this name, and
otherwise what stands in the others. -/
theorem Value.field?_cons (n name : String) (v : Value) (fields : List (String × Value)) :
    field? name ((n, v) :: fields) = if n = name then some v else field? name fields :=
  valueAt?_cons n name v fields

/-- Putting a value under a name changes what stands under this name, and under no other one. -/
theorem field?_putField (name other : String) (value : Value) (fields : List (String × Value)) :
    Value.field? other (putField name value fields) =
      if name = other then some value else Value.field? other fields := by
  induction fields with
  | nil => rw [putField, Value.field?_cons]
  | cons field fields ih =>
      obtain ⟨n, v⟩ := field
      rw [putField]
      by_cases hn : n = name
      · subst hn
        rw [if_pos rfl, Value.field?_cons, Value.field?_cons]
        by_cases h : n = other
        · rw [if_pos h, if_pos h]
        · rw [if_neg h, if_neg h, if_neg h]
      · rw [if_neg hn, Value.field?_cons, Value.field?_cons, ih]
        by_cases h : n = other
        · have hne : name ≠ other := fun heq => hn (h.trans heq.symm)
          rw [if_pos h, if_neg hne, if_pos h]
        · rw [if_neg h, if_neg h]

namespace Row

/-- The same for rows: inserting a field is seen under its own name only. -/
theorem get?_insert (row : Row) (name other : String) (value : Value) :
    (row.insert name value).get? other = if name = other then some value else row.get? other :=
  field?_putField name other value row.fields

/-- Inserting several fields begins with the first of them. -/
theorem insertAll_cons (row : Row) (field : String × Value) (fields : List (String × Value)) :
    row.insertAll (field :: fields) = (row.insert field.1 field.2).insertAll fields := rfl

/-- Inserting several fields can be divided at any place. -/
theorem insertAll_append (row : Row) (first second : List (String × Value)) :
    row.insertAll (first ++ second) = (row.insertAll first).insertAll second :=
  List.foldl_append

/-- Fields of other names do not matter for what stands under a name. -/
theorem get?_insertAll_of_not_mem {row : Row} {name : String} {fields : List (String × Value)}
    (h : ∀ field ∈ fields, field.1 ≠ name) : (row.insertAll fields).get? name = row.get? name := by
  induction fields generalizing row with
  | nil => rfl
  | cons field fields ih =>
      obtain ⟨hfield, hfields⟩ := List.forall_mem_cons.1 h
      rw [insertAll_cons, ih hfields, get?_insert, if_neg hfield]

/-- A value that all fields of a name agree on. -/
theorem get?_insertAll {row : Row} {name : String} {value : Value}
    {fields : List (String × Value)} (hsome : row.get? name = some value ∨ name ∈ fields.map (·.1))
    (hall : ∀ field ∈ fields, field.1 = name → field.2 = value) :
    (row.insertAll fields).get? name = some value := by
  induction fields generalizing row with
  | nil =>
      rcases hsome with hsome | hmem
      · exact hsome
      · cases hmem
  | cons field fields ih =>
      obtain ⟨hfield, hfields⟩ := List.forall_mem_cons.1 hall
      rw [insertAll_cons]
      refine ih ?_ hfields
      rw [get?_insert]
      by_cases heq : field.1 = name
      · exact .inl (by rw [if_pos heq, hfield heq])
      · rw [if_neg heq]
        refine hsome.imp_right fun hmem => ?_
        rcases List.mem_cons.1 hmem with hname | hmem
        · exact absurd hname.symm heq
        · exact hmem

end Row

end ShardQuery
