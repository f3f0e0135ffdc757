import ShardQuery.Proofs.Row.Codec
import ShardQuery.Proofs.Row.Fields
import ShardQuery.Proofs.Value.Reading

/-!
# How Rows Are Made

A row is made by inserting fields, by collecting fields into a new one and by reading one from a
text. Whatever is mixed, the row is determined by the fields that have been inserted since it was
new: their names stand in the order of their first insertion, each with the value that was inserted
last. A text inserts its fields one after the other, repeated names included.

Main definitions:

* `Row.Step`, `Row.make` — a step in the making of a row, and the row after steps;
* `Row.insertions` — the fields that have been inserted into it.

## Main results

* `Row.make_eq`: the row after steps is made of the inserted fields.
* `Row.names_ofList`, `Row.get?_ofList`: the names and the values of a row of fields.
* `Row.parse?_render`: rows of portable values read back from their texts.
* `Row.keeps_insertions`: all of this for a row after any steps.
-/

namespace ShardQuery.Row

/-! ### Rows of fields -/

/-- A row made of fields and one more is the row made of the former with the latter inserted. -/
theorem ofList_concat (fields : List (String × Value)) (field : String × Value) :
    ofList (fields ++ [field]) = (ofList fields).insert field.1 field.2 :=
  insertAll_append empty fields [field]

/-- Inserting adds the name behind all others if it is new, and leaves the names as they are if it
is not. -/
theorem names_insert (row : Row) (name : String) (value : Value) :
    (row.insert name value).names =
      if name ∈ row.names then row.names else row.names ++ [name] :=
  map_fst_putField name value row.fields

/-- **The names of a row of fields** stand in the order of their first occurrences. -/
theorem names_ofList (fields : List (String × Value)) :
    (ofList fields).names = (fields.map (·.1)).eraseDups := by
  induction fields using List.reverseRecOn with
  | nil => rfl
  | append_singleton fields field ih =>
      rw [ofList_concat, names_insert, ih, List.map_append, List.eraseDups_append]
      by_cases h : field.1 ∈ fields.map (·.1)
      · simp [List.mem_eraseDups.2 h, List.removeAll, h]
      · simp [mt List.mem_eraseDups.1 h, List.removeAll, h, List.eraseDups_cons]

/-- **The value under a name** of a row of fields is the last one of that name. -/
theorem get?_ofList (fields : List (String × Value)) (name : String) :
    (ofList fields).get? name =
      ((fields.filter fun field => field.1 == name).map (·.2)).getLast? := by
  induction fields using List.reverseRecOn with
  | nil => rfl
  | append_singleton fields field ih =>
      rw [ofList_concat, get?_insert, ih, List.filter_append, List.map_append]
      by_cases h : field.1 = name
      · simp [h]
      · simp [h]

/-! ### Steps -/

/-- A step in the making of a row, in any of the ways in which a caller can make one. -/
inductive Step where
  /-- A field is inserted. -/
  | insert (name : String) (value : Value)
  /-- A new row is made of fields. -/
  | collect (fields : List (String × Value))
  /-- A new row is read from a text. A text that is not that of a row changes nothing. -/
  | parse (text : String)

/-- The fields that the text of a row inserts, in their order and with repeated names. -/
def fieldsOfText? (text : String) : Option (List (String × Value)) :=
  (Json.parseSound? text).bind fun document => document.toMembers?.bind Value.fieldsOfJson?

/-- The row after a step. A step that makes a new row forgets the one before. -/
def step (row : Row) : Step → Row
  | .insert name value => row.insert name value
  | .collect fields => ofList fields
  | .parse text => (parse? text).getD row

/-- The row after steps that begin with the empty row. -/
def make (steps : List Step) : Row :=
  steps.foldl step empty

/-- The fields that have been inserted into a row since it was new, after a step. -/
def Step.extend (inserted : List (String × Value)) : Step → List (String × Value)
  | .insert name value => inserted ++ [(name, value)]
  | .collect fields => fields
  | .parse text => (fieldsOfText? text).getD inserted

/-- The fields that have been inserted into a row since it was new. -/
def insertions (steps : List Step) : List (String × Value) :=
  steps.foldl Step.extend []

/-- A text is read by inserting its fields in the order in which they are written, so a repeated
name has its last value at its first place. -/
theorem parse?_eq (text : String) : parse? text = (fieldsOfText? text).map ofList := by
  rw [parse?, fieldsOfText?]
  cases Json.parseSound? text with
  | none => rfl
  | some document => cases document <;> rfl

/-- One step inserts its fields, so that every row is made of the fields inserted since it was new.
-/
theorem step_ofList (inserted : List (String × Value)) (s : Step) :
    (ofList inserted).step s = ofList (s.extend inserted) := by
  cases s with
  | insert name value => exact (ofList_concat inserted (name, value)).symm
  | collect fields => rfl
  | parse text =>
      rw [step, Step.extend, parse?_eq]
      cases fieldsOfText? text <;> rfl

/-- **The row after steps** is made of the fields that have been inserted since it was new. -/
theorem make_eq (steps : List Step) : make steps = ofList (insertions steps) := by
  induction steps using List.reverseRecOn with
  | nil => rfl
  | append_singleton steps s ih =>
      have hmake : make (steps ++ [s]) = (make steps).step s := List.foldl_concat ..
      have hinsertions : insertions (steps ++ [s]) = s.extend (insertions steps) :=
        List.foldl_concat ..
      rw [hmake, ih, step_ofList, hinsertions]

/-! ### Texts -/

/-- **Rows of portable values read back** from their texts, unless these nest too deep. -/
theorem parse?_render {row : Row} (hportable : row.IsPortable)
    (hnesting : row.toJson.nesting ≤ Json.depthLimit) : parse? row.render = some row := by
  rw [parse?, render, Json.parseSound?_render (isWritable_toJson row) hnesting, Option.bind_some,
    ofJson?_toJson, reread_of_isPortable hportable]

/-- **Rows keep what has been inserted**: after any steps, every name occurs once, the names stand
in the order of their first insertion, each has the value inserted last, and a row of portable
values that does not nest too deep is read from its text again, with its fields in their order. -/
theorem keeps_insertions (steps : List Step) :
    (make steps).names.Nodup ∧
      (make steps).names = ((insertions steps).map (·.1)).eraseDups ∧
      (∀ name, (make steps).get? name =
        (((insertions steps).filter fun field => field.1 == name).map (·.2)).getLast?) ∧
      ((make steps).IsPortable → (make steps).toJson.nesting ≤ Json.depthLimit →
        parse? (make steps).render = some (make steps)) := by
  refine ⟨(make steps).nodup_names, ?_, fun name => ?_, parse?_render⟩
  · rw [make_eq, names_ofList]
  · rw [make_eq, get?_ofList]

/-- A text with a repeated name, and the one name that values reserve for themselves. In a row it is
a name like others. -/
def repeatedName : String :=
  "\x7b\"$double\":1,\"$double\":\"inf\"\x7d"

/-- A row that is inserted into, replaced by the row of a text with a repeated name, and inserted
into again. -/
def overwrittenName : List Step :=
  [.insert "z" (.int 0), .parse repeatedName, .insert "$double" (.string "NaN")]

/-- A row stays a row, even if it is nothing but the name of a number. -/
theorem keeps_overwrittenName : (make overwrittenName).names = ["$double"] ∧
    (make overwrittenName).get? "$double" = some (.string "NaN") ∧
    (make overwrittenName).IsPortable ∧
    (make overwrittenName).toJson.nesting ≤ Json.depthLimit ∧
    parse? (make overwrittenName).render = some (make overwrittenName) := by
  have hwritable : (Json.object [("$double", .int 1), ("$double", .string "inf")]).IsWritable :=
    ⟨⟨by decide, by decide⟩, trivial, trivial⟩
  have hread : fieldsOfText? repeatedName =
      some [("$double", .int 1), ("$double", .string "inf")] :=
    congrArg (Option.bind · _) (Json.parseSound?_render hwritable (by decide))
  have hfields : insertions overwrittenName =
      [("$double", .int 1), ("$double", .string "inf"), ("$double", .string "NaN")] := by
    change (fieldsOfText? repeatedName).getD [("z", .int 0)] ++ [("$double", .string "NaN")] = _
    rw [hread]
    rfl
  have hmake : (make overwrittenName).fields = [("$double", .string "NaN")] := by
    rw [make_eq, hfields]
    rfl
  obtain ⟨-, hnames, hget, hparse⟩ := keeps_insertions overwrittenName
  rw [hfields] at hnames hget
  have hportable : (make overwrittenName).IsPortable := by
    rw [IsPortable, hmake]
    exact ⟨trivial, trivial⟩
  have hnesting : (make overwrittenName).toJson.nesting ≤ Json.depthLimit := by
    rw [toJson, hmake]
    decide
  refine ⟨hnames.trans (by decide), ?_, hportable, hnesting, hparse hportable hnesting⟩
  rw [hget]
  rfl

end ShardQuery.Row
