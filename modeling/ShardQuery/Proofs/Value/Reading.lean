import ShardQuery.Proofs.Double.Order
import ShardQuery.Proofs.Entries
import ShardQuery.Proofs.Json.Reading
import ShardQuery.Proofs.Value.Codec

/-!
# Values That Have Been Read

A value that has been read from a document is portable: its doubles are finite or the canonical
ones of their names, its maps are in order, and none of them is the name of a number. Its own
document nests no deeper than the one that it has been read from. So it reads back.

Main definitions:

* `Value.IsWithin` — whether a value is portable and its document nests no deeper than a bound.

## Main results

* `Value.areSorted_sortFields`: fields that have been sorted are in order.
* `Value.isWithin_of_ofJson?`: what is read from a document within a bound is within it.
* `Value.IsWithin.ofJson?_toJson`: values within a bound read back.
-/

namespace ShardQuery.Value

/-! ### Fields -/

variable {fields : List (String × Value)}

/-- A field is inserted as any entry under an ordered key is, so the lemmas about entries apply to
fields. -/
theorem insertField_eq (name : String) (value : Value) (fields : List (String × Value)) :
    insertField name value fields = insertEntry name value fields := by
  induction fields with
  | nil => rfl
  | cons field fields ih =>
      obtain ⟨n, v⟩ := field
      rw [insertField, insertEntry, ih]

/-- Inserting a field is seen under its own name only. -/
theorem field?_insertField (name other : String) (value : Value) (fields : List (String × Value)) :
    field? other (insertField name value fields) =
      if name = other then some value else field? other fields := by
  rw [insertField_eq]
  exact valueAt?_insertEntry name other value fields

/-- A field that is there after another has been inserted is this one, or was there before. -/
theorem mem_insertField {name : String} {value : Value} {field : String × Value}
    (h : field ∈ insertField name value fields) : field = (name, value) ∨ field ∈ fields := by
  rw [insertField_eq] at h
  exact mem_insertEntry h

/-- Sorting fields makes up none, though it may drop some. -/
theorem mem_of_mem_sortFields {field : String × Value} (h : field ∈ sortFields fields) :
    field ∈ fields := by
  suffices hall : ∀ done : List (String × Value),
      field ∈ fields.foldl (fun sorted f => insertField f.1 f.2 sorted) done →
        field ∈ done ∨ field ∈ fields from (hall [] h).resolve_left List.not_mem_nil
  clear h
  intro done hmem
  induction fields generalizing done with
  | nil => exact .inl hmem
  | cons first fields ih =>
      obtain h | h := ih _ hmem
      · obtain rfl | h := mem_insertField h
        · exact .inr List.mem_cons_self
        · exact .inl h
      · exact .inr (List.mem_cons_of_mem _ h)

/-- A field is put into its place, and fields in order stay so. -/
theorem areSorted_insertField {name : String} {value : Value} (h : AreSorted fields) :
    AreSorted (insertField name value fields) := by
  rw [insertField_eq]
  exact AreAscending.insertEntry h

/-- Fields that have been sorted are in order, whatever they were before. -/
theorem areSorted_sortFields (fields : List (String × Value)) : AreSorted (sortFields fields) := by
  suffices hall : ∀ done : List (String × Value), AreSorted done →
      AreSorted (fields.foldl (fun sorted field => insertField field.1 field.2 sorted) done) from
    hall [] List.Pairwise.nil
  intro done hdone
  induction fields generalizing done with
  | nil => exact hdone
  | cons field fields ih => exact ih _ (areSorted_insertField hdone)

/-- Fields make a number if they are its name, and otherwise a map. -/
theorem ofFields_cases (fields : List (String × Value)) :
    (∃ name d, fields = [(nonFiniteField, .string name)] ∧ ofNonFiniteName? name = some d ∧
      ofFields fields = .double d) ∨ ¬NamesNumber fields ∧ ofFields fields = .map fields := by
  by_cases h : NamesNumber fields
  · obtain ⟨name, rfl, hname⟩ := h
    obtain ⟨d, hd⟩ := Option.isSome_iff_exists.1 hname
    refine .inl ⟨name, d, rfl, hd, ?_⟩
    rw [ofFields, if_pos rfl, hd]
  · exact .inr ⟨h, ofFields_of_not_namesNumber h⟩

/-! ### Values within bounds -/

/-- Whether a value is portable and its document nests no deeper than `depth`. -/
structure IsWithin (depth : Nat) (value : Value) : Prop where
  /-- It is portable. -/
  portable : value.IsPortable
  /-- Its document does not nest too deep. -/
  sound : value.toJson.isSound depth = true

/-- The document of a value within some bound is within it. -/
theorem IsWithin.toJson {depth : Nat} {value : Value} (h : value.IsWithin depth) :
    value.toJson.IsWithin depth :=
  ⟨value.isWritable_toJson, h.sound⟩

/-- Items are portable when each of them is, as a membership instead of a recursion. -/
theorem areItemsPortable_iff {items : List Value} :
    AreItemsPortable items ↔ ∀ item ∈ items, item.IsPortable := by
  induction items with
  | nil => simp [AreItemsPortable]
  | cons item items ih => rw [AreItemsPortable, ih, List.forall_mem_cons]

/-- Named values are portable when each of them is. -/
theorem areFieldsPortable_iff :
    AreFieldsPortable fields ↔ ∀ field ∈ fields, field.2.IsPortable := by
  induction fields with
  | nil => simp [AreFieldsPortable]
  | cons field fields ih => rw [AreFieldsPortable, ih, List.forall_mem_cons]

/-- The documents of portable fields determine them, their order included. -/
theorem fieldsToJson_inj_of_portable {others : List (String × Value)}
    (hfields : ∀ field ∈ fields, field.2.IsPortable)
    (hothers : ∀ field ∈ others, field.2.IsPortable)
    (h : fieldsToJson fields = fieldsToJson others) : fields = others := by
  have hread := fieldsOfJson?_fieldsToJson fields
  rw [h, fieldsOfJson?_fieldsToJson,
    rereadFields_of_portable others (areFieldsPortable_iff.2 hothers),
    rereadFields_of_portable fields (areFieldsPortable_iff.2 hfields)] at hread
  exact (Option.some.inj hread).symm

/-- The documents of items are sound to a depth when each of them is. -/
theorem areItemsSound_itemsToJson {depth : Nat} {items : List Value} :
    Json.areItemsSound depth (itemsToJson items) = true ↔
      ∀ item ∈ items, item.toJson.isSound depth = true := by
  induction items with
  | nil => simp [itemsToJson, Json.areItemsSound]
  | cons item items ih =>
      rw [itemsToJson, Json.areItemsSound, Bool.and_eq_true, ih, List.forall_mem_cons]

/-- The documents of fields are sound to a depth when each of them is. -/
theorem areMembersSound_fieldsToJson {depth : Nat} :
    Json.areMembersSound depth (fieldsToJson fields) = true ↔
      ∀ field ∈ fields, field.2.toJson.isSound depth = true := by
  induction fields with
  | nil => simp [fieldsToJson, Json.areMembersSound]
  | cons field fields ih =>
      rw [fieldsToJson, Json.areMembersSound, Bool.and_eq_true, ih, List.forall_mem_cons]

/-- An array of values within a bound is within the next one. -/
theorem isWithin_array {depth : Nat} {items : List Value}
    (h : ∀ item ∈ items, item.IsWithin depth) : (array items).IsWithin (depth + 1) where
  portable := areItemsPortable_iff.2 fun item hmem => (h item hmem).portable
  sound := by
    rw [toJson, Json.isSound]
    exact areItemsSound_itemsToJson.2 fun item hmem => (h item hmem).sound

/-- A map of values within a bound is within the next one, if its fields are in order and it is no
number in disguise. -/
theorem isWithin_map {depth : Nat} (hsorted : AreSorted fields) (hnumber : ¬NamesNumber fields)
    (h : ∀ field ∈ fields, field.2.IsWithin depth) : (map fields).IsWithin (depth + 1) where
  portable := ⟨hsorted, hnumber, areFieldsPortable_iff.2 fun field hmem => (h field hmem).portable⟩
  sound := by
    rw [toJson, Json.isSound]
    exact areMembersSound_fieldsToJson.2 fun field hmem => (h field hmem).sound

/-- A finite double nests no further, and comes back as it is. -/
theorem isWithin_double {d : Double} (h : d.isFinite = true) (depth : Nat) :
    (double d).IsWithin depth where
  portable hnan := by
    cases (Double.isNaN_of_isFinite h).symm.trans hnan
  sound := by simp only [toJson, if_pos h, Json.isSound]

/-- The name of a number is read as a double that is written as an object. -/
theorem isWithin_of_ofNonFiniteName? {name : String} {d : Double}
    (h : ofNonFiniteName? name = some d) (depth : Nat) : (double d).IsWithin (depth + 1) where
  portable hnan := by
    unfold ofNonFiniteName? at h
    split at h
    · cases h
      rfl
    · split at h
      · cases h
        cases hnan
      · split at h <;> cases h
        cases hnan
  sound := by
    rw [toJson]
    split
    · simp only [Json.isSound]
    · simp only [Json.isSound, Json.areMembersSound, Bool.and_self]

/-- What is read from a word is that word, or the nearest double. -/
theorem isWithin_ofInteger {i : Int} (h : Json.FitsWord i) (depth : Nat) :
    (ofInteger i).IsWithin depth := by
  unfold ofInteger
  split
  · exact ⟨trivial, by simp only [toJson, Json.isSound]⟩
  · refine isWithin_double (Double.isFinite_ofInt ?_) depth
    obtain ⟨hlow, hhigh⟩ := h
    have hmin : Int64.minValue.toInt = -9223372036854775808 := rfl
    have hsize : (UInt64.size : Int) = 18446744073709551616 := rfl
    omega

mutual

/-- **What is read from a document within a bound is within it.** -/
theorem isWithin_of_ofJson? : ∀ {j : Json} {depth : Nat} {value : Value}, j.IsWithin depth →
    ofJson? j = some value → value.IsWithin depth
  | .null, _, _, _, h | .bool _, _, _, _, h | .string _, _, _, _, h => by
    cases h
    exact ⟨trivial, by simp only [toJson, Json.isSound]⟩
  | .int i, depth, _, hj, h => by
    cases h
    exact isWithin_ofInteger hj.writable depth
  | .double d, depth, _, hj, h => by
    cases h
    exact isWithin_double hj.writable depth
  | .array items, _, _, hj, h => by
    obtain ⟨depth, rfl, hitems⟩ := Json.isWithin_array_iff.1 hj
    obtain ⟨values, hvalues, rfl⟩ := Option.map_eq_some_iff.1 h
    exact isWithin_array (isWithin_of_itemsOfJson? hitems hvalues)
  | .object members, _, _, hj, h => by
    obtain ⟨depth, rfl, hmembers⟩ := Json.isWithin_object_iff.1 hj
    obtain ⟨fields, hfields, rfl⟩ := Option.map_eq_some_iff.1 h
    have hwithin := isWithin_of_fieldsOfJson? hmembers hfields
    obtain ⟨name, d, -, hd, heq⟩ | ⟨hnumber, heq⟩ := ofFields_cases (sortFields fields)
    · rw [heq]
      exact isWithin_of_ofNonFiniteName? hd depth
    · rw [heq]
      exact isWithin_map (areSorted_sortFields fields) hnumber fun field hmem =>
        hwithin field (mem_of_mem_sortFields hmem)
  | .flawed, _, _, _, h => by cases h

/-- Items that have been read from documents within a bound are within it. -/
theorem isWithin_of_itemsOfJson? : ∀ {items : List Json} {depth : Nat} {values : List Value},
    (∀ item ∈ items, item.IsWithin depth) → itemsOfJson? items = some values →
    ∀ value ∈ values, value.IsWithin depth
  | [], _, _, _, h => by
    cases h
    simp
  | item :: items, _, _, hitems, h => by
    obtain ⟨hitem, hitems⟩ := List.forall_mem_cons.1 hitems
    simp only [itemsOfJson?, Option.bind_eq_bind, Option.bind_eq_some_iff] at h
    obtain ⟨value, hvalue, values, hvalues, heq⟩ := h
    cases heq
    exact List.forall_mem_cons.2
      ⟨isWithin_of_ofJson? hitem hvalue, isWithin_of_itemsOfJson? hitems hvalues⟩

/-- Named values that have been read from documents within a bound are within it. -/
theorem isWithin_of_fieldsOfJson? : ∀ {members : List (String × Json)} {depth : Nat}
    {fields : List (String × Value)}, (∀ member ∈ members, member.2.IsWithin depth) →
    fieldsOfJson? members = some fields → ∀ field ∈ fields, field.2.IsWithin depth
  | [], _, _, _, h => by
    cases h
    simp
  | (name, item) :: members, _, _, hmembers, h => by
    obtain ⟨hmember, hmembers⟩ := List.forall_mem_cons.1 hmembers
    simp only [fieldsOfJson?, Option.bind_eq_bind, Option.bind_eq_some_iff] at h
    obtain ⟨value, hvalue, fields, hfields, heq⟩ := h
    cases heq
    exact List.forall_mem_cons.2
      ⟨isWithin_of_ofJson? hmember hvalue, isWithin_of_fieldsOfJson? hmembers hfields⟩

end

/-- **Values within a bound read back.** This is what readers of larger documents rely on for the
values in them. -/
theorem IsWithin.ofJson?_toJson {depth : Nat} {value : Value} (h : value.IsWithin depth) :
    ofJson? value.toJson = some value := by
  rw [Value.ofJson?_toJson, reread_of_isPortable value h.portable]

end ShardQuery.Value
