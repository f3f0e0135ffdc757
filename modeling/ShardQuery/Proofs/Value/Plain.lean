import ShardQuery.Proofs.Double.Order
import ShardQuery.Proofs.Row.Codec
import ShardQuery.Proofs.Value.Hereditary

/-!
# Plain Values

A document does not tell non-numbers apart, and a map that is nothing but the name of a number
reads as that number. Values without such maps are plain: what is read from the document of a plain
value is the value with the canonical non-number in the place of all others, its canonical form.

Main definitions:

* `Value.canonical` — a value with the canonical non-number in the place of all others;
* `Value.IsPlain` — whether a value has no map that names a number, at any depth.

## Main results

* `Value.reread_of_isPlain`, `Row.reread_of_isPlain`: what is read from documents is canonical.
* `Value.toJson_canonical`, `Row.render_canonical`: a canonical form has the same document.
-/

namespace ShardQuery

/-- All doubles that are not numbers are written with one name, and so they read as one of them. -/
theorem Double.reread_of_isNaN {d : Double} (h : d.isNaN = true) : d.reread = nan :=
  if_pos h

/-- A double that is a number, or infinite, reads back bit for bit. -/
theorem Double.reread_of_not_isNaN {d : Double} (h : d.isNaN = false) : d.reread = d :=
  if_neg (by simp [h])

/-- Reading a double a second time changes nothing more, since what has been read already is the one
that is written. -/
@[simp] theorem Double.reread_reread (d : Double) : d.reread.reread = d.reread := by
  cases h : d.isNaN with
  | true =>
      rw [reread_of_isNaN h]
      decide
  | false => rw [reread_of_not_isNaN h, reread_of_not_isNaN h]

namespace Value

/-! ### Canonical values -/

mutual

/-- A value with the canonical non-number in the place of all others. -/
def canonical : Value → Value
  | .double d => .double d.reread
  | .array items => .array (canonicalItems items)
  | .map fields => .map (canonicalFields fields)
  | value => value

/-- The canonical forms of the items of an array. -/
def canonicalItems : List Value → List Value
  | [] => []
  | item :: items => canonical item :: canonicalItems items

/-- The canonical forms of named values, each under its own name. The names are left as they are. -/
def canonicalFields : List (String × Value) → List (String × Value)
  | [] => []
  | (name, value) :: fields => (name, canonical value) :: canonicalFields fields

end

/-- The canonical forms of items are taken one by one. The recursion stands in the definition only
because it runs through nested lists. -/
theorem canonicalItems_eq (items : List Value) : canonicalItems items = items.map canonical := by
  induction items with
  | nil => rfl
  | cons item items ih => exact congrArg (item.canonical :: ·) ih

/-- The canonical forms of named values are taken one by one, without a look at the names. -/
theorem canonicalFields_eq (fields : List (String × Value)) :
    canonicalFields fields = fields.map fun field => (field.1, field.2.canonical) := by
  induction fields with
  | nil => rfl
  | cons field fields ih => exact congrArg ((field.1, field.2.canonical) :: ·) ih

/-- The names stay, in their order. So whatever depends on names only is the same for canonical
forms. -/
theorem map_fst_canonicalFields (fields : List (String × Value)) :
    (canonicalFields fields).map (·.1) = fields.map (·.1) := by
  rw [canonicalFields_eq, List.map_map]
  rfl

/-- The canonical form of what a name stands for is what it stands for among the canonical forms, so
that lookup and canonical form may be exchanged. -/
theorem field?_canonicalFields (name : String) (fields : List (String × Value)) :
    field? name (canonicalFields fields) = (field? name fields).map canonical := by
  rw [canonicalFields_eq, field?, field?, List.find?_map, Option.map_map, Option.map_map]
  rfl

mutual

/-- Canonical forms are canonical: a value is changed at most once. -/
@[simp] theorem canonical_canonical : ∀ value : Value, value.canonical.canonical = value.canonical
  | .null | .bool _ | .int _ | .string _ => rfl
  | .double d => congrArg Value.double d.reread_reread
  | .array items => congrArg Value.array (canonicalItems_canonicalItems items)
  | .map fields => congrArg Value.map (canonicalFields_canonicalFields fields)

/-- The items of an array are in canonical form after one pass. It is the case of arrays of
`canonical_canonical`. -/
theorem canonicalItems_canonicalItems : ∀ items : List Value,
    canonicalItems (canonicalItems items) = canonicalItems items
  | [] => rfl
  | item :: items =>
    congrArg₂ List.cons (canonical_canonical item) (canonicalItems_canonicalItems items)

/-- The fields of a map are in canonical form after one pass. It is the case of maps of
`canonical_canonical`. -/
theorem canonicalFields_canonicalFields : ∀ fields : List (String × Value),
    canonicalFields (canonicalFields fields) = canonicalFields fields
  | [] => rfl
  | (name, value) :: fields =>
    congrArg₂ List.cons (congrArg (Prod.mk name) (canonical_canonical value))
      (canonicalFields_canonicalFields fields)

end

/-- A double has the document that it has after it has been read back, since all doubles that are
not numbers have one name. -/
theorem toJson_reread (d : Double) : (Value.double d.reread).toJson = (Value.double d).toJson := by
  cases h : d.isNaN with
  | false => rw [Double.reread_of_not_isNaN h]
  | true =>
      have hfinite := Double.isFinite_of_isNaN h
      have hnan : Double.nan.isNaN = true ∧ Double.nan.isFinite = false := by decide
      rw [Double.reread_of_isNaN h, toJson, toJson, if_neg (by simp [hnan.2]),
        if_neg (by simp [hfinite]), nonFiniteName, nonFiniteName, if_pos hnan.1, if_pos h]

mutual

/-- **A value and its canonical form have one document.** -/
theorem toJson_canonical : ∀ value : Value, value.canonical.toJson = value.toJson
  | .null | .bool _ | .int _ | .string _ => rfl
  | .double d => toJson_reread d
  | .array items => congrArg Json.array (itemsToJson_canonicalItems items)
  | .map fields => congrArg Json.object (fieldsToJson_canonicalFields fields)

/-- Items have the documents of their canonical forms. It is the case of arrays of
`toJson_canonical`. -/
theorem itemsToJson_canonicalItems : ∀ items : List Value,
    itemsToJson (canonicalItems items) = itemsToJson items
  | [] => rfl
  | item :: items =>
    congrArg₂ List.cons (toJson_canonical item) (itemsToJson_canonicalItems items)

/-- Named values have the documents of their canonical forms. It is the case of maps of
`toJson_canonical`. -/
theorem fieldsToJson_canonicalFields : ∀ fields : List (String × Value),
    fieldsToJson (canonicalFields fields) = fieldsToJson fields
  | [] => rfl
  | (name, value) :: fields =>
    congrArg₂ List.cons (congrArg (Prod.mk name) (toJson_canonical value))
      (fieldsToJson_canonicalFields fields)

end

/-! ### Plain values -/

mutual

/-- Whether a value is one that documents give, its non-numbers aside: at any depth, maps list
their fields in order and are not the names of numbers. -/
def IsPlain : Value → Prop
  | .array items => AreItemsPlain items
  | .map fields => AreSorted fields ∧ ¬NamesNumber fields ∧ AreFieldsPlain fields
  | .null | .bool _ | .int _ | .double _ | .string _ => True

/-- Whether all items of an array are plain. Arrays are plain without a condition of their own. -/
def AreItemsPlain : List Value → Prop
  | [] => True
  | item :: items => IsPlain item ∧ AreItemsPlain items

/-- Whether all named values are plain, whatever their names. Conditions on the names are those of
maps. -/
def AreFieldsPlain : List (String × Value) → Prop
  | [] => True
  | (_, value) :: fields => IsPlain value ∧ AreFieldsPlain fields

end

/-- Items are plain exactly if each of them is. The recursion of the definition is the one over
values. -/
theorem areItemsPlain_iff {items : List Value} :
    AreItemsPlain items ↔ ∀ item ∈ items, item.IsPlain := by
  induction items with
  | nil => exact iff_of_true trivial nofun
  | cons item items ih => rw [AreItemsPlain, ih, List.forall_mem_cons]

/-- Named values are plain exactly if each value is. The recursion of the definition is the one over
values. -/
theorem areFieldsPlain_iff {fields : List (String × Value)} :
    AreFieldsPlain fields ↔ ∀ field ∈ fields, field.2.IsPlain := by
  induction fields with
  | nil => exact iff_of_true trivial nofun
  | cons field fields ih => rw [AreFieldsPlain, ih, List.forall_mem_cons]

/-- Only maps can fail to be plain by themselves. -/
theorem isHereditary_isPlain : IsHereditary IsPlain where
  null := trivial
  bool _ := trivial
  int _ := trivial
  double _ := trivial
  string _ := trivial
  array_iff := areItemsPlain_iff
  of_map h := areFieldsPlain_iff.1 h.2.2

/-- Fields in order of their names are so in canonical form, since the names stay. -/
theorem areSorted_canonicalFields {fields : List (String × Value)} (h : AreSorted fields) :
    AreSorted (canonicalFields fields) := by
  rw [canonicalFields_eq, AreSorted, List.pairwise_map]
  exact h

/-- The canonical form of a map names a number only if the map does. -/
theorem namesNumber_of_canonicalFields {fields : List (String × Value)}
    (h : NamesNumber (canonicalFields fields)) : NamesNumber fields := by
  obtain ⟨name, hfields, hname⟩ := h
  rw [canonicalFields_eq] at hfields
  obtain ⟨⟨field, value⟩, rfl, hfield⟩ := List.map_eq_singleton_iff.1 hfields
  obtain ⟨rfl, hvalue⟩ := Prod.mk.inj hfield
  cases value <;> cases hvalue
  exact ⟨name, rfl, hname⟩

mutual

/-- **What is read from the document of a plain value is its canonical form.** -/
theorem reread_of_isPlain : ∀ value : Value, IsPlain value → value.reread = value.canonical
  | .null, _ | .bool _, _ | .int _, _ | .string _, _ | .double _, _ => rfl
  | .array items, h => congrArg Value.array (rereadItems_of_plain items h)
  | .map fields, h => by
    obtain ⟨hsorted, hnumber, hfields⟩ := h
    rw [reread, rereadFields_of_plain fields hfields,
      sortFields_of_sorted (areSorted_canonicalFields hsorted),
      ofFields_of_not_namesNumber fun h => hnumber (namesNumber_of_canonicalFields h)]
    rfl

/-- Plain items read back in canonical form. It is the case of arrays of `reread_of_isPlain`. -/
theorem rereadItems_of_plain : ∀ items : List Value, AreItemsPlain items →
    rereadItems items = canonicalItems items
  | [], _ => rfl
  | item :: items, h =>
    congrArg₂ List.cons (reread_of_isPlain item h.1) (rereadItems_of_plain items h.2)

/-- Plain fields read back in canonical form. It is the case of maps of `reread_of_isPlain`, where
their order has been used already. -/
theorem rereadFields_of_plain : ∀ fields : List (String × Value), AreFieldsPlain fields →
    rereadFields fields = canonicalFields fields
  | [], _ => rfl
  | (name, value) :: fields, h =>
    congrArg₂ List.cons (congrArg (Prod.mk name) (reread_of_isPlain value h.1))
      (rereadFields_of_plain fields h.2)

end

mutual

/-- The canonical form of a plain value is plain. A map keeps its names, and it is the name of a
number exactly if it was one before. -/
theorem IsPlain.canonical : ∀ {value : Value}, IsPlain value → IsPlain value.canonical
  | .null, _ | .bool _, _ | .int _, _ | .string _, _ | .double _, _ => trivial
  | .array _, h => AreItemsPlain.canonicalItems h
  | .map _, ⟨hsorted, hnumber, hfields⟩ =>
    ⟨areSorted_canonicalFields hsorted, fun h => hnumber (namesNumber_of_canonicalFields h),
      AreFieldsPlain.canonicalFields hfields⟩

/-- The canonical forms of plain items are plain. It is the case of arrays of `IsPlain.canonical`.
-/
theorem AreItemsPlain.canonicalItems : ∀ {items : List Value}, AreItemsPlain items →
    AreItemsPlain (canonicalItems items)
  | [], _ => trivial
  | _ :: _, ⟨hitem, hitems⟩ => ⟨hitem.canonical, hitems.canonicalItems⟩

/-- The canonical forms of plain fields are plain. It is the case of maps of `IsPlain.canonical`. -/
theorem AreFieldsPlain.canonicalFields : ∀ {fields : List (String × Value)},
    AreFieldsPlain fields → AreFieldsPlain (canonicalFields fields)
  | [], _ => trivial
  | (_, _) :: _, ⟨hvalue, hfields⟩ => ⟨hvalue.canonical, hfields.canonicalFields⟩

end

end Value

/-! ### Rows -/

namespace Row

/-- A row with the canonical non-number in the place of all others. -/
def canonical (row : Row) : Row where
  fields := Value.canonicalFields row.fields
  nodup_names := by
    rw [Value.map_fst_canonicalFields]
    exact row.nodup_names

/-- Whether all values of a row are plain. The names are free, since a row is never read as a
number. -/
def IsPlain (row : Row) : Prop :=
  Value.AreFieldsPlain row.fields

/-- The canonical form of a row is canonical, as those of its values are. -/
@[simp] theorem canonical_canonical (row : Row) : row.canonical.canonical = row.canonical :=
  ext (Value.canonicalFields_canonicalFields row.fields)

/-- **What is read from the document of a row of plain values is its canonical form.** -/
theorem reread_of_isPlain {row : Row} (h : row.IsPlain) : row.reread = row.canonical :=
  ext (Value.rereadFields_of_plain row.fields h)

/-- The canonical form of a plain row is plain, so that a row may be read back any number of times.
-/
theorem IsPlain.canonical {row : Row} (h : row.IsPlain) : row.canonical.IsPlain :=
  Value.AreFieldsPlain.canonicalFields h

/-- **A row and its canonical form have one text.** -/
theorem render_canonical (row : Row) : row.canonical.render = row.render :=
  congrArg (fun members => (Json.object members).render)
    (Value.fieldsToJson_canonicalFields row.fields)

/-- A field of the canonical form is the canonical form of the field, also where the field is
missing. -/
theorem getOrNull_canonical (row : Row) (name : String) :
    row.canonical.getOrNull name = (row.getOrNull name).canonical := by
  rw [getOrNull, getOrNull, get?, get?, canonical, Value.field?_canonicalFields]
  cases Value.field? name row.fields <;> rfl

/-- Canonical forms may be taken before or after a field is put, since the place of a field depends
on the names only. -/
theorem canonicalFields_putField (name : String) (value : Value) (fields : List (String × Value)) :
    Value.canonicalFields (putField name value fields) =
      putField name value.canonical (Value.canonicalFields fields) := by
  induction fields with
  | nil => rfl
  | cons field fields ih =>
      rw [putField, Value.canonicalFields, putField]
      split
      · rfl
      · exact congrArg ((field.1, field.2.canonical) :: ·) ih

/-- The canonical form of a row of fields is made of their canonical forms. -/
theorem canonical_ofList (fields : List (String × Value)) :
    (ofList fields).canonical = ofList (Value.canonicalFields fields) := by
  suffices hall : ∀ row : Row, (row.insertAll fields).canonical =
      row.canonical.insertAll (Value.canonicalFields fields) from hall empty
  intro row
  induction fields generalizing row with
  | nil => rfl
  | cons field fields ih =>
      refine (ih (row.insert field.1 field.2)).trans (congrArg (insertAll · _) (ext ?_))
      exact canonicalFields_putField field.1 field.2 row.fields

/-- A row that is made of plain fields is plain, repeated names included. -/
theorem isPlain_ofList {fields : List (String × Value)} (h : Value.AreFieldsPlain fields) :
    (ofList fields).IsPlain :=
  Value.areFieldsPlain_iff.2 (all_ofList (Value.areFieldsPlain_iff.1 h))

end Row

end ShardQuery
