import ShardQuery.Proofs.Value.Hereditary
import ShardQuery.Proofs.Value.NormalForm
import ShardQuery.Proofs.Value.Plain
import ShardQuery.Proofs.Value.Reading

/-!
# Ordered Values

Maps list their fields in the order of their names. A value whose maps all do so is ordered. What
is read from its document may be another value: a map that is nothing but the name of a number
reads as that number, and all non-numbers read as the canonical one. But it is written in the same
way again. Values that have been read are ordered, whatever the document says.

Main definitions:

* `Value.IsOrdered` — whether the maps in a value list their fields in order, at any depth;
* `Value.HoldsWhenRead` — the properties that all values that are read have.

## Main results

* `Value.IsOrdered.toJson_reread`: ordered values are written again as they have been read.
* `Value.HoldsWhenRead.of_ofJson?`: what holds of the maps that are read holds of all values.
* `Value.isOrdered_of_ofJson?`: values that have been read are ordered.
* `Value.isHereditary_isOrdered`: so are the values that formulas compute of ordered ones.
-/

namespace ShardQuery.Value

mutual

/-- Whether the maps in a value list their fields in order, at any depth. -/
def IsOrdered : Value → Prop
  | .array items => AreItemsOrdered items
  | .map fields => AreSorted fields ∧ AreFieldsOrdered fields
  | .null | .bool _ | .int _ | .double _ | .string _ => True

/-- Whether all items of an array are ordered, one after the other. -/
def AreItemsOrdered : List Value → Prop
  | [] => True
  | item :: items => IsOrdered item ∧ AreItemsOrdered items

/-- Whether all named values are ordered, whatever their names are. -/
def AreFieldsOrdered : List (String × Value) → Prop
  | [] => True
  | (_, value) :: fields => IsOrdered value ∧ AreFieldsOrdered fields

end

variable {items : List Value} {fields : List (String × Value)}

/-- Items are ordered when each of them is, as a membership instead of a recursion. -/
theorem areItemsOrdered_iff : AreItemsOrdered items ↔ ∀ item ∈ items, item.IsOrdered := by
  induction items with
  | nil => exact iff_of_true trivial (List.forall_mem_nil _)
  | cons item items ih => rw [AreItemsOrdered, ih, List.forall_mem_cons]

/-- Named values are ordered when each of them is. -/
theorem areFieldsOrdered_iff : AreFieldsOrdered fields ↔ ∀ field ∈ fields, field.2.IsOrdered := by
  induction fields with
  | nil => exact iff_of_true trivial (List.forall_mem_nil _)
  | cons field fields ih => rw [AreFieldsOrdered, ih, List.forall_mem_cons]

/-- Only maps can fail to be ordered by themselves. -/
theorem isHereditary_isOrdered : IsHereditary IsOrdered where
  null := trivial
  bool _ := trivial
  int _ := trivial
  double _ := trivial
  string _ := trivial
  array_iff := areItemsOrdered_iff
  of_map h := areFieldsOrdered_iff.1 h.2

/-- The map of fields that are put in order is ordered. -/
theorem isOrdered_map_sortFields (h : ∀ field ∈ fields, field.2.IsOrdered) :
    (map (sortFields fields)).IsOrdered :=
  ⟨areSorted_sortFields fields,
    areFieldsOrdered_iff.2 fun field hmem => h field (mem_of_mem_sortFields hmem)⟩

/-- Whether fields are in order depends on their names only. -/
theorem areSorted_iff_names : AreSorted fields ↔ (fields.map (·.1)).Pairwise (· < ·) :=
  List.pairwise_map.symm

/-! ### Written again -/

/-- The name of a number that is not finite is the one that it has been read from. -/
theorem toJson_of_ofNonFiniteName? {name : String} {d : Double}
    (h : ofNonFiniteName? name = some d) :
    (double d).toJson = .object [(nonFiniteField, .string name)] := by
  unfold ofNonFiniteName? at h
  split at h
  · next hname =>
      cases h
      rw [hname]
      rfl
  · split at h
    · next hname =>
        cases h
        rw [hname]
        rfl
    · split at h <;> cases h
      next hname =>
        rw [hname]
        rfl

mutual

/-- **Ordered values are written again as they have been read.** -/
theorem IsOrdered.toJson_reread : ∀ {value : Value}, value.IsOrdered →
    value.reread.toJson = value.toJson
  | .null, _ | .bool _, _ | .int _, _ | .string _, _ => rfl
  | .double d, _ => Value.toJson_reread d
  | .array _, h => congrArg Json.array (AreItemsOrdered.itemsToJson_reread h)
  | .map fields, ⟨hsorted, hfields⟩ => by
    have hwritten := hfields.fieldsToJson_reread
    have hnames : AreSorted (rereadFields fields) := by
      rw [areSorted_iff_names, map_fst_rereadFields]
      exact areSorted_iff_names.1 hsorted
    rw [reread, sortFields_of_sorted hnames]
    obtain ⟨name, d, hnumber, hd, heq⟩ | ⟨-, heq⟩ := ofFields_cases (rereadFields fields)
    · -- A map that names a number is read as that number, which has the same name.
      rw [hnumber] at hwritten
      rw [heq, toJson_of_ofNonFiniteName? hd, toJson, ← hwritten]
      rfl
    · rw [heq, toJson, toJson, hwritten]

/-- Ordered items have the same documents again when they have been reread. -/
theorem AreItemsOrdered.itemsToJson_reread : ∀ {items : List Value}, AreItemsOrdered items →
    itemsToJson (rereadItems items) = itemsToJson items
  | [], _ => rfl
  | _ :: _, ⟨hitem, hitems⟩ => congrArg₂ List.cons hitem.toJson_reread hitems.itemsToJson_reread

/-- Ordered named values have the same documents again when they have been reread. -/
theorem AreFieldsOrdered.fieldsToJson_reread : ∀ {fields : List (String × Value)},
    AreFieldsOrdered fields → fieldsToJson (rereadFields fields) = fieldsToJson fields
  | [], _ => rfl
  | (name, _) :: _, ⟨hvalue, hfields⟩ =>
    congrArg₂ List.cons (congrArg (Prod.mk name) hvalue.toJson_reread)
      hfields.fieldsToJson_reread

end

/-! ### Normal forms -/

mutual

/-- Normal forms of ordered values are ordered, as they have the same names at the same places. -/
theorem IsOrdered.normalized : ∀ {value : Value}, value.IsOrdered → value.normalized.IsOrdered
  | .null, _ | .bool _, _ | .int _, _ | .string _, _ => trivial
  | .double d, _ => by
    rw [Value.normalized]
    split <;> trivial
  | .array _, h => AreItemsOrdered.normalizedItems h
  | .map fields, ⟨hsorted, hfields⟩ => by
    refine ⟨?_, hfields.normalizedFields⟩
    rw [areSorted_iff_names, map_fst_normalizedFields]
    exact areSorted_iff_names.1 hsorted

/-- Normal forms of ordered items are ordered, one after the other. -/
theorem AreItemsOrdered.normalizedItems : ∀ {items : List Value}, AreItemsOrdered items →
    AreItemsOrdered (normalizedItems items)
  | [], _ => trivial
  | _ :: _, ⟨hitem, hitems⟩ => ⟨hitem.normalized, hitems.normalizedItems⟩

/-- Normal forms of ordered named values are ordered, one after the other. -/
theorem AreFieldsOrdered.normalizedFields : ∀ {fields : List (String × Value)},
    AreFieldsOrdered fields → AreFieldsOrdered (normalizedFields fields)
  | [], _ => trivial
  | (_, _) :: _, ⟨hvalue, hfields⟩ => ⟨hvalue.normalized, hfields.normalizedFields⟩

end

/-! ### Reading -/

/-- Whether a property goes down from values to their parts, and holds of the maps that a reader
makes of values that have it. -/
structure HoldsWhenRead (p : Value → Prop) : Prop extends IsHereditary p where
  /-- A reader puts the fields of a map in order, and reads the name of a number as the number. -/
  map {fields : List (String × Value)} : AreSorted fields → ¬NamesNumber fields →
    (∀ field ∈ fields, p field.2) → p (.map fields)

variable {p : Value → Prop}

mutual

/-- **What holds of the maps that are read holds of all values that are read**, whatever the
document says. -/
theorem HoldsWhenRead.of_ofJson? (hp : HoldsWhenRead p) : ∀ {j : Json} {value : Value},
    ofJson? j = some value → p value
  | .null, _, h => Option.some.inj h ▸ hp.null
  | .bool b, _, h => Option.some.inj h ▸ hp.bool b
  | .double d, _, h => Option.some.inj h ▸ hp.double d
  | .string s, _, h => Option.some.inj h ▸ hp.string s
  | .int i, _, h => by
    cases h
    unfold ofInteger
    split
    · exact hp.int _
    · exact hp.double _
  | .array items, _, h => by
    obtain ⟨values, hvalues, rfl⟩ := Option.map_eq_some_iff.1 h
    exact hp.array_iff.2 (hp.of_itemsOfJson? hvalues)
  | .object members, _, h => by
    obtain ⟨fields, hfields, rfl⟩ := Option.map_eq_some_iff.1 h
    obtain ⟨_, d, -, -, heq⟩ | ⟨hnumber, heq⟩ := ofFields_cases (sortFields fields)
    · exact heq ▸ hp.double d
    · rw [heq]
      exact hp.map (areSorted_sortFields fields) hnumber fun field hmem =>
        hp.of_fieldsOfJson? hfields field (mem_of_mem_sortFields hmem)
  | .flawed, _, h => by cases h

/-- It holds of each of the items that are read. -/
theorem HoldsWhenRead.of_itemsOfJson? (hp : HoldsWhenRead p) : ∀ {items : List Json}
    {values : List Value}, itemsOfJson? items = some values → ∀ value ∈ values, p value
  | [], _, h => by
    cases h
    exact List.forall_mem_nil _
  | item :: items, _, h => by
    simp only [itemsOfJson?, Option.bind_eq_bind, Option.bind_eq_some_iff] at h
    obtain ⟨value, hvalue, values, hvalues, heq⟩ := h
    cases heq
    exact List.forall_mem_cons.2 ⟨hp.of_ofJson? hvalue, hp.of_itemsOfJson? hvalues⟩

/-- It holds of each of the named values that are read. -/
theorem HoldsWhenRead.of_fieldsOfJson? (hp : HoldsWhenRead p) :
    ∀ {members : List (String × Json)} {fields : List (String × Value)},
      fieldsOfJson? members = some fields → ∀ field ∈ fields, p field.2
  | [], _, h => by
    cases h
    exact List.forall_mem_nil _
  | (name, item) :: members, _, h => by
    simp only [fieldsOfJson?, Option.bind_eq_bind, Option.bind_eq_some_iff] at h
    obtain ⟨value, hvalue, fields, hfields, heq⟩ := h
    cases heq
    exact List.forall_mem_cons.2 ⟨hp.of_ofJson? hvalue, hp.of_fieldsOfJson? hfields⟩

end

/-- It holds of all values of a row that is read. -/
theorem HoldsWhenRead.all_of_ofJson? (hp : HoldsWhenRead p) {document : Json} {row : Row}
    (h : Row.ofJson? document = some row) : row.All p := by
  cases document with
  | object members =>
      obtain ⟨fields, hfields, rfl⟩ := Option.map_eq_some_iff.1 h
      exact Row.all_ofList (hp.of_fieldsOfJson? hfields)
  | null | bool | int | double | string | array | flawed => cases h

/-- The reader puts the fields of each map in order, so this holds when it holds of the values. -/
theorem holdsWhenRead_isOrdered : HoldsWhenRead IsOrdered where
  toIsHereditary := isHereditary_isOrdered
  map hsorted _ hfields := ⟨hsorted, areFieldsOrdered_iff.2 hfields⟩

/-- **Values that have been read are ordered**, at every depth. -/
theorem isOrdered_of_ofJson? {j : Json} {value : Value} (h : ofJson? j = some value) :
    value.IsOrdered :=
  holdsWhenRead_isOrdered.of_ofJson? h

end ShardQuery.Value
