import ShardQuery.Proofs.Row.Fields
import ShardQuery.Proofs.Value.Hereditary
import ShardQuery.Proofs.Value.Ordered
import ShardQuery.Proofs.Value.Sameness
import ShardQuery.Stage.Basic

/-!
# Keys of Rows

Repeated rows are dropped by their keys: the normal forms of their values under the key fields, or
of all their fields. Keys are told apart either in the order of values or by their texts. For rows
that have been read from documents, and as long as no key holds a non-number or `2 ^ 63`, both ways
tell apart exactly the keys that are different.

Main definitions:

* `Row.SharesKey` — whether two rows have the same key, in terms of their values;
* `Double.IsKept` — the doubles that keys may hold.

## Main results

* `Stage.sharesKey_iff`: rows share a key exactly if their keys are equal.
* `Value.holdsWhenRead_namesOnly`: values that have been read are not the names of numbers.
* `Stage.sameKey_iff`, `Stage.keyText_eq_iff`: both ways tell apart exactly the different keys.
-/

namespace ShardQuery

/-! ### Fields in order -/

namespace Value

/-- Nothing stands under a name that is not among those of the fields. -/
theorem field?_eq_none {name : String} {fields : List (String × Value)}
    (h : name ∉ fields.map (·.1)) : field? name fields = none := by
  induction fields with
  | nil => rfl
  | cons field fields ih =>
      rw [List.map_cons, List.mem_cons, not_or] at h
      rw [field?_cons, if_neg (Ne.symm h.1), ih h.2]

/-- Putting fields in order does not change what stands under a name, if every name occurs once. -/
theorem field?_sortFields {fields : List (String × Value)} (h : (fields.map (·.1)).Nodup)
    (name : String) : field? name (sortFields fields) = field? name fields := by
  suffices hall : ∀ done : List (String × Value),
      field? name (fields.foldl (fun sorted field => insertField field.1 field.2 sorted) done) =
        (field? name fields).or (field? name done) from
    (hall []).trans Option.or_none
  intro done
  induction fields generalizing done with
  | nil => rfl
  | cons field fields ih =>
      obtain ⟨n, v⟩ := field
      obtain ⟨hnew, hnodup⟩ := List.nodup_cons.1 h
      rw [List.foldl_cons, ih hnodup, field?_insertField, field?_cons]
      by_cases hname : n = name
      · subst hname
        rw [if_pos rfl, if_pos rfl, field?_eq_none hnew]
        rfl
      · rw [if_neg hname, if_neg hname]

end Value

/-! ### Doubles and names in keys -/

/-- Whether keys may hold a double: it is a number, and not `2 ^ 63`. -/
def Double.IsKept (d : Double) : Prop :=
  d.isNaN = false ∧ d ≠ .integerEnd

/-- Whether a text is not the name of a number. -/
def IsFreeName (name : String) : Prop :=
  Value.ofNonFiniteName? name = none

/-- Doubles that keys may hold and no words stand for, and texts that are not the names of numbers:
among them, values are told apart in every way. -/
theorem Double.discerned_of_isKept :
    Double.Discerned (fun d => d.IsKept ∧ d.toInt64? = none) IsFreeName where
  zero h := absurd h.1.2 (by decide)
  not_integerEnd h := h.1.2 rfl
  nan a _ ha _ hnan _ := by
    cases ha.1.1.symm.trans hnan
  unnamed d _ hfinite hname := by
    cases hname.symm.trans (Value.ofNonFiniteName?_nonFiniteName hfinite)

namespace Value

variable {held : Double → Prop} {named : String → Prop}

/-- The items are nothing but allowed names when each of them is, which turns the recursion into a
membership. -/
theorem itemsNameOnly_iff {items : List Value} :
    ItemsNameOnly named items ↔ ∀ item ∈ items, item.NamesOnly named := by
  induction items with
  | nil => exact iff_of_true trivial (List.forall_mem_nil _)
  | cons item items ih => rw [ItemsNameOnly, ih, List.forall_mem_cons]

/-- The fields are nothing but allowed names when the value of each of them is. -/
theorem fieldsNameOnly_iff {fields : List (String × Value)} :
    FieldsNameOnly named fields ↔ ∀ field ∈ fields, field.2.NamesOnly named := by
  induction fields with
  | nil => exact iff_of_true trivial (List.forall_mem_nil _)
  | cons field fields ih => rw [FieldsNameOnly, ih, List.forall_mem_cons]

/-- Only maps can be nothing but a name, so the property passes from a value to its parts without
further conditions on the other forms. -/
theorem isHereditary_namesOnly : IsHereditary (NamesOnly named) where
  null := trivial
  bool _ := trivial
  int _ := trivial
  double _ := trivial
  string _ := trivial
  array_iff := itemsNameOnly_iff
  of_map h := fieldsNameOnly_iff.1 h.2

/-- The reader makes no map of the name of a number, so this holds when it holds of the values. -/
theorem holdsWhenRead_namesOnly : HoldsWhenRead (NamesOnly IsFreeName) where
  toIsHereditary := isHereditary_namesOnly
  map _ hnumber hfields :=
    ⟨fun name hname => Option.not_isSome_iff_eq_none.1 fun hsome => hnumber ⟨name, hname, hsome⟩,
      fieldsNameOnly_iff.2 hfields⟩

end Value

/-! ### Keys -/

/-- Whether two rows have the same key: the same normal forms under the key fields, an absent value
where there is no field, or under all names if there are no key fields. -/
def Row.SharesKey (keys : List String) (a b : Row) : Prop :=
  match keys with
  | [] => ∀ name, (a.get? name).map Value.normalized = (b.get? name).map Value.normalized
  | keys => ∀ key ∈ keys, (a.getOrNull key).normalized = (b.getOrNull key).normalized

namespace Stage

open Value

/-- Without key fields, the key is the whole row, with its fields in order and its values in normal
form. -/
theorem distinctKey_nil (row : Row) :
    distinctKey [] row = [.map (sortFields (normalizedFields row.fields))] :=
  rfl

/-- With key fields, the key is the list of what stands under them, in normal form and in the order
in which they are given. -/
theorem distinctKey_of_ne_nil {keys : List String} (h : keys ≠ []) (row : Row) :
    distinctKey keys row = keys.map fun key => (row.getOrNull key).normalized := by
  cases keys with
  | nil => exact absurd rfl h
  | cons => rfl

/-- What stands under a name in the key that is made of a whole row. -/
theorem field?_wholeKey (row : Row) (name : String) :
    field? name (sortFields (normalizedFields row.fields)) = (row.get? name).map normalized := by
  have hnodup : ((normalizedFields row.fields).map (·.1)).Nodup := by
    rw [map_fst_normalizedFields]
    exact row.nodup_names
  rw [field?_sortFields hnodup, field?_normalizedFields, Row.get?]

/-- **Rows share a key exactly if their keys are equal**: the order of their fields does not matter,
and neither does what they have besides the key fields. -/
theorem sharesKey_iff {keys : List String} {a b : Row} :
    a.SharesKey keys b ↔ distinctKey keys a = distinctKey keys b := by
  cases keys with
  | cons key keys => exact List.map_inj_left.symm
  | nil =>
      simp only [Row.SharesKey, ← field?_wholeKey]
      rw [distinctKey_nil, distinctKey_nil, List.cons.injEq, Value.map.injEq]
      constructor
      · intro h
        exact ⟨AreAscending.eq_of_valueAt? (areSorted_sortFields _) (areSorted_sortFields _) h, rfl⟩
      · rintro ⟨h, -⟩ name
        rw [h]

/-- Keys are in normal form, so normalising one again, as reading it back from a token does, changes
nothing. -/
theorem normalizedItems_distinctKey (keys : List String) (row : Row) :
    normalizedItems (distinctKey keys row) = distinctKey keys row := by
  by_cases hkeys : keys = []
  · subst hkeys
    have hfields : normalizedFields (sortFields (normalizedFields row.fields)) =
        sortFields (normalizedFields row.fields) := by
      rw [normalizedFields_eq (sortFields _)]
      refine (List.map_congr_left fun field hfield => ?_).trans (List.map_id _)
      have hmem := mem_of_mem_sortFields hfield
      rw [normalizedFields_eq] at hmem
      obtain ⟨raw, -, rfl⟩ := List.mem_map.1 hmem
      exact congrArg (Prod.mk raw.1) (normalized_normalized raw.2)
    rw [distinctKey_nil]
    exact congrArg (fun fields => [Value.map fields]) hfields
  · rw [distinctKey_of_ne_nil hkeys, normalizedItems_eq, List.map_map]
    exact List.map_congr_left fun key _ => normalized_normalized (row.getOrNull key)

/-- No value in the key that is made of a whole row is the name of a number. The key may be so
itself, since rows are not taken for numbers. -/
theorem fieldsNameOnly_wholeKey {row : Row} (h : row.All (NamesOnly IsFreeName)) :
    FieldsNameOnly IsFreeName (sortFields (normalizedFields row.fields)) := by
  have hfields := fieldsNameOnly_normalizedFields row.fields (fieldsNameOnly_iff.2 h)
  exact fieldsNameOnly_iff.2 fun field hfield =>
    fieldsNameOnly_iff.1 hfields field (mem_of_mem_sortFields hfield)

/-- No value under the key fields is the name of a number. -/
theorem itemsNameOnly_distinctKey {keys : List String} (hkeys : keys ≠ []) {row : Row}
    (h : row.All (NamesOnly IsFreeName)) : ItemsNameOnly IsFreeName (distinctKey keys row) := by
  rw [distinctKey_of_ne_nil hkeys, itemsNameOnly_iff, List.forall_mem_map]
  exact fun key _ => namesOnly_normalized _ (isHereditary_namesOnly.getOrNull h key)

section

variable {keys : List String} {a b : Row}

/-- Keys hold no doubles that words stand for, since the normal form turns these into integers. Only
the doubles in between have to be told apart. -/
theorem holdItems_distinctKey (h : HoldItems Double.IsKept (distinctKey keys a)) :
    HoldItems (fun d => d.IsKept ∧ d.toInt64? = none) (distinctKey keys a) :=
  normalizedItems_distinctKey keys a ▸
    holdItems_normalizedItems (fun _ hkept hword => ⟨hkept, hword⟩) _ h

/-- **The order of values tells apart exactly the keys that are different.** -/
theorem sameKey_iff (ha : HoldItems Double.IsKept (distinctKey keys a))
    (hb : HoldItems Double.IsKept (distinctKey keys b)) :
    sameKey (distinctKey keys a) (distinctKey keys b) = true ↔
      distinctKey keys a = distinctKey keys b := by
  have hdiscerned := Double.discerned_of_isKept
  have hcompare := compareItems_eq_iff
    (fun _ _ hd he => Double.eq_of_isZero hdiscerned.zero hd he)
    (fun _ hd heq => hdiscerned.not_integerEnd (heq ▸ hd)) _ _
    (holdItems_distinctKey ha) (holdItems_distinctKey hb)
  rw [normalizedItems_distinctKey, normalizedItems_distinctKey] at hcompare
  rw [sameKey, beq_iff_eq, hcompare]

/-- **The texts of keys tell apart exactly the ones that are different.** -/
theorem keyText_eq_iff (ha : HoldItems Double.IsKept (distinctKey keys a))
    (hb : HoldItems Double.IsKept (distinctKey keys b))
    (hna : a.All (NamesOnly IsFreeName)) (hnb : b.All (NamesOnly IsFreeName)) :
    keyText (distinctKey keys a) = keyText (distinctKey keys b) ↔
      distinctKey keys a = distinctKey keys b := by
  refine ⟨fun htext => ?_, congrArg keyText⟩
  have hitems : itemsToJson (distinctKey keys a) = itemsToJson (distinctKey keys b) :=
    Json.array.inj (Json.render_inj (areItemsWritable_itemsToJson _)
      (areItemsWritable_itemsToJson _) htext)
  have hda := holdItems_distinctKey ha
  have hdb := holdItems_distinctKey hb
  by_cases hkeys : keys = []
  · subst hkeys
    -- The maps as a whole are compared field by field, as one of them may be a name.
    have hfields := Json.object.inj (List.cons.inj hitems).1
    exact congrArg (fun fields => [Value.map fields])
      (fieldsToJson_inj Double.discerned_of_isKept _ _ hda.1 hdb.1 (fieldsNameOnly_wholeKey hna)
        (fieldsNameOnly_wholeKey hnb) hfields)
  · exact itemsToJson_inj Double.discerned_of_isKept _ _ hda hdb
      (itemsNameOnly_distinctKey hkeys hna) (itemsNameOnly_distinctKey hkeys hnb) hitems

end

end Stage

end ShardQuery
