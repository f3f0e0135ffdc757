import ShardQuery.Proofs.Json.Document
import ShardQuery.Value.Codec

/-!
# Values Read Back

Documents do not tell non-numbers apart, and a map that is nothing but the name of a number reads
as that number. So what is read from the document of a value is the value up to that:
`Value.reread`. Values that their documents determine are portable.

## Main results

* `Value.ofJson?_toJson`: what is read from the document of a value.
* `Value.reread_of_isPortable`: portable values read back.
* `Value.sizeEstimate_reread_le`: what is read is not larger.
* `Value.isWritable_toJson`: the documents of values are writable.
-/

namespace ShardQuery

/-- What is read from the document of a double: all non-numbers are written alike. -/
def Double.reread (d : Double) : Double :=
  if d.isNaN then nan else d

namespace Value

/-! ### What is read -/

mutual

/-- What is read from the document of a value. -/
def reread : Value → Value
  | .double d => .double d.reread
  | .array items => .array (rereadItems items)
  | .map fields => ofFields (sortFields (rereadFields fields))
  | value => value

/-- What is read from the documents of the items of an array. -/
def rereadItems : List Value → List Value
  | [] => []
  | item :: items => reread item :: rereadItems items

/-- What is read from the documents of named values. -/
def rereadFields : List (String × Value) → List (String × Value)
  | [] => []
  | (name, value) :: fields => (name, reread value) :: rereadFields fields

end

/-- The names stay, and stay in their order, when values are reread. -/
theorem map_fst_rereadFields (fields : List (String × Value)) :
    (rereadFields fields).map (·.1) = fields.map (·.1) := by
  induction fields with
  | nil => rfl
  | cons field fields ih => exact congrArg (field.1 :: ·) ih

/-! ### Portable values -/

/-- Whether fields stand in the order of their names, every name once. -/
def AreSorted (fields : List (String × Value)) : Prop :=
  fields.Pairwise fun a b => a.1 < b.1

/-- Whether the document of a map with the given fields is that of a number. -/
def NamesNumber (fields : List (String × Value)) : Prop :=
  ∃ name, fields = [(nonFiniteField, .string name)] ∧ (ofNonFiniteName? name).isSome = true

mutual

/-- Whether a value holds no non-number but the canonical one, and no map that is nothing but
the name of a number. -/
def IsPortable : Value → Prop
  | .double d => d.isNaN = true → d = Double.nan
  | .array items => AreItemsPortable items
  | .map fields => AreSorted fields ∧ ¬NamesNumber fields ∧ AreFieldsPortable fields
  | .null | .bool _ | .int _ | .string _ => True

/-- Whether all items of an array are portable, one after the other. -/
def AreItemsPortable : List Value → Prop
  | [] => True
  | item :: items => IsPortable item ∧ AreItemsPortable items

/-- Whether all named values are portable. Names always are. -/
def AreFieldsPortable : List (String × Value) → Prop
  | [] => True
  | (_, value) :: fields => IsPortable value ∧ AreFieldsPortable fields

end

/-! ### Fields -/

/-- A name behind all others is put at the end. -/
theorem insertField_of_last {name : String} {value : Value} {fields : List (String × Value)}
    (h : ∀ field ∈ fields, field.1 < name) :
    insertField name value fields = fields ++ [(name, value)] := by
  induction fields with
  | nil => rfl
  | cons field fields ih =>
      obtain ⟨hfield, hfields⟩ := List.forall_mem_cons.1 h
      have hne : field.1 ≠ name := fun heq => String.lt_irrefl name (heq ▸ hfield)
      rw [insertField, if_neg (String.lt_asymm hfield), if_neg hne, ih hfields]
      rfl

/-- Fields in the order of their names stay as they are. -/
theorem sortFields_of_sorted {fields : List (String × Value)} (h : AreSorted fields) :
    sortFields fields = fields := by
  suffices hgeneral : ∀ done : List (String × Value), AreSorted (done ++ fields) →
      fields.foldl (fun sorted field => insertField field.1 field.2 sorted) done =
        done ++ fields from hgeneral [] h
  intro done hdone
  induction fields generalizing done with
  | nil => exact (List.append_nil done).symm
  | cons field fields ih =>
      obtain ⟨hbefore, hafter, hbetween⟩ := List.pairwise_append.1 hdone
      rw [List.foldl_cons,
        insertField_of_last fun d hd => hbetween d hd field List.mem_cons_self,
        ih (List.Pairwise.of_cons hafter), List.append_assoc, List.singleton_append]
      rwa [List.append_assoc, List.singleton_append]

/-- A map that is not the name of a number is read as a map. -/
theorem ofFields_of_not_namesNumber {fields : List (String × Value)} (h : ¬NamesNumber fields) :
    ofFields fields = .map fields := by
  unfold ofFields
  split
  · next name s =>
      split
      · next hname =>
          subst hname
          split
          · next d hd => exact absurd ⟨s, rfl, by rw [hd]; rfl⟩ h
          · rfl
      · rfl
  · rfl

/-! ### Numbers -/

/-- Signed integers read as themselves, none of them being out of range. -/
theorem ofInteger_toInt (i : Int64) : ofInteger i.toInt = .int i := by
  have hlow : Int64.minValue.toInt ≤ i.toInt := Int64.minValue_le_toInt i
  have hhigh : i.toInt ≤ Int64.maxValue.toInt := Int64.toInt_le i
  rw [ofInteger, int64?, if_pos ⟨hlow, hhigh⟩, Int64.ofInt_toInt]

/-- The number of a signed word fits the words of documents. -/
theorem fitsWord_toInt (i : Int64) : Json.FitsWord i.toInt :=
  ⟨Int64.minValue_le_toInt i, Int.lt_of_le_of_lt (Int64.toInt_le i) (by decide)⟩

/-- The name of a double that is not finite reads as what is read from its document. -/
theorem ofNonFiniteName?_nonFiniteName {d : Double} (hfinite : d.isFinite = false) :
    ofNonFiniteName? (nonFiniteName d) = some d.reread := by
  cases h : d.isNaN with
  | true =>
      rw [nonFiniteName, Double.reread, if_pos h, if_pos h]
      rfl
  | false =>
      have hmagnitude : d.magnitude = Double.infiniteMagnitude := by
        rw [Double.isFinite, decide_eq_false_iff_not] at hfinite
        rw [Double.isNaN, decide_eq_false_iff_not] at h
        omega
      have hd : d = Double.infinity d.isNegative := by
        rw [Double.infinity, ← hmagnitude, Double.ofMagnitude_magnitude]
      rw [nonFiniteName, Double.reread, h, if_neg Bool.false_ne_true, if_neg Bool.false_ne_true, hd]
      cases d.isNegative <;> rfl

/-- A finite double is a number in its document, and read back as it is. -/
theorem reread_of_isFinite {d : Double} (h : d.isFinite = true) : d.reread = d := by
  rw [Double.isFinite, decide_eq_true_eq] at h
  rw [Double.reread, Double.isNaN, if_neg]
  rw [decide_eq_true_eq]
  exact Nat.lt_asymm h

/-! ### Reading back -/

mutual

/-- **What is read from the document of a value.** -/
theorem ofJson?_toJson : ∀ value : Value, ofJson? (toJson value) = some value.reread
  | .null => rfl
  | .bool _ => rfl
  | .int i => congrArg some (ofInteger_toInt i)
  | .double d => by
    cases hfinite : d.isFinite with
    | true => rw [toJson, if_pos hfinite, ofJson?, reread, reread_of_isFinite hfinite]
    | false =>
        have hname := ofNonFiniteName?_nonFiniteName hfinite
        rw [toJson, if_neg (by simp [hfinite])]
        change some (ofFields [(nonFiniteField, .string (nonFiniteName d))]) = _
        simp only [ofFields, if_true, hname]
        rfl
  | .string _ => rfl
  | .array items => by
    rw [toJson, ofJson?, itemsOfJson?_itemsToJson items, Option.map_some, reread]
  | .map fields => by
    rw [toJson, ofJson?, fieldsOfJson?_fieldsToJson fields, Option.map_some, reread]

/-- What is read from the documents of items are the items reread, in their order. -/
theorem itemsOfJson?_itemsToJson : ∀ items : List Value,
    itemsOfJson? (itemsToJson items) = some (rereadItems items)
  | [] => rfl
  | item :: items => by
    rw [itemsToJson, itemsOfJson?, ofJson?_toJson item, itemsOfJson?_itemsToJson items]
    rfl

/-- What is read from the documents of named values, in any order of their names. -/
theorem fieldsOfJson?_fieldsToJson : ∀ fields : List (String × Value),
    fieldsOfJson? (fieldsToJson fields) = some (rereadFields fields)
  | [] => rfl
  | (name, value) :: fields => by
    rw [fieldsToJson, fieldsOfJson?, ofJson?_toJson value, fieldsOfJson?_fieldsToJson fields]
    rfl

end

mutual

/-- **Portable values read back from their documents.** Portability excludes what a document cannot
tell: the payloads of non-numbers, maps out of order and maps of the reserved form. -/
theorem reread_of_isPortable : ∀ value : Value, IsPortable value → value.reread = value
  | .null, _ | .bool _, _ | .int _, _ | .string _, _ => rfl
  | .double d, h => by
    rw [reread, Double.reread]
    split
    · next hnan => rw [h hnan]
    · rfl
  | .array items, h => by rw [reread, rereadItems_of_portable items h]
  | .map fields, h => by
    obtain ⟨hsorted, hnumber, hfields⟩ := h
    rw [reread, rereadFields_of_portable fields hfields, sortFields_of_sorted hsorted,
      ofFields_of_not_namesNumber hnumber]

/-- Portable items read back, each of them by itself. -/
theorem rereadItems_of_portable : ∀ items : List Value, AreItemsPortable items →
    rereadItems items = items
  | [], _ => rfl
  | item :: items, h => by
    rw [rereadItems, reread_of_isPortable item h.1, rereadItems_of_portable items h.2]

/-- Portable named values read back, with their names. -/
theorem rereadFields_of_portable : ∀ fields : List (String × Value), AreFieldsPortable fields →
    rereadFields fields = fields
  | [], _ => rfl
  | (name, value) :: fields, h => by
    rw [rereadFields, reread_of_isPortable value h.1, rereadFields_of_portable fields h.2]

end

/-! ### Sizes -/

/-- Putting a field into its place adds at most its size. It adds less if it takes the place of
another one. -/
theorem fieldsSize_insertField_le (name : String) (value : Value)
    (fields : List (String × Value)) : fieldsSize (insertField name value fields) ≤
      name.utf8ByteSize + value.sizeEstimate + fieldsSize fields := by
  induction fields with
  | nil => exact Nat.le_refl _
  | cons field fields ih =>
      rw [insertField]
      split
      · exact Nat.le_refl _
      · split
        · simp only [fieldsSize]
          omega
        · simp only [fieldsSize]
          omega

/-- Putting fields in order at most drops some, those with a name that comes again. -/
theorem fieldsSize_sortFields_le (fields : List (String × Value)) :
    fieldsSize (sortFields fields) ≤ fieldsSize fields := by
  suffices hgeneral : ∀ done : List (String × Value),
      fieldsSize (fields.foldl (fun sorted field => insertField field.1 field.2 sorted) done) ≤
        fieldsSize done + fieldsSize fields from
    (hgeneral []).trans_eq (Nat.zero_add _)
  intro done
  induction fields generalizing done with
  | nil => exact Nat.le_refl _
  | cons field fields ih =>
      rw [List.foldl_cons]
      have hinsert := fieldsSize_insertField_le field.1 field.2 done
      have hrest := ih (insertField field.1 field.2 done)
      simp only [fieldsSize]
      omega

/-- A map is at least as large as the number that it may name. -/
theorem sizeEstimate_ofFields_le (fields : List (String × Value)) :
    (ofFields fields).sizeEstimate ≤ overhead + fieldsSize fields := by
  unfold ofFields
  split
  · split
    · split
      · exact Nat.le_add_right _ _
      · exact Nat.le_refl _
    · exact Nat.le_refl _
  · exact Nat.le_refl _

mutual

/-- **What is read from the document of a value is not larger.** -/
theorem sizeEstimate_reread_le : ∀ value : Value, value.reread.sizeEstimate ≤ value.sizeEstimate
  | .null | .bool _ | .int _ | .string _ | .double _ => Nat.le_refl _
  | .array items => Nat.add_le_add_left (itemsSize_reread_le items) _
  | .map fields => by
    refine Nat.le_trans (sizeEstimate_ofFields_le _) (Nat.add_le_add_left ?_ _)
    exact Nat.le_trans (fieldsSize_sortFields_le _) (fieldsSize_reread_le fields)

/-- What is read from the documents of items is not larger. -/
theorem itemsSize_reread_le : ∀ items : List Value, itemsSize (rereadItems items) ≤ itemsSize items
  | [] => Nat.le_refl _
  | item :: items => Nat.add_le_add (sizeEstimate_reread_le item) (itemsSize_reread_le items)

/-- What is read from the documents of named values is not larger. -/
theorem fieldsSize_reread_le : ∀ fields : List (String × Value),
    fieldsSize (rereadFields fields) ≤ fieldsSize fields
  | [] => Nat.le_refl _
  | (_, value) :: fields =>
    Nat.add_le_add (Nat.add_le_add_left (sizeEstimate_reread_le value) _)
      (fieldsSize_reread_le fields)

end

/-! ### Writing -/

mutual

/-- The documents of values are writable, whatever doubles they hold, since those that are not
finite are written by name. -/
theorem isWritable_toJson : ∀ value : Value, Json.IsWritable (toJson value)
  | .null => trivial
  | .bool _ => trivial
  | .int i => fitsWord_toInt i
  | .double d => by
    rw [toJson]
    split
    · next hfinite => exact hfinite
    · exact ⟨trivial, trivial⟩
  | .string _ => trivial
  | .array items => areItemsWritable_itemsToJson items
  | .map fields => areMembersWritable_fieldsToJson fields

/-- The documents of items are writable, one after the other. -/
theorem areItemsWritable_itemsToJson :
    ∀ items : List Value, Json.AreItemsWritable (itemsToJson items)
  | [] => trivial
  | item :: items => ⟨isWritable_toJson item, areItemsWritable_itemsToJson items⟩

/-- The documents of named values are writable, whatever the names are. -/
theorem areMembersWritable_fieldsToJson :
    ∀ fields : List (String × Value), Json.AreMembersWritable (fieldsToJson fields)
  | [] => trivial
  | (_, value) :: fields => ⟨isWritable_toJson value, areMembersWritable_fieldsToJson fields⟩

end

end Value

end ShardQuery
