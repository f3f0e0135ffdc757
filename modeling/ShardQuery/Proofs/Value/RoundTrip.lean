import ShardQuery.Proofs.Value.Ordered

/-!
# Values through Their Texts

Every value has a text, and every text of a value is read, as long as it does not nest too deep.
What is read is the value with the canonical non-number in the place of all others, unless the
value holds, at any depth, a map that is nothing but the name of a number. The form
`{"$double": "inf"}` is that of the number, so such a map gives way to it. Other maps with the same
field are kept: the name has to be one of the three names, and the field the only one.

Main definitions:

* `Value.IsRead` — whether a value has been read from a text.

## Main results

* `Value.parse?_render`: the text of a value is read, whatever the value.
* `Value.isRead_iff`: the values that can be read.
* `Value.canonical_reread_eq_canonical_iff`: exactly the plain ones of the ordered values come back.
* `Value.parse?_render_and_comesBack_iff`: both together.
-/

namespace ShardQuery.Value

variable {value : Value} {fields : List (String × Value)}

/-- **The text of a value is read**, unless it nests too deep. -/
theorem parse?_render (h : value.toJson.nesting ≤ Json.depthLimit) :
    parse? value.render = some value.reread := by
  rw [parse?, render, Json.parseSound?_render (isWritable_toJson value) h, Option.bind_some,
    ofJson?_toJson]

/-- Whether a value has been read from a text. -/
def IsRead (value : Value) : Prop :=
  ∃ text, parse? text = some value

/-- **The values that can be read** are the portable ones that do not nest too deep. -/
theorem isRead_iff : value.IsRead ↔ value.IsPortable ∧ value.toJson.nesting ≤ Json.depthLimit := by
  constructor
  · rintro ⟨text, htext⟩
    obtain ⟨document, hdocument, hvalue⟩ := Option.bind_eq_some_iff.1 htext
    obtain ⟨hread, hsound⟩ := Option.filter_eq_some_iff.1 hdocument
    have hwritable := Json.isWritable_of_isSound hsound (Json.isInRange_of_read? hread)
    have hwithin := isWithin_of_ofJson? ⟨hwritable, hsound⟩ hvalue
    exact ⟨hwithin.portable, Json.nesting_le_of_isSound _ _ hwithin.sound⟩
  · rintro ⟨hportable, hnesting⟩
    exact ⟨value.render, by rw [parse?_render hnesting, reread_of_isPortable value hportable]⟩

/-- Fields in order stay so when they are reread, as their names stay. -/
theorem areSorted_rereadFields (h : AreSorted fields) : AreSorted (rereadFields fields) := by
  rw [areSorted_iff_names, map_fst_rereadFields]
  exact areSorted_iff_names.1 h

/-- The name of a number is read as the number. -/
theorem reread_map_of_name {name : String} {d : Double} (h : ofNonFiniteName? name = some d) :
    (map [(nonFiniteField, .string name)]).reread = .double d := by
  change ofFields [(nonFiniteField, .string name)] = .double d
  rw [ofFields, if_pos rfl, h]

mutual

/-- Ordered values that come back are plain: where a map of the reserved form is hidden in a value,
the value does not come back. -/
theorem IsOrdered.isPlain_of_reread : ∀ {value : Value}, value.IsOrdered →
    value.reread.canonical = value.canonical → value.IsPlain
  | .null, _, _ | .bool _, _, _ | .int _, _, _ | .double _, _, _ | .string _, _, _ => trivial
  | .array _, hordered, h => hordered.arePlain_of_rereadItems (Value.array.inj h)
  | .map fields, ⟨hsorted, hfields⟩, h => by
    rw [reread, sortFields_of_sorted (areSorted_rereadFields hsorted)] at h
    obtain ⟨_, _, -, -, heq⟩ | ⟨hnumber, heq⟩ := ofFields_cases (rereadFields fields)
    · -- A number is not the canonical form of a map.
      rw [heq] at h
      cases h
    · rw [heq] at h
      refine ⟨hsorted, ?_, hfields.arePlain_of_rereadFields (Value.map.inj h)⟩
      rintro ⟨name, rfl, hname⟩
      exact hnumber ⟨name, rfl, hname⟩

/-- Ordered items that come back are plain, each of them. -/
theorem AreItemsOrdered.arePlain_of_rereadItems : ∀ {items : List Value}, AreItemsOrdered items →
    canonicalItems (rereadItems items) = canonicalItems items → AreItemsPlain items
  | [], _, _ => trivial
  | _ :: _, ⟨hitem, hitems⟩, h =>
    ⟨hitem.isPlain_of_reread (List.cons.inj h).1,
      hitems.arePlain_of_rereadItems (List.cons.inj h).2⟩

/-- Ordered named values that come back are plain, each of them. -/
theorem AreFieldsOrdered.arePlain_of_rereadFields : ∀ {fields : List (String × Value)},
    AreFieldsOrdered fields →
    canonicalFields (rereadFields fields) = canonicalFields fields → AreFieldsPlain fields
  | [], _, _ => trivial
  | (_, _) :: _, ⟨hvalue, hfields⟩, h =>
    ⟨hvalue.isPlain_of_reread (Prod.mk.inj (List.cons.inj h).1).2,
      hfields.arePlain_of_rereadFields (List.cons.inj h).2⟩

end

/-- **Of the ordered values exactly the plain ones come back**, up to their non-numbers. -/
theorem canonical_reread_eq_canonical_iff (h : value.IsOrdered) :
    value.reread.canonical = value.canonical ↔ value.IsPlain := by
  refine ⟨h.isPlain_of_reread, fun hplain => ?_⟩
  rw [reread_of_isPlain value hplain, canonical_canonical]

/-- **Values through their texts**: the text of every value that does not nest too deep is read,
and what is read is the value, all non-numbers counting as one, exactly if no map in the value is
nothing but the name of a number. -/
theorem parse?_render_and_comesBack_iff (hordered : value.IsOrdered)
    (hnesting : value.toJson.nesting ≤ Json.depthLimit) :
    parse? value.render = some value.reread ∧
      (value.reread.canonical = value.canonical ↔ value.IsPlain) :=
  ⟨parse?_render hnesting, canonical_reread_eq_canonical_iff hordered⟩

/-- A value of all variants: a non-number that is not the canonical one, an infinity, a negative
zero, the least integer, and a map whose field `$double` names no number. -/
def assorted : Value :=
  .array [.null, .bool true, .int Int64.minValue, .double ⟨0xfff0000000000001⟩,
    .map [("$double", .string "tiny"), ("zero", .double ⟨0x8000000000000000⟩)],
    .map [("$double", .double (Double.infinity true))]]

/-- The assorted value satisfies all conditions and comes back, in canonical form. -/
theorem assorted_comesBack : assorted.IsOrdered ∧ assorted.toJson.nesting ≤ Json.depthLimit ∧
    assorted.IsPlain ∧ parse? assorted.render = some assorted.reread ∧
    assorted.reread.canonical = assorted.canonical := by
  have hsorted : AreSorted [("$double", .string "tiny"), ("zero", .double ⟨0x8000000000000000⟩)] :=
    List.pairwise_pair.2 (by decide)
  have hsingle : AreSorted [("$double", .double (Double.infinity true))] :=
    List.pairwise_singleton _ _
  have hordered : assorted.IsOrdered :=
    ⟨trivial, trivial, trivial, trivial, ⟨hsorted, trivial, trivial, trivial⟩,
      ⟨hsingle, trivial, trivial⟩, trivial⟩
  have hplain : assorted.IsPlain := by
    refine ⟨trivial, trivial, trivial, trivial, ⟨hsorted, ?_, trivial, trivial, trivial⟩,
      ⟨hsingle, ?_, trivial, trivial⟩, trivial⟩
    · rintro ⟨name, hfields, -⟩
      cases hfields
    · rintro ⟨name, hfields, -⟩
      cases hfields
  have hnesting : assorted.toJson.nesting ≤ Json.depthLimit := by decide
  obtain ⟨hparse, hback⟩ := parse?_render_and_comesBack_iff hordered hnesting
  exact ⟨hordered, hnesting, hplain, hparse, hback.2 hplain⟩

/-- The name of a number does not come back as a map. -/
theorem not_forall_comesBack : ¬∀ value : Value, value.IsOrdered →
    value.toJson.nesting ≤ Json.depthLimit →
    ∃ decoded, parse? value.render = some decoded ∧ decoded.canonical = value.canonical := by
  intro hall
  have hordered : (map [(nonFiniteField, .string "NaN")]).IsOrdered :=
    ⟨List.pairwise_singleton _ _, trivial, trivial⟩
  have hnesting : (map [(nonFiniteField, .string "NaN")]).toJson.nesting ≤ Json.depthLimit := by
    decide
  obtain ⟨decoded, hdecoded, hcanonical⟩ := hall _ hordered hnesting
  have hread : decoded = .double Double.nan := by
    rw [parse?_render hnesting, reread_map_of_name (d := Double.nan) rfl] at hdecoded
    exact (Option.some.inj hdecoded).symm
  rw [hread] at hcanonical
  cases hcanonical

end ShardQuery.Value
