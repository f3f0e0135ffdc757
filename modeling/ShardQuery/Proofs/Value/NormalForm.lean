import ShardQuery.Proofs.Value.Totality

/-!
# Normal Forms

In the normal form of a value every double that stands for a signed word is that word, at any
depth. Nothing else is touched: arrays keep their lengths, maps their names, and the value its size
and its place in the order. The double `2 ^ 63` is left as it is, although it is equal to the
greatest signed word; the normal form goes by what a double stands for and not by the order.

Main definitions:

* `Value.part?` — the part of a value at the end of a path;
* `Value.layout` — what a value shows of its layout, its parts left out;
* `Value.KeepsDoubles` — whether the doubles in a value are those of another one without the words;
* `Value.IsNormalFormOf` — whether a value is what another one is turned into.

## Main results

* `Value.compareIntDouble_eq_iff`: an integer has the place of the doubles that stand for it.
* `Value.normalized_eq_self_iff`: the values that are their own normal forms.
* `Value.part?_normalized`: the parts of a normal form are the normal forms of the parts.
* `Value.compare_normalized`: a normal form has the place of the value.
* `Value.isNormalFormOf_iff`: every value has exactly one normal form, `Value.normalized`.
-/

namespace ShardQuery.Value

variable {held : Double → Prop}

/-! ### Single values -/

/-- The normal form has the rank of the value, since integers and doubles share one. -/
theorem rank_normalized (a : Value) : a.normalized.rank = a.rank := by
  cases a with
  | double d =>
      rw [normalized]
      split <;> rfl
  | null | bool | int | string | array | map => rfl

/-- A double that an integer stands for has this integer as its normal form. -/
theorem normalized_double_of_some {d : Double} {i : Int64} (h : d.toInt64? = some i) :
    (double d).normalized = int i := by
  rw [normalized, h]

/-- Any other double is its own normal form. -/
theorem normalized_double_of_none {d : Double} (h : d.toInt64? = none) :
    (double d).normalized = double d := by
  rw [normalized, h]

/-- The normal form of a double is the integer that it stands for. -/
theorem int_eq_normalized_iff {i : Int64} {d : Double} :
    int i = (double d).normalized ↔ d.toInt64? = some i := by
  cases h : d.toInt64? with
  | none =>
      rw [normalized_double_of_none h]
      exact ⟨nofun, nofun⟩
  | some j => rw [normalized_double_of_some h, int.injEq, Option.some_inj, eq_comm]

/-- The doubles among normal forms are those that stand for no word. -/
theorem normalized_eq_double_iff {a : Value} {d : Double} :
    a.normalized = double d ↔ a = double d ∧ ¬d.IsWord := by
  rw [← Double.toInt64?_eq_none_iff]
  constructor
  · intro h
    cases a with
    | double e =>
        cases hword : e.toInt64? with
        | none =>
            rw [normalized_double_of_none hword] at h
            cases h
            exact ⟨rfl, hword⟩
        | some i =>
            rw [normalized_double_of_some hword] at h
            cases h
    | null | bool | int | string | array | map => cases h
  · rintro ⟨rfl, hword⟩
    exact normalized_double_of_none hword

/-! ### Items and fields -/

/-- The normal forms of items are taken item by item. -/
theorem normalizedItems_eq (items : List Value) : normalizedItems items = items.map normalized := by
  induction items with
  | nil => rfl
  | cons item items ih => exact congrArg (item.normalized :: ·) ih

/-- The normal forms of fields are taken field by field, under the same names. -/
theorem normalizedFields_eq (fields : List (String × Value)) :
    normalizedFields fields = fields.map fun field => (field.1, field.2.normalized) := by
  induction fields with
  | nil => rfl
  | cons field fields ih => exact congrArg ((field.1, field.2.normalized) :: ·) ih

/-- The names stay when normal forms are taken, and stay in their order. -/
theorem map_fst_normalizedFields (fields : List (String × Value)) :
    (normalizedFields fields).map (·.1) = fields.map (·.1) := by
  rw [normalizedFields_eq, List.map_map]
  rfl

/-- What stands under a name in normal forms is the normal form of what stands under it. -/
theorem field?_normalizedFields (name : String) (fields : List (String × Value)) :
    field? name (normalizedFields fields) = (field? name fields).map normalized := by
  rw [normalizedFields_eq, field?, field?, List.find?_map, Option.map_map, Option.map_map]
  rfl

/-! ### Doubles in normal forms -/

mutual

/-- A normal form holds those doubles of the value that stand for no word. -/
theorem holds_normalized {kept : Double → Prop}
    (h : ∀ d, held d → d.toInt64? = none → kept d) :
    ∀ a : Value, a.Holds held → a.normalized.Holds kept
  | .null, _ | .bool _, _ | .int _, _ | .string _, _ => trivial
  | .double d, hd => by
    cases hword : d.toInt64? with
    | some i =>
        rw [normalized_double_of_some hword]
        trivial
    | none =>
        rw [normalized_double_of_none hword]
        exact h d hd hword
  | .array items, hitems => holdItems_normalizedItems h items hitems
  | .map fields, hfields => holdFields_normalizedFields h fields hfields

/-- Normal forms of items hold only such doubles as no integer stands for. -/
theorem holdItems_normalizedItems {kept : Double → Prop}
    (h : ∀ d, held d → d.toInt64? = none → kept d) :
    ∀ items : List Value, HoldItems held items → HoldItems kept (normalizedItems items)
  | [], _ => trivial
  | item :: items, hitems =>
    ⟨holds_normalized h item hitems.1, holdItems_normalizedItems h items hitems.2⟩

/-- Normal forms of fields hold only such doubles too. -/
theorem holdFields_normalizedFields {kept : Double → Prop}
    (h : ∀ d, held d → d.toInt64? = none → kept d) :
    ∀ fields : List (String × Value), HoldFields held fields →
      HoldFields kept (normalizedFields fields)
  | [], _ => trivial
  | (_, value) :: fields, hfields =>
    ⟨holds_normalized h value hfields.1, holdFields_normalizedFields h fields hfields.2⟩

end

mutual

/-- A value whose doubles stand for no words is its own normal form. -/
theorem normalized_of_holds (h : ∀ d, held d → d.toInt64? = none) :
    ∀ a : Value, a.Holds held → a.normalized = a
  | .null, _ | .bool _, _ | .int _, _ | .string _, _ => rfl
  | .double d, hd => normalized_double_of_none (h d hd)
  | .array items, hitems => congrArg array (normalizedItems_of_holds h items hitems)
  | .map fields, hfields => congrArg map (normalizedFields_of_holds h fields hfields)

/-- Items without doubles that integers stand for are their own normal forms. -/
theorem normalizedItems_of_holds (h : ∀ d, held d → d.toInt64? = none) :
    ∀ items : List Value, HoldItems held items → normalizedItems items = items
  | [], _ => rfl
  | item :: items, hitems =>
    congrArg₂ List.cons (normalized_of_holds h item hitems.1)
      (normalizedItems_of_holds h items hitems.2)

/-- Fields without such doubles are their own normal forms. -/
theorem normalizedFields_of_holds (h : ∀ d, held d → d.toInt64? = none) :
    ∀ fields : List (String × Value), HoldFields held fields → normalizedFields fields = fields
  | [], _ => rfl
  | (name, value) :: fields, hfields =>
    congrArg₂ (fun value fields => (name, value) :: fields)
      (normalized_of_holds h value hfields.1) (normalizedFields_of_holds h fields hfields.2)

end

mutual

/-- Every value holds doubles of a class that has all of them. -/
theorem holds_of_forall (h : ∀ d, held d) : ∀ a : Value, a.Holds held
  | .null | .bool _ | .int _ | .string _ => trivial
  | .double d => h d
  | .array items => holdItems_of_forall h items
  | .map fields => holdFields_of_forall h fields

/-- Items hold doubles of a class if all doubles are of it. -/
theorem holdItems_of_forall (h : ∀ d, held d) : ∀ items : List Value, HoldItems held items
  | [] => trivial
  | item :: items => ⟨holds_of_forall h item, holdItems_of_forall h items⟩

/-- Fields hold doubles of a class if all doubles are of it. -/
theorem holdFields_of_forall (h : ∀ d, held d) :
    ∀ fields : List (String × Value), HoldFields held fields
  | [] => trivial
  | (_, value) :: fields => ⟨holds_of_forall h value, holdFields_of_forall h fields⟩

end

/-- **The doubles in a normal form stand for no words.** -/
theorem holds_not_isWord_normalized (a : Value) : a.normalized.Holds fun d => ¬d.IsWord :=
  holds_normalized (fun _ _ => Double.toInt64?_eq_none_iff.1) a
    (holds_of_forall (fun _ => trivial : ∀ _, True) a)

/-- **The values that are their own normal forms** are those whose doubles stand for no words. -/
theorem normalized_eq_self_iff {a : Value} : a.normalized = a ↔ a.Holds fun d => ¬d.IsWord :=
  ⟨fun h => h ▸ holds_not_isWord_normalized a,
    normalized_of_holds (fun _ => Double.toInt64?_eq_none_iff.2) a⟩

/-- The normal form of a value is its own normal form. -/
theorem normalized_normalized (a : Value) : a.normalized.normalized = a.normalized :=
  normalized_eq_self_iff.2 (holds_not_isWord_normalized a)

/-! ### The same place -/

/-- An integer has the place of a double that stands for it. -/
theorem compareIntDouble_of_toInt64? {i : Int64} {d : Double} (h : d.toInt64? = some i) :
    compareIntDouble i d = .eq := by
  have hnumber : d.isNaN = false := Double.isNaN_of_isFinite (Double.isFinite_of_toInt64? h)
  rw [compareIntDouble_eq (fun hnan => absurd (hnan.symm.trans hnumber) Bool.noConfusion)
    (Double.ne_integerEnd_of_toInt64? h), Double.units_of_toInt64? h, compare_eq_iff_eq]

/-- An integer has the place of a double exactly if the double stands for it, unless that is
`2 ^ 63`. -/
theorem compareIntDouble_eq_iff {i : Int64} {d : Double} (hend : d ≠ .integerEnd) :
    compareIntDouble i d = .eq ↔ d.toInt64? = some i := by
  refine ⟨fun h => ?_, compareIntDouble_of_toInt64?⟩
  cases hnan : d.isNaN with
  | true =>
      rw [compareIntDouble, if_pos hnan] at h
      cases h
  | false =>
      cases hj : d.toInt64? with
      | none =>
          rw [compareIntDouble, hnan, if_neg Bool.false_ne_true, hj] at h
          have hposition : (Double.ofInt i.toInt).position = d.position := by
            rw [← compare_eq_iff_eq]
            rw [Double.compareReal] at h
            split at h
            · next heq => cases heq
            · exact h
          have hlow := i.le_toInt
          have hhigh := i.toInt_lt
          exact absurd (Double.eq_integerEnd_of_position_eq (by omega) hposition hj) hend
      | some j =>
          have hpos : (0 : Int) < Double.unitsPerOne := by exact_mod_cast Double.unitsPerOne_pos
          rw [compareIntDouble_eq (fun h => absurd (h.symm.trans hnan) Bool.noConfusion) hend,
            compare_eq_iff_eq, Double.units_of_toInt64? hj] at h
          rw [Int64.toInt_inj.1 (Int.eq_of_mul_eq_mul_right hpos.ne' h)]

mutual

/-- **A normal form has the place of the value.** -/
theorem compare_normalized : ∀ a : Value, a.normalized.compare a = .eq
  | .null | .bool _ | .int _ | .string _ => compare_self _
  | .double d => by
    cases hword : d.toInt64? with
    | none =>
        rw [normalized_double_of_none hword]
        exact compare_self _
    | some i =>
        rw [normalized_double_of_some hword]
        exact compareIntDouble_of_toInt64? hword
  | .array items => compareItems_normalizedItems items
  | .map fields => compareFields_normalizedFields fields

/-- Items compare as equal to their normal forms. -/
theorem compareItems_normalizedItems :
    ∀ items : List Value, compareItems (normalizedItems items) items = .eq
  | [] => rfl
  | item :: items => by
    rw [normalizedItems, compareItems, compare_normalized item,
      compareItems_normalizedItems items, Ordering.then_eq]

/-- Fields compare as equal to their normal forms, the names being the same. -/
theorem compareFields_normalizedFields :
    ∀ fields : List (String × Value), compareFields (normalizedFields fields) fields = .eq
  | [] => rfl
  | (name, value) :: fields => by
    rw [normalizedFields, compareFields, Std.ReflOrd.compare_self, compare_normalized value,
      compareFields_normalizedFields fields, Ordering.then_eq, Ordering.then_eq]

end

/-! ### Size -/

mutual

/-- A normal form is charged what the value is charged. -/
theorem sizeEstimate_normalized : ∀ a : Value, a.normalized.sizeEstimate = a.sizeEstimate
  | .null | .bool _ | .int _ | .string _ => rfl
  | .double d => by
    rw [normalized]
    split <;> rfl
  | .array items => congrArg (overhead + ·) (itemsSize_normalizedItems items)
  | .map fields => congrArg (overhead + ·) (fieldsSize_normalizedFields fields)

/-- Normal forms of items have the size of the items. -/
theorem itemsSize_normalizedItems :
    ∀ items : List Value, itemsSize (normalizedItems items) = itemsSize items
  | [] => rfl
  | item :: items =>
    congrArg₂ (· + ·) (sizeEstimate_normalized item) (itemsSize_normalizedItems items)

/-- Normal forms of fields have the size of the fields. -/
theorem fieldsSize_normalizedFields :
    ∀ fields : List (String × Value), fieldsSize (normalizedFields fields) = fieldsSize fields
  | [] => rfl
  | (name, value) :: fields =>
    congrArg₂ (name.utf8ByteSize + · + ·) (sizeEstimate_normalized value)
      (fieldsSize_normalizedFields fields)

end

/-! ### Parts -/

/-- The values that a value is made of, one level down, in their order. -/
def parts : Value → List Value
  | .array items => items
  | .map fields => fields.map (·.2)
  | _ => []

/-- The part of a value at the end of a path. A path leads to the value itself if it is empty, and
else first to the part at its first position. -/
def part? : Value → List Nat → Option Value
  | value, [] => some value
  | value, i :: path => value.parts[i]?.bind fun part => part.part? path

/-- What a value shows of its layout, its parts left out. -/
inductive Layout where
  /-- It has no parts. -/
  | leaf
  /-- It has so many items. -/
  | array (length : Nat)
  /-- It has fields of these names. -/
  | map (names : List String)

/-- The layout of a value, its parts left out. -/
def layout : Value → Layout
  | .array items => .array items.length
  | .map fields => .map (fields.map (·.1))
  | _ => .leaf

/-- The parts of a normal form are the normal forms of the parts. -/
theorem parts_normalized (a : Value) : a.normalized.parts = a.parts.map normalized := by
  cases a with
  | double d =>
      rw [normalized]
      split <;> rfl
  | array items => exact normalizedItems_eq items
  | map fields =>
      rw [normalized, parts, normalizedFields_eq, List.map_map, parts, List.map_map]
      rfl
  | null | bool | int | string => rfl

/-- **The parts of a normal form are the normal forms of the parts**, at any depth. -/
theorem part?_normalized (a : Value) (path : List Nat) :
    a.normalized.part? path = (a.part? path).map normalized := by
  induction path generalizing a with
  | nil => rfl
  | cons i path ih =>
      rw [part?, part?, parts_normalized, List.getElem?_map]
      cases a.parts[i]? with
      | none => rfl
      | some part => exact ih part

/-- The layout of a value stays when its normal form is taken, as this changes scalars only. -/
theorem layout_normalized (a : Value) : a.normalized.layout = a.layout := by
  cases a with
  | double d =>
      rw [normalized]
      split <;> rfl
  | array items =>
      rw [normalized, layout, normalizedItems_eq, List.length_map]
      rfl
  | map fields => exact congrArg Layout.map (map_fst_normalizedFields fields)
  | null | bool | int | string => rfl

/-! ### The only normal form -/

/-- Whether the doubles in a value are those in another one that stand for no words, each at its
old place. -/
def KeepsDoubles (normal value : Value) : Prop :=
  ∀ path d, normal.part? path = some (.double d) ↔ value.part? path = some (.double d) ∧ ¬d.IsWord

/-- The normal form keeps every double that no integer stands for, at whatever depth it stands. -/
theorem keepsDoubles_normalized (value : Value) : value.normalized.KeepsDoubles value := by
  intro path d
  rw [part?_normalized, Option.map_eq_some_iff]
  constructor
  · rintro ⟨part, hpart, hdouble⟩
    obtain ⟨rfl, hword⟩ := normalized_eq_double_iff.1 hdouble
    exact ⟨hpart, hword⟩
  · rintro ⟨hpart, hword⟩
    exact ⟨double d, hpart, normalized_eq_double_iff.2 ⟨rfl, hword⟩⟩

/-- What is kept in a value is kept in each of its parts, where paths are one step shorter. -/
theorem KeepsDoubles.parts {normal value a b : Value} (h : normal.KeepsDoubles value) {i : Nat}
    (ha : normal.parts[i]? = some a) (hb : value.parts[i]? = some b) : a.KeepsDoubles b := by
  intro path d
  have hpath := h (i :: path) d
  rwa [part?, part?, ha, hb] at hpath

/-- What is put in the place of a number is its normal form, if it has its place in the order and
is a double only if the number is one that stands for no word. -/
theorem eq_normalized_of_number {normal value : Value} (hrank : value.rank = 2)
    (hsame : normal.compare value = .eq) (hkeeps : normal.KeepsDoubles value) :
    normal = value.normalized := by
  have hrank' := (rank_eq_of_compare_eq hsame).trans hrank
  cases normal with
  | null | bool | string | array | map => cases hrank'
  | double e =>
      obtain ⟨heq, hword⟩ := (hkeeps [] e).1 rfl
      cases heq
      exact (normalized_eq_double_iff.2 ⟨rfl, hword⟩).symm
  | int i =>
      cases value with
      | null | bool | string | array | map => cases hrank
      | int j =>
          rw [compare, compare_eq_iff_eq, Int64.toInt_inj] at hsame
          exact congrArg int hsame
      | double d =>
          -- A double that stands for no word would still be there.
          have hword : d.IsWord := by
            by_contra hother
            cases (hkeeps [] d).2 ⟨rfl, hother⟩
          obtain ⟨j, hj⟩ := Double.isWord_iff.1 hword
          exact int_eq_normalized_iff.2
            ((compareIntDouble_eq_iff (Double.ne_integerEnd_of_toInt64? hj)).1 hsame)

mutual

/-- **The place in the order and the doubles decide what a normal form is.** -/
theorem eq_normalized : ∀ {normal : Value} (value : Value), normal.compare value = .eq →
    normal.KeepsDoubles value → normal = value.normalized := by
  intro normal value hsame hkeeps
  have hrank := rank_eq_of_compare_eq hsame
  cases value with
  | int | double => exact eq_normalized_of_number rfl hsame hkeeps
  | null =>
      cases normal <;> cases hrank
      rfl
  | bool b =>
      cases normal <;> cases hrank
      next a =>
        rw [compare, compare_eq_iff_eq] at hsame
        cases a <;> cases b <;> first | rfl | cases hsame
  | string s =>
      cases normal <;> cases hrank
      rw [compare, Std.LawfulEqCmp.compare_eq_iff_eq] at hsame
      exact congrArg string hsame
  | array items =>
      cases normal <;> cases hrank
      exact congrArg array (eq_normalizedItems items hsame fun _ _ _ => hkeeps.parts)
  | map fields =>
      cases normal <;> cases hrank
      exact congrArg map (eq_normalizedFields fields hsame fun _ _ _ => hkeeps.parts)

/-- Items that compare as equal to some and keep their doubles are the normal forms of these. -/
theorem eq_normalizedItems : ∀ {normals : List Value} (items : List Value),
    compareItems normals items = .eq →
    (∀ (i : Nat) (a b : Value), normals[i]? = some a → items[i]? = some b → a.KeepsDoubles b) →
    normals = normalizedItems items
  | [], [], _, _ => rfl
  | [], _ :: _, hsame, _ => nomatch hsame
  | _ :: _, [], hsame, _ => nomatch hsame
  | _ :: _, item :: items, hsame, hkeeps => by
    obtain ⟨hfirst, hothers⟩ := Ordering.then_eq_eq.1 hsame
    rw [normalizedItems, ← eq_normalized item hfirst (hkeeps 0 _ _ rfl rfl),
      ← eq_normalizedItems items hothers fun i => hkeeps (i + 1)]

/-- Fields that compare as equal to some and keep their doubles are the normal forms of these. -/
theorem eq_normalizedFields : ∀ {normals : List (String × Value)} (fields : List (String × Value)),
    compareFields normals fields = .eq →
    (∀ (i : Nat) (a b : Value), (normals.map (·.2))[i]? = some a → (fields.map (·.2))[i]? = some b →
      a.KeepsDoubles b) →
    normals = normalizedFields fields
  | [], [], _, _ => rfl
  | [], _ :: _, hsame, _ => nomatch hsame
  | _ :: _, [], hsame, _ => nomatch hsame
  | (_, _) :: _, (name, value) :: fields, hsame, hkeeps => by
    obtain ⟨hfirst, hothers⟩ := Ordering.then_eq_eq.1 hsame
    obtain ⟨hname, hvalue⟩ := Ordering.then_eq_eq.1 hfirst
    rw [normalizedFields, ← Std.LawfulEqCmp.compare_eq_iff_eq.1 hname,
      ← eq_normalized value hvalue (hkeeps 0 _ _ rfl rfl),
      ← eq_normalizedFields fields hothers fun i => hkeeps (i + 1)]

end

/-- Whether a value is what another one is turned into. -/
structure IsNormalFormOf (normal value : Value) : Prop where
  /-- It has the same place in the order. -/
  same : normal.compare value = .eq
  /-- It is not turned into something else again. -/
  settled : normal.normalized = normal
  /-- At any depth, its doubles are those of the value that stand for no words. -/
  doubles : normal.KeepsDoubles value
  /-- It is charged the same memory. -/
  size : normal.sizeEstimate = value.sizeEstimate
  /-- At any depth, arrays have the same lengths and maps the same names. -/
  layout (path : List Nat) :
    (normal.part? path).map Value.layout = (value.part? path).map Value.layout

/-- **Every value has one normal form**: `Value.normalized` is equal to it in the order, settled,
without doubles that stand for words, and of the same size and layout, and no other value is. -/
theorem isNormalFormOf_iff {normal value : Value} :
    normal.IsNormalFormOf value ↔ normal = value.normalized := by
  refine ⟨fun h => eq_normalized value h.same h.doubles, ?_⟩
  rintro rfl
  refine ⟨compare_normalized value, normalized_normalized value, keepsDoubles_normalized value,
    sizeEstimate_normalized value, fun path => ?_⟩
  rw [part?_normalized, Option.map_map]
  exact congrArg (Option.map · (value.part? path)) (funext layout_normalized)

/-- Both zeros and `-2 ^ 63` stand for words, and `2 ^ 63` does not. -/
example :
    (array [.double (.zero true), .double (.zero false),
      .map [("end", .double .integerEnd), ("least", .double Double.integerEnd.neg)]]).normalized =
    array [.int 0, .int 0,
      .map [("end", .double .integerEnd), ("least", .int Int64.minValue)]] := by
  rfl

end ShardQuery.Value
