import ShardQuery.Proofs.Value.Codec
import ShardQuery.Proofs.Value.NormalForm

/-!
# Which Values Are the Same

There are three ways to tell that two values are the same: they have the same place in the order,
their normal forms have the same text, or their normal forms have the same place in the order.
Sorting and grouping go by the first, dropping repeated rows by the second or the third. The three
are meant to agree, and as far as they do, each of them says that the normal forms are equal. Four
mixtures of values spoil it:

* both zeros: their normal forms are the integer `0`, and yet the one comes before the other;
* the double `2 ^ 63` with the signed words that are rounded to it: it is equal to them, but its
  text is another one;
* two different non-numbers: their texts are the same;
* a double that is not finite with a map that is nothing but its name: their texts are the same.

Main definitions:

* `Value.AgreeOnSame` — the three ways agree on two values;
* `Double.Discerned` — a class of doubles and of names without the four mixtures.

## Main results

* `Value.compare_eq_iff`: values with the same place are those with the same normal form.
* `Value.toJson_inj`: values with the same document are equal.
* `Value.agreeOnSame_iff_discerned`: the three ways agree exactly over the discerned classes.
-/

namespace ShardQuery

/-- A class of doubles, and of names that maps may have, in which all ways to tell that values are
the same agree. -/
structure Double.Discerned (held : Double → Prop) (named : String → Prop) : Prop where
  /-- It has only one zero. -/
  zero : ¬(held (.zero true) ∧ held (.zero false))
  /-- It lacks `2 ^ 63`. -/
  not_integerEnd : ¬held .integerEnd
  /-- It has only one non-number. -/
  nan : ∀ a b, held a → held b → a.isNaN = true → b.isNaN = true → a = b
  /-- It has no double together with its name. -/
  unnamed : ∀ d, held d → d.isFinite = false → ¬named (Value.nonFiniteName d)

/-! ### Documents -/

/-- Writable documents with the same text are equal, as reading one of them gives both. -/
theorem Json.render_inj {a b : Json} (ha : IsWritable a) (hb : IsWritable b)
    (h : a.render = b.render) : a = b :=
  eq_of_octets ha hb (congrArg utf8Octets h)

/-! ### Doubles -/

namespace Double

/-- Only a double itself has its place in the order of all bit patterns. -/
theorem totalCompare_eq_iff {a b : Double} : a.totalCompare b = .eq ↔ a = b := by
  refine ⟨fun h => ?_, fun h => h ▸ compare_eq_iff_eq.2 rfl⟩
  have hposition : a.totalPosition = b.totalPosition := compare_eq_iff_eq.1 h
  rw [totalPosition, totalPosition] at hposition
  have hsign : a.isNegative = b.isNegative := by
    cases ha : a.isNegative <;> cases hb : b.isNegative <;>
      simp only [ha, hb, if_true, if_false, Bool.false_eq_true] at hposition ⊢ <;> omega
  have hmagnitude : a.magnitude = b.magnitude := by
    rw [hsign] at hposition
    split at hposition <;> omega
  rw [← ofMagnitude_magnitude a, ← ofMagnitude_magnitude b, hsign, hmagnitude]

end Double

namespace Value

/-! ### Classes of values -/

mutual

/-- All maps in a value that are nothing but a name have one of a class. -/
def NamesOnly (named : String → Prop) : Value → Prop
  | .array items => ItemsNameOnly named items
  | .map fields =>
    (∀ name, fields = [(nonFiniteField, .string name)] → named name) ∧ FieldsNameOnly named fields
  | _ => True

/-- All maps in the items of an array that are nothing but a name have one of a class. -/
def ItemsNameOnly (named : String → Prop) : List Value → Prop
  | [] => True
  | item :: items => NamesOnly named item ∧ ItemsNameOnly named items

/-- All maps in the fields of a map that are nothing but a name have one of a class. -/
def FieldsNameOnly (named : String → Prop) : List (String × Value) → Prop
  | [] => True
  | (_, value) :: fields => NamesOnly named value ∧ FieldsNameOnly named fields

end

/-- Whether all ways to tell that two values are the same agree on them. -/
structure AgreeOnSame (a b : Value) : Prop where
  /-- The values have the same place exactly if their normal forms have the same text. -/
  text_iff : a.compare b = .eq ↔ a.normalized.render = b.normalized.render
  /-- The values have the same place exactly if their normal forms have. -/
  normalized_iff : a.compare b = .eq ↔ a.normalized.compare b.normalized = .eq

variable {held : Double → Prop} {named : String → Prop}

/-! ### Names in normal forms -/

/-- A value whose normal form is a text is this text. -/
theorem eq_string_of_normalized {a : Value} {s : String} (h : a.normalized = .string s) :
    a = .string s := by
  cases a with
  | double d =>
      rw [normalized] at h
      split at h <;> cases h
  | array | map => cases h
  | null | bool | int | string => exact h

/-- A map whose normal form is nothing but a name is so itself. -/
theorem eq_name_of_normalizedFields {fields : List (String × Value)} {field name : String}
    (h : normalizedFields fields = [(field, .string name)]) : fields = [(field, .string name)] := by
  match fields with
  | [] => cases h
  | [(first, value)] =>
      simp only [normalizedFields, List.cons.injEq, Prod.mk.injEq, and_true] at h
      rw [h.1, eq_string_of_normalized h.2]
  | _ :: _ :: _ => simp only [normalizedFields, List.cons.injEq, reduceCtorEq, and_false] at h

mutual

/-- A normal form has no other names, since it is only doubles that change. -/
theorem namesOnly_normalized : ∀ a : Value, a.NamesOnly named → a.normalized.NamesOnly named
  | .null, _ | .bool _, _ | .int _, _ | .string _, _ => trivial
  | .double d, _ => by
    rw [normalized]
    split <;> trivial
  | .array items, h => itemsNameOnly_normalizedItems items h
  | .map fields, h =>
    ⟨fun name hname => h.1 name (eq_name_of_normalizedFields hname),
      fieldsNameOnly_normalizedFields fields h.2⟩

/-- The normal forms of items have no other names. -/
theorem itemsNameOnly_normalizedItems : ∀ items : List Value,
    ItemsNameOnly named items → ItemsNameOnly named (normalizedItems items)
  | [], _ => trivial
  | item :: items, h => ⟨namesOnly_normalized item h.1, itemsNameOnly_normalizedItems items h.2⟩

/-- The normal forms of fields have no other names. -/
theorem fieldsNameOnly_normalizedFields : ∀ fields : List (String × Value),
    FieldsNameOnly named fields → FieldsNameOnly named (normalizedFields fields)
  | [], _ => trivial
  | (_, value) :: fields, h =>
    ⟨namesOnly_normalized value h.1, fieldsNameOnly_normalizedFields fields h.2⟩

end

/-! ### The same place -/

/-- Doubles with the same normal form are equal, if they are not zeros of different signs. -/
theorem double_inj_of_normalized {a b : Double} (hzero : a.isZero = true → b.isZero = true → a = b)
    (h : (double a).normalized = (double b).normalized) : a = b := by
  cases ha : a.toInt64? with
  | none =>
      cases hb : b.toInt64? with
      | none =>
          rw [normalized_double_of_none ha, normalized_double_of_none hb] at h
          exact double.inj h
      | some j =>
          rw [normalized_double_of_none ha, normalized_double_of_some hb] at h
          cases h
  | some i =>
      cases hb : b.toInt64? with
      | none =>
          rw [normalized_double_of_some ha, normalized_double_of_none hb] at h
          cases h
      | some j =>
          rw [normalized_double_of_some ha, normalized_double_of_some hb] at h
          cases h
          rw [← Double.totalCompare_eq_iff, Double.compare_units hzero,
            Double.units_of_toInt64? ha, Double.units_of_toInt64? hb, compare_eq_iff_eq]

/-- Values of different types are told apart in both ways. -/
theorem compare_eq_iff_of_rank_ne {a b : Value} (h : a.rank ≠ b.rank) :
    a.compare b = .eq ↔ a.normalized = b.normalized := by
  constructor
  · intro hcompare
    exact absurd (rank_eq_of_compare_eq hcompare) h
  · intro hnormalized
    exact absurd (by rw [← rank_normalized a, ← rank_normalized b, hnormalized]) h

mutual

/-- **Values with the same place in the order are those with the same normal form**, unless they
hold both zeros or `2 ^ 63`. -/
theorem compare_eq_iff (hzero : ∀ a b : Double, held a → held b → a.isZero = true →
    b.isZero = true → a = b) (hend : ∀ d, held d → d ≠ .integerEnd) :
    ∀ a b : Value, a.Holds held → b.Holds held →
      (a.compare b = .eq ↔ a.normalized = b.normalized) := by
  intro a b ha hb
  by_cases hrank : a.rank = b.rank
  · cases a with
    | null =>
        cases b <;> cases hrank
        exact ⟨fun _ => rfl, fun _ => rfl⟩
    | bool a =>
        cases b <;> cases hrank
        next b =>
          rw [compare, compare_eq_iff_eq]
          refine ⟨fun h => ?_, fun h => bool.inj h ▸ rfl⟩
          cases a <;> cases b <;> first | rfl | cases h
    | int i =>
        cases b <;> cases hrank
        · next j =>
            rw [compare, compare_eq_iff_eq, Int64.toInt_inj]
            exact ⟨fun h => h ▸ rfl, int.inj⟩
        · next d =>
            rw [compare, compareIntDouble_eq_iff (hend d hb), ← int_eq_normalized_iff]
            rfl
    | double d =>
        cases b <;> cases hrank
        · next i =>
            rw [compare, Ordering.swap_eq_eq, compareIntDouble_eq_iff (hend d ha),
              ← int_eq_normalized_iff, eq_comm]
            rfl
        · next e =>
            rw [compare, Double.totalCompare_eq_iff]
            exact ⟨fun h => h ▸ rfl, double_inj_of_normalized (hzero d e ha hb)⟩
    | string s =>
        cases b <;> cases hrank
        rw [compare, Std.LawfulEqCmp.compare_eq_iff_eq]
        exact ⟨fun h => h ▸ rfl, string.inj⟩
    | array items =>
        cases b <;> cases hrank
        rw [compare, normalized, normalized, array.injEq]
        exact compareItems_eq_iff hzero hend items _ ha hb
    | map fields =>
        cases b <;> cases hrank
        rw [compare, normalized, normalized, map.injEq]
        exact compareFields_eq_iff hzero hend fields _ ha hb
  · exact compare_eq_iff_of_rank_ne hrank

/-- Arrays with the same place are those whose items have the same normal forms. -/
theorem compareItems_eq_iff (hzero : ∀ a b : Double, held a → held b → a.isZero = true →
    b.isZero = true → a = b) (hend : ∀ d, held d → d ≠ .integerEnd) :
    ∀ as bs : List Value, HoldItems held as → HoldItems held bs →
      (compareItems as bs = .eq ↔ normalizedItems as = normalizedItems bs)
  | [], [], _, _ => ⟨fun _ => rfl, fun _ => rfl⟩
  | [], _ :: _, _, _ => ⟨nofun, nofun⟩
  | _ :: _, [], _, _ => ⟨nofun, nofun⟩
  | a :: as, b :: bs, ha, hb => by
    rw [compareItems, Ordering.then_eq_eq, normalizedItems, normalizedItems, List.cons.injEq,
      compare_eq_iff hzero hend a b ha.1 hb.1, compareItems_eq_iff hzero hend as bs ha.2 hb.2]

/-- Maps with the same place are those whose fields have the same names and normal forms. -/
theorem compareFields_eq_iff (hzero : ∀ a b : Double, held a → held b → a.isZero = true →
    b.isZero = true → a = b) (hend : ∀ d, held d → d ≠ .integerEnd) :
    ∀ as bs : List (String × Value), HoldFields held as → HoldFields held bs →
      (compareFields as bs = .eq ↔ normalizedFields as = normalizedFields bs)
  | [], [], _, _ => ⟨fun _ => rfl, fun _ => rfl⟩
  | [], _ :: _, _, _ => ⟨nofun, nofun⟩
  | _ :: _, [], _, _ => ⟨nofun, nofun⟩
  | (m, a) :: as, (n, b) :: bs, ha, hb => by
    rw [compareFields, Ordering.then_eq_eq, Ordering.then_eq_eq,
      Std.LawfulEqCmp.compare_eq_iff_eq, normalizedFields, normalizedFields, List.cons.injEq,
      Prod.mk.injEq, compare_eq_iff hzero hend a b ha.1 hb.1,
      compareFields_eq_iff hzero hend as bs ha.2 hb.2]

end

/-! ### The same text -/

/-- A value whose document is a text is this text. A double that is not finite is written as an
object. -/
theorem eq_string_of_toJson {a : Value} {s : String} (h : a.toJson = .string s) :
    a = .string s := by
  cases a with
  | double d =>
      rw [toJson] at h
      split at h <;> cases h
  | string => exact congrArg string (Json.string.inj h)
  | null | bool | int | array | map => cases h

/-- Doubles with the same document are equal, if they are not different non-numbers. -/
theorem double_inj_of_toJson {a b : Double} (hnan : a.isNaN = true → b.isNaN = true → a = b)
    (h : (double a).toJson = (double b).toJson) : a = b := by
  have hreread : a.reread = b.reread :=
    double.inj (Option.some.inj ((ofJson?_toJson (.double a)).symm.trans
      ((congrArg _ h).trans (ofJson?_toJson (.double b)))))
  rw [Double.reread, Double.reread] at hreread
  split at hreread
  · next ha =>
      split at hreread
      · next hb => exact hnan ha hb
      · next hb => exact absurd (hreread ▸ (by decide : Double.nan.isNaN = true)) hb
  · next ha =>
      split at hreread
      · next hb => exact absurd (hreread ▸ (by decide : Double.nan.isNaN = true)) ha
      · exact hreread

/-- A map with the document of a double is nothing but its name. -/
theorem eq_name_of_toJson {d : Double} {fields : List (String × Value)}
    (h : (double d).toJson = (map fields).toJson) :
    d.isFinite = false ∧ fields = [(nonFiniteField, .string (nonFiniteName d))] := by
  rw [toJson, toJson] at h
  split at h
  · cases h
  · next hfinite =>
      refine ⟨Bool.eq_false_iff.2 hfinite, ?_⟩
      match fields with
      | [] => cases h
      | [(name, value)] =>
          simp only [fieldsToJson, Json.object.injEq, List.cons.injEq, Prod.mk.injEq,
            and_true] at h
          rw [← h.1, eq_string_of_toJson h.2.symm]
      | _ :: _ :: _ =>
          simp only [fieldsToJson, Json.object.injEq, List.cons.injEq, reduceCtorEq,
            and_false] at h

mutual

/-- **Values of a discerned class with the same document are equal.** -/
theorem toJson_inj (h : Double.Discerned held named) :
    ∀ a b : Value, a.Holds held → b.Holds held → a.NamesOnly named → b.NamesOnly named →
      a.toJson = b.toJson → a = b := by
  intro a b ha hb hna hnb heq
  have hunnamed (d : Double) (fields : List (String × Value)) (hd : held d)
      (hfields : (map fields).NamesOnly named) :
      (double d).toJson ≠ (map fields).toJson := by
    intro heq
    obtain ⟨hfinite, hname⟩ := eq_name_of_toJson heq
    exact h.unnamed d hd hfinite (hfields.1 _ hname)
  cases a with
  | null | bool | string =>
      cases b with
      | null | bool | int | string | array | map =>
          cases heq
          try rfl
      | double d =>
          rw [toJson, toJson] at heq
          split at heq <;> cases heq
  | int i =>
      cases b with
      | int j => rw [Int64.toInt_inj.1 (Json.int.inj heq)]
      | null | bool | string | array | map => cases heq
      | double d =>
          rw [toJson, toJson] at heq
          split at heq <;> cases heq
  | double d =>
      cases b with
      | double e => rw [double_inj_of_toJson (h.nan d e ha hb) heq]
      | map fields => exact absurd heq (hunnamed d fields ha hnb)
      | null | bool | int | string | array =>
          rw [toJson, toJson] at heq
          split at heq <;> cases heq
  | array items =>
      cases b with
      | array others =>
          rw [itemsToJson_inj h items others ha hb hna hnb (Json.array.inj heq)]
      | null | bool | int | string | map => cases heq
      | double d =>
          rw [toJson, toJson] at heq
          split at heq <;> cases heq
  | map fields =>
      cases b with
      | map others =>
          rw [fieldsToJson_inj h fields others ha hb hna.2 hnb.2 (Json.object.inj heq)]
      | double d => exact absurd heq.symm (hunnamed d fields hb hna)
      | null | bool | int | string | array => cases heq

/-- Items of a discerned class with the same documents are equal. -/
theorem itemsToJson_inj (h : Double.Discerned held named) :
    ∀ as bs : List Value, HoldItems held as → HoldItems held bs → ItemsNameOnly named as →
      ItemsNameOnly named bs → itemsToJson as = itemsToJson bs → as = bs
  | [], [], _, _, _, _, _ => rfl
  | [], _ :: _, _, _, _, _, heq => nomatch heq
  | _ :: _, [], _, _, _, _, heq => nomatch heq
  | a :: as, b :: bs, ha, hb, hna, hnb, heq => by
    obtain ⟨hfirst, hrest⟩ := List.cons.inj heq
    rw [toJson_inj h a b ha.1 hb.1 hna.1 hnb.1 hfirst,
      itemsToJson_inj h as bs ha.2 hb.2 hna.2 hnb.2 hrest]

/-- Fields of a discerned class with the same documents are equal. -/
theorem fieldsToJson_inj (h : Double.Discerned held named) :
    ∀ as bs : List (String × Value), HoldFields held as → HoldFields held bs →
      FieldsNameOnly named as → FieldsNameOnly named bs → fieldsToJson as = fieldsToJson bs →
      as = bs
  | [], [], _, _, _, _, _ => rfl
  | [], _ :: _, _, _, _, _, heq => nomatch heq
  | _ :: _, [], _, _, _, _, heq => nomatch heq
  | (m, a) :: as, (n, b) :: bs, ha, hb, hna, hnb, heq => by
    obtain ⟨hfirst, hrest⟩ := List.cons.inj heq
    obtain ⟨hname, hvalue⟩ := Prod.mk.inj hfirst
    rw [hname, toJson_inj h a b ha.1 hb.1 hna.1 hnb.1 hvalue,
      fieldsToJson_inj h as bs ha.2 hb.2 hna.2 hnb.2 hrest]

end

/-! ### Agreement -/

/-- Over a discerned class, all ways to tell that values are the same agree. -/
theorem agreeOnSame_of_discerned (h : Double.Discerned held named) {a b : Value}
    (ha : a.Holds held) (hb : b.Holds held) (hna : a.NamesOnly named) (hnb : b.NamesOnly named) :
    AgreeOnSame a b := by
  have hcompare (a b : Value) (ha : a.Holds held) (hb : b.Holds held) :
      a.compare b = .eq ↔ a.normalized = b.normalized :=
    compare_eq_iff (fun _ _ hd he => Double.eq_of_isZero h.zero hd he)
      (fun _ hd heq => h.not_integerEnd (heq ▸ hd)) a b ha hb
  have hnormal : a.normalized.Holds held := holds_normalized (fun _ hd _ => hd) a ha
  have hnormal' : b.normalized.Holds held := holds_normalized (fun _ hd _ => hd) b hb
  refine ⟨(hcompare a b ha hb).trans ⟨fun heq => congrArg render heq, fun htext => ?_⟩, ?_⟩
  · exact toJson_inj h _ _ hnormal hnormal' (namesOnly_normalized a hna)
      (namesOnly_normalized b hnb)
      (Json.render_inj (isWritable_toJson _) (isWritable_toJson _) htext)
  · rw [hcompare a b ha hb, hcompare _ _ hnormal hnormal', normalized_normalized,
      normalized_normalized]

/-- A class over which all ways to tell that values are the same agree is discerned. -/
theorem discerned_of_agreeOnSame
    (h : ∀ a b : Value, a.Holds held → b.Holds held → a.NamesOnly named → b.NamesOnly named →
      AgreeOnSame a b) : Double.Discerned held named where
  zero hzeros := by
    have hsame := (h (.double (.zero true)) (.double (.zero false)) hzeros.1 hzeros.2 trivial
      trivial).normalized_iff.2 (by decide)
    exact absurd hsame (by decide)
  not_integerEnd hend := by
    have hagree := h (.int Int64.maxValue) (.double .integerEnd) trivial hend trivial trivial
    have hnormal : (double .integerEnd).normalized = double .integerEnd :=
      normalized_double_of_none (by decide)
    have htext := hagree.text_iff.1 (by decide)
    rw [hnormal] at htext
    have hjson := Json.render_inj (isWritable_toJson _) (isWritable_toJson _) htext
    rw [toJson, if_pos Double.isFinite_integerEnd] at hjson
    cases hjson
  nan a b ha hb hnana hnanb := by
    have hnormal (d : Double) (hnan : d.isNaN = true) : (double d).normalized.toJson =
        .object [(nonFiniteField, .string "NaN")] := by
      have hfinite := Double.isFinite_of_isNaN hnan
      rw [normalized_double_of_none (Double.toInt64?_of_not_isFinite hfinite), toJson,
        if_neg (by simp [hfinite]), nonFiniteName, if_pos hnan]
    have htext : (double a).normalized.render = (double b).normalized.render := by
      rw [render, render, hnormal a hnana, hnormal b hnanb]
    exact Double.totalCompare_eq_iff.1
      ((h (.double a) (.double b) ha hb trivial trivial).text_iff.2 htext)
  unnamed d hd hfinite hname := by
    have hnames : (map [(nonFiniteField, .string (nonFiniteName d))]).NamesOnly named := by
      refine ⟨fun name heq => ?_, trivial, trivial⟩
      simp only [List.cons.injEq, Prod.mk.injEq, string.injEq, true_and, and_true] at heq
      exact heq ▸ hname
    have hagree := h (.double d) (.map [(nonFiniteField, .string (nonFiniteName d))]) hd
      ⟨trivial, trivial⟩ trivial hnames
    have htext : (double d).normalized.render =
        (map [(nonFiniteField, .string (nonFiniteName d))]).normalized.render := by
      rw [normalized_double_of_none (Double.toInt64?_of_not_isFinite hfinite), render, toJson,
        if_neg (by simp [hfinite])]
      rfl
    cases hagree.text_iff.2 htext

/-- **The three ways to tell that values are the same agree exactly over the discerned classes.**
These do not have both zeros, nor `2 ^ 63`, nor different non-numbers, nor a double that is not
finite together with a map that is nothing but its name. -/
theorem agreeOnSame_iff_discerned (held : Double → Prop) (named : String → Prop) :
    (∀ a b : Value, a.Holds held → b.Holds held → a.NamesOnly named → b.NamesOnly named →
      AgreeOnSame a b) ↔ Double.Discerned held named :=
  ⟨discerned_of_agreeOnSame,
    fun h _ _ ha hb hna hnb => agreeOnSame_of_discerned h ha hb hna hnb⟩

/-- Zeros of different signs have the same normal form, and yet one comes before the other. -/
theorem not_agreeOnSame_zeros :
    (double (.zero false)).compare (double (.zero true)) = .gt ∧
      (double (.zero false)).normalized.render = "0" ∧
      (double (.zero true)).normalized.render = "0" ∧
      (double (.zero false)).normalized.compare (double (.zero true)).normalized = .eq ∧
      ¬∀ a b : Value, AgreeOnSame a b := by
  refine ⟨by decide, by decide, by decide, by decide, fun h => ?_⟩
  have hsame := (h (double (.zero false)) (double (.zero true))).normalized_iff.2 (by decide)
  exact absurd hsame (by decide)

end Value

end ShardQuery
