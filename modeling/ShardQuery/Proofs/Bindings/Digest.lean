import ShardQuery.Proofs.Bindings.Calls
import ShardQuery.Proofs.Value.RoundTrip

/-!
# What the Digest of Bind Variables Is Made Of

The digest of bind variables is the hash of the octets of their document. For values that have been
read, these octets tell the variables apart: whatever has been called, and in whatever order, they
are the same exactly if the last call for every variable has given the same value.

Main definitions:

* `Bindings.encoding` — the octets that are hashed.

## Main results

* `Bindings.toJson_inj`: the document of portable values determines the bind variables.
* `Bindings.encoding_afterCalls_eq_iff`: which calls lead to the same octets.
-/

namespace ShardQuery

/-- The decimal text of a position determines the position. The document of bind variables has these
texts as the names of its members. -/
theorem repr_toNat_inj {p q : UInt32} (h : Nat.repr p.toNat = Nat.repr q.toNat) : p = q := by
  have hdigits : Nat.toDigits 10 p.toNat = Nat.toDigits 10 q.toNat := by
    rw [← Nat.toList_repr, ← Nat.toList_repr, h]
  have hnumber : p.toNat = q.toNat := by
    rw [← Nat.ofDigitChars_ten_toDigits (n := p.toNat), hdigits, Nat.ofDigitChars_ten_toDigits]
  exact UInt32.toNat_inj.1 hnumber

namespace Bindings

variable {a b : Bindings}

/-! ### Documents -/

/-- The positional variables as fields whose names are the positions. -/
def positionalFields (bindings : Bindings) : List (String × Value) :=
  bindings.positional.map fun entry => (Nat.repr entry.1.toNat, entry.2)

/-- The document of bind variables in terms of fields: both maps are members, and each is left out
where it is empty. -/
theorem toJson_eq (bindings : Bindings) : bindings.toJson =
    .object (objectMember "named" (Value.fieldsToJson bindings.named) ++
      objectMember "positional" (Value.fieldsToJson bindings.positionalFields)) := by
  have hmembers (entries : List (UInt32 × Value)) :
      (entries.map fun entry => (Nat.repr entry.1.toNat, entry.2.toJson)) =
        Value.fieldsToJson (entries.map fun entry => (Nat.repr entry.1.toNat, entry.2)) := by
    induction entries with
    | nil => rfl
    | cons entry entries ih => rw [List.map_cons, ih, List.map_cons, Value.fieldsToJson]
  rw [toJson, hmembers, positionalFields]

/-- The fields made of positional variables determine them, names and values alike. -/
theorem positional_inj (h : a.positionalFields = b.positionalFields) :
    a.positional = b.positional := by
  refine List.map_injective_iff.2 (fun entry other heq => ?_) h
  obtain ⟨hposition, hvalue⟩ := Prod.mk.inj heq
  exact Prod.ext (repr_toNat_inj hposition) hvalue

/-- A member that is left out when it is empty still determines its contents, since a present one is
never empty. -/
theorem objectMember_inj {name : String} {members others : List (String × Json)}
    (h : objectMember name members = objectMember name others) : members = others := by
  cases members with
  | nil =>
      cases others with
      | nil => rfl
      | cons => cases h
  | cons member members =>
      cases others with
      | nil => cases h
      | cons other others => simpa [objectMember] using h

/-- The members of a name are those of its part. -/
theorem filter_objectMember (name other : String) (members : List (String × Json)) :
    (objectMember name members).filter (·.1 == other) =
      if name = other then objectMember name members else [] := by
  cases members with
  | nil => simp [objectMember]
  | cons member members =>
      by_cases h : name = other
      · simp [objectMember, h]
      · simp [objectMember, h]

/-- The two parts of a document can be told apart by their names. -/
theorem objectMembers_inj {named named' positional positional' : List (String × Json)}
    (h : objectMember "named" named ++ objectMember "positional" positional =
      objectMember "named" named' ++ objectMember "positional" positional') :
    named = named' ∧ positional = positional' := by
  have hfilter (name : String) := congrArg (List.filter (·.1 == name)) h
  simp only [List.filter_append, filter_objectMember] at hfilter
  constructor
  · exact objectMember_inj (by simpa using hfilter "named")
  · exact objectMember_inj (by simpa using hfilter "positional")

/-- **The document of portable values determines the bind variables.** -/
theorem toJson_inj (ha : a.All Value.IsPortable) (hb : b.All Value.IsPortable)
    (h : a.toJson = b.toJson) : a = b := by
  rw [toJson_eq, toJson_eq, Json.object.injEq] at h
  obtain ⟨hnamed, hpositional⟩ := objectMembers_inj h
  have hfields {bindings : Bindings} (hall : bindings.All Value.IsPortable) :
      ∀ field ∈ bindings.positionalFields, field.2.IsPortable :=
    List.forall_mem_map.2 hall.positional
  rw [Bindings.mk.injEq]
  constructor
  · exact Value.fieldsToJson_inj_of_portable ha.named hb.named hnamed
  · exact positional_inj (Value.fieldsToJson_inj_of_portable (hfields ha) (hfields hb) hpositional)

/-- A member that may be left out is writable in front of writable ones, if its own members are. -/
theorem areMembersWritable_objectMember {name : String} {members rest : List (String × Json)}
    (hmembers : Json.AreMembersWritable members) (hrest : Json.AreMembersWritable rest) :
    Json.AreMembersWritable (objectMember name members ++ rest) := by
  rw [objectMember]
  split
  · exact hrest
  · exact ⟨hmembers, hrest⟩

/-- The documents of bind variables are writable, whatever values are bound, so they can be read
back from their text. -/
theorem isWritable_toJson (bindings : Bindings) : Json.IsWritable bindings.toJson := by
  rw [toJson_eq, ← List.append_nil (objectMember "positional" _)]
  exact areMembersWritable_objectMember (Value.areMembersWritable_fieldsToJson _)
    (areMembersWritable_objectMember (Value.areMembersWritable_fieldsToJson _) trivial)

/-! ### Octets -/

/-- The octets that are hashed: the text of the document, in UTF-8. -/
def encoding (bindings : Bindings) : List UInt8 :=
  utf8Octets bindings.render

/-- The digest is the hash of the octets, so that everything said about them carries over to it. -/
theorem digest_eq (bindings : Bindings) : bindings.digest = Sha256.hash bindings.encoding := rfl

/-- Only equal bind variables have the same octets, if their values are portable. -/
theorem encoding_inj (ha : a.All Value.IsPortable) (hb : b.All Value.IsPortable)
    (h : a.encoding = b.encoding) : a = b := by
  have hjson : a.toJson = b.toJson :=
    Json.eq_of_octets a.isWritable_toJson b.isWritable_toJson h
  exact toJson_inj ha hb hjson

/-- **Which calls lead to the same octets**: those that end up binding the same variables to the
same values, in whatever order and whatever else they have bound in between. -/
theorem encoding_afterCalls_eq_iff {calls others : List BindCall}
    (hcalls : ∀ c ∈ calls, c.value.IsRead) (hothers : ∀ c ∈ others, c.value.IsRead) :
    (empty.afterCalls calls).encoding = (empty.afterCalls others).encoding ↔
      ∀ ref, lastValue? calls ref = lastValue? others ref := by
  have hget (calls : List BindCall) (ref : BindRef) :
      (empty.afterCalls calls).get? ref = lastValue? calls ref := by
    have hnone : empty.get? ref = none := by cases ref <;> rfl
    rw [get?_afterCalls, hnone, Option.or_none]
  have hportable {calls : List BindCall} (h : ∀ c ∈ calls, c.value.IsRead) :
      (empty.afterCalls calls).All Value.IsPortable :=
    (all_empty _).afterCalls fun c hmem => (Value.isRead_iff.1 (h c hmem)).1
  constructor
  · intro h ref
    rw [← hget calls, ← hget others, encoding_inj (hportable hcalls) (hportable hothers) h]
  · intro h
    refine congrArg encoding (eq_of_get? (isOrdered_empty.afterCalls calls)
      (isOrdered_empty.afterCalls others) (isFit_afterCalls_iff.2 isFit_empty)
      (isFit_afterCalls_iff.2 isFit_empty) fun ref => ?_)
    rw [hget, hget, h]

/-- Calls that overwrite a name which the first of them has bound, with a different number of dollar
signs. -/
def overwriting : List BindCall :=
  [.byName "$x" .null, .byPosition 1 (.bool true), .byName "x" (.int 1)]

/-- Calls that bind the same variables in another order. -/
def straight : List BindCall :=
  [.byName "$$x" (.int 1), .byPosition 1 (.bool true)]

/-- Calls that bind the same variables, the name to a double. -/
def inexact : List BindCall :=
  [.byName "x" (.double ⟨0x3ff0000000000000⟩), .byPosition 1 (.bool true)]

/-- What has been overwritten and the order do not matter, but the integer is told from the
double. -/
theorem encoding_overwriting : (∀ c ∈ overwriting, c.value.IsRead) ∧
    (∀ c ∈ straight, c.value.IsRead) ∧ (∀ c ∈ inexact, c.value.IsRead) ∧
    (empty.afterCalls overwriting).encoding = (empty.afterCalls straight).encoding ∧
    (empty.afterCalls overwriting).encoding ≠ (empty.afterCalls inexact).encoding := by
  have hnull : Value.null.IsRead := Value.isRead_iff.2 ⟨trivial, by decide⟩
  have htrue : (Value.bool true).IsRead := Value.isRead_iff.2 ⟨trivial, by decide⟩
  have hint : (Value.int 1).IsRead := Value.isRead_iff.2 ⟨trivial, by decide⟩
  have hdouble : (Value.double ⟨0x3ff0000000000000⟩).IsRead :=
    Value.isRead_iff.2 ⟨fun hnan => absurd hnan (by decide), by decide⟩
  have hoverwriting : ∀ c ∈ overwriting, c.value.IsRead := by
    simp [overwriting, BindCall.value, hnull, htrue, hint]
  have hstraight : ∀ c ∈ straight, c.value.IsRead := by
    simp [straight, BindCall.value, htrue, hint]
  have hinexact : ∀ c ∈ inexact, c.value.IsRead := by
    simp [inexact, BindCall.value, htrue, hdouble]
  refine ⟨hoverwriting, hstraight, hinexact, ?_, ?_⟩
  · refine (encoding_afterCalls_eq_iff hoverwriting hstraight).2 fun ref => ?_
    have hbare : bareName "$x" = bareName "x" ∧ bareName "$$x" = bareName "x" := by decide
    cases ref with
    | name name =>
        by_cases h : bareName "x" = bareName name <;>
          simp [lastValue?, overwriting, straight, BindCall.valueFor?, List.filterMap_cons, hbare,
            h]
    | position position => rfl
  · intro h
    have hlast := (encoding_afterCalls_eq_iff hoverwriting hinexact).1 h (.name "x")
    have hvalue : Value.int 1 = .double ⟨0x3ff0000000000000⟩ := Option.some.inj hlast
    cases hvalue

end Bindings

end ShardQuery
