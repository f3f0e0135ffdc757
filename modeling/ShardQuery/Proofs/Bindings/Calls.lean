import Mathlib.Data.List.Induction
import ShardQuery.Proofs.Value.Hereditary
import ShardQuery.Proofs.Value.Reading

/-!
# Calls That Bind Variables

Variables are bound by calls, each of them for a name or for a position. What stands under a
variable is what the last call for it has given, whatever else has been called. Leading dollar
signs do not matter to a call for a name, and a call for position zero fails.

Main definitions:

* `BindCall.valueFor?` — the value that a call gives to a variable;
* `lastValue?` — the value that the last call for a variable gives to it;
* `Bindings.afterCalls` — the bind variables after calls;
* `Bindings.IsOrdered`, `Bindings.IsFit` — whether bind variables are stored in order, and whether
  their names have no leading dollar signs and their positions start at one.

## Main results

* `Bindings.get?_afterCalls`: what stands under a variable after calls.
* `Bindings.isFit_afterCalls_iff`: calls store nothing that is unfit, and remove nothing.
* `Bindings.eq_of_get?`: what stands under the variables tells bind variables apart.
-/

namespace ShardQuery

/-! ### Calls -/

/-- A call that binds a variable. The model's two operations of this kind are made into data, so
that whole sequences of calls can be spoken of. -/
inductive BindCall where
  /-- A name is bound. -/
  | byName (name : String) (value : Value)
  /-- A position is bound. -/
  | byPosition (position : UInt32) (value : Value)

namespace BindCall

/-- The value of a call, whichever kind of variable it is for. Conditions on what is bound are
conditions on these values. -/
def value : BindCall → Value
  | .byName _ value | .byPosition _ value => value

/-- The value that a call gives to a variable, if it is a call for that one. Names are compared
without leading dollar signs, and nothing is bound at position zero. -/
def valueFor? : BindRef → BindCall → Option Value
  | .name other, .byName name value =>
    if Bindings.bareName name = Bindings.bareName other then some value else none
  | .position other, .byPosition position value =>
    if position = other ∧ position ≠ 0 then some value else none
  | .name _, .byPosition _ _ | .position _, .byName _ _ => none

end BindCall

/-- The value that the last call for a variable gives to it. -/
def lastValue? (calls : List BindCall) (ref : BindRef) : Option Value :=
  (calls.filterMap (BindCall.valueFor? ref)).getLast?

/-- The last call decides, if it is a call for the variable; otherwise the calls before it do. This
is the step of every induction over calls. -/
theorem lastValue?_concat (calls : List BindCall) (call : BindCall) (ref : BindRef) :
    lastValue? (calls ++ [call]) ref = (call.valueFor? ref).or (lastValue? calls ref) := by
  rw [lastValue?, List.filterMap_append, List.getLast?_append]
  cases h : call.valueFor? ref with
  | none => simp [h, lastValue?]
  | some value => simp [h]

namespace Bindings

/-- The bind variables after a call. A call that fails changes nothing. -/
def call (bindings : Bindings) : BindCall → Bindings
  | .byName name value => bindings.bind name value
  | .byPosition position value =>
    match bindings.bindPosition position value with
    | .ok after => after
    | .error _ => bindings

/-- The bind variables after calls, made in the order of the list. -/
def afterCalls (bindings : Bindings) (calls : List BindCall) : Bindings :=
  calls.foldl call bindings

/-- One more call at the end is made on what the calls before it have left. -/
theorem afterCalls_concat (bindings : Bindings) (calls : List BindCall) (c : BindCall) :
    bindings.afterCalls (calls ++ [c]) = (bindings.afterCalls calls).call c :=
  List.foldl_concat ..

/-- Positions are inserted as any other key is, so the lemmas about entries in order apply to both
maps. -/
theorem insertPosition_eq (position : UInt32) (value : Value) (entries : List (UInt32 × Value)) :
    insertPosition position value entries = insertEntry position value entries := by
  induction entries with
  | nil => rfl
  | cons entry entries ih =>
      obtain ⟨p, v⟩ := entry
      rw [insertPosition, insertEntry, ih]

/-- What a call stores: an entry under the bare name, or one under a position other than zero. A
call for position zero fails and leaves everything as it was. -/
theorem call_cases (bindings : Bindings) (c : BindCall) :
    (∃ name value, c = .byName name value ∧ bindings.call c =
      ⟨insertEntry (bareName name) value bindings.named, bindings.positional⟩) ∨
    (∃ position value, c = .byPosition position value ∧ position ≠ 0 ∧ bindings.call c =
      ⟨bindings.named, insertEntry position value bindings.positional⟩) ∨
    ∃ value, c = .byPosition 0 value ∧ bindings.call c = bindings := by
  cases c with
  | byName name value =>
      refine .inl ⟨name, value, rfl, ?_⟩
      rw [call, bind, Value.insertField_eq]
  | byPosition position value =>
      by_cases h : position = 0
      · subst h
        exact .inr (.inr ⟨value, rfl, rfl⟩)
      · refine .inr (.inl ⟨position, value, rfl, h, ?_⟩)
        rw [call, bindPosition, if_neg h, insertPosition_eq]

/-! ### Values -/

/-- A name is looked up without its leading dollar signs, as it has been stored. -/
theorem get?_name (bindings : Bindings) (name : String) :
    bindings.get? (.name name) = valueAt? (bareName name) bindings.named := rfl

/-- A position is looked up as it is written. -/
theorem get?_position (bindings : Bindings) (position : UInt32) :
    bindings.get? (.position position) = valueAt? position bindings.positional := rfl

/-- One call changes what stands under the variable it is for, and under no other. -/
theorem get?_call (bindings : Bindings) (c : BindCall) (ref : BindRef) :
    (bindings.call c).get? ref = (c.valueFor? ref).or (bindings.get? ref) := by
  obtain ⟨name, value, rfl, hcall⟩ | ⟨position, value, rfl, hne, hcall⟩ | ⟨value, rfl, hcall⟩ :=
    bindings.call_cases c
  · rw [hcall]
    cases ref with
    | name other =>
        rw [get?_name, valueAt?_insertEntry, BindCall.valueFor?, get?_name]
        split <;> rfl
    | position other => rfl
  · rw [hcall]
    cases ref with
    | name other => rfl
    | position other =>
        rw [get?_position, valueAt?_insertEntry, BindCall.valueFor?, get?_position]
        by_cases h : position = other
        · rw [if_pos h, if_pos ⟨h, hne⟩]
          rfl
        · rw [if_neg h, if_neg fun hand => h hand.1]
          rfl
  · rw [hcall]
    cases ref with
    | name other => rfl
    | position other =>
        rw [BindCall.valueFor?, if_neg fun hand => hand.2 rfl]
        rfl

/-- **What stands under a variable after calls**: what the last call for it has given, or what has
stood there before. -/
theorem get?_afterCalls (bindings : Bindings) (calls : List BindCall) (ref : BindRef) :
    (bindings.afterCalls calls).get? ref = (lastValue? calls ref).or (bindings.get? ref) := by
  induction calls using List.reverseRecOn with
  | nil => rfl
  | append_singleton calls c ih =>
      rw [afterCalls_concat, get?_call, ih, lastValue?_concat, Option.or_assoc]

/-- No values are bound at the start, so all of them have any property. -/
theorem all_empty (p : Value → Prop) : empty.All p :=
  ⟨List.forall_mem_nil _, List.forall_mem_nil _⟩

/-- A call with a good value keeps all values good: it stores its own value, and nothing else that
is new. -/
theorem All.call {p : Value → Prop} {bindings : Bindings} (h : bindings.All p) {c : BindCall}
    (hc : p c.value) : (bindings.call c).All p := by
  obtain ⟨name, value, rfl, hcall⟩ | ⟨position, value, rfl, -, hcall⟩ | ⟨value, rfl, hcall⟩ :=
    bindings.call_cases c
  · rw [hcall]
    refine ⟨fun entry hmem => ?_, h.positional⟩
    rcases mem_insertEntry hmem with rfl | hmem
    · exact hc
    · exact h.named entry hmem
  · rw [hcall]
    refine ⟨h.named, fun entry hmem => ?_⟩
    rcases mem_insertEntry hmem with rfl | hmem
    · exact hc
    · exact h.positional entry hmem
  · rw [hcall]
    exact h

/-- Every value is one that a call has given, or has been there before. -/
theorem All.afterCalls {p : Value → Prop} {bindings : Bindings} (h : bindings.All p)
    {calls : List BindCall} (hcalls : ∀ c ∈ calls, p c.value) :
    (bindings.afterCalls calls).All p :=
  List.foldlRecOn calls Bindings.call h fun _ hbefore c hmem => hbefore.call (hcalls c hmem)

/-! ### Order -/

/-- Whether names and positions are stored in ascending order, each of them once. -/
structure IsOrdered (bindings : Bindings) : Prop where
  /-- The names are in order. -/
  named : AreAscending bindings.named
  /-- The positions are in order. -/
  positional : AreAscending bindings.positional

/-- There is nothing out of order at the start. -/
theorem isOrdered_empty : empty.IsOrdered :=
  ⟨List.Pairwise.nil, List.Pairwise.nil⟩

/-- A call keeps the order, since both maps insert an entry at its place. -/
theorem IsOrdered.call {bindings : Bindings} (h : bindings.IsOrdered) (c : BindCall) :
    (bindings.call c).IsOrdered := by
  obtain ⟨name, value, rfl, hcall⟩ | ⟨position, value, rfl, -, hcall⟩ | ⟨value, rfl, hcall⟩ :=
    bindings.call_cases c
  · rw [hcall]
    exact ⟨h.named.insertEntry, h.positional⟩
  · rw [hcall]
    exact ⟨h.named, h.positional.insertEntry⟩
  · rw [hcall]
    exact h

/-- Calls keep the order, by induction from a single one. Variables that were put together by calls
alone are therefore always in order. -/
theorem IsOrdered.afterCalls {bindings : Bindings} (h : bindings.IsOrdered)
    (calls : List BindCall) : (bindings.afterCalls calls).IsOrdered :=
  List.foldlRecOn calls Bindings.call h fun _ hbefore c _ => hbefore.call c

/-! ### Names and positions -/

/-- A bare name does not begin with a dollar sign: all of them are taken off, not only the first. -/
theorem head?_bareName (name : String) : (bareName name).toList.head? ≠ some '$' := by
  intro h
  rw [bareName, String.toList_ofList] at h
  have hhead := List.head?_dropWhile_not (· == '$') name.toList
  rw [h] at hhead
  simp at hhead

/-- Only names with leading dollar signs are changed, so names that have been stored are found as
they stand. -/
theorem bareName_of_head? {name : String} (h : name.toList.head? ≠ some '$') :
    bareName name = name := by
  rw [bareName]
  cases hchars : name.toList with
  | nil => rw [List.dropWhile_nil, ← hchars, String.ofList_toList]
  | cons c chars =>
      have hc : ¬(c == '$') = true := by
        intro heq
        exact h (by rw [hchars, List.head?_cons, eq_of_beq heq])
      rw [List.dropWhile_cons, if_neg hc, ← hchars, String.ofList_toList]

/-- More leading dollar signs do not matter: a reference may put any number of them before a stored
name. -/
theorem bareName_dollars (dollars : Nat) (name : String) :
    bareName (String.ofList (List.replicate dollars '$' ++ name.toList)) = bareName name := by
  rw [bareName, bareName, String.toList_ofList]
  refine congrArg String.ofList ?_
  induction dollars with
  | zero => rfl
  | succ dollars ih => exact ih

/-- Whether all stored names are without leading dollar signs, and all stored positions start at
one. -/
structure IsFit (bindings : Bindings) : Prop where
  /-- No stored name starts with a dollar sign. -/
  named : ∀ entry ∈ bindings.named, entry.1.toList.head? ≠ some '$'
  /-- Nothing is stored at position zero. -/
  positional : ∀ entry ∈ bindings.positional, entry.1 ≠ 0

/-- Nothing is stored at the start, and so nothing that is unfit. -/
theorem isFit_empty : empty.IsFit :=
  ⟨List.forall_mem_nil _, List.forall_mem_nil _⟩

/-- **Calls store nothing that is unfit, and remove nothing.** -/
theorem isFit_call_iff {bindings : Bindings} {c : BindCall} :
    (bindings.call c).IsFit ↔ bindings.IsFit := by
  obtain ⟨name, value, rfl, hcall⟩ | ⟨position, value, rfl, hne, hcall⟩ | ⟨value, rfl, hcall⟩ :=
    bindings.call_cases c
  · have hnamed := forall_keys_insertEntry (fun n => n.toList.head? ≠ some '$') (bareName name)
      value bindings.named
    rw [hcall]
    constructor
    · intro h
      exact ⟨(hnamed.1 h.named).2, h.positional⟩
    · intro h
      exact ⟨hnamed.2 ⟨head?_bareName name, h.named⟩, h.positional⟩
  · have hpositional := forall_keys_insertEntry (· ≠ 0) position value bindings.positional
    rw [hcall]
    constructor
    · intro h
      exact ⟨h.named, (hpositional.1 h.positional).2⟩
    · intro h
      exact ⟨h.named, hpositional.2 ⟨hne, h.positional⟩⟩
  · rw [hcall]

/-- Calls, however many, store nothing that is unfit and remove nothing that is: they neither break
fitness nor restore it. -/
theorem isFit_afterCalls_iff {bindings : Bindings} {calls : List BindCall} :
    (bindings.afterCalls calls).IsFit ↔ bindings.IsFit := by
  induction calls using List.reverseRecOn with
  | nil => exact Iff.rfl
  | append_singleton calls c ih => rw [afterCalls_concat, isFit_call_iff, ih]

/-- What stands under a stored name: what a reference to it finds, unless the name begins with a
dollar sign, under which nothing fit is stored. -/
theorem IsFit.valueAt?_named {bindings : Bindings} (h : bindings.IsFit) (name : String) :
    valueAt? name bindings.named =
      if name.toList.head? = some '$' then none else bindings.get? (.name name) := by
  by_cases hname : name.toList.head? = some '$'
  · rw [if_pos hname, valueAt?, Option.map_eq_none_iff, List.find?_eq_none]
    intro entry hmem heq
    exact h.named entry hmem (eq_of_beq heq ▸ hname)
  · rw [if_neg hname, get?_name, bareName_of_head? hname]

/-- **What stands under the variables tells bind variables apart.** -/
theorem eq_of_get? {a b : Bindings} (ha : a.IsOrdered) (hb : b.IsOrdered) (hfita : a.IsFit)
    (hfitb : b.IsFit) (h : ∀ ref, a.get? ref = b.get? ref) : a = b := by
  have hnamed : a.named = b.named := by
    -- No reference leads to a name with a leading dollar sign, but none is stored either.
    refine ha.named.eq_of_valueAt? hb.named fun name => ?_
    rw [hfita.valueAt?_named, hfitb.valueAt?_named, h]
  have hpositional : a.positional = b.positional :=
    ha.positional.eq_of_valueAt? hb.positional fun position => h (.position position)
  rw [Bindings.mk.injEq]
  exact ⟨hnamed, hpositional⟩

end Bindings

end ShardQuery
