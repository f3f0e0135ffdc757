import ShardQuery.Json.Fields
import ShardQuery.Proofs.Json.Document

/-!
# Documents That Have Been Read

The text of a number beyond all doubles is flawed, and that of an integer beyond all words is the
text of a double. So the numbers of a document that has been read are in range: they can be written
again. Such a document may nest as deep as it likes; its parts that count are bounded when its
record is read. This module hands both facts down from a document to its parts.

Main definitions:

* `Json.IsInRange` — whether the integers of a document are words and its doubles finite;
* `Json.IsWithin` — whether a document can be written, and how deep it nests at most.

## Main results

* `Json.isInRange_of_read?`: documents that have been read are in range.
* `Json.exists_of_required?`, `Json.exists_of_optional?`, `Json.exists_of_withDefault?`: what has
  been read from a member has been read from a part of the document.
-/

namespace ShardQuery.Json

/-! ### Numbers in range -/

mutual

/-- Whether the integers of a document are words and its doubles finite. -/
def IsInRange : Json → Prop
  | .int i => FitsWord i
  | .double d => d.isFinite = true
  | .array items => AreItemsInRange items
  | .object members => AreMembersInRange members
  | .null | .bool _ | .string _ | .flawed => True

/-- Whether all items of an array are in range. -/
def AreItemsInRange : List Json → Prop
  | [] => True
  | item :: items => IsInRange item ∧ AreItemsInRange items

/-- Whether all members of an object are in range. -/
def AreMembersInRange : List (String × Json) → Prop
  | [] => True
  | (_, value) :: members => IsInRange value ∧ AreMembersInRange members

end

/-- The items are in range when each of them is, which turns the recursion over the list into a
membership. -/
theorem areItemsInRange_iff {items : List Json} :
    AreItemsInRange items ↔ ∀ item ∈ items, IsInRange item := by
  induction items with
  | nil => simp [AreItemsInRange]
  | cons item items ih => rw [AreItemsInRange, ih, List.forall_mem_cons]

/-- The members are in range when each of their values is; the names do not matter for it. -/
theorem areMembersInRange_iff {members : List (String × Json)} :
    AreMembersInRange members ↔ ∀ member ∈ members, IsInRange member.2 := by
  induction members with
  | nil => simp [AreMembersInRange]
  | cons member members ih => rw [AreMembersInRange, ih, List.forall_mem_cons]

/-- What a number literal denotes is in range, or flawed. -/
theorem isInRange_number (negative : Bool) (whole : List UInt8) (fraction : Option (List UInt8))
    (exponent : Option Int) : IsInRange (number negative whole fraction exponent) := by
  unfold number
  extract_lets digits integer d
  split
  · next hword =>
      rw [Bool.and_eq_true, decide_eq_true_eq] at hword
      exact hword.2
  · split
    · next hfinite => exact hfinite
    · trivial

/-- Whether the number that a token may be is in range. -/
def Token.IsInRange : Token → Prop
  | .scalar value => value.IsInRange
  | .openArray | .closeArray | .openObject | .closeObject | .comma | .colon | .text _ => True

/-- A number that has been read is in range: an integer that does not fit the word has already
become a double, and a literal beyond the finite doubles is flawed. -/
theorem isInRange_of_scanNumber? {text rest : List UInt8} {value : Json}
    (h : scanNumber? text = some (value, rest)) : value.IsInRange := by
  have hunsigned {negative : Bool} {text : List UInt8}
      (h : scanUnsigned? negative text = some (value, rest)) : value.IsInRange := by
    simp only [scanUnsigned?, Option.bind_eq_bind, Option.bind_eq_some_iff, Option.pure_def,
      Option.some.injEq, Prod.mk.injEq] at h
    obtain ⟨_, -, _, -, _, -, rfl, -⟩ := h
    exact isInRange_number _ _ _ _
  unfold scanNumber? at h
  split at h
  · exact hunsigned h
  · exact hunsigned h

/-- A token that has been read is in range, since numbers are the only tokens that could be out of
it. -/
theorem isInRange_of_scanToken? {text rest : List UInt8} {token : Token}
    (h : scanToken? text = some (token, rest)) : token.IsInRange := by
  unfold scanToken? at h
  split at h
  case h_7 =>
    obtain ⟨_, -, heq⟩ := Option.map_eq_some_iff.1 h
    cases heq
    trivial
  case h_11 =>
    obtain ⟨⟨value, rest'⟩, hscan, heq⟩ := Option.map_eq_some_iff.1 h
    cases heq
    exact isInRange_of_scanNumber? hscan
  all_goals
    cases h
    trivial

/-- All the tokens of a text are in range, by induction over the text from one token. -/
theorem isInRange_of_lex? {text : List UInt8} {tokens : List Token} (h : lex? text = some tokens) :
    ∀ token ∈ tokens, token.IsInRange := by
  fun_induction lex? text generalizing tokens with
  | case1 =>
      cases h
      simp
  | case2 b text hblank ih => exact ih h
  | case3 b text hblank token rest hscan _ ih =>
      obtain ⟨tokens, htokens, rfl⟩ := Option.map_eq_some_iff.1 h
      exact List.forall_mem_cons.2 ⟨isInRange_of_scanToken? hscan, ih htokens⟩
  | case4 => cases h

/-- Whether what has been read of an array or object is in range. -/
def Context.IsInRange : Context → Prop
  | .array items => ∀ item ∈ items, item.IsInRange
  | .object members _ => ∀ member ∈ members, member.2.IsInRange

/-- A text is in range, also one that turned out to be no valid Unicode and is flawed. -/
theorem isInRange_ofText (content : Option String) : (ofText content).IsInRange := by
  cases content <;> trivial

/-- The members whose names could be read are members that were collected: naming them adds none. -/
theorem mem_of_namedMembers? {members : List (Option String × Json)}
    {named : List (String × Json)} (h : namedMembers? members = some named) :
    ∀ member ∈ named, (some member.1, member.2) ∈ members := by
  induction members generalizing named with
  | nil =>
      cases h
      simp
  | cons member members ih =>
      obtain ⟨name, value⟩ := member
      cases name with
      | none => cases h
      | some name =>
          obtain ⟨rest, hrest, rfl⟩ := Option.map_eq_some_iff.1 h
          refine List.forall_mem_cons.2 ⟨List.mem_cons_self, fun member hmem => ?_⟩
          exact List.mem_cons_of_mem _ (ih hrest member hmem)

/-- An object in range closes as one in range, also where a name could not be read and the object is
flawed. -/
theorem isInRange_closeObject {members : List (Option String × Json)}
    (h : ∀ member ∈ members, member.2.IsInRange) : (closeObject members).IsInRange := by
  unfold closeObject
  split
  · next named hnamed =>
      refine areMembersInRange_iff.2 fun member hmem => ?_
      exact h _ (List.mem_reverse.1 (mem_of_namedMembers? hnamed member hmem))
  · trivial

/-- The reader makes documents of what it is given. -/
theorem isInRange_of_expectValue? {j : Json} :
    (∀ stack tokens, expectValue? stack tokens = some j → (∀ token ∈ tokens, token.IsInRange) →
      (∀ context ∈ stack, context.IsInRange) → j.IsInRange) ∧
    ∀ value stack tokens, completeValue? value stack tokens = some j →
      (∀ token ∈ tokens, token.IsInRange) → (∀ context ∈ stack, context.IsInRange) →
      value.IsInRange → j.IsInRange := by
  apply reads_induct
  case scalar =>
    intro value stack tokens ih htokens hstack
    obtain ⟨hvalue, htokens⟩ := List.forall_mem_cons.1 htokens
    exact ih htokens hstack hvalue
  case text =>
    intro content stack tokens ih htokens hstack
    exact ih (List.forall_mem_cons.1 htokens).2 hstack (isInRange_ofText content)
  case emptyArray | emptyObject =>
    intro stack tokens ih htokens hstack
    obtain ⟨-, -, htokens⟩ := by simpa only [List.forall_mem_cons] using htokens
    exact ih htokens hstack trivial
  case openArray =>
    intro stack token tokens _ ih htokens hstack
    refine ih (List.forall_mem_cons.1 htokens).2 (List.forall_mem_cons.2 ⟨?_, hstack⟩)
    simp [Context.IsInRange]
  case openObject =>
    intro name stack tokens ih htokens hstack
    obtain ⟨-, -, -, htokens⟩ := by simpa only [List.forall_mem_cons] using htokens
    refine ih htokens (List.forall_mem_cons.2 ⟨?_, hstack⟩)
    simp [Context.IsInRange]
  case done => exact fun _ _ hvalue => hvalue
  case nextItem =>
    intro value items stack tokens ih htokens hstack hvalue
    obtain ⟨hitems, hstack⟩ := List.forall_mem_cons.1 hstack
    exact ih (List.forall_mem_cons.1 htokens).2
      (List.forall_mem_cons.2 ⟨List.forall_mem_cons.2 ⟨hvalue, hitems⟩, hstack⟩)
  case lastItem =>
    intro value items stack tokens ih htokens hstack hvalue
    obtain ⟨hitems, hstack⟩ := List.forall_mem_cons.1 hstack
    refine ih (List.forall_mem_cons.1 htokens).2 hstack
      (areItemsInRange_iff.2 fun item hmem => ?_)
    exact List.forall_mem_cons.2 ⟨hvalue, hitems⟩ item (List.mem_reverse.1 hmem)
  case nextMember =>
    intro value members name next stack tokens ih htokens hstack hvalue
    obtain ⟨hmembers, hstack⟩ := List.forall_mem_cons.1 hstack
    obtain ⟨-, -, -, htokens⟩ := by simpa only [List.forall_mem_cons] using htokens
    exact ih htokens
      (List.forall_mem_cons.2 ⟨List.forall_mem_cons.2 ⟨hvalue, hmembers⟩, hstack⟩)
  case lastMember =>
    intro value members name stack tokens ih htokens hstack hvalue
    obtain ⟨hmembers, hstack⟩ := List.forall_mem_cons.1 hstack
    exact ih (List.forall_mem_cons.1 htokens).2 hstack
      (isInRange_closeObject (List.forall_mem_cons.2 ⟨hvalue, hmembers⟩))

/-- **Documents that have been read are in range.** So whatever the reader accepts satisfies the
condition under which a document can be written and read back. -/
theorem isInRange_of_read? {octets : List UInt8} {j : Json} (h : read? octets = some j) :
    j.IsInRange := by
  obtain ⟨tokens, htokens, hj⟩ := Option.bind_eq_some_iff.1 h
  exact isInRange_of_expectValue?.1 [] tokens hj (isInRange_of_lex? htokens) (by simp)

/-! ### Parts that can be written again -/

/-- The items are sound to a depth when each of them is, as a membership instead of a recursion. -/
theorem areItemsSound_iff {depth : Nat} {items : List Json} :
    areItemsSound depth items = true ↔ ∀ item ∈ items, item.isSound depth = true := by
  induction items with
  | nil => simp [areItemsSound]
  | cons item items ih => rw [areItemsSound, Bool.and_eq_true, ih, List.forall_mem_cons]

/-- The members are sound to a depth when each of their values is. -/
theorem areMembersSound_iff {depth : Nat} {members : List (String × Json)} :
    areMembersSound depth members = true ↔ ∀ member ∈ members, member.2.isSound depth = true := by
  induction members with
  | nil => simp [areMembersSound]
  | cons member members ih => rw [areMembersSound, Bool.and_eq_true, ih, List.forall_mem_cons]

/-- The items are writable when each of them is. -/
theorem areItemsWritable_iff {items : List Json} :
    AreItemsWritable items ↔ ∀ item ∈ items, item.IsWritable := by
  induction items with
  | nil => simp [AreItemsWritable]
  | cons item items ih => rw [AreItemsWritable, ih, List.forall_mem_cons]

/-- The members are writable when each of their values is. -/
theorem areMembersWritable_iff {members : List (String × Json)} :
    AreMembersWritable members ↔ ∀ member ∈ members, member.2.IsWritable := by
  induction members with
  | nil => simp [AreMembersWritable]
  | cons member members ih => rw [AreMembersWritable, ih, List.forall_mem_cons]

mutual

/-- What is in range and has no flaws can be written. -/
theorem isWritable_of_isSound : ∀ {j : Json} {depth : Nat}, j.isSound depth = true → j.IsInRange →
    j.IsWritable
  | .null, _, _, _ | .bool _, _, _, _ | .string _, _, _, _ => trivial
  | .int _, _, _, h | .double _, _, _, h => h
  | .array items, depth, hsound, h => by
    cases depth with
    | zero => simp [isSound] at hsound
    | succ depth =>
        rw [isSound] at hsound
        exact areItemsWritable_of_sound hsound h
  | .object members, depth, hsound, h => by
    cases depth with
    | zero => simp [isSound] at hsound
    | succ depth =>
        rw [isSound] at hsound
        exact areMembersWritable_of_sound hsound h
  | .flawed, _, hsound, _ => by simp [isSound] at hsound

/-- Sound items in range are writable, so everything inside an array that has been read can be
written again. -/
theorem areItemsWritable_of_sound : ∀ {items : List Json} {depth : Nat},
    areItemsSound depth items = true → AreItemsInRange items → AreItemsWritable items
  | [], _, _, _ => trivial
  | item :: items, _, hsound, h => by
    rw [areItemsSound, Bool.and_eq_true] at hsound
    exact ⟨isWritable_of_isSound hsound.1 h.1, areItemsWritable_of_sound hsound.2 h.2⟩

/-- Sound members in range are writable, as the items of an array are. -/
theorem areMembersWritable_of_sound : ∀ {members : List (String × Json)} {depth : Nat},
    areMembersSound depth members = true → AreMembersInRange members → AreMembersWritable members
  | [], _, _, _ => trivial
  | (_, value) :: members, _, hsound, h => by
    rw [areMembersSound, Bool.and_eq_true] at hsound
    exact ⟨isWritable_of_isSound hsound.1 h.1, areMembersWritable_of_sound hsound.2 h.2⟩

end

/-- Whether a document can be written and nests no deeper than `depth`. -/
structure IsWithin (depth : Nat) (j : Json) : Prop where
  /-- It can be written. -/
  writable : j.IsWritable
  /-- It does not nest too deep. -/
  sound : j.isSound depth = true

/-- The items of an array nest less deep than the array. -/
theorem isWithin_array_iff {depth : Nat} {items : List Json} :
    (array items).IsWithin depth ↔
      ∃ below, depth = below + 1 ∧ ∀ item ∈ items, item.IsWithin below := by
  constructor
  · rintro ⟨hwritable, hsound⟩
    cases depth with
    | zero => simp [isSound] at hsound
    | succ depth =>
        rw [isSound, areItemsSound_iff] at hsound
        exact ⟨depth, rfl, fun item hmem =>
          ⟨areItemsWritable_iff.1 hwritable item hmem, hsound item hmem⟩⟩
  · rintro ⟨below, rfl, h⟩
    refine ⟨areItemsWritable_iff.2 fun item hmem => (h item hmem).writable, ?_⟩
    rw [isSound, areItemsSound_iff]
    exact fun item hmem => (h item hmem).sound

/-- The members of an object nest less deep than the object. -/
theorem isWithin_object_iff {depth : Nat} {members : List (String × Json)} :
    (object members).IsWithin depth ↔
      ∃ below, depth = below + 1 ∧ ∀ member ∈ members, member.2.IsWithin below := by
  constructor
  · rintro ⟨hwritable, hsound⟩
    cases depth with
    | zero => simp [isSound] at hsound
    | succ depth =>
        rw [isSound, areMembersSound_iff] at hsound
        exact ⟨depth, rfl, fun member hmem =>
          ⟨areMembersWritable_iff.1 hwritable member hmem, hsound member hmem⟩⟩
  · rintro ⟨below, rfl, h⟩
    refine ⟨areMembersWritable_iff.2 fun member hmem => (h member hmem).writable, ?_⟩
    rw [isSound, areMembersSound_iff]
    exact fun member hmem => (h member hmem).sound

/-! ### Parts that are read -/

section

variable {α : Type} {members : List (String × Json)} {name : String} {read : Json → Option α}

/-- A member that is found under its name, and found once, is among the members of the object. -/
theorem mem_of_uniqueMember? {value : Json}
    (h : uniqueMember? members name = some (some value)) : (name, value) ∈ members := by
  unfold uniqueMember? at h
  split at h
  · cases h
  · next name' value' heq =>
      cases h
      have hmem := List.mem_filter.1 (heq ▸ List.mem_singleton_self (name', value))
      exact eq_of_beq hmem.2 ▸ hmem.1
  · cases h

/-- A member that must be there is there, and is what has been read. -/
theorem exists_of_required? {a : α} (h : required? members name read = some a) :
    ∃ value, (name, value) ∈ members ∧ read value = some a := by
  unfold required? at h
  split at h
  · next value hunique => exact ⟨value, mem_of_uniqueMember? hunique, h⟩
  · cases h

/-- A member that has a default is there and is what has been read, or the default has been
taken. -/
theorem exists_of_withDefault? {default a : α}
    (h : withDefault? members name default read = some a) :
    a = default ∨ ∃ value, (name, value) ∈ members ∧ read value = some a := by
  unfold withDefault? at h
  split at h
  · next value hunique => exact .inr ⟨value, mem_of_uniqueMember? hunique, h⟩
  · cases h
    exact .inl rfl
  · cases h

/-- A member that may be missing has been read if it is not taken to be missing. -/
theorem exists_of_optional? {a : α} (h : optional? members name read = some (some a)) :
    ∃ value, (name, value) ∈ members ∧ read value = some a := by
  unfold optional? at h
  split at h
  · cases h
  · next value _ hunique =>
      obtain ⟨a', ha', heq⟩ := Option.map_eq_some_iff.1 h
      cases heq
      exact ⟨value, mem_of_uniqueMember? hunique, ha'⟩
  · cases h
  · cases h

/-- The items of a list have been read from the items of an array. -/
theorem forall₂_of_toList? {document : Json} {l : List α} (h : toList? read document = some l) :
    ∃ items, document = .array items ∧ List.Forall₂ (fun item a => read item = some a) items l := by
  cases document with
  | array items =>
      refine ⟨items, rfl, ?_⟩
      rw [toList?] at h
      induction items generalizing l with
      | nil =>
          cases h
          exact .nil
      | cons item items ih =>
          simp only [List.mapM_cons, Option.bind_eq_bind, Option.bind_eq_some_iff] at h
          obtain ⟨a, ha, as, has, hl⟩ := h
          cases hl
          exact .cons ha (ih has)
  | null | bool | int | double | string | object | flawed => cases h

/-- What holds of all that is read from documents holds of the items of a list that is read. -/
theorem forall_of_toList? {p : α → Prop} (hread : ∀ {item a}, read item = some a → p a)
    {document : Json} {l : List α} (h : toList? read document = some l) : ∀ a ∈ l, p a := by
  obtain ⟨items, -, hitems⟩ := forall₂_of_toList? h
  clear h
  induction hitems with
  | nil => exact List.forall_mem_nil _
  | cons hfirst _ ih => exact List.forall_mem_cons.2 ⟨hread hfirst, ih⟩

end

end ShardQuery.Json
