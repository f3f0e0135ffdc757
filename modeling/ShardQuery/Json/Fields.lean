import ShardQuery.Json.Reader

/-!
# Reading Records

A record is read from an object whose members it names. A member that the record does not
know is skipped, a member that it knows must not be repeated. Every reader is a partial
function, and all of them are combined from `uniqueMember?`:

* `required?` — the member must be there;
* `withDefault?` — a missing member has a default, but one that is there must be readable;
* `optional?` — a missing member and `null` are the same.

A record may also be written as an array of its fields in the order of its `Layout`. Such an
array is read as the object that it stands for (`toRecord?`). Records of several `Variant`s
have a tag that tells which one it is, a member of the object or the first item of the array
(`toTagged?`).

The rest of a record with a tag is set aside until the tag is known. What is read from parts
that have been set aside is read more liberally, and readers for them are called `buffered`:
the place of a variant among all of them stands for its name, and behind the name of a
variant without fields an empty object is as good as `null`.
-/

namespace ShardQuery.Json

/-- The member of a name, none if it is missing. Fails if the name is repeated. -/
def uniqueMember? {α : Type} (members : List (String × α)) (name : String) :
    Option (Option α) :=
  match members.filter (fun member => member.1 == name) with
  | [] => some none
  | [(_, value)] => some (some value)
  | _ => none

/-- Reads a member that must be there: without it, or with two of its name, the record is refused.
-/
def required? {α : Type} (members : List (String × Json)) (name : String)
    (read : Json → Option α) : Option α :=
  match uniqueMember? members name with
  | some (some value) => read value
  | _ => none

/-- Reads a member that has a default, which stands for it only where it is missing altogether. -/
def withDefault? {α : Type} (members : List (String × Json)) (name : String) (default : α)
    (read : Json → Option α) : Option α :=
  match uniqueMember? members name with
  | some (some value) => read value
  | some none => some default
  | none => none

/-- Reads a member that may be missing or `null`. -/
def optional? {α : Type} (members : List (String × Json)) (name : String)
    (read : Json → Option α) : Option (Option α) :=
  match uniqueMember? members name with
  | some (some .null) => some none
  | some (some value) => (read value).map some
  | some none => some none
  | none => none

/-! ### Parts -/

/-- A truth value, written as `true` or `false` and never as a number or a string. -/
def toBool? : Json → Option Bool
  | .bool b => some b
  | _ => none

/-- A string. Numbers and truth values are not taken for their texts. -/
def toString? : Json → Option String
  | .string s => some s
  | _ => none

/-- A natural number below a bound, written as an integer literal; a double is refused even if it is
whole. -/
def toNatBelow? (bound : Nat) : Json → Option Nat
  | .int i => if 0 ≤ i ∧ i < bound then some i.toNat else none
  | _ => none

/-- An unsigned number of sixty-four bits, such as a size, a limit or a count. -/
def toWord? : Json → Option Nat :=
  toNatBelow? UInt64.size

/-- The items of an array, each read by the same reader; one that cannot be read refuses them all.
-/
def toList? {α : Type} (read : Json → Option α) : Json → Option (List α)
  | .array items => items.mapM read
  | _ => none

/-- The members of an object. Maps are read from objects only. -/
def toMembers? : Json → Option (List (String × Json))
  | .object members => some members
  | _ => none

/-! ### Records -/

/-- The order in which the fields of a record are written as an array. -/
structure Layout where
  /-- The names of the fields in their order. -/
  fields : List String
  /-- How many of them an array must have. The others have defaults and may be left out, the
  last ones first. -/
  needed : Nat

/-- The members that the items of an array stand for. An array must not be too short or too
long. -/
def Layout.members? (layout : Layout) (items : List Json) : Option (List (String × Json)) :=
  if layout.needed ≤ items.length ∧ items.length ≤ layout.fields.length then
    some (layout.fields.zip items)
  else none

/-- The members of a record that is written as an object or as an array. -/
def toRecord? (layout : Layout) : Json → Option (List (String × Json))
  | .object members => some members
  | .array items => layout.members? items
  | _ => none

/-- The members that a document's outermost record knows. In an object the other ones are
skipped without being read, so that only the known ones have to be sound. -/
def knownMembers? (layout : Layout) : Json → Option (List (String × Json))
  | .object members =>
    let members := members.filter fun member => layout.fields.contains member.1
    if areMembersSound (depthLimit - 1) members then some members else none
  | .array items =>
    if areItemsSound (depthLimit - 1) items then layout.members? items else none
  | _ => none

/-! ### Variants -/

/-- One of the forms that a record with a tag can have. -/
structure Variant where
  /-- The name that the tag gives. -/
  name : String
  /-- The fields beside the tag. -/
  layout : Layout

/-- The variant that a tag tells: by its name, and in buffered parts also by its place. -/
def toVariant? (variants : List Variant) (buffered : Bool) : Json → Option Variant
  | .string name => variants.find? fun variant => variant.name == name
  | .int place => if buffered && decide (0 ≤ place) then variants[place.toNat]? else none
  | _ => none

/-- The name of the variant of a record, and the record's members. The tag is one of the
members of an object, and the first item of an array. -/
def toTagged? (tag : String) (variants : List Variant) (buffered : Bool) :
    Json → Option (String × List (String × Json))
  | .object members => do
    let variant ← required? members tag (toVariant? variants buffered)
    return (variant.name, members)
  | .array (first :: items) => do
    let variant ← toVariant? variants buffered first
    return (variant.name, ← variant.layout.members? items)
  | _ => none

/-- The name of a variant without fields: a string, or the only member of an object, with
nothing behind it. -/
def toName? (buffered : Bool) : Json → Option String
  | .string name => some name
  | .object [(name, .null)] => some name
  | .object [(name, .object [])] => if buffered then some name else none
  | _ => none

end ShardQuery.Json
