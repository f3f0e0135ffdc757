import ShardQuery.Plan.Codec
import ShardQuery.Proofs.Stage.Codec
import ShardQuery.Proofs.Value.Reading

/-!
# Plans Written Back

A plan that has been read from a document is written in its canonical form, which is not the
document: defaults are written, empty lists and absent bounds are not, and what nobody knows is
gone. The plan that is read from the canonical form is the same one. The law behind this holds of
every part of a plan (`Json.WritesBack`): what the part's reader yields is written so that the
reader yields it again, and nests no deeper than the document it has been read from. The second
half is what makes the law hold of whole plans, since readers refuse documents that nest too deep.

Main definitions:

* `Json.WritesBack` — whether what has been read is written so that it is read again.
* `Expr.PartsReadBack` — whether the parts of an expression are read back.

## Main results

* `Json.WritesBack.list`, `Json.WritesBack.of_required?`: the law for lists and members.
* `writesBack_expr`, `writesBack_nodes`: the law for expressions and for the nodes of a plan.
* `Plan.decode_render`: accepted plans are read back from their canonical texts, which tell them
  apart.
-/

namespace ShardQuery

namespace Json

/-! ### Codecs -/

/-- Whether whatever has been read is written so that it is read again, in a document that nests
no deeper. -/
def WritesBack {α : Type} (read : Json → Option α) (write : α → Json) : Prop :=
  ∀ (depth : Nat) (document : Json) (a : α), document.IsWithin depth → read document = some a →
    (write a).IsWithin depth ∧ read (write a) = some a

/-- A text nests no further, so it is within every depth. -/
@[simp]
theorem isWithin_string (s : String) (depth : Nat) : (string s).IsWithin depth :=
  ⟨trivial, by simp only [isSound]⟩

/-- A truth value nests no further either. -/
@[simp]
theorem isWithin_bool (b : Bool) (depth : Nat) : (bool b).IsWithin depth :=
  ⟨trivial, by simp only [isSound]⟩

/-- A number that fits an unsigned word is in range, and within every depth. -/
theorem isWithin_natCast {n : Nat} (h : n < UInt64.size) (depth : Nat) :
    (int n).IsWithin depth :=
  ⟨fitsWord_natCast h, by simp only [isSound]⟩

/-- An array gives the fields of a record nothing but its items. -/
theorem Layout.mem_of_members? {layout : Layout} {items : List Json}
    {members : List (String × Json)} (h : layout.members? items = some members) :
    ∀ member ∈ members, member.2 ∈ items := by
  rw [Layout.members?] at h
  split at h
  · cases h
    exact fun member hmem => (List.of_mem_zip hmem).2
  · cases h

/-- What a record holds nests less deep than the record, whether it is written as an object or as
an array. -/
theorem exists_isWithin_of_toRecord? {layout : Layout} {document : Json} {depth : Nat}
    {members : List (String × Json)} (hdocument : document.IsWithin depth)
    (h : document.toRecord? layout = some members) :
    ∃ below, depth = below + 1 ∧ ∀ member ∈ members, member.2.IsWithin below := by
  cases document with
  | object members' =>
      cases h
      exact isWithin_object_iff.1 hdocument
  | array items =>
      obtain ⟨below, hbelow, hitems⟩ := isWithin_array_iff.1 hdocument
      exact ⟨below, hbelow, fun member hmem => hitems _ (layout.mem_of_members? h member hmem)⟩
  | null | bool | int | double | string | flawed => cases h

/-- What a record with a tag holds nests less deep than the record. -/
theorem exists_isWithin_of_toTagged? {tag : String} {variants : List Variant} {buffered : Bool}
    {document : Json} {depth : Nat} {kind : String} {members : List (String × Json)}
    (hdocument : document.IsWithin depth)
    (h : document.toTagged? tag variants buffered = some (kind, members)) :
    ∃ below, depth = below + 1 ∧ ∀ member ∈ members, member.2.IsWithin below := by
  cases document with
  | object members' =>
      obtain ⟨variant, -, heq⟩ := Option.bind_eq_some_iff.1 h
      cases heq
      exact isWithin_object_iff.1 hdocument
  | array items =>
      obtain ⟨below, hbelow, hitems⟩ := isWithin_array_iff.1 hdocument
      cases items with
      | nil => cases h
      | cons first items =>
          obtain ⟨variant, -, h⟩ := Option.bind_eq_some_iff.1 h
          obtain ⟨members', hmembers, heq⟩ := Option.bind_eq_some_iff.1 h
          cases heq
          exact ⟨below, hbelow, fun member hmem =>
            hitems _ (List.mem_cons_of_mem _ (variant.layout.mem_of_members? hmembers _ hmem))⟩
  | null | bool | int | double | string | flawed => cases h

/-- What is read from an object whose tag is the name of a variant. -/
theorem toTagged?_object {tag name : String} {variants : List Variant} {buffered : Bool}
    {layout : Layout} {members : List (String × Json)}
    (h : uniqueMember? members tag = some (some (.string name)))
    (hname : toVariant? variants buffered (.string name) = some ⟨name, layout⟩) :
    (object members).toTagged? tag variants buffered = some (name, members) := by
  have htag : required? members tag (toVariant? variants buffered) = some ⟨name, layout⟩ :=
    (required?_eq h).trans hname
  rw [toTagged?, htag]
  rfl

/-- Texts are written back: what is read as a text is the text itself. -/
theorem writesBack_string : WritesBack toString? string := by
  intro depth document s _ hread
  cases document with
  | string s' =>
      cases hread
      exact ⟨isWithin_string s depth, rfl⟩
  | null | bool | int | double | array | object | flawed => cases hread

section

variable {α : Type} {read : Json → Option α} {write : α → Json}

/-- Lists of what is written back are written back. -/
theorem WritesBack.list (h : WritesBack read write) :
    WritesBack (toList? read) fun l => .array (l.map write) := by
  intro depth document l hdocument hread
  obtain ⟨items, rfl, hitems⟩ := forall₂_of_toList? hread
  obtain ⟨below, rfl, hwithin⟩ := isWithin_array_iff.1 hdocument
  have hall : ∀ a ∈ l, (write a).IsWithin below ∧ read (write a) = some a := by
    clear hread hdocument
    induction hitems with
    | nil => simp
    | cons hitem _ ih =>
        obtain ⟨hfirst, hwithin⟩ := List.forall_mem_cons.1 hwithin
        exact List.forall_mem_cons.2 ⟨h _ _ _ hfirst hitem, ih hwithin⟩
  refine ⟨isWithin_array_iff.2 ⟨below, rfl, ?_⟩, toList?_array_self fun a hmem => (hall a hmem).2⟩
  exact List.forall_mem_map.2 fun a hmem => (hall a hmem).1

/-! ### Members -/

variable {members : List (String × Json)} {name : String} {depth : Nat}

/-- What has been read from a member that must be there is written back. -/
theorem WritesBack.of_required? (h : WritesBack read write)
    (hmembers : ∀ member ∈ members, member.2.IsWithin depth) {a : α}
    (hread : required? members name read = some a) :
    (write a).IsWithin depth ∧ read (write a) = some a := by
  obtain ⟨value, hmem, hvalue⟩ := exists_of_required? hread
  exact h _ _ _ (hmembers _ hmem) hvalue

/-- What has been read from a member that may be missing is written back. -/
theorem WritesBack.of_optional? (h : WritesBack read write)
    (hmembers : ∀ member ∈ members, member.2.IsWithin depth) {a : α}
    (hread : optional? members name read = some (some a)) :
    (write a).IsWithin depth ∧ read (write a) = some a := by
  obtain ⟨value, hmem, hvalue⟩ := exists_of_optional? hread
  exact h _ _ _ (hmembers _ hmem) hvalue

/-- A list that has been read from a member, or taken to be empty, is written back. A member that
is left out nests nowhere. -/
theorem WritesBack.of_listMember (h : WritesBack read write)
    (hmembers : ∀ member ∈ members, member.2.IsWithin depth) {l : List α}
    (hread : withDefault? members name [] (toList? read) = some l) :
    (∀ member ∈ listMember name (l.map write), member.2.IsWithin depth) ∧
      toList? read (.array (l.map write)) = some l := by
  obtain rfl | ⟨value, hmem, hvalue⟩ := exists_of_withDefault? hread
  · exact ⟨by simp [listMember], rfl⟩
  · obtain ⟨hwithin, hlist⟩ := h.list _ _ _ (hmembers _ hmem) hvalue
    refine ⟨?_, hlist⟩
    unfold listMember
    split
    · simp
    · exact List.forall_mem_singleton.2 hwithin

/-- The members that a record knows have been checked. -/
theorem isWithin_of_knownMembers? {layout : Layout} {document : Json}
    (hrange : document.IsInRange) (h : document.knownMembers? layout = some members) :
    ∀ member ∈ members, member.2.IsWithin (depthLimit - 1) := by
  cases document with
  | object all =>
      rw [knownMembers?] at h
      split at h
      · next hsound =>
          cases h
          intro member hmem
          have hmember := areMembersSound_iff.1 hsound member hmem
          have hrange := areMembersInRange_iff.1 hrange member (List.mem_filter.1 hmem).1
          exact ⟨isWritable_of_isSound hmember hrange, hmember⟩
      · cases h
  | array items =>
      rw [knownMembers?] at h
      split at h
      · next hsound =>
          intro member hmem
          have hitem := layout.mem_of_members? h member hmem
          have hsound := areItemsSound_iff.1 hsound _ hitem
          exact ⟨isWritable_of_isSound hsound (areItemsInRange_iff.1 hrange _ hitem), hsound⟩
      · cases h
  | null | bool | int | double | string | flawed => cases h

/-- What is read from a member that has a default and occurs once. -/
theorem withDefault?_eq {value : Json} {default : α}
    (h : uniqueMember? members name = some (some value)) :
    withDefault? members name default read = read value := by
  rw [withDefault?, h]

/-- What is read from a member that is left out if its list is empty. -/
theorem withDefault?_listMember {items : List Json} {l : List α}
    (h : uniqueMember? members name = some (if items.isEmpty then none else some (.array items)))
    (hread : toList? read (.array items) = some l) :
    withDefault? members name [] (toList? read) = some l := by
  rw [withDefault?, h]
  cases items with
  | nil => exact hread
  | cons item items => exact hread

end

end Json

open Json

/-! ### Expressions -/

/-- Values are written back. The constants of expressions rest on this case. -/
theorem writesBack_value : WritesBack Value.ofJson? Value.toJson := by
  intro depth document value hdocument hread
  have hwithin := Value.isWithin_of_ofJson? hdocument hread
  exact ⟨hwithin.toJson, hwithin.ofJson?_toJson⟩

/-- References to bind variables are written back, by the word or the number that tells name and
position apart. -/
theorem writesBack_bindRef : WritesBack BindRef.ofJson? BindRef.toJson := by
  intro depth document ref hdocument hread
  cases document with
  | int i =>
      rw [BindRef.ofJson?] at hread
      split at hread
      · next hrange =>
          cases hread
          obtain ⟨n, rfl⟩ := Int.eq_ofNat_of_zero_le hrange.1
          have hn : n < UInt32.size := Int.ofNat_lt.1 hrange.2
          have hround : (UInt32.ofNat n).toNat = n := UInt32.toNat_ofNat_of_lt' hn
          have hdocument' : (BindRef.position (UInt32.ofNat n)).toJson = .int n := by
            rw [BindRef.toJson, hround]
          refine ⟨hdocument' ▸ hdocument, ?_⟩
          rw [Int.toNat_natCast, hdocument', BindRef.ofJson?, if_pos hrange, Int.toNat_natCast]
      · cases hread
  | string s =>
      cases hread
      exact ⟨isWithin_string s depth, rfl⟩
  | null | bool | double | array | object | flawed => cases hread

/-- An operator is read from its own name. -/
theorem ArithOp.ofJson?_name (op : ArithOp) : ofJson? (.string op.name) = some op := by
  cases op <;> rfl

/-- The documents of a list of expressions are those of its items. The writer has a recursion of its
own for them. -/
theorem Expr.listToJson_eq (exprs : List Expr) : listToJson exprs = exprs.map toJson := by
  induction exprs with
  | nil => rfl
  | cons e exprs ih => exact congrArg (e.toJson :: ·) ih

/-- The arguments of a function are left out if there are none. -/
theorem Expr.toJson_call (name : String) (args : List Expr) :
    (call name args).toJson = .object ([("kind", .string "function"), ("name", .string name)] ++
      listMember "args" (args.map toJson)) := by
  cases args with
  | nil => rfl
  | cons arg args =>
      rw [toJson, listToJson_eq]
      rfl

/-- No expression is written as null, so an absent operand is never mistaken for a present one. -/
theorem Expr.toJson_ne_null (e : Expr) : e.toJson ≠ .null := by
  intro h
  cases e with
  | call name args => cases args <;> cases h
  | const | bind | column | member | arith | neg => cases h

/-- What is read from a member that is left out if it is absent. -/
theorem optional?_exprMember {members : List (String × Json)} {name : String} {budget : Nat}
    {bound : Option Expr} (h : uniqueMember? members name = some (bound.map Expr.toJson))
    (hread : ∀ e ∈ bound, Expr.ofJson? budget e.toJson = some e) :
    optional? members name (Expr.ofJson? budget) = some bound := by
  cases bound with
  | none => rw [optional?, h, Option.map_none]
  | some e => exact optional?_eq (x := some e) (g := id) hread Expr.toJson_ne_null h

/-- An expression that has been read from a member, or is missing, is written back. -/
theorem Json.WritesBack.of_exprMember {members : List (String × Json)} {name : String}
    {budget depth : Nat} {bound : Option Expr} (h : WritesBack (Expr.ofJson? budget) Expr.toJson)
    (hmembers : ∀ member ∈ members, member.2.IsWithin depth)
    (hread : optional? members name (Expr.ofJson? budget) = some bound) :
    (∀ member ∈ exprMember name bound, member.2.IsWithin depth) ∧
      ∀ e ∈ bound, Expr.ofJson? budget e.toJson = some e := by
  cases bound with
  | none => simp [exprMember]
  | some e =>
      obtain ⟨hwithin, he⟩ := h.of_optional? hmembers hread
      exact ⟨by simp [exprMember, hwithin], by simpa using he⟩

/-- Whether the parts of an expression are read back from their documents. -/
def Expr.PartsReadBack (budget : Nat) : Expr → Prop
  | .const value => Value.ofJson? value.toJson = some value
  | .bind ref => BindRef.ofJson? ref.toJson = some ref
  | .column _ => True
  | .member base _ => ofJson? budget base.toJson = some base
  | .arith _ left right =>
      ofJson? budget left.toJson = some left ∧ ofJson? budget right.toJson = some right
  | .neg operand => ofJson? budget operand.toJson = some operand
  | .call _ args => toList? (ofJson? budget) (.array (args.map toJson)) = some args

/-- An expression is read back if its parts are. -/
theorem Expr.ofJson?_toJson_of_parts {budget : Nat} {e : Expr} (h : e.PartsReadBack budget) :
    ofJson? (budget + 1) e.toJson = some e := by
  simp only [ofJson?, Option.bind_eq_bind, Option.bind_eq_some_iff]
  cases e with
  | const value =>
      refine ⟨("const", _), rfl, ?_⟩
      exact Option.bind_eq_some_iff.2 ⟨value, (required?_eq rfl).trans h, rfl⟩
  | bind ref =>
      refine ⟨("bind_var", _), rfl, ?_⟩
      exact Option.bind_eq_some_iff.2 ⟨ref, (required?_eq rfl).trans h, rfl⟩
  | column name =>
      refine ⟨("field", _), rfl, ?_⟩
      simp only [Option.bind_eq_some_iff]
      exact ⟨none, rfl, name, rfl, rfl⟩
  | member base name =>
      have hbound : ∀ e ∈ some base, ofJson? budget e.toJson = some e := by
        simpa [PartsReadBack] using h
      refine ⟨("field", _), rfl, ?_⟩
      simp only [Option.bind_eq_some_iff]
      exact ⟨some base, optional?_exprMember rfl hbound, name, rfl, rfl⟩
  | arith op left right =>
      refine ⟨("arith", _), rfl, ?_⟩
      simp only [Option.bind_eq_some_iff]
      exact ⟨op, (required?_eq rfl).trans op.ofJson?_name, left, (required?_eq rfl).trans h.1,
        right, (required?_eq rfl).trans h.2, rfl⟩
  | neg operand =>
      refine ⟨("neg", _), rfl, ?_⟩
      exact Option.bind_eq_some_iff.2 ⟨operand, (required?_eq rfl).trans h, rfl⟩
  | call name args =>
      rw [toJson_call]
      refine ⟨("function", _), toTagged?_object (by cases args <;> rfl) rfl, ?_⟩
      simp only [Option.bind_eq_some_iff]
      refine ⟨name, by cases args <;> rfl, args, withDefault?_listMember ?_ h, rfl⟩
      cases args <;> rfl

/-- **Expressions are written back**, by induction over the budget of nesting that the reader has
left. The parts are read with one step less of it. -/
theorem writesBack_expr (budget : Nat) : WritesBack (Expr.ofJson? budget) Expr.toJson := by
  induction budget with
  | zero =>
      intro depth document e _ hread
      cases hread
  | succ budget ih =>
      intro depth document e hdocument hread
      simp only [Expr.ofJson?, Option.bind_eq_bind, Option.bind_eq_some_iff] at hread
      obtain ⟨⟨kind, members⟩, htagged, hread⟩ := hread
      obtain ⟨below, rfl, hmembers⟩ := exists_isWithin_of_toTagged? hdocument htagged
      split at hread
      · obtain ⟨value, hvalue, heq⟩ := Option.bind_eq_some_iff.1 hread
        cases heq
        obtain ⟨hwithin, hvalue⟩ := writesBack_value.of_required? hmembers hvalue
        exact ⟨isWithin_object_iff.2 ⟨below, rfl, by simp [hwithin]⟩,
          Expr.ofJson?_toJson_of_parts hvalue⟩
      · obtain ⟨ref, href, heq⟩ := Option.bind_eq_some_iff.1 hread
        cases heq
        obtain ⟨hwithin, href⟩ := writesBack_bindRef.of_required? hmembers href
        exact ⟨isWithin_object_iff.2 ⟨below, rfl, by simp [hwithin]⟩,
          Expr.ofJson?_toJson_of_parts href⟩
      · simp only [Option.bind_eq_some_iff] at hread
        obtain ⟨base, hbase, name, -, heq⟩ := hread
        cases base with
        | none =>
            cases heq
            exact ⟨isWithin_object_iff.2 ⟨below, rfl, by simp⟩,
              Expr.ofJson?_toJson_of_parts trivial⟩
        | some base =>
            cases heq
            obtain ⟨hwithin, hbase⟩ := ih.of_optional? hmembers hbase
            exact ⟨isWithin_object_iff.2 ⟨below, rfl, by simp [hwithin]⟩,
              Expr.ofJson?_toJson_of_parts hbase⟩
      · simp only [Option.bind_eq_some_iff] at hread
        obtain ⟨op, -, left, hleft, right, hright, heq⟩ := hread
        cases heq
        obtain ⟨hwithinleft, hleft⟩ := ih.of_required? hmembers hleft
        obtain ⟨hwithinright, hright⟩ := ih.of_required? hmembers hright
        exact ⟨isWithin_object_iff.2 ⟨below, rfl, by simp [hwithinleft, hwithinright]⟩,
          Expr.ofJson?_toJson_of_parts ⟨hleft, hright⟩⟩
      · obtain ⟨operand, hoperand, heq⟩ := Option.bind_eq_some_iff.1 hread
        cases heq
        obtain ⟨hwithin, hoperand⟩ := ih.of_required? hmembers hoperand
        exact ⟨isWithin_object_iff.2 ⟨below, rfl, by simp [hwithin]⟩,
          Expr.ofJson?_toJson_of_parts hoperand⟩
      · simp only [Option.bind_eq_some_iff] at hread
        obtain ⟨name, -, args, hargs, heq⟩ := hread
        cases heq
        obtain ⟨hwithin, hargs⟩ := ih.of_listMember hmembers hargs
        refine ⟨?_, Expr.ofJson?_toJson_of_parts hargs⟩
        rw [Expr.toJson_call]
        exact isWithin_object_iff.2 ⟨below, rfl, by simpa using hwithin⟩
      · cases hread

/-! ### Steps -/

/-- Keys of an order are written back, defaults included: the canonical document names them all. -/
theorem writesBack_orderKey : WritesBack OrderKey.ofJson? OrderKey.toJson := by
  intro depth document key hdocument hread
  simp only [OrderKey.ofJson?, Option.bind_eq_bind, Option.bind_eq_some_iff] at hread
  obtain ⟨members, hrecord, field, -, descending, -, nullsFirst, -, heq⟩ := hread
  cases heq
  obtain ⟨below, rfl, -⟩ := exists_isWithin_of_toRecord? hdocument hrecord
  exact ⟨isWithin_object_iff.2 ⟨below, rfl, by simp⟩, rfl⟩

/-- Calls of aggregates are written back, with the arguments left out if there are none. -/
theorem writesBack_aggregateCall (budget : Nat) :
    WritesBack (AggregateCall.ofJson? budget) AggregateCall.toJson := by
  intro depth document call hdocument hread
  simp only [AggregateCall.ofJson?, Option.bind_eq_bind, Option.bind_eq_some_iff] at hread
  obtain ⟨members, hrecord, name, -, function, -, args, hargs, heq⟩ := hread
  cases heq
  obtain ⟨below, rfl, hmembers⟩ := exists_isWithin_of_toRecord? hdocument hrecord
  obtain ⟨hwithin, hargs⟩ := (writesBack_expr budget).of_listMember hmembers hargs
  rw [AggregateCall.toJson, Expr.listToJson_eq]
  refine ⟨isWithin_object_iff.2 ⟨below, rfl, by simpa using hwithin⟩, ?_⟩
  simp only [AggregateCall.ofJson?, Option.bind_eq_bind, Option.bind_eq_some_iff]
  refine ⟨_, rfl, name, by cases args <;> rfl, function, by cases args <;> rfl, args,
    withDefault?_listMember ?_ hargs, rfl⟩
  cases args <;> rfl

/-- The fields of a projection are written back, each with its expression. -/
theorem writesBack_projection (budget : Nat) :
    WritesBack (Projection.ofJson? budget) Projection.toJson := by
  intro depth document field hdocument hread
  simp only [Projection.ofJson?, Option.bind_eq_bind, Option.bind_eq_some_iff] at hread
  obtain ⟨members, hrecord, name, -, e, he, heq⟩ := hread
  cases heq
  obtain ⟨below, rfl, hmembers⟩ := exists_isWithin_of_toRecord? hdocument hrecord
  obtain ⟨hwithin, he⟩ := (writesBack_expr budget).of_required? hmembers he
  refine ⟨isWithin_object_iff.2 ⟨below, rfl, by simp [hwithin]⟩, ?_⟩
  simp only [Projection.ofJson?, Option.bind_eq_bind, Option.bind_eq_some_iff]
  exact ⟨_, rfl, name, rfl, e, (required?_eq rfl).trans he, rfl⟩

/-- Shards are written back as their numbers. -/
theorem writesBack_shard : WritesBack shardOfJson? fun shard => .int shard.toNat := by
  intro depth document shard _ _
  have hword : shard.toNat < UInt64.size := Nat.lt_trans shard.toNat_lt (by decide)
  exact ⟨isWithin_natCast hword depth, shardOfJson?_int shard⟩

/-- The mode of a sort is read from its own name. -/
theorem SortMode.ofJson?_name (mode : SortMode) : ofJson? (.string mode.name) = some mode := by
  cases mode <;> rfl

/-- A strategy of dropping repeated rows is read from its own name. -/
theorem DistinctStrategy.ofJson?_name (strategy : DistinctStrategy) :
    ofJson? (.string strategy.name) = some strategy := by
  cases strategy <;> rfl

/-- What has been read as a step, its input aside, is written back over any input. -/
theorem writesBack_step {budget depth : Nat} {kind : String} {members : List (String × Json)}
    {step : Step} (hmembers : ∀ member ∈ members, member.2.IsWithin depth)
    (hread : Step.ofMembers? budget kind members = some step) :
    kind = step.kind.name ∧ (∀ member ∈ step.members, member.2.IsWithin depth) ∧
      ∀ input, Step.ofMembers? budget kind
        (("kind", .string kind) :: ("input", input) :: step.members) = some step := by
  unfold Step.ofMembers? at hread
  split at hread
  · simp only [Option.bind_eq_bind, Option.bind_eq_some_iff] at hread
    obtain ⟨keys, hkeys, mode, -, heq⟩ := hread
    cases heq
    obtain ⟨hwithin, hkeys⟩ := writesBack_orderKey.list.of_required? hmembers hkeys
    refine ⟨rfl, by simp [Step.members, hwithin], fun input => ?_⟩
    simp only [Step.ofMembers?, Option.bind_eq_bind, Option.bind_eq_some_iff]
    exact ⟨keys, (required?_eq rfl).trans hkeys, mode,
      (withDefault?_eq rfl).trans mode.ofJson?_name, rfl⟩
  · simp only [Option.bind_eq_bind, Option.bind_eq_some_iff] at hread
    obtain ⟨keys, hkeys, aggregates, haggregates, heq⟩ := hread
    cases heq
    obtain ⟨hwithinkeys, hkeys⟩ := writesBack_orderKey.of_listMember hmembers hkeys
    obtain ⟨hwithin, haggregates⟩ :=
      (writesBack_aggregateCall budget).of_listMember hmembers haggregates
    refine ⟨rfl, List.forall_mem_append.2 ⟨hwithinkeys, hwithin⟩, fun input => ?_⟩
    simp only [Step.ofMembers?, Option.bind_eq_bind, Option.bind_eq_some_iff]
    refine ⟨keys, withDefault?_listMember ?_ hkeys, aggregates,
      withDefault?_listMember ?_ haggregates, rfl⟩
    · cases keys <;> cases aggregates <;> rfl
    · cases keys <;> cases aggregates <;> rfl
  · simp only [Option.bind_eq_bind, Option.bind_eq_some_iff] at hread
    obtain ⟨keys, hkeys, strategy, -, heq⟩ := hread
    cases heq
    obtain ⟨hwithin, hkeys⟩ := writesBack_string.of_listMember hmembers hkeys
    refine ⟨rfl, by simpa [Step.members, or_imp, forall_and] using hwithin, fun input => ?_⟩
    simp only [Step.ofMembers?, Option.bind_eq_bind, Option.bind_eq_some_iff]
    refine ⟨keys, withDefault?_listMember ?_ hkeys, strategy,
      (withDefault?_eq ?_).trans strategy.ofJson?_name, rfl⟩
    · cases keys <;> rfl
    · cases keys <;> rfl
  · obtain ⟨fields, hfields, heq⟩ := Option.bind_eq_some_iff.1 hread
    cases heq
    obtain ⟨hwithin, hfields⟩ := (writesBack_projection budget).list.of_required? hmembers hfields
    refine ⟨rfl, by simp [Step.members, hwithin], fun input => ?_⟩
    exact Option.bind_eq_some_iff.2 ⟨fields, (required?_eq rfl).trans hfields, rfl⟩
  · simp only [Option.bind_eq_bind, Option.bind_eq_some_iff] at hread
    obtain ⟨offset, hoffset, limit, hlimit, heq⟩ := hread
    cases heq
    obtain ⟨hwithinoffset, hoffset⟩ := (writesBack_expr budget).of_exprMember hmembers hoffset
    obtain ⟨hwithinlimit, hlimit⟩ := (writesBack_expr budget).of_exprMember hmembers hlimit
    refine ⟨rfl, List.forall_mem_append.2 ⟨hwithinoffset, hwithinlimit⟩, fun input => ?_⟩
    simp only [Step.ofMembers?, Option.bind_eq_bind, Option.bind_eq_some_iff]
    refine ⟨offset, optional?_exprMember ?_ hoffset, limit, optional?_exprMember ?_ hlimit, rfl⟩
    · cases offset <;> cases limit <;> rfl
    · cases offset <;> cases limit <;> rfl
  · cases hread

/-! ### Plans -/

/-- A scan that has been read as a node is written back as one. -/
theorem writesBack_scan {depth : Nat} {members : List (String × Json)} {scan : Scan}
    (hmembers : ∀ member ∈ members, member.2.IsWithin depth)
    (hread : Scan.ofMembers? members = some scan) (buffered : Bool) (budget : Nat) :
    scan.toJson.IsWithin (depth + 1) ∧
      nodesOfJson? buffered (budget + 1) scan.toJson = some ([], scan) := by
  simp only [Scan.ofMembers?, Option.bind_eq_bind, Option.bind_eq_some_iff] at hread
  obtain ⟨table, -, shards, hshards, ordered, -, heq⟩ := hread
  cases heq
  obtain ⟨hwithin, hshards⟩ := writesBack_shard.list.of_required? hmembers hshards
  refine ⟨isWithin_object_iff.2 ⟨depth, rfl, by simp [hwithin]⟩, ?_⟩
  simp only [nodesOfJson?, Option.bind_eq_bind, Option.bind_eq_some_iff]
  refine ⟨(NodeKind.receive.name, _), rfl, ?_⟩
  simp only [if_true, Scan.ofMembers?, Option.bind_eq_bind, Option.bind_eq_some_iff]
  exact ⟨_, ⟨table, rfl, shards, (required?_eq rfl).trans hshards, ordered, rfl, rfl⟩, rfl⟩

/-- The kind and the input of a step are no members of its own. -/
theorem Step.filter_members (step : Step) {name : String} (h : name = "kind" ∨ name = "input") :
    step.members.filter (fun member => member.1 == name) = [] := by
  obtain rfl | rfl := h <;> cases step with
  | sort | project => rfl
  | groupBy keys aggregates => cases keys <;> cases aggregates <;> rfl
  | distinct keys => cases keys <;> rfl
  | slice offset limit => cases offset <;> cases limit <;> rfl

/-- The kind of a node is found as the one member of its name, the members of the step being named
otherwise. -/
theorem Step.uniqueMember?_kind (step : Step) (kind input : Json) :
    uniqueMember? (("kind", kind) :: ("input", input) :: step.members) "kind" =
      some (some kind) := by
  rw [uniqueMember?, List.filter_cons_of_pos rfl, List.filter_cons_of_neg (by simp),
    step.filter_members (.inl rfl)]

/-- The document of a step tells its kind. Behind the tag, all members of the object are handed on.
-/
theorem Step.toTagged?_toJson (step : Step) (input : Json) (buffered : Bool) :
    (step.toJson input).toTagged? "kind" nodeVariants buffered =
      some (step.kind.name,
        ("kind", .string step.kind.name) :: ("input", input) :: step.members) := by
  have htag := step.uniqueMember?_kind (.string step.kind.name) input
  cases step with
  | sort | groupBy | distinct | project | slice => exact toTagged?_object htag rfl

/-- The input of a node is found as the one member of its name, for the same reason. -/
theorem Step.uniqueMember?_input (step : Step) (kind input : Json) :
    uniqueMember? (("kind", kind) :: ("input", input) :: step.members) "input" =
      some (some input) := by
  rw [uniqueMember?, List.filter_cons_of_neg (by simp), List.filter_cons_of_pos rfl,
    step.filter_members (.inr rfl)]

/-- The document of steps over a scan: each step has the ones inside of it as its input, down to the
scan. -/
def nodesToJson (nodes : List Step × Scan) : Json :=
  nodes.1.foldr Step.toJson nodes.2.toJson

/-- **The nodes of a plan are written back**, by induction over the nesting that the reader allows.
Below the outermost node the reader works on a part that has been put by, hence `buffered` in the
statement. -/
theorem writesBack_nodes (buffered : Bool) (budget : Nat) :
    WritesBack (nodesOfJson? buffered budget) nodesToJson := by
  induction budget generalizing buffered with
  | zero =>
      intro depth document nodes _ hread
      cases hread
  | succ budget ih =>
      intro depth document nodes hdocument hread
      simp only [nodesOfJson?, Option.bind_eq_bind, Option.bind_eq_some_iff] at hread
      obtain ⟨⟨kind, members⟩, htagged, hread⟩ := hread
      obtain ⟨below, rfl, hmembers⟩ := exists_isWithin_of_toTagged? hdocument htagged
      split at hread
      · obtain ⟨scan, hscan, heq⟩ := Option.bind_eq_some_iff.1 hread
        cases heq
        exact writesBack_scan hmembers hscan buffered budget
      · next hkind =>
          simp only [Option.bind_eq_some_iff] at hread
          obtain ⟨step, hstep, ⟨steps, scan⟩, hinput, heq⟩ := hread
          cases heq
          obtain ⟨rfl, hwithin, hstep⟩ := writesBack_step hmembers hstep
          obtain ⟨hwithininput, hinput⟩ := (ih true).of_required? hmembers hinput
          constructor
          · refine isWithin_object_iff.2 ⟨below, rfl, ?_⟩
            exact List.forall_mem_cons.2 ⟨isWithin_string _ _,
              List.forall_mem_cons.2 ⟨hwithininput, hwithin⟩⟩
          · change nodesOfJson? buffered (budget + 1) (step.toJson (nodesToJson (steps, scan))) = _
            simp only [nodesOfJson?, Option.bind_eq_bind, Option.bind_eq_some_iff]
            refine ⟨_, step.toTagged?_toJson _ buffered, ?_⟩
            simp only [if_neg hkind, Option.bind_eq_some_iff]
            exact ⟨step, hstep _, (steps, scan),
              (required?_eq (step.uniqueMember?_input _ _)).trans hinput, rfl⟩

/-- Plans are read back from their documents: the canonical document is writable, and it is read as
the same plan. -/
theorem Plan.ofJson?_toJson {document : Json} {plan : Plan} (hrange : document.IsInRange)
    (hread : Plan.ofJson? document = some plan) :
    plan.toJson.IsWritable ∧ Plan.ofJson? plan.toJson = some plan := by
  simp only [Plan.ofJson?, Option.bind_eq_bind, Option.bind_eq_some_iff] at hread
  obtain ⟨members, hmembers, version, hversion, nodes, hroot, heq⟩ := hread
  cases heq
  obtain ⟨hwithin, hroot⟩ :=
    (writesBack_nodes false depthLimit).of_required? (isWithin_of_knownMembers? hrange hmembers)
      hroot
  have hsize : (UInt16.ofNat version).toNat < UInt16.size := UInt16.toNat_lt _
  have hword : (UInt16.ofNat version).toNat < UInt64.size := Nat.lt_trans hsize (by decide)
  have hwritten : ∀ member ∈ [("version", Json.int (UInt16.ofNat version).toNat),
      ("root", nodesToJson nodes)], member.2.IsWithin (depthLimit - 1) := by
    simp only [List.forall_mem_cons]
    exact ⟨isWithin_natCast hword _, hwithin, List.forall_mem_nil _⟩
  refine ⟨areMembersWritable_iff.2 fun member hmem => (hwritten member hmem).writable, ?_⟩
  simp only [Plan.ofJson?, Option.bind_eq_bind, Option.bind_eq_some_iff]
  refine ⟨_, if_pos (areMembersSound_iff.2 fun member hmem => (hwritten member hmem).sound), _,
    (required?_eq rfl).trans (toNatBelow?_int hsize), nodes, (required?_eq rfl).trans hroot, ?_⟩
  rw [UInt16.ofNat_toNat]
  rfl

/-- A plan is accepted exactly if its document is there, can be read as a plan, and the plan passes
the check. -/
theorem Plan.decode_eq_ok_iff {document : Option Json} {plan : Plan} :
    Plan.decode document = .ok plan ↔
      (∃ j, document = some j ∧ Plan.ofJson? j = some plan) ∧ plan.check = .ok () := by
  rw [← Option.bind_eq_some_iff, Plan.decode]
  cases document.bind Plan.ofJson? with
  | none => simp
  | some read =>
      change (read.check.map fun _ => read) = .ok plan ↔ _
      constructor
      · intro h
        cases hcheck : read.check with
        | error err =>
            rw [hcheck] at h
            cases h
        | ok _ =>
            rw [hcheck] at h
            cases h
            exact ⟨rfl, hcheck⟩
      · rintro ⟨heq, hcheck⟩
        cases heq
        rw [hcheck]
        rfl

/-- **Plans that are accepted are read back from their canonical texts, and two of them have one
canonical text exactly if they are one plan.** -/
theorem Plan.decode_render {octets : List UInt8} {plan : Plan}
    (h : Plan.decode (Json.read? octets) = .ok plan) :
    Plan.decode (Json.parse? plan.render) = .ok plan ∧
      ∀ {octets' : List UInt8} {other : Plan}, Plan.decode (Json.read? octets') = .ok other →
        (other.render = plan.render ↔ other = plan) := by
  have hback {octets : List UInt8} {plan : Plan} (h : Plan.decode (Json.read? octets) = .ok plan) :
      Plan.decode (Json.parse? plan.render) = .ok plan := by
    obtain ⟨⟨document, hdocument, hplan⟩, hcheck⟩ := Plan.decode_eq_ok_iff.1 h
    obtain ⟨hwritable, hread⟩ := Plan.ofJson?_toJson (Json.isInRange_of_read? hdocument) hplan
    exact Plan.decode_eq_ok_iff.2 ⟨⟨_, Json.read?_render hwritable, hread⟩, hcheck⟩
  refine ⟨hback h, fun hother => ⟨fun hrender => ?_, congrArg Plan.render⟩⟩
  exact Except.ok.inj ((hback hother).symm.trans (hrender ▸ hback h))

/-- A document of a plan that is not its canonical one: it leaves defaults out, its members are in
another order, one of them is unknown, some of its records are arrays, and two kinds of nodes are
given by their places. -/
def terseDocument : Json :=
  .object [
    ("root", .object [
      ("input", .array [.int 1,
        .object [("kind", .int 0), ("table", .string "t"), ("shards", .array [.int 3])],
        .array [.array [.string "x", .bool true]], .object [("materialize", .null)]]),
      ("fields", .array [.array [.string "x", .object [
        ("kind", .string "function"), ("name", .string "round"), ("comment", .null),
        ("args", .array [.array [.string "const", .object [("$double", .string "NaN")]]])]]]),
      ("kind", .string "project")]),
    ("version", .int 1)]

/-- The plan of that document, with the defaults filled in. -/
def tersePlan : Plan :=
  ⟨1, [.project [⟨"x", .call "round" [.const (.double Double.nan)]⟩],
    .sort [⟨"x", true, false⟩] .materialize], ⟨"t", [3], false⟩⟩

/-- The terse document is accepted, and its plan is read back from the canonical text as well. -/
theorem decode_render_tersePlan :
    Plan.decode (Json.read? (utf8Octets terseDocument.render)) = .ok tersePlan ∧
      Plan.decode (Json.parse? tersePlan.render) = .ok tersePlan := by
  have hwritable : terseDocument.IsWritable := by
    simp [terseDocument, Json.IsWritable, Json.AreMembersWritable, Json.AreItemsWritable,
      Json.FitsWord]
  have h : Plan.decode (Json.read? (utf8Octets terseDocument.render)) = .ok tersePlan := by
    rw [Json.read?_render hwritable]
    rfl
  exact ⟨h, (Plan.decode_render h).1⟩

end ShardQuery
