import ShardQuery.Proofs.Bindings.Calls

/-!
# Which Stored Variables Are Found

A stored variable should be found by every reference to it. Calls see to that, since they store
names without leading dollar signs and nothing at position zero. A text does not: its names and
positions are kept as they are. What it stores under a name with a leading dollar sign, or at
position zero, stays there whatever is called, and no reference leads to it.

Main definitions:

* `Bindings.IsReachable` — whether all stored variables are found.

## Main results

* `Bindings.isOrdered_of_parse?`: what is read from a text is in order.
* `Bindings.isReachable_afterCalls_iff`: all stored variables are found exactly if no unfit ones
  have been read.
-/

namespace ShardQuery.Bindings

variable {bindings start : Bindings}

/-! ### Texts -/

/-- **What is read from a text is in order**, whatever the text. -/
theorem isOrdered_of_parse? {text : String} (h : parse? text = some bindings) :
    bindings.IsOrdered := by
  obtain ⟨document, -, hdocument⟩ := Option.bind_eq_some_iff.1 h
  simp only [ofJson?, Option.bind_eq_bind, Option.bind_eq_some_iff] at hdocument
  obtain ⟨members, -, named, hnamed, positional, hpositional, heq⟩ := hdocument
  cases heq
  constructor
  · obtain rfl | ⟨value, -, hvalue⟩ := Json.exists_of_withDefault? hnamed
    · exact List.Pairwise.nil
    · simp only [namedOfJson?, Option.bind_eq_bind, Option.bind_eq_some_iff] at hvalue
      obtain ⟨_, -, fields, -, hfields⟩ := hvalue
      cases hfields
      exact Value.areSorted_sortFields fields
  · obtain rfl | ⟨value, -, hvalue⟩ := Json.exists_of_withDefault? hpositional
    · exact List.Pairwise.nil
    · simp only [positionalOfJson?, Option.bind_eq_bind, Option.bind_eq_some_iff] at hvalue
      obtain ⟨_, -, entries, -, hentries⟩ := hvalue
      cases hentries
      refine List.foldlRecOn entries _ List.Pairwise.nil fun sorted hsorted entry _ => ?_
      rw [insertPosition_eq]
      exact AreAscending.insertEntry hsorted

/-! ### References -/

/-- A variable with a value is resolved to it. Only position zero is refused before anything is
looked up. -/
theorem resolve_of_get? {ref : BindRef} {value : Value} (hzero : ref ≠ .position 0)
    (h : bindings.get? ref = some value) : bindings.resolve ref = .ok value := by
  rw [resolve, if_neg hzero, h]

/-- Whether all stored variables are found. Besides what is stored under them, this asks that their
names and positions be such as a reference can have. -/
structure IsReachable (bindings : Bindings) : Prop where
  /-- No stored name starts with a dollar sign, and nothing is stored at position zero. -/
  fit : bindings.IsFit
  /-- Every stored name is resolved, however many dollar signs a reference puts in front of it. -/
  resolve_name : ∀ entry ∈ bindings.named, ∀ dollars,
    bindings.resolve (.name (String.ofList (List.replicate dollars '$' ++ entry.1.toList))) =
      .ok entry.2
  /-- Every stored position is resolved. -/
  resolve_position : ∀ entry ∈ bindings.positional,
    bindings.resolve (.position entry.1) = .ok entry.2

/-- Variables that are stored in order are found if none of them is unfit. -/
theorem IsOrdered.isReachable (h : bindings.IsOrdered) (hfit : bindings.IsFit) :
    bindings.IsReachable := by
  refine ⟨hfit, fun entry hmem dollars => resolve_of_get? (by simp) ?_,
    fun entry hmem => resolve_of_get? ?_ ?_⟩
  · rw [get?_name, bareName_dollars, bareName_of_head? (hfit.named entry hmem)]
    exact h.named.mem_iff.1 hmem
  · exact fun heq => hfit.positional entry hmem (BindRef.position.inj heq)
  · exact h.positional.mem_iff.1 hmem

/-- **Which stored variables are found**: for bind variables that begin with none or with those of a
text, and after any calls, all that are stored are found exactly if the text has stored no name with
a leading dollar sign and nothing at position zero. -/
theorem isReachable_afterCalls_iff (hstart : start = empty ∨ ∃ text, parse? text = some start)
    (calls : List BindCall) : (start.afterCalls calls).IsReachable ↔ start.IsFit := by
  have hordered : start.IsOrdered := by
    rcases hstart with rfl | ⟨text, htext⟩
    · exact isOrdered_empty
    · exact isOrdered_of_parse? htext
  constructor
  · intro h
    exact isFit_afterCalls_iff.1 h.fit
  · intro h
    exact (hordered.afterCalls calls).isReachable (isFit_afterCalls_iff.2 h)

/-- What is read from a text that is the one of a document. -/
theorem parse?_of_render {text : String} (document : Json) (hwritable : document.IsWritable)
    (h : text = document.render) : parse? text = ofJson? document := by
  rw [parse?, Json.parse?, h, Json.read?_render hwritable, Option.bind_some]

/-- A text that stores a fit name and a position. -/
def fitText : String :=
  "\x7b\"named\":\x7b\"x\":1\x7d,\"positional\":\x7b\"2\":true\x7d\x7d"

/-- Calls for other names and positions leave it so. -/
theorem isReachable_fitText : ∃ start, parse? fitText = some start ∧
    (start.afterCalls [.byName "$$y" .null, .byPosition 0 .null]).IsReachable := by
  have hparse : parse? fitText = some ⟨[("x", .int 1)], [(2, .bool true)]⟩ :=
    parse?_of_render (.object [("named", .object [("x", .int 1)]),
      ("positional", .object [("2", .bool true)])])
      ⟨⟨⟨by decide, by decide⟩, trivial⟩, ⟨trivial, trivial⟩, trivial⟩ rfl
  refine ⟨_, hparse, (isReachable_afterCalls_iff (.inr ⟨fitText, hparse⟩) _).2 ⟨?_, ?_⟩⟩
  · simp
  · simp

/-- A text that stores a name with a leading dollar sign, and position zero. -/
def unfitText : String :=
  "\x7b\"named\":\x7b\"$x\":1\x7d,\"positional\":\x7b\"0\":true\x7d\x7d"

/-- Neither of them is found: a reference drops the dollar sign that the stored name still has, and
a reference to position zero is refused. -/
theorem not_isReachable_unfitText : ∃ start, parse? unfitText = some start ∧
    ¬start.IsReachable ∧ start.resolve (.name "$x") = .error (.unbound (.name "$x")) ∧
    start.resolve (.name "x") = .error (.unbound (.name "x")) ∧
    start.resolve (.position 0) = .error .zeroPosition := by
  have hparse : parse? unfitText = some ⟨[("$x", .int 1)], [(0, .bool true)]⟩ :=
    parse?_of_render (.object [("named", .object [("$x", .int 1)]),
      ("positional", .object [("0", .bool true)])])
      ⟨⟨⟨by decide, by decide⟩, trivial⟩, ⟨trivial, trivial⟩, trivial⟩ rfl
  refine ⟨_, hparse, fun h => ?_, rfl, rfl, rfl⟩
  exact h.fit.named ("$x", .int 1) List.mem_cons_self rfl

end ShardQuery.Bindings
