import ShardQuery.Json.Reader
import ShardQuery.Proofs.Json.Double
import ShardQuery.Proofs.Json.Text

/-!
# Documents Read Back

A document whose numbers have texts of their own is written as a text that is read as the
same document. The tokens of a document stand in the middle: the text is cut into them, and
the reader makes the document from them.

## Main results

* `Json.lex?_render`: the text of a document is cut into its tokens.
* `Json.expectValue?_tokens`: the reader makes a document from its tokens.
* `Json.read?_render`: documents read back.
* `Json.reads_induct`: induction along a reading that succeeds.
-/

namespace ShardQuery.Json

/-! ### Writable documents -/

mutual

/-- Whether a document has no flaws and only numbers that have texts of their own. -/
def IsWritable : Json → Prop
  | .int i => FitsWord i
  | .double d => d.isFinite = true
  | .array items => AreItemsWritable items
  | .object members => AreMembersWritable members
  | .flawed => False
  | .null | .bool _ | .string _ => True

/-- Whether all items of an array are writable, given as a recursion of its own because documents
nest through lists. -/
def AreItemsWritable : List Json → Prop
  | [] => True
  | item :: items => IsWritable item ∧ AreItemsWritable items

/-- Whether all members of an object are writable. Names are texts and can always be written, so
only the values count. -/
def AreMembersWritable : List (String × Json) → Prop
  | [] => True
  | (_, value) :: members => IsWritable value ∧ AreMembersWritable members

end

/-! ### Nesting -/

mutual

/-- How deep arrays and objects nest in a document. -/
def nesting : Json → Nat
  | .array items => itemsNesting items + 1
  | .object members => membersNesting members + 1
  | .null | .bool _ | .int _ | .double _ | .string _ | .flawed => 0

/-- How deep arrays and objects nest in the items of an array. -/
def itemsNesting : List Json → Nat
  | [] => 0
  | item :: items => max (nesting item) (itemsNesting items)

/-- How deep arrays and objects nest in the members of an object. -/
def membersNesting : List (String × Json) → Nat
  | [] => 0
  | (_, value) :: members => max (nesting value) (membersNesting members)

end

mutual

/-- A document without flaws that does not nest too deep is sound. -/
theorem isSound_of_nesting_le : ∀ (j : Json) (depth : Nat), IsWritable j → nesting j ≤ depth →
    isSound depth j = true
  | .null, _, _, _ | .bool _, _, _, _ | .int _, _, _, _ | .double _, _, _, _
  | .string _, _, _, _ => by simp only [isSound]
  | .array items, 0, _, h => absurd h (Nat.not_succ_le_zero _)
  | .array items, depth + 1, hwritable, h => by
    rw [isSound]
    exact areItemsSound_of_nesting_le items depth hwritable (Nat.le_of_succ_le_succ h)
  | .object members, 0, _, h => absurd h (Nat.not_succ_le_zero _)
  | .object members, depth + 1, hwritable, h => by
    rw [isSound]
    exact areMembersSound_of_nesting_le members depth hwritable (Nat.le_of_succ_le_succ h)

/-- The items of an array are sound to a depth that their nesting does not exceed, provided they are
writable: there is then nothing flawed among them. -/
theorem areItemsSound_of_nesting_le : ∀ (items : List Json) (depth : Nat),
    AreItemsWritable items → itemsNesting items ≤ depth → areItemsSound depth items = true
  | [], _, _, _ => by rw [areItemsSound]
  | item :: items, depth, ⟨hitem, hitems⟩, h => by
    obtain ⟨hle, hrest⟩ := Nat.max_le.1 h
    rw [areItemsSound, isSound_of_nesting_le item depth hitem hle,
      areItemsSound_of_nesting_le items depth hitems hrest, Bool.and_self]

/-- The members of an object are sound to a depth that their nesting does not exceed, as the items
of an array are. -/
theorem areMembersSound_of_nesting_le : ∀ (members : List (String × Json)) (depth : Nat),
    AreMembersWritable members → membersNesting members ≤ depth →
    areMembersSound depth members = true
  | [], _, _, _ => by rw [areMembersSound]
  | (_, value) :: members, depth, ⟨hvalue, hmembers⟩, h => by
    obtain ⟨hle, hrest⟩ := Nat.max_le.1 h
    rw [areMembersSound, isSound_of_nesting_le value depth hvalue hle,
      areMembersSound_of_nesting_le members depth hmembers hrest, Bool.and_self]

end

mutual

/-- A sound document does not nest too deep: soundness to a depth bounds the nesting, which is the
reader's own limit. -/
theorem nesting_le_of_isSound : ∀ (j : Json) (depth : Nat), isSound depth j = true →
    nesting j ≤ depth
  | .null, _, _ | .bool _, _, _ | .int _, _, _ | .double _, _, _ | .string _, _, _
  | .flawed, _, _ => Nat.zero_le _
  | .array _, 0, h | .object _, 0, h => by
    rw [isSound] at h
    cases h
  | .array items, depth + 1, h => by
    rw [isSound] at h
    exact Nat.succ_le_succ (itemsNesting_le_of_areItemsSound items depth h)
  | .object members, depth + 1, h => by
    rw [isSound] at h
    exact Nat.succ_le_succ (membersNesting_le_of_areMembersSound members depth h)

/-- Items that are all sound to a depth nest no deeper than it. -/
theorem itemsNesting_le_of_areItemsSound : ∀ (items : List Json) (depth : Nat),
    areItemsSound depth items = true → itemsNesting items ≤ depth
  | [], _, _ => Nat.zero_le _
  | item :: items, depth, h => by
    rw [areItemsSound, Bool.and_eq_true] at h
    exact Nat.max_le.2 ⟨nesting_le_of_isSound item depth h.1,
      itemsNesting_le_of_areItemsSound items depth h.2⟩

/-- Members that are all sound to a depth nest no deeper than it. -/
theorem membersNesting_le_of_areMembersSound : ∀ (members : List (String × Json)) (depth : Nat),
    areMembersSound depth members = true → membersNesting members ≤ depth
  | [], _, _ => Nat.zero_le _
  | (_, value) :: members, depth, h => by
    rw [areMembersSound, Bool.and_eq_true] at h
    exact Nat.max_le.2 ⟨nesting_le_of_isSound value depth h.1,
      membersNesting_le_of_areMembersSound members depth h.2⟩

end

/-! ### Tokens -/

mutual

/-- The tokens of a document, which stand between its text and the document: the scanner is shown to
find them and the parser to put them together again. -/
def tokens : Json → List Token
  | .string s => [.text (some s)]
  | .array items => .openArray :: (itemTokens items ++ [.closeArray])
  | .object members => .openObject :: (memberTokens members ++ [.closeObject])
  | scalar => [.scalar scalar]

/-- The tokens of the items of an array, with a comma before each item but the first, and none after
the last. -/
def itemTokens : List Json → List Token
  | [] => []
  | [item] => tokens item
  | item :: items => tokens item ++ .comma :: itemTokens items

/-- The tokens of the members of an object: name, colon and value, with a comma before each member
but the first. -/
def memberTokens : List (String × Json) → List Token
  | [] => []
  | [(name, value)] => .text (some name) :: .colon :: tokens value
  | (name, value) :: members =>
    .text (some name) :: .colon :: (tokens value ++ .comma :: memberTokens members)

end

/-! ### Cutting texts into tokens -/

/-- A token at the start of a text is cut off. -/
theorem lex?_of_scanToken? {text rest : List UInt8} {token : Token}
    (hblank : ∀ b ∈ text.head?, isBlank b = false) (h : scanToken? text = some (token, rest)) :
    lex? text = (lex? rest).map (token :: ·) := by
  cases text with
  | nil => cases h
  | cons b text =>
      rw [lex?, hblank b rfl, if_neg (by decide)]
      split
      · next heq =>
          rw [h] at heq
          cases heq
          rfl
      · next heq =>
          rw [h] at heq
          cases heq

/-- A number starts with a digit or a sign. -/
theorem head_of_scanNumber? {text rest : List UInt8} {value : Json}
    (h : scanNumber? text = some (value, rest)) :
    ∃ b tail, text = b :: tail ∧ (isDigit b = true ∨ b = 0x2d) := by
  unfold scanNumber? at h
  split at h
  · next tail => exact ⟨0x2d, tail, rfl, .inr rfl⟩
  · simp only [scanUnsigned?, Option.bind_eq_bind, Option.bind_eq_some_iff, Prod.exists] at h
    obtain ⟨digits, tail, hwhole, -⟩ := h
    unfold scanWhole? at hwhole
    split at hwhole
    · exact ⟨0x30, _, rfl, .inl rfl⟩
    · cases text with
      | nil => cases hwhole
      | cons b tail =>
          refine ⟨b, tail, rfl, .inl ?_⟩
          cases hb : isDigit b with
          | true => rfl
          | false =>
              rw [List.takeWhile_cons, hb] at hwhole
              cases hwhole

/-- A number is a token. The scanner comes to numbers last, so no other token may begin as a number
does. -/
theorem scanToken?_of_scanNumber? {text rest : List UInt8} {value : Json}
    (h : scanNumber? text = some (value, rest)) :
    scanToken? text = some (.scalar value, rest) := by
  obtain ⟨b, tail, rfl, hb⟩ := head_of_scanNumber? h
  unfold scanToken?
  split
  all_goals first
    | (next heq =>
        obtain ⟨rfl, -⟩ := List.cons.inj heq
        rcases hb with hb | hb <;> cases hb)
    | (rw [h]
       rfl)

/-- Nothing that begins a number is blank, so skipping blanks before a token does not skip into a
number. -/
theorem isBlank_of_number {b : UInt8} (h : isDigit b = true ∨ b = 0x2d) : isBlank b = false := by
  rcases h with h | rfl
  · rw [isDigit, decide_eq_true_eq, UInt8.le_iff_toNat_le, UInt8.le_iff_toNat_le] at h
    have hne (k : UInt8) (hk : k.toNat < 0x30) : (b == k) = false := by
      rw [beq_eq_false_iff_ne]
      rintro rfl
      have := h.1
      simp only [UInt8.reduceToNat] at this
      omega
    simp [isBlank, hne]
  · rfl

/-- The text of a number is cut off as one token. -/
theorem lex?_of_scanNumber? {text rest : List UInt8} {value : Json}
    (h : scanNumber? text = some (value, rest)) :
    lex? text = (lex? rest).map (.scalar value :: ·) := by
  refine lex?_of_scanToken? ?_ (scanToken?_of_scanNumber? h)
  obtain ⟨b, tail, rfl, hb⟩ := head_of_scanNumber? h
  rintro _ ⟨⟩
  exact isBlank_of_number hb

/-- The text of a punctuation mark is cut off as one token. -/
theorem lex?_mark {b : UInt8} {token : Token} {rest : List UInt8} (hblank : isBlank b = false)
    (h : scanToken? (b :: rest) = some (token, rest)) :
    lex? (b :: rest) = (lex? rest).map (token :: ·) :=
  lex?_of_scanToken? (by rintro _ ⟨⟩; exact hblank) h

/-- The text of a string is cut off as one token. -/
theorem lex?_quote (s : String) (rest : List UInt8) :
    lex? (utf8Octets (quote s) ++ rest) = (lex? rest).map (.text (some s) :: ·) := by
  refine lex?_of_scanToken? ?_ (scanToken?_quote s rest)
  rw [quote, utf8Octets_ofList]
  rintro _ ⟨⟩
  rfl

/-- The text of a name and of the colon behind it is cut off as two tokens. -/
theorem lex?_name (name : String) (rest : List UInt8) :
    lex? (utf8Octets (quote name) ++ 0x3a :: rest) =
      (lex? rest).map ([.text (some name), .colon] ++ ·) := by
  rw [lex?_quote, lex?_mark rfl rfl, Option.map_map]
  rfl

/-- A comma and the closing brackets delimit a number. They are all that the writer ever puts after
one inside a document. -/
theorem delimited_cons {b : UInt8} (h : b = 0x2c ∨ b = 0x5d ∨ b = 0x7d) (rest : List UInt8) :
    Delimited (b :: rest) := by
  rintro _ ⟨⟩
  exact h

/-- The end of the text delimits a number, as it has to where the whole document is one. -/
theorem delimited_nil : Delimited [] :=
  nofun

mutual

/-- **The text of a document is cut into its tokens**, whatever delimiter follows it. -/
theorem lex?_render : ∀ (j : Json) (rest : List UInt8), IsWritable j → Delimited rest →
    lex? (utf8Octets (render j) ++ rest) = (lex? rest).map (tokens j ++ ·)
  | .null, rest, _, _ => lex?_of_scanToken? (by rintro _ ⟨⟩; rfl) rfl
  | .bool true, rest, _, _ => lex?_of_scanToken? (by rintro _ ⟨⟩; rfl) rfl
  | .bool false, rest, _, _ => lex?_of_scanToken? (by rintro _ ⟨⟩; rfl) rfl
  | .int i, rest, h, hrest => lex?_of_scanNumber? (scanNumber?_int h hrest)
  | .double d, rest, h, hrest => lex?_of_scanNumber? (scanNumber?_double h hrest)
  | .string s, rest, _, _ => lex?_quote s rest
  | .array items, rest, h, _ => by
    have hclose := lex?_renderItems items (0x5d :: rest) h (delimited_cons (by decide) rest)
    rw [lex?_mark rfl rfl, Option.map_map] at hclose
    have hoctets : utf8Octets (render (.array items)) ++ rest =
        0x5b :: (utf8Octets (renderItems items) ++ 0x5d :: rest) := by
      rw [render, utf8Octets_append, utf8Octets_append, List.append_assoc, List.append_assoc]
      rfl
    rw [hoctets, lex?_mark rfl rfl, hclose, Option.map_map]
    simp [tokens, Function.comp_def]
  | .object members, rest, h, _ => by
    have hclose := lex?_renderMembers members (0x7d :: rest) h (delimited_cons (by decide) rest)
    rw [lex?_mark rfl rfl, Option.map_map] at hclose
    have hoctets : utf8Octets (render (.object members)) ++ rest =
        0x7b :: (utf8Octets (renderMembers members) ++ 0x7d :: rest) := by
      rw [render, utf8Octets_append, utf8Octets_append, List.append_assoc, List.append_assoc]
      rfl
    rw [hoctets, lex?_mark rfl rfl, hclose, Option.map_map]
    simp [tokens, Function.comp_def]
  | .flawed, rest, h, _ => h.elim

/-- The text of the items of an array is cut into their tokens. -/
theorem lex?_renderItems : ∀ (items : List Json) (rest : List UInt8), AreItemsWritable items →
    Delimited rest →
    lex? (utf8Octets (renderItems items) ++ rest) = (lex? rest).map (itemTokens items ++ ·)
  | [], rest, _, _ => (Option.map_id' ..).symm
  | [item], rest, h, hrest => lex?_render item rest h.1 hrest
  | item :: next :: items, rest, h, hrest => by
    have hitem := lex?_render item (0x2c :: (utf8Octets (renderItems (next :: items)) ++ rest)) h.1
      (delimited_cons (by decide) _)
    rw [lex?_mark rfl rfl, lex?_renderItems (next :: items) rest h.2 hrest, Option.map_map,
      Option.map_map] at hitem
    have hoctets : utf8Octets (renderItems (item :: next :: items)) ++ rest =
        utf8Octets (render item) ++ 0x2c :: (utf8Octets (renderItems (next :: items)) ++ rest) := by
      rw [renderItems, utf8Octets_append, utf8Octets_append]
      · simp only [List.append_assoc]
        rfl
      · nofun
    rw [hoctets, hitem]
    simp [itemTokens, Function.comp_def]

/-- The text of the members of an object is cut into their tokens. -/
theorem lex?_renderMembers : ∀ (members : List (String × Json)) (rest : List UInt8),
    AreMembersWritable members → Delimited rest →
    lex? (utf8Octets (renderMembers members) ++ rest) = (lex? rest).map (memberTokens members ++ ·)
  | [], rest, _, _ => (Option.map_id' ..).symm
  | [(name, value)], rest, h, hrest => by
    have hoctets : utf8Octets (renderMembers [(name, value)]) ++ rest =
        utf8Octets (quote name) ++ 0x3a :: (utf8Octets (render value) ++ rest) := by
      rw [renderMembers, utf8Octets_append, utf8Octets_append]
      simp only [List.append_assoc]
      rfl
    rw [hoctets, lex?_name, lex?_render value rest h.1 hrest, Option.map_map]
    simp [memberTokens, Function.comp_def]
  | (name, value) :: next :: members, rest, h, hrest => by
    have hvalue := lex?_render value
      (0x2c :: (utf8Octets (renderMembers (next :: members)) ++ rest)) h.1
      (delimited_cons (by decide) _)
    rw [lex?_mark rfl rfl, lex?_renderMembers (next :: members) rest h.2 hrest, Option.map_map,
      Option.map_map] at hvalue
    have hoctets : utf8Octets (renderMembers ((name, value) :: next :: members)) ++ rest =
        utf8Octets (quote name) ++ 0x3a :: (utf8Octets (render value) ++
          0x2c :: (utf8Octets (renderMembers (next :: members)) ++ rest)) := by
      rw [renderMembers, utf8Octets_append, utf8Octets_append, utf8Octets_append,
        utf8Octets_append]
      · simp only [List.append_assoc]
        rfl
      · nofun
    rw [hoctets, lex?_name, hvalue, Option.map_map]
    simp [memberTokens, Function.comp_def]

end

/-! ### Making documents from tokens -/

/-- Names that denote texts are the names of the object. -/
theorem namedMembers?_some (members : List (String × Json)) :
    namedMembers? (members.map fun member => (some member.1, member.2)) = some members := by
  induction members with
  | nil => rfl
  | cons member members ih =>
      rw [List.map_cons, namedMembers?, ih]
      rfl

/-- An object whose names have all been read closes as the object of its members. The parser
collects them in reverse. -/
theorem closeObject_some (members : List (String × Json)) :
    closeObject (members.map fun member => (some member.1, member.2)).reverse =
      .object members := by
  rw [closeObject, List.reverse_reverse, namedMembers?_some]

/-- No document starts with the end of an array. -/
theorem tokens_ne_closeArray (j : Json) (rest tail : List Token) :
    tokens j ++ rest ≠ .closeArray :: tail := by
  cases j <;> nofun

/-- The tokens of the items of an array that follow one of them. -/
def furtherItems : List Json → List Token
  | [] => []
  | items => .comma :: itemTokens items

/-- The tokens of the members of an object that follow one of them. -/
def furtherMembers : List (String × Json) → List Token
  | [] => []
  | members => .comma :: memberTokens members

/-- The tokens of some items are those of the first and then, for each further item, a comma and its
tokens. The parser consumes them in this shape. -/
theorem itemTokens_cons (item : Json) (items : List Json) :
    itemTokens (item :: items) = tokens item ++ furtherItems items := by
  cases items with
  | nil => rw [itemTokens, furtherItems, List.append_nil]
  | cons next items => rfl

/-- The tokens of some members, taken apart in the same way: the first member, and the further ones
behind their commas. -/
theorem memberTokens_cons (name : String) (value : Json) (members : List (String × Json)) :
    memberTokens ((name, value) :: members) =
      .text (some name) :: .colon :: (tokens value ++ furtherMembers members) := by
  cases members with
  | nil => rw [memberTokens, furtherMembers, List.append_nil]
  | cons next members => rfl

/-- A scalar completes the value that is expected at once; only an opening bracket puts a context on
the stack. -/
theorem expectValue?_scalar (value : Json) (stack : List Context) (rest : List Token) :
    expectValue? stack (.scalar value :: rest) = completeValue? value stack rest := by
  rw [expectValue?]

mutual

/-- **The reader makes a document from its tokens**, whatever is open around it. -/
theorem expectValue?_tokens : ∀ (j : Json) (stack : List Context) (rest : List Token),
    expectValue? stack (tokens j ++ rest) = completeValue? j stack rest
  | .null, stack, rest => expectValue?_scalar .null stack rest
  | .bool b, stack, rest => expectValue?_scalar (.bool b) stack rest
  | .int i, stack, rest => expectValue?_scalar (.int i) stack rest
  | .double d, stack, rest => expectValue?_scalar (.double d) stack rest
  | .flawed, stack, rest => expectValue?_scalar .flawed stack rest
  | .string s, stack, rest => by
    rw [tokens, List.singleton_append, expectValue?]
    rfl
  | .array [], stack, rest => by
    change expectValue? stack (.openArray :: .closeArray :: rest) = _
    rw [expectValue?]
  | .array (item :: items), stack, rest => by
    have hitems := completeValue?_items items item [] stack rest
    rw [tokens, itemTokens_cons, List.cons_append, List.append_assoc, List.append_assoc,
      List.singleton_append, expectValue?]
    · rw [expectValue?_tokens item]
      exact hitems
    · exact tokens_ne_closeArray item _
  | .object [], stack, rest => by
    change expectValue? stack (.openObject :: .closeObject :: rest) = _
    rw [expectValue?]
  | .object ((name, value) :: members), stack, rest => by
    have hmembers := completeValue?_members members name value [] stack rest
    rw [tokens, memberTokens_cons]
    simp only [List.cons_append, List.append_assoc, List.nil_append]
    rw [expectValue?, expectValue?_tokens value]
    exact hmembers

/-- The items of an array are collected in reverse order up to its end. -/
theorem completeValue?_items : ∀ (items : List Json) (item : Json) (done : List Json)
    (stack : List Context) (rest : List Token),
    completeValue? item (.array done :: stack) (furtherItems items ++ .closeArray :: rest) =
      completeValue? (.array (done.reverse ++ item :: items)) stack rest
  | [], item, done, stack, rest => by
    rw [furtherItems, List.nil_append, completeValue?, List.reverse_cons]
  | next :: items, item, done, stack, rest => by
    rw [furtherItems, itemTokens_cons, List.cons_append, completeValue?, List.append_assoc,
      expectValue?_tokens next, completeValue?_items items, List.reverse_cons, List.append_assoc,
      List.singleton_append]
    nofun

/-- The members of an object are collected in reverse order up to its end. -/
theorem completeValue?_members : ∀ (members : List (String × Json)) (name : String)
    (value : Json) (done : List (String × Json)) (stack : List Context) (rest : List Token),
    completeValue? value
        (.object (done.map fun member => (some member.1, member.2)).reverse (some name) :: stack)
        (furtherMembers members ++ .closeObject :: rest) =
      completeValue? (.object (done ++ (name, value) :: members)) stack rest
  | [], name, value, done, stack, rest => by
    have hclose := closeObject_some (done ++ [(name, value)])
    rw [List.map_append, List.reverse_append] at hclose
    rw [furtherMembers, List.nil_append, completeValue?]
    exact congrArg (completeValue? · stack rest) hclose
  | (next, nextValue) :: members, name, value, done, stack, rest => by
    have hmembers :=
      completeValue?_members members next nextValue (done ++ [(name, value)]) stack rest
    rw [List.map_append, List.reverse_append, List.append_assoc, List.singleton_append] at hmembers
    rw [furtherMembers, memberTokens_cons]
    · simp only [List.cons_append, List.append_assoc]
      rw [completeValue?, expectValue?_tokens nextValue]
      exact hmembers
    · nofun

end

/-- **Documents read back.** Every writable document, one within the reader's limit of nesting and
with numbers in range, is read from its own text as itself. -/
theorem read?_render {j : Json} (h : IsWritable j) : read? (utf8Octets j.render) = some j := by
  have hlex := lex?_render j [] h delimited_nil
  have hread := expectValue?_tokens j [] []
  rw [List.append_nil] at hlex hread
  rw [read?, hlex, lex?, Option.map_some, List.append_nil, Option.bind_some, hread, completeValue?]

/-- Writable documents with the same octets are equal, since reading is a function: the text of a
document determines it. -/
theorem eq_of_octets {a b : Json} (ha : IsWritable a) (hb : IsWritable b)
    (h : utf8Octets a.render = utf8Octets b.render) : a = b := by
  have hread := read?_render ha
  rw [h, read?_render hb] at hread
  exact (Option.some.inj hread).symm

/-- Documents that do not nest too deep read back with all of their parts. -/
theorem parseSound?_render {j : Json} (h : IsWritable j) (hnesting : j.nesting ≤ depthLimit) :
    parseSound? j.render = some j := by
  have hread : parse? j.render = some j := read?_render h
  have hsound := isSound_of_nesting_le j depthLimit h hnesting
  rw [parseSound?, hread, Option.filter_some, if_pos hsound]

/-! ### Readings that succeed -/

/-- **Induction along a reading that succeeds**, with one case for each clause of the two readers
that does not refuse. `expects` is shown of what stands where a value must stand, and `completes` of
what stands behind a value. -/
theorem reads_induct {j : Json} {expects : List Context → List Token → Prop}
    {completes : Json → List Context → List Token → Prop}
    (scalar : ∀ value stack tokens, completes value stack tokens →
      expects stack (.scalar value :: tokens))
    (text : ∀ content stack tokens, completes (ofText content) stack tokens →
      expects stack (.text content :: tokens))
    (emptyArray : ∀ stack tokens, completes (.array []) stack tokens →
      expects stack (.openArray :: .closeArray :: tokens))
    (openArray : ∀ stack token tokens, token ≠ .closeArray →
      expects (.array [] :: stack) (token :: tokens) →
      expects stack (.openArray :: token :: tokens))
    (emptyObject : ∀ stack tokens, completes (.object []) stack tokens →
      expects stack (.openObject :: .closeObject :: tokens))
    (openObject : ∀ name stack tokens, expects (.object [] name :: stack) tokens →
      expects stack (.openObject :: .text name :: .colon :: tokens))
    (done : completes j [] [])
    (nextItem : ∀ value items stack tokens, expects (.array (value :: items) :: stack) tokens →
      completes value (.array items :: stack) (.comma :: tokens))
    (lastItem : ∀ value items stack tokens,
      completes (.array (value :: items).reverse) stack tokens →
      completes value (.array items :: stack) (.closeArray :: tokens))
    (nextMember : ∀ value members name next stack tokens,
      expects (.object ((name, value) :: members) next :: stack) tokens →
      completes value (.object members name :: stack) (.comma :: .text next :: .colon :: tokens))
    (lastMember : ∀ value members name stack tokens,
      completes (closeObject ((name, value) :: members)) stack tokens →
      completes value (.object members name :: stack) (.closeObject :: tokens)) :
    (∀ stack tokens, expectValue? stack tokens = some j → expects stack tokens) ∧
      ∀ value stack tokens, completeValue? value stack tokens = some j →
        completes value stack tokens := by
  apply expectValue?.mutual_induct
  case case1 =>
    intro stack value tokens ih h
    rw [expectValue?] at h
    exact scalar value stack tokens (ih h)
  case case2 =>
    intro stack content tokens ih h
    rw [expectValue?] at h
    exact text content stack tokens (ih h)
  case case3 =>
    intro stack tokens ih h
    rw [expectValue?] at h
    exact emptyArray stack tokens (ih h)
  case case4 =>
    intro stack tokens hclose ih h
    rw [expectValue?.eq_4 _ _ hclose] at h
    cases tokens with
    | nil =>
        rw [expectValue?] at h
        · cases h
        all_goals nofun
    | cons token tokens =>
        refine openArray stack token tokens ?_ (ih h)
        rintro rfl
        exact hclose tokens rfl
  case case5 =>
    intro stack tokens ih h
    rw [expectValue?] at h
    exact emptyObject stack tokens (ih h)
  case case6 =>
    intro stack name tokens ih h
    rw [expectValue?] at h
    exact openObject name stack tokens (ih h)
  case case7 =>
    intro tokens stack hscalar htext hempty harray hnone hobject h
    rw [expectValue?] at h
    · cases h
    all_goals assumption
  case case8 =>
    intro value h
    rw [completeValue?] at h
    cases h
    exact done
  case case9 =>
    intro value items stack tokens ih h
    rw [completeValue?] at h
    exact nextItem value items stack tokens (ih h)
  case case10 =>
    intro value items stack tokens ih h
    rw [completeValue?] at h
    exact lastItem value items stack tokens (ih h)
  case case11 =>
    intro value members name stack next tokens ih h
    rw [completeValue?] at h
    exact nextMember value members name next stack tokens (ih h)
  case case12 =>
    intro value members name stack tokens ih h
    rw [completeValue?] at h
    exact lastMember value members name stack tokens (ih h)
  case case13 =>
    intro tokens value stack hend hitem harray hmember hobject h
    rw [completeValue?] at h
    · cases h
    all_goals assumption

end ShardQuery.Json
