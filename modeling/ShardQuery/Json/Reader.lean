import ShardQuery.Json.Token

/-!
# Reading JSON Documents

A document is built from its tokens by a machine with two states: a value is expected
(`expectValue?`), or one has just been completed (`completeValue?`). What is open around
the current position is a stack of `Context`s, so nesting needs no recursion and may be
arbitrarily deep.

Main definitions:

* `Json.read?` — the document of a text given by its octets;
* `Json.parse?` — the document of a string.
-/

namespace ShardQuery.Json

/-- An array or object that has been opened and not yet closed. Its parts are collected in
reverse order. -/
inductive Context where
  /-- An array, with the items before the current one. -/
  | array (items : List Json)
  /-- An object, with the members before the current one and the current name. -/
  | object (members : List (Option String × Json)) (name : Option String)

/-- The document of a string literal, flawed if the literal denotes no text. -/
def ofText : Option String → Json
  | some s => .string s
  | none => .flawed

/-- The members of an object if every name denotes a text. -/
def namedMembers? : List (Option String × Json) → Option (List (String × Json))
  | [] => some []
  | (some name, value) :: members => (namedMembers? members).map ((name, value) :: ·)
  | (none, _) :: _ => none

/-- The object with the given members in reverse order. -/
def closeObject (members : List (Option String × Json)) : Json :=
  match namedMembers? members.reverse with
  | some members => .object members
  | none => .flawed

mutual

/-- Reads the rest of a document at a position where a value must stand. -/
def expectValue? (stack : List Context) : List Token → Option Json
  | .scalar value :: tokens => completeValue? value stack tokens
  | .text content :: tokens => completeValue? (ofText content) stack tokens
  | .openArray :: .closeArray :: tokens => completeValue? (.array []) stack tokens
  | .openArray :: tokens => expectValue? (.array [] :: stack) tokens
  | .openObject :: .closeObject :: tokens => completeValue? (.object []) stack tokens
  | .openObject :: .text name :: .colon :: tokens =>
    expectValue? (.object [] name :: stack) tokens
  | _ => none

/-- Reads the rest of a document behind a value: the next part of what is open, its end, or
the end of the text. -/
def completeValue? (value : Json) : List Context → List Token → Option Json
  | [], [] => some value
  | .array items :: stack, .comma :: tokens =>
    expectValue? (.array (value :: items) :: stack) tokens
  | .array items :: stack, .closeArray :: tokens =>
    completeValue? (.array (value :: items).reverse) stack tokens
  | .object members name :: stack, .comma :: .text next :: .colon :: tokens =>
    expectValue? (.object ((name, value) :: members) next :: stack) tokens
  | .object members name :: stack, .closeObject :: tokens =>
    completeValue? (closeObject ((name, value) :: members)) stack tokens
  | _, _ => none

end

/-- The document of a text given by its octets, if it is one. -/
def read? (octets : List UInt8) : Option Json :=
  (lex? octets).bind (expectValue? [])

/-- The document of a string, if it is one. -/
def parse? (text : String) : Option Json :=
  read? (utf8Octets text)

/-- The document of a string all of whose parts are read: without flaws, and nested no
deeper than `depthLimit`. -/
def parseSound? (text : String) : Option Json :=
  (parse? text).filter (isSound depthLimit)

end ShardQuery.Json
