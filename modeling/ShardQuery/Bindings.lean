import ShardQuery.Error
import ShardQuery.Row
import ShardQuery.Sha256

/-!
# Bind Variables

The values of bind variables, some by name and some by position. A caller may write a name
with leading dollar signs or without; they do not belong to the name. Positions start
at one.
-/

namespace ShardQuery

/-- The values of bind variables, by name and by position, each kind in a map of its own. -/
structure Bindings where
  /-- The named variables, in ascending order of their names. -/
  named : List (String × Value)
  /-- The positional variables, in ascending order of their positions. -/
  positional : List (UInt32 × Value)

namespace Bindings

/-- No variables, which is what every sequence of calls begins with. -/
def empty : Bindings :=
  ⟨[], []⟩

/-- The name of a variable without leading dollar signs. -/
def bareName (name : String) : String :=
  String.ofList (name.toList.dropWhile (· == '$'))

/-- Puts a value into a list in ascending order of positions. A value at the same position
is replaced. -/
def insertPosition (position : UInt32) (value : Value) :
    List (UInt32 × Value) → List (UInt32 × Value)
  | [] => [(position, value)]
  | (p, v) :: entries =>
    if position < p then (position, value) :: (p, v) :: entries
    else if p = position then (position, value) :: entries
    else (p, v) :: insertPosition position value entries

/-- Binds a name, without its leading dollar signs. A value that it had before is replaced. -/
def bind (bindings : Bindings) (name : String) (value : Value) : Bindings :=
  { bindings with named := Value.insertField (bareName name) value bindings.named }

/-- Binds a position. Positions start at one, so position zero is refused. -/
def bindPosition (bindings : Bindings) (position : UInt32) (value : Value) :
    Except QueryError Bindings :=
  if position = 0 then .error .zeroPosition
  else .ok { bindings with positional := insertPosition position value bindings.positional }

/-- The value of a variable, if it is bound. A name is looked up without its leading dollar signs,
as it has been stored. -/
def get? (bindings : Bindings) : BindRef → Option Value
  | .name name => Value.field? (bareName name) bindings.named
  | .position n => (bindings.positional.find? (·.1 == n)).map (·.2)

/-- The value of a variable that must be bound. -/
def resolve (bindings : Bindings) (ref : BindRef) : Except QueryError Value :=
  if ref = .position 0 then .error .zeroPosition
  else
    match bindings.get? ref with
    | some value => .ok value
    | none => .error (.unbound ref)

/-- Whether there are no variables, neither by name nor by position. -/
def isEmpty (bindings : Bindings) : Bool :=
  bindings.named.isEmpty && bindings.positional.isEmpty

/-! ### JSON -/

/-- A member that is left out if its object is empty. -/
def objectMember (name : String) (members : List (String × Json)) : List (String × Json) :=
  if members.isEmpty then [] else [(name, .object members)]

/-- The document of bind variables. Positions are written as names. -/
def toJson (bindings : Bindings) : Json :=
  .object (objectMember "named" (Value.fieldsToJson bindings.named) ++
    objectMember "positional"
      (bindings.positional.map fun entry => (Nat.repr entry.1.toNat, entry.2.toJson)))

/-- The text of bind variables, from which the digest in tokens is computed. -/
def render (bindings : Bindings) : String :=
  bindings.toJson.render

/-- A position written as a name: digits without leading zeros. -/
def positionOfName? (name : String) : Option UInt32 :=
  let digits := name.toList
  if digits.isEmpty || !digits.all Char.isDigit || (digits.head? = some '0' && digits.length ≠ 1)
  then none
  else
    let value := digits.foldl (fun n c => n * 10 + (c.toNat - '0'.toNat)) 0
    if value < UInt32.size then some (UInt32.ofNat value) else none

/-- The positional variables of members, whose names have to be positions in decimal. -/
def positionsOfJson? : List (String × Json) → Option (List (UInt32 × Value))
  | [] => some []
  | (name, item) :: members => do
    let position ← positionOfName? name
    let value ← Value.ofJson? item
    let entries ← positionsOfJson? members
    return (position, value) :: entries

/-- The named variables of a document. Names are kept as they are. -/
def namedOfJson? (document : Json) : Option (List (String × Value)) := do
  let members ← document.toMembers?
  return Value.sortFields (← Value.fieldsOfJson? members)

/-- The positional variables of a document, put in order. A position that occurs again has its last
value. -/
def positionalOfJson? (document : Json) : Option (List (UInt32 × Value)) := do
  let members ← document.toMembers?
  let entries ← positionsOfJson? members
  return entries.foldl (fun sorted entry => insertPosition entry.1 entry.2 sorted) []

/-- The bind variables of a document. Both of its members may be absent, and nothing is checked
about the names and positions in them. -/
def ofJson? (document : Json) : Option Bindings := do
  let members ← document.knownMembers? ⟨["named", "positional"], 0⟩
  let named ← Json.withDefault? members "named" [] namedOfJson?
  let positional ← Json.withDefault? members "positional" [] positionalOfJson?
  return ⟨named, positional⟩

/-- The bind variables written by a text, if it is the text of such a document. -/
def parse? (text : String) : Option Bindings :=
  (Json.parse? text).bind ofJson?

/-- The hash of the text of bind variables. -/
def digest (bindings : Bindings) : List UInt8 :=
  Sha256.hash (utf8Octets bindings.render)

end Bindings

end ShardQuery
