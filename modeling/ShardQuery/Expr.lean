import ShardQuery.Json.Fields
import ShardQuery.Value.Codec

/-!
# Expressions

An `Expr` is computed from the current row and the bind variables. This module holds the
expressions as data: their JSON form and the bind variables they refer to. Their meaning is
given after their functions have been looked up.
-/

namespace ShardQuery

/-- A reference to a bind variable, by position or by name. -/
inductive BindRef where
  /-- The variable at a position. -/
  | position (n : UInt32)
  /-- The variable of a name. -/
  | name (s : String)
deriving DecidableEq, Repr

/-- An arithmetic operation on two numbers, of either kind. -/
inductive ArithOp where
  /-- Sum. -/
  | add
  /-- Difference. -/
  | sub
  /-- Product. -/
  | mul
  /-- Quotient. -/
  | div
deriving DecidableEq, Repr

/-- An expression as a plan writes it, with functions given by their names. -/
inductive Expr where
  /-- A constant. -/
  | const (value : Value)
  /-- The value of a bind variable. -/
  | bind (ref : BindRef)
  /-- A field of the current row. -/
  | column (name : String)
  /-- A field of a map value. -/
  | member (base : Expr) (name : String)
  /-- An arithmetic operation. -/
  | arith (op : ArithOp) (left right : Expr)
  /-- The opposite of a number. -/
  | neg (operand : Expr)
  /-- A function applied to arguments. -/
  | call (name : String) (args : List Expr)
deriving Inhabited

/-! ### Bind variables -/

namespace BindRef

/-- The text by which a reference is shown. -/
def display : BindRef → String
  | .position n => "#" ++ toString n.toNat
  | .name s => "$" ++ String.ofList (s.toList.dropWhile (· == '$'))

/-- The document of a reference: a number for a position, and a text for a name. -/
def toJson : BindRef → Json
  | .position n => .int n.toNat
  | .name s => .string s

/-- The reference of a document. Which of the two it is shows in the kind of document, without a
tag. -/
def ofJson? : Json → Option BindRef
  | .int i => if 0 ≤ i ∧ i < UInt32.size then some (.position (UInt32.ofNat i.toNat)) else none
  | .string s => some (.name s)
  | _ => none

end BindRef

/-- The JSON name of an operation, which is also the name of its variant. -/
def ArithOp.name : ArithOp → String
  | .add => "add"
  | .sub => "sub"
  | .mul => "mul"
  | .div => "div"

/-- The operation of a document. It stands in an expression and is thus always read from parts that
have been set aside. -/
def ArithOp.ofJson? (document : Json) : Option ArithOp := do
  match ← document.toName? true with
  | "add" => some .add
  | "sub" => some .sub
  | "mul" => some .mul
  | "div" => some .div
  | _ => none

namespace Expr

mutual

/-- The bind variables that an expression refers to, from left to right. -/
def bindRefs : Expr → List BindRef
  | .const _ => []
  | .bind ref => [ref]
  | .column _ => []
  | .member base _ => bindRefs base
  | .arith _ left right => bindRefs left ++ bindRefs right
  | .neg operand => bindRefs operand
  | .call _ args => listBindRefs args

/-- The bind variables that a list of expressions refers to. -/
def listBindRefs : List Expr → List BindRef
  | [] => []
  | e :: es => bindRefs e ++ listBindRefs es

end

/-! ### JSON -/

mutual

/-- The document of an expression: an object whose member `kind` tells which expression it is. -/
def toJson : Expr → Json
  | .const value => .object [("kind", .string "const"), ("value", value.toJson)]
  | .bind ref => .object [("kind", .string "bind_var"), ("var", ref.toJson)]
  | .column name => .object [("kind", .string "field"), ("name", .string name)]
  | .member base name =>
    .object [("kind", .string "field"), ("input", toJson base), ("name", .string name)]
  | .arith op left right =>
    .object [("kind", .string "arith"), ("op", .string op.name), ("left", toJson left),
      ("right", toJson right)]
  | .neg operand => .object [("kind", .string "neg"), ("operand", toJson operand)]
  | .call name [] => .object [("kind", .string "function"), ("name", .string name)]
  | .call name (arg :: args) =>
    .object [("kind", .string "function"), ("name", .string name),
      ("args", .array (toJson arg :: listToJson args))]

/-- The documents of a list of expressions, in their order. -/
def listToJson : List Expr → List Json
  | [] => []
  | e :: es => toJson e :: listToJson es

end

/-- The forms of an expression: the name of each, and its fields in the order in which an array
gives them. -/
def variants : List Json.Variant :=
  [⟨"const", ⟨["value"], 1⟩⟩, ⟨"bind_var", ⟨["var"], 1⟩⟩, ⟨"field", ⟨["input", "name"], 2⟩⟩,
    ⟨"arith", ⟨["op", "left", "right"], 3⟩⟩, ⟨"neg", ⟨["operand"], 1⟩⟩,
    ⟨"function", ⟨["name", "args"], 1⟩⟩]

/-- The expression of a document nested no deeper than `depth`. Expressions are parts of
steps and thus buffered. -/
def ofJson? (depth : Nat) (document : Json) : Option Expr :=
  match depth with
  | 0 => none
  | depth + 1 => do
    let (kind, members) ← document.toTagged? "kind" variants true
    match kind with
    | "const" => return .const (← Json.required? members "value" Value.ofJson?)
    | "bind_var" => return .bind (← Json.required? members "var" BindRef.ofJson?)
    | "field" =>
      let base ← Json.optional? members "input" (ofJson? depth)
      let name ← Json.required? members "name" Json.toString?
      match base with
      | some base => return .member base name
      | none => return .column name
    | "arith" =>
      let op ← Json.required? members "op" ArithOp.ofJson?
      let left ← Json.required? members "left" (ofJson? depth)
      let right ← Json.required? members "right" (ofJson? depth)
      return .arith op left right
    | "neg" => return .neg (← Json.required? members "operand" (ofJson? depth))
    | "function" =>
      let name ← Json.required? members "name" Json.toString?
      let args ← Json.withDefault? members "args" [] (Json.toList? (ofJson? depth))
      return .call name args
    | _ => none

end Expr

end ShardQuery
