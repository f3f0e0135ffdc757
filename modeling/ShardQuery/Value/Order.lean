import ShardQuery.Value.Basic

/-!
# The Order of Values

`Value.compare` orders values of all types: the absent value first, then truth values,
numbers, texts, arrays and maps. Integers and doubles are one type here and compare by the
numbers they stand for. Arrays and maps compare part by part, and a proper beginning comes
before what it begins.
-/

namespace ShardQuery.Value

/-- The place of a value's type in the order of types. -/
def rank : Value → Nat
  | .null => 0
  | .bool _ => 1
  | .int _ | .double _ => 2
  | .string _ => 3
  | .array _ => 4
  | .map _ => 5

/-- The order of an integer and a double. The integer is rounded to a double first; where
the two are then equal and the double is an integer too, the integers decide. Every integer
comes before non-numbers. -/
def compareIntDouble (i : Int64) (d : Double) : Ordering :=
  if d.isNaN then .lt
  else
    match (Double.ofInt i.toInt).compareReal d, d.toInt64? with
    | .eq, some j => Ord.compare i.toInt j.toInt
    | order, _ => order

mutual

/-- The order of values, by type first, integers and doubles being one type, and then by content. -/
def compare : Value → Value → Ordering
  | .null, .null => .eq
  | .bool a, .bool b => Ord.compare a.toNat b.toNat
  | .int a, .int b => Ord.compare a.toInt b.toInt
  | .double a, .double b => a.totalCompare b
  | .int a, .double b => compareIntDouble a b
  | .double a, .int b => (compareIntDouble b a).swap
  | .string a, .string b => Ord.compare a b
  | .array a, .array b => compareItems a b
  | .map a, .map b => compareFields a b
  | a, b => Ord.compare a.rank b.rank

/-- The order of arrays, by their first difference. -/
def compareItems : List Value → List Value → Ordering
  | [], [] => .eq
  | [], _ :: _ => .lt
  | _ :: _, [] => .gt
  | a :: as, b :: bs => (compare a b).then (compareItems as bs)

/-- The order of maps, by the name or value of their first difference. -/
def compareFields : List (String × Value) → List (String × Value) → Ordering
  | [], [] => .eq
  | [], _ :: _ => .lt
  | _ :: _, [] => .gt
  | (m, a) :: as, (n, b) :: bs =>
    ((Ord.compare m n).then (compare a b)).then (compareFields as bs)

end

/-- Whether two values have the same place in the order. -/
def same (a b : Value) : Bool :=
  compare a b == .eq

end ShardQuery.Value
