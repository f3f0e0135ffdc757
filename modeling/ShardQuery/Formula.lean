import ShardQuery.Bindings
import ShardQuery.Function.Scalar

/-!
# Formulas

A `Formula` is an expression whose functions have been looked up, so that computing it
needs only a row and the bind variables. Absent values spread through arithmetic; integer
results that do not fit sixty-four bits become doubles.

Main definitions:

* `Formula.compile` — looks up the functions of an expression;
* `Formula.eval` — the value of a formula.
-/

namespace ShardQuery

/-- An expression with its functions looked up, which is what is evaluated on every row. -/
inductive Formula where
  /-- A constant. -/
  | const (value : Value)
  /-- The value of a bind variable. -/
  | bind (ref : BindRef)
  /-- A field of the current row. -/
  | column (name : String)
  /-- A field of a map value. -/
  | member (base : Formula) (name : String)
  /-- An arithmetic operation. -/
  | arith (op : ArithOp) (left right : Formula)
  /-- The opposite of a number. -/
  | neg (operand : Formula)
  /-- A function applied to arguments. -/
  | call (function : ScalarFunction) (args : List Formula)
deriving Inhabited

namespace Formula

/-! ### Looking functions up -/

mutual

/-- Looks up the functions of an expression, each before those of its arguments. -/
def compile (registry : Registry) : Expr → Except FunctionError Formula
  | .const value => .ok (.const value)
  | .bind ref => .ok (.bind ref)
  | .column name => .ok (.column name)
  | .member base name => do return .member (← compile registry base) name
  | .arith op left right => do
    let left ← compile registry left
    let right ← compile registry right
    return .arith op left right
  | .neg operand => do return .neg (← compile registry operand)
  | .call name args => do
    let function ← registry.scalar name args.length
    return .call function (← compileList registry args)

/-- Looks up the functions of a list of expressions. -/
def compileList (registry : Registry) : List Expr → Except FunctionError (List Formula)
  | [] => .ok []
  | e :: es => do
    let formula ← compile registry e
    let formulas ← compileList registry es
    return formula :: formulas

end

/-! ### Values -/

/-- A field of a map, or of every map in an array that has it. Other values have no
fields. -/
def memberOf (name : String) : Value → Value
  | .map fields => (Value.field? name fields).getD .null
  | .array items =>
    .array (items.filterMap fun
      | .map fields => Value.field? name fields
      | _ => none)
  | _ => .null

/-- The exact result of an operation on integers, the divisor not zero. Quotients are
rounded toward zero. -/
def exactInt (op : ArithOp) (a b : Int) : Int :=
  match op with
  | .add => a + b
  | .sub => a - b
  | .mul => a * b
  | .div => a.tdiv b

/-- The rounded result of an operation on doubles. -/
def onDoubles (op : ArithOp) (a b : Double) : Double :=
  match op with
  | .add => a.add b
  | .sub => a.sub b
  | .mul => a.mul b
  | .div => a.div b

/-- The result of an operation on integers, the divisor not zero: the exact one if it has
sixty-four bits, otherwise that of the nearest doubles. -/
def onInts (op : ArithOp) (a b : Int64) : Value :=
  match int64? (exactInt op a.toInt b.toInt) with
  | some exact => .int exact
  | none => .double (onDoubles op (Double.ofInt a.toInt) (Double.ofInt b.toInt))

/-- The result of an arithmetic operation: exact on integers where a word can hold it, and on
doubles otherwise. Null on either side gives null. -/
def applyArith (op : ArithOp) (left right : Value) : Except QueryError Value :=
  if left.isNull || right.isNull then .ok .null
  else
    match left, right with
    | .int a, .int b =>
      if op = .div ∧ b = 0 then .error .divisionByZero else .ok (onInts op a b)
    | _, _ =>
      match left.asDouble?, right.asDouble? with
      | some a, some b => .ok (.double (onDoubles op a b))
      | _, _ => .error (.arithmetic left.typeName right.typeName)

/-- The opposite of a value. The least signed word has none among the words, so it becomes a double.
-/
def negate : Value → Except QueryError Value
  | .null => .ok .null
  | .int i =>
    match int64? (-i.toInt) with
    | some exact => .ok (.int exact)
    | none => .ok (.double (Double.ofInt i.toInt).neg)
  | .double d => .ok (.double d.neg)
  | value => .error (.negation value.typeName)

mutual

/-- The value of a formula for a row and bind variables. Operands and arguments are
computed from left to right, and the first failure is that of the formula. -/
def eval (row : Row) (bindings : Bindings) : Formula → Except QueryError Value
  | .const value => .ok value
  | .bind ref => bindings.resolve ref
  | .column name => .ok (row.getOrNull name)
  | .member base name => do return memberOf name (← eval row bindings base)
  | .arith op left right => do
    let left ← eval row bindings left
    let right ← eval row bindings right
    applyArith op left right
  | .neg operand => do negate (← eval row bindings operand)
  | .call function args => do
    let values ← evalList row bindings args
    (function.apply values).mapError .function

/-- The values of a list of formulas, from the first one on, up to the first that fails. -/
def evalList (row : Row) (bindings : Bindings) : List Formula → Except QueryError (List Value)
  | [] => .ok []
  | formula :: formulas => do
    let value ← eval row bindings formula
    let values ← evalList row bindings formulas
    return value :: values

end

end Formula

end ShardQuery
