import Mathlib.Algebra.Order.Group.Unbundled.Int
import ShardQuery.Formula
import ShardQuery.Proofs.Double.Order
import ShardQuery.Proofs.Except
import ShardQuery.Proofs.Word

/-!
# Formulas over Integers

A formula over integers stands for an exact integer, in which nothing is rounded but quotients,
and those toward zero. What is computed is this integer as long as the words suffice. The first
result that they do not suffice for is a double, and so is everything that is computed from it: no
integer ever stands for something that has been rounded or cut off.

Main definitions:

* `Formula.IsIntegral` — formulas that are built from integers;
* `Formula.Denotes` — the exact integer that a formula stands for;
* `Formula.IsPart` — the parts of a formula;
* `Formula.Outcome` — what a formula over integers may come to.

## Main results

* `Formula.Denotes.unique`: a formula stands for one integer at most.
* `Formula.outcome_eval`: what a formula comes to follows from what its operands come to.
* `Formula.eval_of_isIntegral`: integers are exact, doubles follow from an excess, and only a zero
  divisor fails.
-/

namespace ShardQuery.Formula

variable (row : Row) (bindings : Bindings)

/-- Whether a formula is built from integers: from constants, variables and fields that are
integers, by arithmetic, by taking the opposite and by taking the absolute value. -/
inductive IsIntegral : Formula → Prop
  /-- A constant. -/
  | const (i : Int64) : IsIntegral (.const (.int i))
  /-- A bind variable. -/
  | bind {ref : BindRef} {i : Int64} : bindings.resolve ref = .ok (.int i) → IsIntegral (.bind ref)
  /-- A field of the row. -/
  | column {name : String} {i : Int64} : row.getOrNull name = .int i → IsIntegral (.column name)
  /-- A field of a map. -/
  | member {base : Formula} {name : String} {i : Int64} :
      (Formula.member base name).eval row bindings = .ok (.int i) →
      IsIntegral (.member base name)
  /-- An arithmetic operation. -/
  | arith (op : ArithOp) {left right : Formula} :
      IsIntegral left → IsIntegral right → IsIntegral (.arith op left right)
  /-- The opposite. -/
  | neg {operand : Formula} : IsIntegral operand → IsIntegral (.neg operand)
  /-- The absolute value. -/
  | abs {arg : Formula} : IsIntegral arg → IsIntegral (.call .abs [arg])

/-- The exact integer that a formula stands for. Quotients are cut off toward zero, and there are
none by zero. -/
inductive Denotes : Formula → Int → Prop
  /-- A constant is the integer that it is. -/
  | const (i : Int64) : Denotes (.const (.int i)) i.toInt
  /-- A bind variable is the integer that it is bound to. -/
  | bind {ref : BindRef} {i : Int64} :
      bindings.resolve ref = .ok (.int i) → Denotes (.bind ref) i.toInt
  /-- A field is the integer that the row has there. -/
  | column {name : String} {i : Int64} :
      row.getOrNull name = .int i → Denotes (.column name) i.toInt
  /-- A field of a map is the integer that the map has there. -/
  | member {base : Formula} {name : String} {i : Int64} :
      (Formula.member base name).eval row bindings = .ok (.int i) →
      Denotes (.member base name) i.toInt
  /-- A sum. -/
  | add {left right : Formula} {a b : Int} :
      Denotes left a → Denotes right b → Denotes (.arith .add left right) (a + b)
  /-- A difference. -/
  | sub {left right : Formula} {a b : Int} :
      Denotes left a → Denotes right b → Denotes (.arith .sub left right) (a - b)
  /-- A product. -/
  | mul {left right : Formula} {a b : Int} :
      Denotes left a → Denotes right b → Denotes (.arith .mul left right) (a * b)
  /-- A quotient. -/
  | div {left right : Formula} {a b : Int} :
      Denotes left a → Denotes right b → b ≠ 0 → Denotes (.arith .div left right) (a.tdiv b)
  /-- The opposite. -/
  | neg {operand : Formula} {a : Int} : Denotes operand a → Denotes (.neg operand) (-a)
  /-- The absolute value. -/
  | abs {arg : Formula} {a : Int} : Denotes arg a → Denotes (.call .abs [arg]) |a|

/-- Whether a formula is part of another one, or that formula itself. -/
inductive IsPart (part : Formula) : Formula → Prop
  /-- The formula itself. -/
  | self : IsPart part part
  /-- A part of what a field is taken of. -/
  | member {base : Formula} {name : String} : IsPart part base → IsPart part (.member base name)
  /-- A part of the left operand. -/
  | left {op : ArithOp} {left right : Formula} :
      IsPart part left → IsPart part (.arith op left right)
  /-- A part of the right operand. -/
  | right {op : ArithOp} {left right : Formula} :
      IsPart part right → IsPart part (.arith op left right)
  /-- A part of what the opposite is taken of. -/
  | neg {operand : Formula} : IsPart part operand → IsPart part (.neg operand)
  /-- A part of an argument. -/
  | arg {function : ScalarFunction} {arg : Formula} {args : List Formula} :
      arg ∈ args → IsPart part arg → IsPart part (.call function args)

/-- Whether some part of a formula stands for an integer beyond the signed words. -/
def HasExcess (formula : Formula) : Prop :=
  ∃ part value, IsPart part formula ∧ Denotes row bindings part value ∧ ExceedsWord value

/-- Whether some part of a formula divides an integer by zero. -/
def DividesByZero (formula : Formula) : Prop :=
  ∃ left right a, IsPart (.arith .div left right) formula ∧
    left.eval row bindings = .ok (.int a) ∧ right.eval row bindings = .ok (.int 0)

/-- What a formula over integers may come to, together with the reason for it: the outcomes other
than the exact integer are tied to the part that causes them. -/
inductive Outcome (formula : Formula) : Except QueryError Value → Prop
  /-- It comes to the integer that it stands for. -/
  | exact {n : Int64} : Denotes row bindings formula n.toInt → Outcome formula (.ok (.int n))
  /-- It comes to a double, after an excess. -/
  | widened {d : Double} : HasExcess row bindings formula → Outcome formula (.ok (.double d))
  /-- It fails, since an integer is divided by zero. -/
  | failed : DividesByZero row bindings formula → Outcome formula (.error .divisionByZero)

variable {row bindings}

/-- A formula stands for one integer at most, so its exact result is well defined. -/
theorem Denotes.unique {formula : Formula} {a b : Int} (ha : Denotes row bindings formula a)
    (hb : Denotes row bindings formula b) : a = b := by
  induction ha generalizing b with
  | const => cases hb; rfl
  | bind h =>
      cases hb with
      | bind h' => cases h.symm.trans h'; rfl
  | column h =>
      cases hb with
      | column h' => cases h.symm.trans h'; rfl
  | member h =>
      cases hb with
      | member h' => cases h.symm.trans h'; rfl
  | add _ _ ihl ihr =>
      cases hb with
      | add hl hr => rw [ihl hl, ihr hr]
  | sub _ _ ihl ihr =>
      cases hb with
      | sub hl hr => rw [ihl hl, ihr hr]
  | mul _ _ ihl ihr =>
      cases hb with
      | mul hl hr => rw [ihl hl, ihr hr]
  | div _ _ _ ihl ihr =>
      cases hb with
      | div hl hr => rw [ihl hl, ihr hr]
  | neg _ ih =>
      cases hb with
      | neg h => rw [ih h]
  | abs _ ih =>
      cases hb with
      | abs h => rw [ih h]

/-! ### Parts -/

/-- A part of a part is a part, so that a cause found in an operand is one in the whole formula. -/
theorem IsPart.trans {part middle whole : Formula} (h : IsPart part middle)
    (h' : IsPart middle whole) : IsPart part whole := by
  induction h' with
  | self => exact h
  | member _ ih => exact .member ih
  | left _ ih => exact .left ih
  | right _ ih => exact .right ih
  | neg _ ih => exact .neg ih
  | arg hmem _ ih => exact .arg hmem ih

/-- An excess in a part is one in the whole. -/
theorem HasExcess.of_part {part whole : Formula} (h : HasExcess row bindings part)
    (hpart : IsPart part whole) : HasExcess row bindings whole := by
  obtain ⟨inner, value, hinner, hvalue, hexceeds⟩ := h
  exact ⟨inner, value, hinner.trans hpart, hvalue, hexceeds⟩

/-- A division by zero in a part is one in the whole. -/
theorem DividesByZero.of_part {part whole : Formula} (h : DividesByZero row bindings part)
    (hpart : IsPart part whole) : DividesByZero row bindings whole := by
  obtain ⟨left, right, a, hinner, hleft, hright⟩ := h
  exact ⟨left, right, a, hinner.trans hpart, hleft, hright⟩

/-! ### Operations -/

/-- The result of an operation on integers, the divisor not zero, is the exact one, unless that is
an excess. -/
theorem outcome_onInts {op : ArithOp} {left right : Formula} {a b : Int64}
    (hleft : Denotes row bindings left a.toInt) (hright : Denotes row bindings right b.toInt)
    (hdivisor : op = .div → b ≠ 0) :
    Outcome row bindings (.arith op left right) (.ok (onInts op a b)) := by
  have hdenotes : Denotes row bindings (.arith op left right) (exactInt op a.toInt b.toInt) := by
    cases op with
    | add => exact .add hleft hright
    | sub => exact .sub hleft hright
    | mul => exact .mul hleft hright
    | div => exact .div hleft hright fun hzero => hdivisor rfl (Int64.toInt_inj.1 hzero)
  rw [onInts]
  cases hword : int64? (exactInt op a.toInt b.toInt) with
  | some n => exact .exact (Double.int64?_eq_some hword ▸ hdenotes)
  | none => exact .widened ⟨_, _, .self, hdenotes, exceedsWord_of_int64? hword⟩

/-- What an operation comes to, given what its operands come to. -/
theorem outcome_applyArith (op : ArithOp) {left right : Formula} {l r : Value}
    (hl : left.eval row bindings = .ok l) (hr : right.eval row bindings = .ok r)
    (hleft : Outcome row bindings left (.ok l)) (hright : Outcome row bindings right (.ok r)) :
    Outcome row bindings (.arith op left right) (applyArith op l r) := by
  cases hleft with
  | widened hexcess =>
      -- A double on either side makes the result one.
      cases hright <;> exact .widened (hexcess.of_part (.left .self))
  | @exact a ha =>
      cases hright with
      | widened hexcess => exact .widened (hexcess.of_part (.right .self))
      | @exact b hb =>
          by_cases hzero : op = .div ∧ b = 0
          · obtain ⟨rfl, rfl⟩ := hzero
            exact .failed ⟨left, right, a, .self, hl, hr⟩
          · have hresult : applyArith op (.int a) (.int b) = .ok (onInts op a b) := if_neg hzero
            rw [hresult]
            exact outcome_onInts ha hb fun hop hb => hzero ⟨hop, hb⟩

/-- What the opposite comes to, given what its operand comes to. -/
theorem outcome_negate {operand : Formula} {value : Value}
    (h : Outcome row bindings operand (.ok value)) :
    Outcome row bindings (.neg operand) (negate value) := by
  cases h with
  | widened hexcess => exact .widened (hexcess.of_part (.neg .self))
  | @exact n hn =>
      rw [negate]
      cases hword : int64? (-n.toInt) with
      | some m => exact .exact (Double.int64?_eq_some hword ▸ hn.neg)
      | none => exact .widened ⟨_, _, .self, hn.neg, exceedsWord_of_int64? hword⟩

/-- What the absolute value comes to, given what its argument comes to. -/
theorem outcome_abs {arg : Formula} {value : Value} (h : Outcome row bindings arg (.ok value)) :
    Outcome row bindings (.call .abs [arg])
      ((ScalarFunction.abs.apply [value]).mapError .function) := by
  cases h with
  | widened hexcess => exact .widened (hexcess.of_part (.arg List.mem_cons_self .self))
  | @exact n hn =>
      have habs : Denotes row bindings (.call .abs [arg]) (n.toInt.natAbs : Int) :=
        n.toInt.abs_eq_natAbs ▸ hn.abs
      show Outcome row bindings _ (.ok (Value.absInt n))
      rw [Value.absInt]
      cases hword : int64? (n.toInt.natAbs : Int) with
      | some m => exact .exact (Double.int64?_eq_some hword ▸ habs)
      | none => exact .widened ⟨_, _, .self, habs, exceedsWord_of_int64? hword⟩

/-- What fails in a part of a formula, fails in the whole. -/
theorem Outcome.error_of_part {part whole : Formula} {error : QueryError}
    (h : Outcome row bindings part (.error error)) (hpart : IsPart part whole) :
    Outcome row bindings whole (.error error) := by
  cases h with
  | failed hzero => exact .failed (hzero.of_part hpart)

/-- **What a formula over integers comes to**: one step for every way to build it. -/
theorem outcome_eval {formula : Formula} (h : IsIntegral row bindings formula) :
    Outcome row bindings formula (formula.eval row bindings) := by
  induction h with
  | const i => exact .exact (.const i)
  | bind hresolve =>
      rw [eval, hresolve]
      exact .exact (.bind hresolve)
  | column hcolumn =>
      rw [eval, hcolumn]
      exact .exact (.column hcolumn)
  | member hmember =>
      rw [hmember]
      exact .exact (.member hmember)
  | @arith op left right _ _ ihleft ihright =>
      rw [eval]
      cases hl : left.eval row bindings with
      | error error => exact (hl ▸ ihleft).error_of_part (.left .self)
      | ok l =>
          cases hr : right.eval row bindings with
          | error error => exact (hr ▸ ihright).error_of_part (.right .self)
          | ok r => exact outcome_applyArith op hl hr (hl ▸ ihleft) (hr ▸ ihright)
  | @neg operand _ ih =>
      rw [eval]
      cases hvalue : operand.eval row bindings with
      | error error => exact (hvalue ▸ ih).error_of_part (.neg .self)
      | ok value => exact outcome_negate (hvalue ▸ ih)
  | @abs arg _ ih =>
      rw [eval, evalList, evalList]
      cases hvalue : arg.eval row bindings with
      | error error => exact (hvalue ▸ ih).error_of_part (.arg List.mem_cons_self .self)
      | ok value => exact outcome_abs (hvalue ▸ ih)

/-- **Formulas over integers never wrap around.** An integer is exactly what the formula stands
for. A double only comes about if some part of the formula stands for an integer beyond the signed
words. There is no other value, and no other failure than the division of an integer by a divisor
that comes to zero. -/
theorem eval_of_isIntegral {formula : Formula} (h : IsIntegral row bindings formula) :
    (∀ n, formula.eval row bindings = .ok (.int n) →
      ∀ value, Denotes row bindings formula value ↔ value = n.toInt) ∧
    (∀ d, formula.eval row bindings = .ok (.double d) → HasExcess row bindings formula) ∧
    (∀ value, formula.eval row bindings = .ok value → value.isNumeric = true) ∧
    ∀ error, formula.eval row bindings = .error error →
      error = .divisionByZero ∧ DividesByZero row bindings formula := by
  have houtcome := outcome_eval h
  refine ⟨fun n hn value => ?_, fun d hd => ?_, fun value hvalue => ?_, fun error herror => ?_⟩
  · rw [hn] at houtcome
    cases houtcome with
    | exact hdenotes => exact ⟨fun hvalue => hvalue.unique hdenotes, fun heq => heq ▸ hdenotes⟩
  · rw [hd] at houtcome
    cases houtcome with
    | widened hexcess => exact hexcess
  · rw [hvalue] at houtcome
    cases houtcome <;> rfl
  · rw [herror] at houtcome
    cases houtcome with
    | failed hzero => exact ⟨rfl, hzero⟩

/-- A row with the least signed word, whose opposite no word stands for. -/
def leastRow : Row :=
  Row.ofList [("least", .int Int64.minValue)]

/-- A variable for `-1`, bound under a name with a leading dollar sign. -/
def minusOne : Bindings :=
  Bindings.empty.bind "$k" (.int (-1))

/-- The opposite of the successor of the least word, a quotient by `-1`. -/
def greatestWord : Formula :=
  .arith .div (.arith .add (.column "least") (.const (.int 1))) (.bind (.name "k"))

/-- The absolute value of a quotient that no word stands for, less its half. -/
def widenedWord : Formula :=
  .arith .sub (.call .abs [.arith .div (.column "least") (.bind (.name "$k"))])
    (.arith .div (.column "least") (.const (.int (-2))))

/-- An integer divided by the sum of `1` and `-1`. -/
def dividedWord : Formula :=
  .neg (.arith .div (.column "least") (.arith .add (.bind (.name "k")) (.const (.int 1))))

/-- All three outcomes come up over the least word: an exact integer, a double after an excess, and
a division by zero. -/
theorem eval_leastRow :
    (greatestWord.eval leastRow minusOne = .ok (.int Int64.maxValue) ∧
      Denotes leastRow minusOne greatestWord 9223372036854775807) ∧
    ((∃ d, widenedWord.eval leastRow minusOne = .ok (.double d)) ∧
      HasExcess leastRow minusOne widenedWord) ∧
    dividedWord.eval leastRow minusOne = .error .divisionByZero ∧
      DividesByZero leastRow minusOne dividedWord := by
  have hleast : IsIntegral leastRow minusOne (.column "least") := .column rfl
  have hk (name : String) (h : minusOne.resolve (.name name) = .ok (.int (-1))) :
      IsIntegral leastRow minusOne (.bind (.name name)) := .bind h
  have hgreatest : greatestWord.eval leastRow minusOne = .ok (.int Int64.maxValue) := rfl
  obtain ⟨d, hwidened⟩ : ∃ d, widenedWord.eval leastRow minusOne = .ok (.double d) := ⟨_, rfl⟩
  have hdivided : dividedWord.eval leastRow minusOne = .error .divisionByZero := rfl
  refine ⟨⟨hgreatest, ?_⟩, ⟨⟨d, hwidened⟩, ?_⟩, hdivided, ?_⟩
  · exact ((eval_of_isIntegral (.arith .div (.arith .add hleast (.const 1)) (hk "k" rfl))).1
      _ hgreatest _).2 (by decide)
  · exact (eval_of_isIntegral (.arith .sub (.abs (.arith .div hleast (hk "$k" rfl)))
      (.arith .div hleast (.const (-2))))).2.1 _ hwidened
  · exact ((eval_of_isIntegral (.neg (.arith .div hleast
      (.arith .add (hk "k" rfl) (.const 1))))).2.2.2 _ hdivided).2

end ShardQuery.Formula
