import ShardQuery.Formula
import ShardQuery.Proofs.Except
import ShardQuery.Proofs.Value.Plain

/-!
# Formulas over Rows Read Back

Whether a row has been read back from its document makes no difference to what a formula computes
of it, non-numbers aside: its value for the canonical form of a row has the canonical form of its
value for the row. Among plain rows, constants and bind variables all values are plain.

Main definitions:

* `Expr.IsPlain`, `Formula.IsPlain` — whether all constants are plain;
* `Bindings.IsPlain` — whether all variables are.

## Main results

* `Formula.eval_canonical`: formulas do not tell a row from its canonical form.
* `areFieldsPlain_of_projectFields`: the values of plain formulas are plain.
-/

namespace ShardQuery

/-- What two computations give is the same under a view of it, if that goes for the computations
that they begin with and for what follows on results that look the same. -/
theorem map_bind_congr {ε α β γ δ : Type} {c : α → γ} {d : β → δ} {x y : Except ε α}
    {f g : α → Except ε β} (hxy : x.map c = y.map c)
    (hfg : ∀ a b, c a = c b → (f a).map d = (g b).map d) :
    (x >>= f).map d = (y >>= g).map d := by
  cases x with
  | error =>
      cases y <;> cases hxy
      rfl
  | ok a =>
      cases y with
      | error => cases hxy
      | ok b => exact hfg a b (Except.ok.inj hxy)

/-- A change of errors and one of results do not get in each other's way. -/
theorem map_mapError {ε ε' α β : Type} (f : ε → ε') (g : α → β) (x : Except ε α) :
    (x.mapError f).map g = (x.map g).mapError f := by
  cases x <;> rfl

/-! ### Doubles -/

namespace Double

/-- What is read back from a double is a non-number exactly if the double is one. -/
theorem isNaN_reread (d : Double) : d.reread.isNaN = d.isNaN := by
  cases h : d.isNaN with
  | true =>
      rw [reread_of_isNaN h]
      decide
  | false => rw [reread_of_not_isNaN h, h]

/-- Changing the sign of a double or of what is read back comes to the same. -/
theorem reread_ofMagnitude (sign : Double → Bool) (d : Double) :
    (ofMagnitude (sign d.reread) d.reread.magnitude).reread =
      (ofMagnitude (sign d) d.magnitude).reread := by
  cases h : d.isNaN with
  | false => rw [reread_of_not_isNaN h]
  | true =>
      rw [reread_of_isNaN ((isNaN_ofMagnitude _ d).trans h),
        reread_of_isNaN ((isNaN_ofMagnitude _ d.reread).trans (d.isNaN_reread.trans h))]

/-- A sum with a non-number in it is the canonical one. Differences come to this too, since the
opposite of a non-number is one. -/
theorem add_of_isNaN {a b : Double} (h : a.isNaN = true ∨ b.isNaN = true) : a.add b = nan :=
  if_pos (Bool.or_eq_true_iff.2 h)

end Double

/-- An operation on a non-number gives the canonical one. -/
theorem Formula.onDoubles_of_isNaN (op : ArithOp) {a b : Double}
    (h : a.isNaN = true ∨ b.isNaN = true) : onDoubles op a b = Double.nan := by
  have hor := Bool.or_eq_true_iff.2 h
  cases op with
  | add => exact Double.add_of_isNaN h
  | sub => exact Double.add_of_isNaN (h.imp_right (Double.isNaN_ofMagnitude _ b).trans)
  | mul | div => exact if_pos hor

/-- Operations do not tell non-numbers apart, and all other doubles are read back as they were. -/
theorem Formula.onDoubles_reread (op : ArithOp) (a b : Double) :
    onDoubles op a.reread b.reread = onDoubles op a b := by
  by_cases h : a.isNaN = true ∨ b.isNaN = true
  · rw [onDoubles_of_isNaN op h]
    refine onDoubles_of_isNaN op ?_
    rwa [a.isNaN_reread, b.isNaN_reread]
  · rw [not_or, Bool.not_eq_true, Bool.not_eq_true] at h
    rw [Double.reread_of_not_isNaN h.1, Double.reread_of_not_isNaN h.2]

/-- Operands that read back alike give the same result, for every operation on doubles. -/
theorem Formula.onDoubles_congr (op : ArithOp) {a b a' b' : Double} (ha : a.reread = a'.reread)
    (hb : b.reread = b'.reread) : onDoubles op a b = onDoubles op a' b' := by
  rw [← onDoubles_reread op a b, ha, hb, onDoubles_reread]

/-! ### Values -/

namespace Value

/-- Only null is null, in a canonical value as in any other. -/
theorem isNull_canonical (value : Value) : value.canonical.isNull = value.isNull := by
  cases value <;> rfl

/-- The canonical value has the type of the value. Error messages therefore name the same type. -/
theorem typeName_canonical (value : Value) : value.canonical.typeName = value.typeName := by
  cases value <;> rfl

/-- Items are not dropped or added by taking canonical ones. -/
theorem length_canonicalItems (items : List Value) :
    (canonicalItems items).length = items.length := by
  rw [canonicalItems_eq, List.length_map]

/-- Fields are not dropped or added by taking canonical ones. -/
theorem length_canonicalFields (fields : List (String × Value)) :
    (canonicalFields fields).length = fields.length := by
  rw [canonicalFields_eq, List.length_map]

/-- The text of a value has one spelling for all non-numbers, so it does not tell them apart. -/
theorem plainText?_canonical (value : Value) : value.canonical.plainText? = value.plainText? := by
  cases value with
  | double d =>
      cases h : d.isNaN with
      | false => rw [canonical, Double.reread_of_not_isNaN h]
      | true =>
          simp only [canonical, plainText?, Double.render]
          rw [if_pos (d.isNaN_reread.trans h), if_pos h]
  | null | bool | int | string | array | map => rfl

end Value

namespace Formula

/-- The member of a canonical map is the canonical one of the member. -/
theorem memberOf_canonical (name : String) (value : Value) :
    memberOf name value.canonical = (memberOf name value).canonical := by
  cases value with
  | map fields =>
      simp only [Value.canonical, memberOf, Value.field?_canonicalFields]
      cases Value.field? name fields <;> rfl
  | array items =>
      simp only [Value.canonical, memberOf]
      rw [Value.canonicalItems_eq, Value.canonicalItems_eq, List.filterMap_map,
        List.map_filterMap]
      refine congrArg Value.array (List.filterMap_congr fun item _ => ?_)
      cases item with
      | map fields => exact Value.field?_canonicalFields name fields
      | null | bool | int | double | string | array => rfl
  | null | bool | int | double | string => rfl

/-- Arithmetic does not tell non-numbers apart: integers are untouched, and doubles go through
operations that do not. -/
theorem applyArith_canonical (op : ArithOp) (left right : Value) :
    applyArith op left.canonical right.canonical = applyArith op left right := by
  cases left with
  | int a =>
      cases right with
      | double b =>
          exact congrArg (fun d => Except.ok (Value.double d))
            (onDoubles_congr op rfl b.reread_reread)
      | null | bool | int | string | array | map => rfl
  | double a =>
      cases right with
      | double b =>
          exact congrArg (fun d => Except.ok (Value.double d)) (onDoubles_reread op a b)
      | int b =>
          exact congrArg (fun d => Except.ok (Value.double d))
            (onDoubles_congr op a.reread_reread rfl)
      | null | bool | string | array | map => rfl
  | null | bool | string | array | map => cases right <;> rfl

/-- The opposite of a canonical value is, in canonical form, that of the value, and it fails alike.
-/
theorem negate_canonical (value : Value) :
    (negate value.canonical).map Value.canonical = (negate value).map Value.canonical := by
  cases value with
  | double d =>
      exact congrArg (fun d => Except.ok (Value.double d))
        (Double.reread_ofMagnitude (fun d => !d.isNegative) d)
  | null | bool | int | string | array | map => rfl

end Formula

namespace ScalarFunction

/-- Concatenation puts plain texts together, and these do not tell non-numbers apart. -/
theorem concatenate_canonical (args : List Value) :
    concatenate (Value.canonicalItems args) = concatenate args := by
  induction args with
  | nil => rfl
  | cons arg args ih =>
      rw [Value.canonicalItems, concatenate, concatenate, ih, Value.plainText?_canonical,
        Value.typeName_canonical]

/-- A function of one argument comes to the same canonical value, or fails alike, on the canonical
argument. -/
theorem applyOne?_canonical (function : ScalarFunction) (arg : Value) :
    (function.applyOne? arg.canonical).map Value.canonical =
      (function.applyOne? arg).map Value.canonical := by
  cases function with
  | size =>
      cases arg with
      | array items =>
          exact congrArg (fun n => some (Value.int (Int64.ofNat n)))
            (Value.length_canonicalItems items)
      | map fields =>
          exact congrArg (fun n => some (Value.int (Int64.ofNat n)))
            (Value.length_canonicalFields fields)
      | null | bool | int | double | string => rfl
  | abs =>
      cases arg with
      | double d =>
          exact congrArg (fun d => some (Value.double d))
            (Double.reread_ofMagnitude (fun _ => false) d)
      | null | bool | int | string | array | map => rfl
  | length | lower | upper | concat | coalesce => cases arg <;> rfl

/-- The first argument that is not absent stays the first one. -/
theorem find?_canonicalItems (args : List Value) :
    (Value.canonicalItems args).find? (fun arg => !arg.isNull) =
      (args.find? fun arg => !arg.isNull).map Value.canonical := by
  rw [Value.canonicalItems_eq, List.find?_map]
  refine congrArg (Option.map _) (congrArg (List.find? · args) (funext fun arg => ?_))
  exact congrArg (!·) arg.isNull_canonical

/-- Functions do not tell arguments from their canonical forms. -/
theorem apply_canonical (function : ScalarFunction) (args : List Value) :
    (function.apply (Value.canonicalItems args)).map Value.canonical =
      (function.apply args).map Value.canonical := by
  by_cases hcoalesce : function = .coalesce
  · subst hcoalesce
    simp only [apply, find?_canonicalItems]
    cases args.find? fun arg => !arg.isNull with
    | none => rfl
    | some arg => exact congrArg Except.ok arg.canonical_canonical
  by_cases hconcat : function = .concat
  · subst hconcat
    simp only [apply, concatenate_canonical]
  by_cases hlength : args.length = 1
  · obtain ⟨arg, rfl⟩ := List.length_eq_one_iff.1 hlength
    cases harg : arg.isNull with
    | true =>
        cases arg <;> cases harg
        rfl
    | false =>
        have hone := function.applyOne?_canonical arg
        rw [Value.canonicalItems, Value.canonicalItems, apply_singleton hcoalesce hconcat harg,
          apply_singleton hcoalesce hconcat (arg.isNull_canonical.trans harg),
          arg.typeName_canonical]
        cases h : function.applyOne? arg with
        | none =>
            rw [h] at hone
            rw [Option.map_eq_none_iff.1 hone]
        | some value =>
            rw [h] at hone
            obtain ⟨value', hvalue', heq⟩ := Option.map_eq_some_iff.1 hone
            rw [hvalue']
            exact congrArg Except.ok heq
  · have hcount := Value.length_canonicalItems args
    rw [apply_of_length_ne hcoalesce hconcat hlength,
      apply_of_length_ne hcoalesce hconcat (hcount ▸ hlength), hcount]

end ScalarFunction

/-! ### Expressions and formulas -/

/-- Whether the values of all variables are plain, which is what a document can give back unchanged.
-/
def Bindings.IsPlain (bindings : Bindings) : Prop :=
  Value.AreFieldsPlain bindings.named ∧ ∀ entry ∈ bindings.positional, entry.2.IsPlain

mutual

/-- Whether all constants of an expression are plain. Its variables, columns and members have their
values from elsewhere. -/
def Expr.IsPlain : Expr → Prop
  | .const value => value.IsPlain
  | .bind _ | .column _ => True
  | .member base _ => IsPlain base
  | .arith _ left right => IsPlain left ∧ IsPlain right
  | .neg operand => IsPlain operand
  | .call _ args => AreAllPlain args

/-- Whether all constants of all expressions of a list are plain. -/
def Expr.AreAllPlain : List Expr → Prop
  | [] => True
  | e :: es => IsPlain e ∧ AreAllPlain es

end

namespace Formula

mutual

/-- Whether all constants of a formula are plain, as for the expression that it has been compiled
from. -/
def IsPlain : Formula → Prop
  | .const value => value.IsPlain
  | .bind _ | .column _ => True
  | .member base _ => IsPlain base
  | .arith _ left right => IsPlain left ∧ IsPlain right
  | .neg operand => IsPlain operand
  | .call _ args => AreAllPlain args

/-- Whether all constants of all formulas of a list are plain. -/
def AreAllPlain : List Formula → Prop
  | [] => True
  | formula :: formulas => IsPlain formula ∧ AreAllPlain formulas

end

mutual

/-- **Formulas do not tell a row from its canonical form**, nor does it matter for their failures
which of the two it is. -/
theorem eval_canonical (row : Row) (bindings : Bindings) : ∀ formula : Formula,
    (eval row.canonical bindings formula).map Value.canonical =
      (eval row bindings formula).map Value.canonical
  | .const _ | .bind _ => rfl
  | .column name => by
    rw [eval, eval, row.getOrNull_canonical]
    exact congrArg Except.ok (row.getOrNull name).canonical_canonical
  | .member base name => by
    rw [eval, eval]
    refine map_bind_congr (eval_canonical row bindings base) fun a b h => congrArg Except.ok ?_
    rw [← memberOf_canonical, ← memberOf_canonical, h]
  | .arith op left right => by
    rw [eval, eval]
    refine map_bind_congr (eval_canonical row bindings left) fun a b h => ?_
    refine map_bind_congr (eval_canonical row bindings right) fun a' b' h' => ?_
    rw [← applyArith_canonical, h, h', applyArith_canonical]
  | .neg operand => by
    rw [eval, eval]
    refine map_bind_congr (eval_canonical row bindings operand) fun a b h => ?_
    rw [← negate_canonical, h, negate_canonical]
  | .call function args => by
    rw [eval, eval]
    refine map_bind_congr (evalList_canonical row bindings args) fun a b h => ?_
    rw [map_mapError, map_mapError, ← function.apply_canonical a, h, function.apply_canonical]

/-- The values of a list of formulas come to the same canonical ones, evaluated on a row or on its
canonical form, and the first failure is the same. -/
theorem evalList_canonical (row : Row) (bindings : Bindings) : ∀ formulas : List Formula,
    (evalList row.canonical bindings formulas).map Value.canonicalItems =
      (evalList row bindings formulas).map Value.canonicalItems
  | [] => rfl
  | formula :: formulas => by
    rw [evalList, evalList]
    refine map_bind_congr (eval_canonical row bindings formula) fun a b h => ?_
    refine map_bind_congr (evalList_canonical row bindings formulas) fun as bs hs => ?_
    exact congrArg Except.ok (congrArg₂ List.cons h hs)

end

end Formula

/-! ### Plain values -/

mutual

/-- An expression is plain when each constant that occurs in it is, which is the form in which a
condition on a plan speaks of it. -/
theorem Expr.isPlain_iff : ∀ e : Expr,
    e.IsPlain ↔ ∀ constant ∈ e.constants, constant.IsPlain
  | .const _ => (List.forall_mem_singleton (p := Value.IsPlain)).symm
  | .bind _ | .column _ => iff_of_true trivial (List.forall_mem_nil _)
  | .member base _ => Expr.isPlain_iff base
  | .arith _ left right =>
    (and_congr (Expr.isPlain_iff left) (Expr.isPlain_iff right)).trans List.forall_mem_append.symm
  | .neg operand => Expr.isPlain_iff operand
  | .call _ args => Expr.areAllPlain_iff args

/-- A list of expressions is plain when each constant that occurs in one of them is. -/
theorem Expr.areAllPlain_iff : ∀ es : List Expr,
    Expr.AreAllPlain es ↔ ∀ constant ∈ Expr.listConstants es, constant.IsPlain
  | [] => iff_of_true trivial (List.forall_mem_nil _)
  | e :: es =>
    (and_congr (Expr.isPlain_iff e) (Expr.areAllPlain_iff es)).trans List.forall_mem_append.symm

end

namespace Formula

mutual

/-- A formula is plain when each constant that occurs in it is. -/
theorem isPlain_iff : ∀ formula : Formula,
    formula.IsPlain ↔ ∀ constant ∈ formula.constants, constant.IsPlain
  | .const _ => (List.forall_mem_singleton (p := Value.IsPlain)).symm
  | .bind _ | .column _ => iff_of_true trivial (List.forall_mem_nil _)
  | .member base _ => isPlain_iff base
  | .arith _ left right =>
    (and_congr (isPlain_iff left) (isPlain_iff right)).trans List.forall_mem_append.symm
  | .neg operand => isPlain_iff operand
  | .call _ args => areAllPlain_iff args

/-- A list of formulas is plain when each constant that occurs in one of them is. -/
theorem areAllPlain_iff : ∀ formulas : List Formula,
    AreAllPlain formulas ↔ ∀ constant ∈ listConstants formulas, constant.IsPlain
  | [] => iff_of_true trivial (List.forall_mem_nil _)
  | formula :: formulas =>
    (and_congr (isPlain_iff formula) (areAllPlain_iff formulas)).trans List.forall_mem_append.symm

end

/-- Looking the functions of an expression up leaves it plain. -/
theorem isPlain_of_compile {registry : Registry} {e : Expr} {formula : Formula} (he : e.IsPlain)
    (h : compile registry e = .ok formula) : formula.IsPlain := by
  rw [isPlain_iff, constants_of_compile h, ← Expr.isPlain_iff]
  exact he

end Formula

/-- **The fields of a projection are plain**, over plain rows and bind variables. -/
theorem areFieldsPlain_of_projectFields {bindings : Bindings} (hbindings : bindings.IsPlain)
    {row : Row} (hrow : row.IsPlain) {fields : List (String × Formula)}
    {values : List (String × Value)} (hfields : ∀ field ∈ fields, field.2.IsPlain)
    (h : Stage.projectFields row bindings fields = .ok values) : Value.AreFieldsPlain values := by
  have hconstants : ∀ field ∈ fields, ∀ constant ∈ field.2.constants, constant.IsPlain :=
    fun field hmem => (Formula.isPlain_iff field.2).1 (hfields field hmem)
  exact Value.areFieldsPlain_iff.2 (Value.isHereditary_isPlain.of_projectFields
    (Value.areFieldsPlain_iff.1 hrow) ⟨Value.areFieldsPlain_iff.1 hbindings.1, hbindings.2⟩
    hconstants h)

end ShardQuery
