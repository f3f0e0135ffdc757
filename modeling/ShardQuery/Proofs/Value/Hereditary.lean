import ShardQuery.Proofs.Except
import ShardQuery.Stage.Basic

/-!
# Values Made of Parts

Formulas make no maps. Whatever they compute has no parts at all, or is an array of values that
they have been given, or is itself a part of one. So a property of values that goes down to the
parts, and that only maps can fail to have, holds of the values of formulas if it holds of their
constants, of the row and of the bind variables.

Main definitions:

* `Value.IsHereditary` — the properties of values that go down to their parts;
* `Row.All`, `Bindings.All` — whether all values of a row or of bind variables have a property;
* `Expr.constants`, `Formula.constants` — the constants in an expression and in a formula.

## Main results

* `Formula.constants_of_compile`: looking functions up does not touch the constants.
* `Value.IsHereditary.of_eval`: what formulas compute has the property.
* `Value.IsHereditary.of_projectFields`: so have the new fields of a row.
-/

namespace ShardQuery

/-- Whether a property goes down from values to their parts, and only maps can fail to have it by
themselves. -/
structure Value.IsHereditary (p : Value → Prop) : Prop where
  /-- The absent value has it. -/
  null : p .null
  /-- Truth values have it. -/
  bool (b : Bool) : p (.bool b)
  /-- Integers have it. -/
  int (i : Int64) : p (.int i)
  /-- Doubles have it. -/
  double (d : Double) : p (.double d)
  /-- Texts have it. -/
  string (s : String) : p (.string s)
  /-- An array has it exactly if its items do. -/
  array_iff {items : List Value} : p (.array items) ↔ ∀ item ∈ items, p item
  /-- The fields of a map that has it do. -/
  of_map {fields : List (String × Value)} : p (.map fields) → ∀ field ∈ fields, p field.2

/-- Whether all values of a row have a property. -/
def Row.All (p : Value → Prop) (row : Row) : Prop :=
  ∀ field ∈ row.fields, p field.2

/-- Whether all bind variables have a property, those with names and those with positions. -/
structure Bindings.All (p : Value → Prop) (bindings : Bindings) : Prop where
  /-- Those with names have it. -/
  named : ∀ field ∈ bindings.named, p field.2
  /-- Those at positions have it. -/
  positional : ∀ entry ∈ bindings.positional, p entry.2

/-! ### Constants -/

namespace Expr

mutual

/-- The constants of an expression, from left to right. -/
def constants : Expr → List Value
  | .const value => [value]
  | .bind _ | .column _ => []
  | .member base _ => constants base
  | .arith _ left right => constants left ++ constants right
  | .neg operand => constants operand
  | .call _ args => listConstants args

/-- The constants of a list of expressions, in the order in which they are written. -/
def listConstants : List Expr → List Value
  | [] => []
  | e :: es => constants e ++ listConstants es

end

end Expr

namespace Formula

mutual

/-- The constants of a formula, from left to right. -/
def constants : Formula → List Value
  | .const value => [value]
  | .bind _ | .column _ => []
  | .member base _ => constants base
  | .arith _ left right => constants left ++ constants right
  | .neg operand => constants operand
  | .call _ args => listConstants args

/-- The constants of a list of formulas, in the same order. -/
def listConstants : List Formula → List Value
  | [] => []
  | formula :: formulas => constants formula ++ listConstants formulas

end

mutual

/-- **Looking functions up does not touch the constants**: a formula has exactly those of the
expression that it is compiled from. -/
theorem constants_of_compile {registry : Registry} : ∀ {e : Expr} {formula : Formula},
    compile registry e = .ok formula → formula.constants = e.constants
  | .const _, _, h | .bind _, _, h | .column _, _, h => by
    cases h
    rfl
  | .member base _, _, h => by
    obtain ⟨inner, hinner, heq⟩ := bind_eq_ok_iff.1 h
    cases heq
    have hconstants := constants_of_compile hinner
    exact hconstants
  | .arith _ left right, _, h => by
    obtain ⟨l, hl, h⟩ := bind_eq_ok_iff.1 h
    obtain ⟨r, hr, heq⟩ := bind_eq_ok_iff.1 h
    cases heq
    exact congrArg₂ List.append (constants_of_compile hl) (constants_of_compile hr)
  | .neg operand, _, h => by
    obtain ⟨inner, hinner, heq⟩ := bind_eq_ok_iff.1 h
    cases heq
    have hconstants := constants_of_compile hinner
    exact hconstants
  | .call _ args, _, h => by
    obtain ⟨function, -, h⟩ := bind_eq_ok_iff.1 h
    obtain ⟨formulas, hformulas, heq⟩ := bind_eq_ok_iff.1 h
    cases heq
    exact constants_of_compileList hformulas

/-- Formulas have exactly the constants of their expressions. -/
theorem constants_of_compileList {registry : Registry} : ∀ {es : List Expr}
    {formulas : List Formula}, compileList registry es = .ok formulas →
    listConstants formulas = Expr.listConstants es
  | [], _, h => by
    cases h
    rfl
  | e :: es, _, h => by
    obtain ⟨formula, hformula, h⟩ := bind_eq_ok_iff.1 h
    obtain ⟨formulas, hformulas, heq⟩ := bind_eq_ok_iff.1 h
    cases heq
    exact congrArg₂ List.append (constants_of_compile hformula)
      (constants_of_compileList hformulas)

end

end Formula

/-! ### Functions -/

namespace ScalarFunction

/-- A function of one argument that is not absent gives what it is defined to, or refuses the type
of its argument. -/
theorem apply_singleton {function : ScalarFunction} (hcoalesce : function ≠ .coalesce)
    (hconcat : function ≠ .concat) {arg : Value} (harg : arg.isNull = false) :
    function.apply [arg] =
      match function.applyOne? arg with
      | some value => .ok value
      | none => .error (.invalidArgument function (.unexpectedType arg.typeName)) := by
  cases function with
  | coalesce => exact absurd rfl hcoalesce
  | concat => exact absurd rfl hconcat
  | size | length | lower | upper | abs =>
      cases arg with
      | null => cases harg
      | bool | int | double | string | array | map => rfl

/-- Such a function refuses any other number of arguments. -/
theorem apply_of_length_ne {function : ScalarFunction} (hcoalesce : function ≠ .coalesce)
    (hconcat : function ≠ .concat) {args : List Value} (h : args.length ≠ 1) :
    function.apply args = .error (.invalidArgument function (.wrongCount args.length)) := by
  cases function with
  | coalesce => exact absurd rfl hcoalesce
  | concat => exact absurd rfl hconcat
  | size | length | lower | upper | abs =>
      match args with
      | [] => rfl
      | [_] => exact absurd rfl h
      | first :: _ :: _ => cases first <;> rfl

end ScalarFunction

/-! ### Values -/

/-- What stands under a name is the value of one of the fields. -/
theorem Value.mem_of_field? {name : String} {fields : List (String × Value)} {value : Value}
    (h : field? name fields = some value) : ∃ field ∈ fields, field.2 = value := by
  obtain ⟨field, hfield, rfl⟩ := Option.map_eq_some_iff.1 h
  exact ⟨field, List.mem_of_find?_eq_some hfield, rfl⟩

namespace Value.IsHereditary

variable {p : Value → Prop}

/-- What stands under a name in a row has the property, if the values of the row have it. Null,
which stands for absent ones, has it always. -/
theorem getOrNull (hp : IsHereditary p) {row : Row} (hrow : row.All p) (name : String) :
    p (row.getOrNull name) := by
  rw [Row.getOrNull, Row.get?]
  cases hvalue : field? name row.fields with
  | none => exact hp.null
  | some value =>
      obtain ⟨field, hmem, rfl⟩ := mem_of_field? hvalue
      exact hrow field hmem

/-- What a reference resolves to has the property, if all bind variables have it. -/
theorem of_resolve {bindings : Bindings} (hbindings : bindings.All p) {ref : BindRef}
    {value : Value} (h : bindings.resolve ref = .ok value) : p value := by
  unfold Bindings.resolve at h
  split at h
  · cases h
  · split at h <;> cases h
    next hvalue =>
      cases ref with
      | name =>
          obtain ⟨field, hmem, rfl⟩ := mem_of_field? hvalue
          exact hbindings.named field hmem
      | position =>
          obtain ⟨entry, hentry, rfl⟩ := Option.map_eq_some_iff.1 hvalue
          exact hbindings.positional entry (List.mem_of_find?_eq_some hentry)

/-- A member of a value with the property has it too. -/
theorem memberOf (hp : IsHereditary p) {value : Value} (h : p value) (name : String) :
    p (Formula.memberOf name value) := by
  cases value with
  | map fields =>
      rw [Formula.memberOf]
      cases hfield : field? name fields with
      | none => exact hp.null
      | some value =>
          obtain ⟨field, hmem, rfl⟩ := mem_of_field? hfield
          exact hp.of_map h field hmem
  | array items =>
      refine hp.array_iff.2 fun value hvalue => ?_
      obtain ⟨item, hitem, heq⟩ := List.mem_filterMap.1 hvalue
      have hp' := hp.array_iff.1 h item hitem
      cases item with
      | map fields =>
          obtain ⟨field, hmem, rfl⟩ := mem_of_field? heq
          exact hp.of_map hp' field hmem
      | null | bool | int | double | string | array => cases heq
  | null | bool | int | double | string => exact hp.null

/-- What arithmetic comes to has the property, as it is a number or null. -/
theorem of_applyArith (hp : IsHereditary p) {op : ArithOp} {left right value : Value}
    (h : Formula.applyArith op left right = .ok value) : p value := by
  unfold Formula.applyArith at h
  split at h
  · cases h
    exact hp.null
  · split at h
    · split at h <;> cases h
      unfold Formula.onInts
      split
      · exact hp.int _
      · exact hp.double _
    · split at h <;> cases h
      exact hp.double _

/-- The opposite of a value has the property, for the same reason. -/
theorem of_negate (hp : IsHereditary p) {operand value : Value}
    (h : Formula.negate operand = .ok value) : p value := by
  unfold Formula.negate at h
  split at h
  · cases h
    exact hp.null
  · split at h <;> cases h
    · exact hp.int _
    · exact hp.double _
  · cases h
    exact hp.double _
  · cases h

/-- What a function of one argument comes to has the property: a scalar, or the argument itself. -/
theorem of_applyOne? (hp : IsHereditary p) {function : ScalarFunction} {arg value : Value}
    (h : function.applyOne? arg = some value) : p value := by
  cases function <;> cases arg <;> cases h
  case abs.int i =>
    rw [absInt]
    split
    · exact hp.int _
    · exact hp.double _
  case abs.double => exact hp.double _
  case lower.string | upper.string => exact hp.string _
  case size.array | size.map | length.string => exact hp.int _

/-- A function gives one of its arguments, or nothing with parts. -/
theorem of_apply (hp : IsHereditary p) {function : ScalarFunction} {args : List Value}
    {value : Value} (hargs : ∀ arg ∈ args, p arg) (h : function.apply args = .ok value) :
    p value := by
  by_cases hcoalesce : function = .coalesce
  · subst hcoalesce
    cases h
    cases hfind : args.find? fun arg => !arg.isNull with
    | none => exact hp.null
    | some arg => exact hargs arg (List.mem_of_find?_eq_some hfind)
  by_cases hconcat : function = .concat
  · subst hconcat
    simp only [ScalarFunction.apply] at h
    cases htext : ScalarFunction.concatenate args <;> rw [htext] at h <;> cases h
    exact hp.string _
  by_cases hlength : args.length = 1
  · obtain ⟨arg, rfl⟩ := List.length_eq_one_iff.1 hlength
    cases harg : arg.isNull with
    | true =>
        cases arg <;> cases harg
        cases function with
        | coalesce => exact absurd rfl hcoalesce
        | concat => exact absurd rfl hconcat
        | size | length | lower | upper | abs =>
            cases h
            exact hp.null
    | false =>
        rw [ScalarFunction.apply_singleton hcoalesce hconcat harg] at h
        split at h
        · next hone =>
            cases h
            exact hp.of_applyOne? hone
        · cases h
  · rw [ScalarFunction.apply_of_length_ne hcoalesce hconcat hlength] at h
    cases h

/-! ### Formulas -/

variable {row : Row} {bindings : Bindings}

mutual

/-- **What a formula computes has the property**, if its constants, the row and the bind variables
do. -/
theorem of_eval (hp : IsHereditary p) (hrow : row.All p) (hbindings : bindings.All p) :
    ∀ (formula : Formula) {value : Value}, (∀ constant ∈ formula.constants, p constant) →
      formula.eval row bindings = .ok value → p value
  | .const _, _, hconstants, h => by
    cases h
    exact hconstants _ List.mem_cons_self
  | .bind _, _, _, h => of_resolve hbindings h
  | .column name, _, _, h => by
    cases h
    exact hp.getOrNull hrow name
  | .member base name, _, hconstants, h => by
    rw [Formula.eval] at h
    obtain ⟨inner, hinner, heq⟩ := bind_eq_ok_iff.1 h
    cases heq
    exact hp.memberOf (of_eval hp hrow hbindings base hconstants hinner) name
  | .arith op left right, _, _, h => by
    rw [Formula.eval] at h
    obtain ⟨_, -, h⟩ := bind_eq_ok_iff.1 h
    obtain ⟨_, -, h⟩ := bind_eq_ok_iff.1 h
    exact hp.of_applyArith h
  | .neg operand, _, _, h => by
    rw [Formula.eval] at h
    obtain ⟨_, -, h⟩ := bind_eq_ok_iff.1 h
    exact hp.of_negate h
  | .call function args, _, hconstants, h => by
    rw [Formula.eval] at h
    obtain ⟨values, hvalues, h⟩ := bind_eq_ok_iff.1 h
    exact hp.of_apply (of_evalList hp hrow hbindings args hconstants hvalues)
      (mapError_eq_ok_iff.1 h)

/-- What formulas come to has the property, one after the other. -/
theorem of_evalList (hp : IsHereditary p) (hrow : row.All p) (hbindings : bindings.All p) :
    ∀ (formulas : List Formula) {values : List Value},
      (∀ constant ∈ Formula.listConstants formulas, p constant) →
      Formula.evalList row bindings formulas = .ok values → ∀ value ∈ values, p value
  | [], _, _, h => by
    rw [Formula.evalList] at h
    cases h
    exact List.forall_mem_nil _
  | formula :: formulas, _, hconstants, h => by
    obtain ⟨hfirst, hothers⟩ := List.forall_mem_append.1 hconstants
    rw [Formula.evalList] at h
    obtain ⟨value, hvalue, h⟩ := bind_eq_ok_iff.1 h
    obtain ⟨values, hvalues, heq⟩ := bind_eq_ok_iff.1 h
    cases heq
    exact List.forall_mem_cons.2
      ⟨of_eval hp hrow hbindings formula hfirst hvalue,
        of_evalList hp hrow hbindings formulas hothers hvalues⟩

end

/-- The new fields of a row have the property. -/
theorem of_projectFields (hp : IsHereditary p) (hrow : row.All p) (hbindings : bindings.All p)
    {fields : List (String × Formula)} {values : List (String × Value)}
    (hconstants : ∀ field ∈ fields, ∀ constant ∈ field.2.constants, p constant)
    (h : Stage.projectFields row bindings fields = .ok values) : ∀ field ∈ values, p field.2 := by
  induction fields generalizing values with
  | nil =>
      cases h
      exact List.forall_mem_nil _
  | cons field fields ih =>
      obtain ⟨hfirst, hothers⟩ := List.forall_mem_cons.1 hconstants
      obtain ⟨value, hvalue, h⟩ := bind_eq_ok_iff.1 h
      obtain ⟨values, hvalues, heq⟩ := bind_eq_ok_iff.1 h
      cases heq
      exact List.forall_mem_cons.2
        ⟨hp.of_eval hrow hbindings field.2 hfirst hvalue, ih hothers hvalues⟩

end Value.IsHereditary

/-! ### Rows -/

namespace Row

variable {p : Value → Prop}

/-- Putting a value with the property under a name leaves all fields with it. -/
theorem forall_mem_putField {name : String} {value : Value} {fields : List (String × Value)}
    (hvalue : p value) (h : ∀ field ∈ fields, p field.2) :
    ∀ field ∈ putField name value fields, p field.2 := by
  induction fields with
  | nil => exact List.forall_mem_singleton.2 hvalue
  | cons field fields ih =>
      obtain ⟨hfield, hfields⟩ := List.forall_mem_cons.1 h
      rw [putField]
      split
      · exact List.forall_mem_cons.2 ⟨hvalue, hfields⟩
      · exact List.forall_mem_cons.2 ⟨hfield, ih hfields⟩

/-- A row has the values that it is made of. -/
theorem all_ofList {fields : List (String × Value)} (h : ∀ field ∈ fields, p field.2) :
    (ofList fields).All p := by
  suffices hall : ∀ row : Row, row.All p → (row.insertAll fields).All p from
    hall empty (List.forall_mem_nil _)
  intro row hrow
  induction fields generalizing row with
  | nil => exact hrow
  | cons field fields ih =>
      obtain ⟨hfield, hfields⟩ := List.forall_mem_cons.1 h
      exact ih hfields _ (forall_mem_putField hfield hrow)

end Row

end ShardQuery
