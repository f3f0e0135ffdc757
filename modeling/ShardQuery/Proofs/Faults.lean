import ShardQuery.Proofs.Except
import ShardQuery.Stage.Basic

/-!
# Failures of Formulas

Computing values may fail because of the values, or because a variable of the formula has no
value, and for no other reason.

Main definitions:

* `QueryError.OfValues` — the errors of values;
* `Bindings.Lacks` — the errors of variables without a value;
* `Formula.bindRefs` — the variables of a formula.

## Main results

* `Formula.bindRefs_of_compile`: a formula has the variables of its expression.
* `Formula.fault_of_eval`: the failures of formulas.
* `Stage.fault_of_accumulate`: the failures of the functions of groups.
-/

namespace ShardQuery

/-- Whether an error comes of the values that something is computed from. -/
def QueryError.OfValues : QueryError → Prop
  | .negation _ | .divisionByZero | .arithmetic .. | .aggregation .. => True
  | .function (.invalidArgument ..) => True
  | _ => False

/-- What goes wrong with values is reported as an illegal argument, under whichever of these errors
it is. -/
theorem QueryError.OfValues.code_eq {error : QueryError} (h : error.OfValues) :
    error.code = .illegalArgument := by
  cases error with
  | function error => cases error <;> first | rfl | cases h
  | _ => first | rfl | cases h

/-- Whether an error tells that one of some variables has no value. -/
def Bindings.Lacks (bindings : Bindings) (refs : List BindRef) (error : QueryError) : Prop :=
  ∃ ref ∈ refs, bindings.resolve ref = .error error

namespace Bindings

variable {bindings : Bindings} {refs refs' : List BindRef} {error : QueryError}

/-- A variable that has no value among some has none among more: the failures of a part are failures
of the whole. -/
theorem Lacks.mono (h : bindings.Lacks refs error) (hsub : refs ⊆ refs') :
    bindings.Lacks refs' error := by
  obtain ⟨ref, hmem, hresolve⟩ := h
  exact ⟨ref, hsub hmem, hresolve⟩

/-- A missing value is reported as an illegal argument, both where nothing is bound and for position
zero. -/
theorem Lacks.code_eq (h : bindings.Lacks refs error) : error.code = .illegalArgument := by
  obtain ⟨ref, -, hresolve⟩ := h
  unfold resolve at hresolve
  split at hresolve
  · cases hresolve
    rfl
  · split at hresolve <;> cases hresolve
    rfl

/-- Variables that all have values do not fail, so the complete binding of a plan excludes every
error of this kind. -/
theorem not_lacks (h : ∀ ref ∈ refs, ∃ value, bindings.resolve ref = .ok value) :
    ¬bindings.Lacks refs error := by
  rintro ⟨ref, hmem, hresolve⟩
  obtain ⟨value, hvalue⟩ := h ref hmem
  cases hvalue.symm.trans hresolve

end Bindings

namespace Formula

/-! ### Variables -/

mutual

/-- The variables of a formula, from left to right. -/
def bindRefs : Formula → List BindRef
  | .const _ => []
  | .bind ref => [ref]
  | .column _ => []
  | .member base _ => bindRefs base
  | .arith _ left right => bindRefs left ++ bindRefs right
  | .neg operand => bindRefs operand
  | .call _ args => listBindRefs args

/-- The variables of a list of formulas, in the order in which the formulas are evaluated. -/
def listBindRefs : List Formula → List BindRef
  | [] => []
  | formula :: formulas => bindRefs formula ++ listBindRefs formulas

end

mutual

/-- A formula has the variables of its expression: compiling resolves functions and leaves
references as they are. -/
theorem bindRefs_of_compile {registry : Registry} : ∀ {e : Expr} {formula : Formula},
    compile registry e = .ok formula → formula.bindRefs = e.bindRefs
  | .const _, _, h | .bind _, _, h | .column _, _, h => by
    cases h
    rfl
  | .member base _, _, h => by
    rw [compile] at h
    obtain ⟨base', hbase, h⟩ := bind_eq_ok_iff.1 h
    cases h
    rw [bindRefs, Expr.bindRefs, bindRefs_of_compile hbase]
  | .arith _ left right, _, h => by
    rw [compile] at h
    obtain ⟨left', hleft, h⟩ := bind_eq_ok_iff.1 h
    obtain ⟨right', hright, h⟩ := bind_eq_ok_iff.1 h
    cases h
    rw [bindRefs, Expr.bindRefs, bindRefs_of_compile hleft, bindRefs_of_compile hright]
  | .neg operand, _, h => by
    rw [compile] at h
    obtain ⟨operand', hoperand, h⟩ := bind_eq_ok_iff.1 h
    cases h
    rw [bindRefs, Expr.bindRefs, bindRefs_of_compile hoperand]
  | .call _ args, _, h => by
    rw [compile] at h
    obtain ⟨function, -, h⟩ := bind_eq_ok_iff.1 h
    obtain ⟨args', hargs, h⟩ := bind_eq_ok_iff.1 h
    cases h
    rw [bindRefs, Expr.bindRefs, listBindRefs_of_compileList hargs]

/-- Formulas have the variables of their expressions, as a single one has. -/
theorem listBindRefs_of_compileList {registry : Registry} :
    ∀ {es : List Expr} {formulas : List Formula},
      compileList registry es = .ok formulas → listBindRefs formulas = Expr.listBindRefs es
  | [], _, h => by
    cases h
    rfl
  | e :: es, _, h => by
    rw [compileList] at h
    obtain ⟨formula, hformula, h⟩ := bind_eq_ok_iff.1 h
    obtain ⟨formulas, hformulas, h⟩ := bind_eq_ok_iff.1 h
    cases h
    rw [listBindRefs, Expr.listBindRefs, bindRefs_of_compile hformula,
      listBindRefs_of_compileList hformulas]

end

/-! ### Values -/

variable {row : Row} {bindings : Bindings}

/-- An operation that fails does so because of the values it is given. -/
theorem ofValues_of_applyArith {op : ArithOp} {left right : Value} {error : QueryError}
    (h : applyArith op left right = .error error) : error.OfValues := by
  unfold applyArith at h
  split at h
  · cases h
  · split at h
    · split at h <;> cases h
      trivial
    · split at h <;> cases h
      trivial

/-- A sign that cannot be changed is a fault of the value. -/
theorem ofValues_of_negate {value : Value} {error : QueryError} (h : negate value = .error error) :
    error.OfValues := by
  unfold negate at h
  split at h
  · cases h
  · split at h <;> cases h
  · cases h
  · cases h
    trivial

/-- Functions of values only fail because of their arguments. -/
theorem ofValues_of_apply {function : ScalarFunction} {args : List Value} {error : FunctionError}
    (h : function.apply args = .error error) : (QueryError.function error).OfValues := by
  have hconcatenate : ∀ {args : List Value} {error : FunctionError},
      ScalarFunction.concatenate args = .error error → (QueryError.function error).OfValues := by
    intro args
    induction args with
    | nil => nofun
    | cons arg args ih =>
        intro error h
        rw [ScalarFunction.concatenate] at h
        split at h
        · obtain hothers | ⟨text, -, h⟩ := bind_eq_error_iff.1 h
          · exact ih hothers
          · cases h
        · cases h
          trivial
  unfold ScalarFunction.apply at h
  split at h
  · cases h
  · cases htext : ScalarFunction.concatenate args with
    | ok text =>
        rw [htext] at h
        cases h
    | error fault =>
        rw [htext] at h
        cases h
        exact hconcatenate htext
  · split at h
    · cases h
    · split at h <;> cases h
      trivial
    · cases h
      trivial

mutual

/-- **A formula fails because of its values or because of a variable without a value.** -/
theorem fault_of_eval : ∀ {formula : Formula} {error : QueryError},
    eval row bindings formula = .error error →
      error.OfValues ∨ bindings.Lacks formula.bindRefs error
  | .const _, _, h => by cases h
  | .bind _, _, h => .inr ⟨_, List.mem_singleton_self _, h⟩
  | .column _, _, h => by cases h
  | .member base name, error, h => by
    rw [eval] at h
    obtain hbase | ⟨value, -, h⟩ := bind_eq_error_iff.1 h
    · rw [bindRefs]
      exact fault_of_eval hbase
    · cases h
  | .arith op left right, error, h => by
    rw [eval] at h
    obtain hleft | ⟨l, -, h⟩ := bind_eq_error_iff.1 h
    · exact (fault_of_eval hleft).imp_right (·.mono (List.subset_append_left _ _))
    · obtain hright | ⟨r, -, h⟩ := bind_eq_error_iff.1 h
      · exact (fault_of_eval hright).imp_right (·.mono (List.subset_append_right _ _))
      · exact .inl (ofValues_of_applyArith h)
  | .neg operand, error, h => by
    rw [eval] at h
    obtain hoperand | ⟨value, -, h⟩ := bind_eq_error_iff.1 h
    · rw [bindRefs]
      exact fault_of_eval hoperand
    · exact .inl (ofValues_of_negate h)
  | .call function args, error, h => by
    rw [eval] at h
    obtain hargs | ⟨values, -, h⟩ := bind_eq_error_iff.1 h
    · rw [bindRefs]
      exact fault_of_evalList hargs
    · cases happly : function.apply values with
      | ok value =>
          rw [happly] at h
          cases h
      | error fault =>
          rw [happly] at h
          cases h
          exact .inl (ofValues_of_apply happly)

/-- Formulas fail because of their values or because of a variable without a value. -/
theorem fault_of_evalList : ∀ {formulas : List Formula} {error : QueryError},
    evalList row bindings formulas = .error error →
      error.OfValues ∨ bindings.Lacks (listBindRefs formulas) error
  | [], _, h => by cases h
  | formula :: formulas, error, h => by
    rw [evalList] at h
    obtain hfirst | ⟨value, -, h⟩ := bind_eq_error_iff.1 h
    · exact (fault_of_eval hfirst).imp_right (·.mono (List.subset_append_left _ _))
    · obtain hothers | ⟨values, -, h⟩ := bind_eq_error_iff.1 h
      · exact (fault_of_evalList hothers).imp_right (·.mono (List.subset_append_right _ _))
      · cases h

end

end Formula

/-! ### Groups -/

/-- An aggregate that cannot take in a value has failed because of the value. -/
theorem AggregateState.ofValues_of_update {input : Option Value} {state : AggregateState}
    {error : QueryError} (h : state.update input = .error error) : error.OfValues := by
  unfold update at h
  split at h
  · split at h <;> cases h
  · split at h
    · cases h
    · unfold accept at h
      split at h
      · obtain hsum | ⟨value, -, h⟩ := bind_eq_error_iff.1 h
        · unfold addTo at hsum
          split at hsum
          · split at hsum <;> cases hsum
          · split at hsum
            · cases hsum
            · split at hsum <;> cases hsum
              trivial
        · cases h
      · cases h
      · split at h <;> cases h
      · split at h <;> cases h
      · split at h <;> cases h
        trivial
      · cases h

/-- The variables of an aggregation are those of the formula for its input. An aggregation
without an argument has none. -/
def Aggregation.bindRefs (aggregation : Aggregation) : List BindRef :=
  aggregation.arg.elim [] Formula.bindRefs

namespace Stage

variable {row : Row} {bindings : Bindings} {error : QueryError}

/-- The input of an aggregation fails because of a value, or because a variable of its formula has
no value. -/
theorem fault_of_input {aggregation : Aggregation}
    (h : Aggregation.input aggregation row bindings = .error error) :
    error.OfValues ∨ bindings.Lacks aggregation.bindRefs error := by
  unfold Aggregation.input at h
  split at h
  · cases h
  · cases h
  · next arg harg _ =>
      cases heval : arg.eval row bindings with
      | ok value =>
          rw [heval] at h
          cases h
      | error fault =>
          rw [heval] at h
          cases h
          rw [Aggregation.bindRefs, harg]
          exact Formula.fault_of_eval heval

/-- Aggregates fail because of their values or because of a variable without a value. -/
theorem fault_of_accumulate {aggregations : List Aggregation} {states : List AggregateState}
    (h : accumulate row bindings aggregations states = .error error) :
    error.OfValues ∨ bindings.Lacks (aggregations.flatMap Aggregation.bindRefs) error := by
  induction aggregations generalizing states with
  | nil => cases h
  | cons aggregation aggregations ih =>
      cases states with
      | nil => cases h
      | cons state states =>
          rw [accumulate] at h
          obtain hinput | ⟨input, -, h⟩ := bind_eq_error_iff.1 h
          · exact (fault_of_input hinput).imp_right (·.mono (List.subset_append_left _ _))
          · obtain hupdate | ⟨state', -, h⟩ := bind_eq_error_iff.1 h
            · exact .inl (AggregateState.ofValues_of_update hupdate)
            · obtain hothers | ⟨states', -, h⟩ := bind_eq_error_iff.1 h
              · exact (ih hothers).imp_right (·.mono (List.subset_append_right _ _))
              · cases h

/-- Aggregates do not fail because of the state of the execution. -/
theorem code_of_accumulate {aggregations : List Aggregation} {states : List AggregateState}
    (h : accumulate row bindings aggregations states = .error error) :
    error.code ≠ .illegalState := by
  rcases fault_of_accumulate h with hvalues | hlacks
  · rw [hvalues.code_eq]
    nofun
  · rw [hlacks.code_eq]
    nofun

end Stage

end ShardQuery
