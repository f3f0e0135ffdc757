import ShardQuery.Proofs.Double.Order
import ShardQuery.Proofs.Except
import ShardQuery.Proofs.Meaning.Lists
import ShardQuery.Proofs.Value.Totality
import ShardQuery.Proofs.Word

/-!
# Aggregates

A function of groups takes in the values under its argument one by one, and what it keeps depends
on those before: a least value on the first of all equal ones, a sum on where it has left the
words. What it comes to in the end is stated here in terms of the present values alone, wherever
absent ones stand among them.

Main definitions:

* `present` — the values that are not absent;
* `AggregateFunction.ofValues` — what a function makes of the values under its argument;
* `IsFirst` — the first of the values that go furthest in one direction of the order;
* `IsSum` — what the sum of values is.

## Main results

* `AggregateFunction.finish_accumulated`: the functions of a group are functions of the values
  under their arguments.
* `IsFirst.further`, `SumsTo.addTo`: what one more value does to a least value and to a sum.
* `AggregateFunction.ofValues_of_no_doubles`: what all functions but the mean come to over values
  without doubles.
-/

namespace ShardQuery

/-! ### Values of groups -/

/-- The values that are not absent, in their order. Most functions of groups look at no others. -/
def present (values : List Value) : List Value :=
  values.filter fun value => !value.isNull

/-- None of these values is absent. -/
theorem isNull_of_mem_present {values : List Value} {value : Value} (h : value ∈ present values) :
    value.isNull = false :=
  Bool.not_eq_true' _ ▸ (List.mem_filter.1 h).2

/-- The state after values that are not absent, taken in one by one from the left. -/
def AggregateState.acceptAll (values : List Value) (state : AggregateState) :
    Except QueryError AggregateState :=
  values.foldlM (fun (state : AggregateState) value => state.accept value) state

/-- The first value is taken in first, and the others by the state that it leaves. -/
theorem AggregateState.acceptAll_cons (value : Value) (values : List Value)
    (state : AggregateState) :
    acceptAll (value :: values) state = state.accept value >>= acceptAll values :=
  List.foldlM_cons

namespace AggregateFunction

/-- What a function takes from a row with a value under its argument. -/
def input (function : AggregateFunction) (value : Value) : Option Value :=
  match function with
  | .countStar => none
  | _ => some value

/-- What a function makes of rows with given values under its argument. -/
def ofValues (function : AggregateFunction) (values : List Value) : Except QueryError Value := do
  let state ← values.foldlM (fun (state : AggregateState) value =>
    state.update (function.input value)) (AggregateState.start function)
  return state.finish

/-- **The function of a group** is a function of the values under its argument. -/
theorem finish_accumulated {bindings : Bindings} {aggregation : Aggregation} {arg : Formula}
    (harg : aggregation.arg = some arg) {rows : List Row} {values : List Value}
    (h : List.Forall₂ (fun row value => arg.eval row bindings = .ok value) rows values) :
    (do
      let state ← Meaning.accumulated bindings aggregation (.start aggregation.function) rows
      return state.finish) = aggregation.function.ofValues values := by
  have hinput {row : Row} {value : Value} (hvalue : arg.eval row bindings = .ok value) :
      Stage.Aggregation.input aggregation row bindings =
        .ok (aggregation.function.input value) := by
    rw [Stage.Aggregation.input, harg]
    cases aggregation.function <;> simp only [hvalue, input, Except.map]
  have hstates : ∀ state : AggregateState,
      Meaning.accumulated bindings aggregation state rows =
        values.foldlM (fun state value =>
          state.update (aggregation.function.input value)) state := by
    unfold Meaning.accumulated
    induction h with
    | nil => exact fun _ => rfl
    | cons hvalue _ ih =>
        intro state
        rw [List.foldlM_cons, List.foldlM_cons, hinput hvalue]
        exact congrArg (_ >>= ·) (funext ih)
  rw [hstates, ofValues]

end AggregateFunction

namespace AggregateState

/-- Absent values are not taken in, so a fold over all values is one over those that are there. -/
theorem foldlM_update_some (values : List Value) (state : AggregateState) :
    values.foldlM (fun (state : AggregateState) value => state.update (some value)) state =
      state.acceptAll (present values) := by
  induction values generalizing state with
  | nil => rfl
  | cons value values ih =>
      rw [List.foldlM_cons]
      cases hnull : value.isNull with
      | true =>
          have hpresent : present (value :: values) = present values :=
            List.filter_cons_of_neg (by simp [hnull])
          have hupdate : state.update (some value) = .ok state := if_pos hnull
          rw [hpresent, ← ih, hupdate]
          rfl
      | false =>
          have hpresent : present (value :: values) = value :: present values :=
            List.filter_cons_of_pos (by simp [hnull])
          have hupdate : state.update (some value) = state.accept value :=
            if_neg (by simp [hnull])
          rw [hpresent, hupdate]
          exact congrArg (_ >>= ·) (funext ih)

/-! ### Counting and collecting -/

/-- What counts every item has counted them all, modulo the words that it counts with. -/
theorem foldlM_count {α : Type} {step : AggregateState → α → Except QueryError AggregateState}
    (h : ∀ n item, step (.count n) item = .ok (.count (n + 1))) (items : List α) (n : Int64) :
    items.foldlM step (.count n) = .ok (.count (n + Int64.ofNat items.length)) := by
  induction items generalizing n with
  | nil => exact congrArg (fun n => Except.ok (count n)) n.add_zero.symm
  | cons item items ih =>
      rw [List.foldlM_cons, h, List.length_cons, Nat.add_comm, Int64.ofNat_add, ← Int64.add_assoc]
      exact ih (n + 1)

/-- Counting is exact as long as words suffice for the number of items. -/
theorem toInt_ofNat_length {α : Type} {items : List α}
    (h : (items.length : Int) ≤ Int64.maxValue.toInt) :
    (Int64.ofNat items.length).toInt = items.length :=
  Int64.toInt_ofNat_of_lt (by
    have hmax : Int64.maxValue.toInt = 9223372036854775807 := rfl
    omega)

/-- Collecting keeps all values, behind those collected before. -/
theorem acceptAll_collect (values items : List Value) :
    acceptAll values (.collect items) = .ok (.collect (items ++ values)) := by
  induction values generalizing items with
  | nil => rw [List.append_nil]; rfl
  | cons value values ih =>
      rw [List.append_cons, ← ih]
      rfl

end AggregateState

/-! ### First values -/

/-- Whether a value is the first of those that go furthest in a direction of the order, such as the
least ones: no other goes further, and the ones before it do not go as far. The absent value stands
for the first of no values. -/
def IsFirst (toward : Ordering) (values : List Value) (best : Value) : Prop :=
  values = [] ∧ best = .null ∨
    ∃ before after, values = before ++ best :: after ∧
      (∀ value ∈ before, best.compare value = toward) ∧
        ∀ value ∈ after, value.compare best ≠ toward

/-- What is kept of the best value so far and another one: the latter, if it is the first or goes
further in a direction of the order. -/
def further (toward : Ordering) (best value : Value) : Value :=
  if best.isNull || value.compare best == toward then value else best

/-- **One more value**: the first of those that went furthest so far is kept, unless the new one
goes further than all of them. -/
theorem IsFirst.further {held : Double → Prop} (hheld : Double.Coherent held) {toward : Ordering}
    (htoward : toward ≠ .eq) {values : List Value} {best value : Value}
    (h : IsFirst toward values best) (hpresent : ∀ other ∈ values, other.isNull = false)
    (hvalues : ∀ other ∈ values, other.Holds held) (hvalue : value.Holds held) :
    IsFirst toward (values ++ [value]) (further toward best value) := by
  obtain ⟨rfl, rfl⟩ | ⟨before, after, rfl, hbefore, hafter⟩ := h
  · exact .inr ⟨[], [], rfl, List.forall_mem_nil _, List.forall_mem_nil _⟩
  · have hbest : best ∈ before ++ best :: after := List.mem_append_cons_self
    by_cases hfurther : value.compare best = toward
    · have hkeep : ShardQuery.further toward best value = value := if_pos (by simp [hfurther])
      rw [hkeep]
      refine .inr ⟨before ++ best :: after, [], rfl, fun other hother => ?_, List.forall_mem_nil _⟩
      -- No value so far goes further than the best one.
      have hother' : best.compare other ≠ toward.swap := by
        obtain hmem | hmem := List.mem_append.1 hother
        · rw [hbefore other hmem]
          exact mt Ordering.eq_eq_of_eq_swap htoward
        · obtain rfl | hmem := List.mem_cons.1 hmem
          · rw [Value.compare_self]
            exact fun heq => htoward (Ordering.swap_inj.1 heq.symm)
          · rw [Value.compare_eq_swap, ne_eq, Ordering.swap_inj]
            exact hafter other hmem
      have hcompare := Value.composes_compare_of_coherent hheld value best other hvalue
        (hvalues best hbest) (hvalues other hother) (.inr (hfurther ▸ hother'))
      rw [hcompare, hfurther]
      cases toward with
      | lt => rfl
      | eq => exact absurd rfl htoward
      | gt => rfl
    · have hkeep : ShardQuery.further toward best value = best :=
        if_neg (by simp [hfurther, hpresent best hbest])
      rw [hkeep]
      refine .inr ⟨before, after ++ [value], List.append_assoc .., hbefore, ?_⟩
      exact List.forall_mem_append.2 ⟨hafter, List.forall_mem_singleton.2 hfurther⟩

/-- The least value is the further one towards less, of the best so far and the new one. -/
theorem accept_min (best value : Value) :
    (AggregateState.min best).accept value = .ok (.min (further .lt best value)) := by
  rw [AggregateState.accept, further]
  split <;> rfl

/-- The greatest value is the further one towards greater. -/
theorem accept_max (best value : Value) :
    (AggregateState.max best).accept value = .ok (.max (further .gt best value)) := by
  rw [AggregateState.accept, further]
  split <;> rfl

/-- What is kept of all values, by a function that keeps the best one. -/
theorem acceptAll_further {held : Double → Prop} (hheld : Double.Coherent held)
    {toward : Ordering} {keeping : Value → AggregateState}
    (hkeeping : ∀ best value,
      (keeping best).accept value = .ok (keeping (further toward best value)))
    (htoward : toward ≠ .eq)
    {values done : List Value} {best : Value} (h : IsFirst toward done best)
    (hpresent : ∀ value ∈ done ++ values, value.isNull = false)
    (hvalues : ∀ value ∈ done ++ values, value.Holds held) :
    ∃ best', AggregateState.acceptAll values (keeping best) = .ok (keeping best') ∧
      IsFirst toward (done ++ values) best' := by
  induction values generalizing done best with
  | nil => exact ⟨best, rfl, (List.append_nil done).symm ▸ h⟩
  | cons value values ih =>
      have hvalue : value.Holds held := hvalues value List.mem_append_cons_self
      rw [List.append_cons] at hpresent hvalues ⊢
      have hnext := h.further hheld htoward
        (fun other hother => hpresent other (by simp [hother]))
        (fun other hother => hvalues other (by simp [hother])) hvalue
      rw [AggregateState.acceptAll_cons, hkeeping]
      exact ih hnext hpresent hvalues

/-! ### Sums -/

/-- The sum of the integers among values, in the integers themselves, where nothing overflows. -/
def exactSum : List Value → Int
  | [] => 0
  | .int i :: values => i.toInt + exactSum values
  | _ :: values => exactSum values

/-- Whether words suffice for all sums of the first of some values, whatever their number. -/
def SumsFit (values : List Value) : Prop :=
  ∀ taken, taken <+: values → ¬ ExceedsWord (exactSum taken)

/-- Whether a value stands for the sum of numbers: none for none of them, an integer as long as all
sums fit, and a double from then on. -/
inductive SumsTo : List Value → Value → Prop
  /-- There are no numbers. -/
  | nothing : SumsTo [] .null
  /-- All sums fit, and this is the last one. -/
  | exact {values : List Value} {n : Int64} :
      values ≠ [] → SumsFit values → n.toInt = exactSum values → SumsTo values (.int n)
  /-- Some sum does not fit. -/
  | widened {values : List Value} {d : Double} : ¬ SumsFit values → SumsTo values (.double d)

/-- The exact sum with one more integer at the end is greater by it. -/
theorem exactSum_concat (values : List Value) (i : Int64) :
    exactSum (values ++ [.int i]) = exactSum values + i.toInt := by
  induction values with
  | nil => exact (Int.add_zero _).trans (Int.zero_add _).symm
  | cons value values ih =>
      cases value with
      | int j =>
          show j.toInt + exactSum (values ++ [.int i]) = j.toInt + exactSum values + i.toInt
          rw [ih, Int.add_assoc]
      | null | bool _ | double _ | string _ | array _ | map _ => exact ih

/-- The sums of the first of some values and another one are those of the former, and the last. -/
theorem sumsFit_concat {values : List Value} {value : Value} :
    SumsFit (values ++ [value]) ↔
      SumsFit values ∧ ¬ ExceedsWord (exactSum (values ++ [value])) := by
  simp only [SumsFit, List.prefix_concat_iff, or_imp, forall_and, forall_eq]
  exact and_comm

/-- The sum of no values is zero, which a word can hold. -/
theorem sumsFit_nil : SumsFit [] := by
  intro taken htaken
  rw [List.prefix_nil.1 htaken]
  exact not_exceedsWord_toInt 0

/-- **One more integer**: a sum stays exact as long as words suffice for it, and never is an integer
again after that. -/
theorem SumsTo.addTo {values : List Value} {total : Value} (h : SumsTo values total) (i : Int64) :
    ∃ total', AggregateState.addTo total (.int i) = .ok total' ∧
      SumsTo (values ++ [.int i]) total' := by
  cases h with
  | nothing =>
      have hsum : i.toInt = exactSum [.int i] := (Int.add_zero _).symm
      refine ⟨_, rfl, .exact (List.cons_ne_nil _ _) ?_ hsum⟩
      exact (@sumsFit_concat [] _).2 ⟨sumsFit_nil, hsum ▸ not_exceedsWord_toInt i⟩
  | @exact _ n _ hfit htotal =>
      rw [AggregateState.addTo]
      cases hword : int64? (n.toInt + i.toInt) with
      | some m =>
          have hsum : m.toInt = exactSum (values ++ [.int i]) := by
            rw [Double.int64?_eq_some hword, htotal, exactSum_concat]
          refine ⟨.int m, rfl, .exact (by simp) ?_ hsum⟩
          exact sumsFit_concat.2 ⟨hfit, hsum ▸ not_exceedsWord_toInt m⟩
      | none =>
          refine ⟨.double _, rfl, .widened fun hfits => (sumsFit_concat.1 hfits).2 ?_⟩
          rw [exactSum_concat, ← htotal]
          exact exceedsWord_of_int64? hword
  | widened hexcess =>
      exact ⟨_, rfl, .widened fun hfit => hexcess (sumsFit_concat.1 hfit).1⟩

/-- What is no number cannot be added to anything. -/
theorem addTo_of_not_isNumeric {value : Value} (h : value.isNumeric = false) (total : Value) :
    AggregateState.addTo total value = .error (.aggregation .sum value.typeName) := by
  have hdouble : value.asDouble? = none := by
    cases value with
    | int _ => cases h
    | double _ => cases h
    | null | bool _ | string _ | array _ | map _ => rfl
  unfold AggregateState.addTo
  split
  · cases h
  · rw [if_neg (by simp [h]), hdouble, h]
    cases total.asDouble? <;> rfl

/-- Summing adds the value to the total so far. -/
theorem accept_sum (total value : Value) :
    (AggregateState.sum total).accept value =
      AggregateState.addTo total value >>= fun total => .ok (.sum total) :=
  rfl

/-- Whether all values are numbers, integers or doubles. -/
def AreNumeric (values : List Value) : Prop :=
  ∀ value ∈ values, value.isNumeric = true

/-- What adding up values comes to: their sum, or an error for the first value that is no number. -/
inductive SumOutcome (values : List Value) : Except QueryError AggregateState → Prop
  /-- A sum of numbers. -/
  | summed {total : Value} :
      AreNumeric values → SumsTo values total → SumOutcome values (.ok (.sum total))
  /-- A value that is no number is refused. -/
  | refused {value : Value} :
      value ∈ values → value.isNumeric = false →
      SumOutcome values (.error (.aggregation .sum value.typeName))

/-- What is kept of all values, by a function that adds them up. -/
theorem sumOutcome_acceptAll {values done : List Value} {total : Value} (h : SumsTo done total)
    (hdone : AreNumeric done) (hvalues : ∀ value ∈ values, value.Holds fun _ => False) :
    SumOutcome (done ++ values) (AggregateState.acceptAll values (.sum total)) := by
  induction values generalizing done total with
  | nil =>
      rw [List.append_nil]
      exact .summed hdone h
  | cons value values ih =>
      obtain ⟨hvalue, hrest⟩ := List.forall_mem_cons.1 hvalues
      rw [AggregateState.acceptAll_cons]
      cases hnumeric : value.isNumeric with
      | false =>
          rw [accept_sum, addTo_of_not_isNumeric hnumeric]
          exact .refused List.mem_append_cons_self hnumeric
      | true =>
          -- Without doubles, the numbers are integers.
          obtain ⟨i, rfl⟩ : ∃ i, value = .int i := by
            cases value with
            | int i => exact ⟨i, rfl⟩
            | double d => exact absurd hvalue id
            | null | bool _ | string _ | array _ | map _ => cases hnumeric
          obtain ⟨total', hadd, hnext⟩ := h.addTo i
          rw [accept_sum, hadd, List.append_cons]
          exact ih hnext (List.forall_mem_append.2 ⟨hdone, List.forall_mem_singleton.2 rfl⟩) hrest

/-- Whether a result is the sum of values: absent for none of them, an integer if words suffice for
all sums of the first ones, a double otherwise, and a refusal if they are not all numbers. -/
structure IsSum (values : List Value) (result : Except QueryError Value) : Prop where
  /-- It is absent if there are no values. -/
  null_iff : result = .ok .null ↔ values = []
  /-- It is an integer if all sums of numbers fit, and then the exact one. -/
  int_iff : ∀ n, result = .ok (.int n) ↔
    values ≠ [] ∧ AreNumeric values ∧ SumsFit values ∧ n.toInt = exactSum values
  /-- It is a double if some sum of numbers does not fit. -/
  double_iff : (∃ d, result = .ok (.double d)) ↔ AreNumeric values ∧ ¬ SumsFit values
  /-- It is refused if not all values are numbers. -/
  refused_iff : (∃ error, result = .error error ∧ error.code = .illegalArgument) ↔
    ¬ AreNumeric values

/-- What adding up values comes to is their sum. -/
theorem isSum_of_sumOutcome {values : List Value} {result : Except QueryError AggregateState}
    (h : SumOutcome values result) :
    IsSum values (do
      let state ← result
      return state.finish) := by
  cases h with
  | refused hmem hvalue =>
      have hnumeric : ¬ AreNumeric values := fun h => by
        rw [h _ hmem] at hvalue
        cases hvalue
      have hvalues : values ≠ [] := List.ne_nil_of_mem hmem
      refine ⟨iff_of_false nofun hvalues, fun n => iff_of_false nofun fun h => hnumeric h.2.1,
        iff_of_false nofun fun h => hnumeric h.1, iff_of_true ⟨_, rfl, rfl⟩ hnumeric⟩
  | summed hnumeric hsum =>
      cases hsum with
      | nothing =>
          refine ⟨iff_of_true rfl rfl, fun n => iff_of_false nofun fun h => h.1 rfl,
            iff_of_false nofun fun h => h.2 sumsFit_nil, iff_of_false nofun (not_not.2 hnumeric)⟩
      | @exact _ n hvalues hfit htotal =>
          refine ⟨iff_of_false nofun hvalues, fun m => ?_,
            iff_of_false nofun fun h => h.2 hfit, iff_of_false nofun (not_not.2 hnumeric)⟩
          constructor
          · intro h
            cases h
            exact ⟨hvalues, hnumeric, hfit, htotal⟩
          · rintro ⟨-, -, -, hm⟩
            rw [Int64.toInt_inj.1 (hm.trans htotal.symm)]
            rfl
      | @widened _ d hexcess =>
          have hvalues : values ≠ [] := fun h => hexcess (h ▸ sumsFit_nil)
          refine ⟨iff_of_false nofun hvalues, fun n => iff_of_false nofun fun h => hexcess h.2.2.1,
            iff_of_true ⟨d, rfl⟩ ⟨hnumeric, hexcess⟩, iff_of_false nofun (not_not.2 hnumeric)⟩

/-! ### Functions over values -/

namespace AggregateFunction

/-- Functions that do not count rows depend on the present values only. -/
theorem ofValues_eq (function : AggregateFunction) (h : function ≠ .countStar)
    (values : List Value) :
    function.ofValues values = do
      let state ← AggregateState.acceptAll (present values) (.start function)
      return state.finish := by
  have hinput (value : Value) : function.input value = some value := by
    cases function with
    | countStar => exact absurd rfl h
    | sum | count | min | max | avg | collect => rfl
  rw [ofValues, ← AggregateState.foldlM_update_some]
  simp only [hinput]

/-- A function other than the count of all rows comes to what the state after the values that are
there is finished to. -/
theorem ofValues_eq_ok (function : AggregateFunction) (h : function ≠ .countStar)
    {values : List Value} {state : AggregateState}
    (hstate : AggregateState.acceptAll (present values) (.start function) = .ok state) :
    function.ofValues values = .ok state.finish := by
  rw [ofValues_eq function h, hstate]
  rfl

/-- **What functions of groups come to** over values without doubles, absent ones among them, no
more than words can count. -/
theorem ofValues_of_no_doubles {values : List Value}
    (hcount : (values.length : Int) ≤ Int64.maxValue.toInt)
    (hvalues : ∀ value ∈ values, value.Holds fun _ => False) :
    (∃ n, AggregateFunction.count.ofValues values = .ok (.int n) ∧
      n.toInt = (present values).length) ∧
    (∃ n, AggregateFunction.countStar.ofValues values = .ok (.int n) ∧ n.toInt = values.length) ∧
    (∃ least, AggregateFunction.min.ofValues values = .ok least ∧
      IsFirst .lt (present values) least) ∧
    (∃ greatest, AggregateFunction.max.ofValues values = .ok greatest ∧
      IsFirst .gt (present values) greatest) ∧
    AggregateFunction.collect.ofValues values = .ok (.array (present values)) ∧
    IsSum (present values) (AggregateFunction.sum.ofValues values) := by
  have hpresent : ∀ value ∈ present values, value.isNull = false := fun _ => isNull_of_mem_present
  have hheld : ∀ value ∈ present values, value.Holds fun _ => False :=
    fun value hmem => hvalues value (List.mem_of_mem_filter hmem)
  have hcoherent : Double.Coherent fun _ => False := ⟨fun h => h.1, nofun, nofun⟩
  have hlength : ((present values).length : Int) ≤ Int64.maxValue.toInt :=
    (Int.ofNat_le.2 (List.length_filter_le _ _)).trans hcount
  have hcounted := @AggregateState.foldlM_count
  refine ⟨?_, ?_, ?_, ?_, ?_, ?_⟩
  · refine ⟨_, ofValues_eq_ok .count nofun (hcounted (fun _ _ => rfl) _ 0), ?_⟩
    rw [Int64.zero_add, AggregateState.toInt_ofNat_length hlength]
  · refine ⟨_, congrArg (· >>= _) (hcounted (fun _ _ => rfl) values 0), ?_⟩
    rw [Int64.zero_add, AggregateState.toInt_ofNat_length hcount]
  · obtain ⟨least, hleast, hfirst⟩ :=
      acceptAll_further hcoherent accept_min nofun (.inl ⟨rfl, rfl⟩) hpresent hheld
    exact ⟨least, ofValues_eq_ok .min nofun hleast, hfirst⟩
  · obtain ⟨greatest, hgreatest, hfirst⟩ :=
      acceptAll_further hcoherent accept_max nofun (.inl ⟨rfl, rfl⟩) hpresent hheld
    exact ⟨greatest, ofValues_eq_ok .max nofun hgreatest, hfirst⟩
  · exact ofValues_eq_ok .collect nofun (AggregateState.acceptAll_collect _ [])
  · rw [ofValues_eq .sum nofun]
    exact isSum_of_sumOutcome (sumOutcome_acceptAll .nothing (List.forall_mem_nil _) hheld)

/-- Integers whose sum is a word, unlike that of the first ones. -/
def detour : List Value :=
  [.null, .int Int64.maxValue, .int 1, .null, .int (-1)]

/-- Three values are counted, and their sum has become a double on the way, although it would be a
word in the end. -/
theorem ofValues_detour :
    (∃ n, AggregateFunction.count.ofValues detour = .ok (.int n) ∧ n.toInt = 3) ∧
    ∃ d, AggregateFunction.sum.ofValues detour = .ok (.double d) := by
  have hvalues : ∀ value ∈ detour, value.Holds fun _ => False := by
    intro value hvalue
    simp only [detour, List.mem_cons, List.not_mem_nil, or_false] at hvalue
    rcases hvalue with rfl | rfl | rfl | rfl | rfl <;> trivial
  have hnumeric : AreNumeric (present detour) := by
    unfold AreNumeric
    decide
  have hexcess : ¬ SumsFit (present detour) := fun hfit =>
    hfit [.int Int64.maxValue, .int 1] ⟨[.int (-1)], rfl⟩ (.inr (by decide))
  obtain ⟨hcount, -, -, -, -, hsum⟩ := ofValues_of_no_doubles (by decide) hvalues
  exact ⟨hcount, hsum.double_iff.2 ⟨hnumeric, hexcess⟩⟩

end AggregateFunction

end ShardQuery
