import ShardQuery.Proofs.Opening
import ShardQuery.Proofs.Total

/-!
# Unknown Functions

A start looks the functions of a plan up before anything runs. This module says which functions
a plan uses, at any depth of any of its expressions, and which of them a start looks up: all but
those in the arguments of an aggregate call behind the first one. So nothing unknown gets past a
start exactly if no function of groups can be called with more than one argument, as it is with
the functions that are always there.

Main definitions:

* `Expr.calls` — the functions that an expression applies;
* `Plan.Resolves` — whether a registry has all functions of a plan;
* `Registry.Guards` — whether a start refuses the plans that it does not have all functions of.

## Main results

* `Formula.exists_compile_iff`: an expression compiles exactly if all of its functions are known.
* `exists_compileSteps_iff`: what has to be known of a plan for its steps to compile.
* `Execution.start_of_compile_error`: a plan whose steps do not compile is not understood.
* `guards_iff`: the registries with which nothing unknown gets past a start.
* `guards_registerAll`: the functions that are always there make such a registry.
-/

namespace ShardQuery

variable {registry : Registry}

/-! ### What a plan uses -/

namespace Registry

/-- Whether a name is that of a function of values with a number of arguments. -/
def HasScalar (registry : Registry) (name : String) (count : Nat) : Prop :=
  ∃ function, registry.scalar name count = .ok function

/-- Whether a name is that of a function of groups with a number of arguments. -/
def HasAggregate (registry : Registry) (name : String) (count : Nat) : Prop :=
  ∃ function, registry.aggregate name count = .ok function

end Registry

namespace Expr

mutual

/-- The functions that an expression applies at any depth, from left to right, each with the
number of its arguments. -/
def calls : Expr → List (String × Nat)
  | .const _ => []
  | .bind _ => []
  | .column _ => []
  | .member base _ => calls base
  | .arith _ left right => calls left ++ calls right
  | .neg operand => calls operand
  | .call name args => (name, args.length) :: listCalls args

/-- The functions that a list of expressions applies, with the number of arguments of each
application. -/
def listCalls : List Expr → List (String × Nat)
  | [] => []
  | e :: es => calls e ++ listCalls es

end

/-- Whether a registry has all functions that an expression applies. -/
def Resolves (registry : Registry) (e : Expr) : Prop :=
  ∀ call ∈ e.calls, registry.HasScalar call.1 call.2

end Expr

namespace Step

/-- The aggregate calls of a step. Only groupings have any. -/
def aggregateCalls : Step → List AggregateCall
  | .groupBy _ aggregates => aggregates
  | .sort .. | .distinct .. | .project .. | .slice .. => []

/-- The expressions of a step that are computed: of the arguments of an aggregate call, only the
first one is. -/
def computedExprs : Step → List Expr
  | .groupBy _ aggregates => aggregates.flatMap (·.args.take 1)
  | .project fields => fields.map (·.expr)
  | .slice offset limit => offset.toList ++ limit.toList
  | .sort .. | .distinct .. => []

/-- Whether a registry has the functions of groups that a step uses. -/
def AggregatesResolve (registry : Registry) (step : Step) : Prop :=
  ∀ call ∈ step.aggregateCalls, registry.HasAggregate call.function call.args.length

/-- Whether a registry has all functions of a step. -/
def Resolves (registry : Registry) (step : Step) : Prop :=
  (∀ e ∈ step.exprs, e.Resolves registry) ∧ step.AggregatesResolve registry

end Step

/-- Whether a registry has all functions of a plan. -/
def Plan.Resolves (registry : Registry) (plan : Plan) : Prop :=
  ∀ step ∈ plan.steps, step.Resolves registry

/-- Whether no plan gets past a start with a function that a registry does not have: such a plan
is refused as not understood, unless the options have been refused before. -/
structure Registry.Guards (registry : Registry) : Prop where
  /-- What has been started is known. -/
  resolves_of_start : ∀ {config : EngineConfig} {query : Query} {fresh : Uuid}
    {execution : Execution}, Execution.start ⟨config, registry⟩ query fresh = .ok execution →
    query.plan.Resolves registry
  /-- What is not known is refused. -/
  refused : ∀ {query : Query} (config : EngineConfig) (fresh : Uuid),
    ¬query.plan.Resolves registry →
    ∃ error, Execution.start ⟨config, registry⟩ query fresh = .error error ∧
      (error.code = .badProtocol ∨ query.options.resolve config = .error error)

/-! ### What is looked up -/

namespace Formula

mutual

/-- An expression compiles exactly if all of its functions are known. -/
theorem exists_compile_iff : ∀ {e : Expr},
    (∃ formula, compile registry e = .ok formula) ↔ e.Resolves registry
  | .const value => ⟨fun _ => by simp [Expr.Resolves, Expr.calls], fun _ => ⟨.const value, rfl⟩⟩
  | .bind ref => ⟨fun _ => by simp [Expr.Resolves, Expr.calls], fun _ => ⟨.bind ref, rfl⟩⟩
  | .column name => ⟨fun _ => by simp [Expr.Resolves, Expr.calls], fun _ => ⟨.column name, rfl⟩⟩
  | .member base name => by
    simp only [compile, exists_bind_eq_ok_iff, exists_pure_eq_ok, and_true]
    exact exists_compile_iff (e := base)
  | .arith op left right => by
    simp only [compile, exists_bind_eq_ok_iff, exists_pure_eq_ok, and_true, exists_and_right,
      exists_compile_iff (e := left), exists_compile_iff (e := right)]
    exact List.forall_mem_append.symm
  | .neg operand => by
    simp only [compile, exists_bind_eq_ok_iff, exists_pure_eq_ok, and_true]
    exact exists_compile_iff (e := operand)
  | .call name args => by
    simp only [compile, exists_bind_eq_ok_iff, exists_pure_eq_ok, and_true, exists_and_right,
      exists_compileList_iff (l := args), Expr.Resolves, Expr.calls, List.forall_mem_cons]
    rfl

/-- Expressions compile exactly if all of their functions are known. -/
theorem exists_compileList_iff : ∀ {l : List Expr},
    (∃ formulas, compileList registry l = .ok formulas) ↔
      ∀ call ∈ Expr.listCalls l, registry.HasScalar call.1 call.2
  | [] => ⟨fun _ => by simp [Expr.listCalls], fun _ => ⟨[], rfl⟩⟩
  | e :: l => by
    simp only [compileList, exists_bind_eq_ok_iff, exists_pure_eq_ok, and_true, exists_and_right,
      exists_compile_iff (e := e), exists_compileList_iff (l := l)]
    exact List.forall_mem_append.symm

end

end Formula

/-- An aggregate call compiles exactly if its function and the functions of its first argument
are known. -/
theorem AggregateCall.exists_compile_iff {call : AggregateCall} :
    (∃ aggregation, call.compile registry = .ok aggregation) ↔
      registry.HasAggregate call.function call.args.length ∧
        ∀ e ∈ call.args.take 1, e.Resolves registry := by
  obtain ⟨name, function, args⟩ := call
  cases args with
  | nil =>
      simp only [compile, exists_bind_eq_ok_iff, exists_pure_eq_ok, and_true, List.take_nil,
        List.not_mem_nil, false_implies, implies_true]
      rfl
  | cons arg args =>
      simp only [compile, exists_bind_eq_ok_iff, exists_pure_eq_ok, and_true, exists_and_right,
        Formula.exists_compile_iff, List.take_succ_cons, List.take_zero,
        List.forall_mem_singleton]
      rfl

/-- An optional expression compiles exactly if it is absent or resolves. -/
theorem exists_compileOptional_iff {e : Option Expr} :
    (∃ formula, compileOptional registry e = .ok formula) ↔
      ∀ e' ∈ e.toList, e'.Resolves registry := by
  cases e with
  | none => simp [compileOptional]
  | some e =>
      simp only [compileOptional, exists_bind_eq_ok_iff, exists_pure_eq_ok, and_true,
        Formula.exists_compile_iff, Option.toList_some, List.forall_mem_singleton]

/-- A step compiles exactly if its functions of groups and the functions of the expressions that
it computes are known. -/
theorem Step.exists_compile_iff {step : Step} :
    (∃ compiled, step.compile registry = .ok compiled) ↔
      (∀ e ∈ step.computedExprs, e.Resolves registry) ∧ step.AggregatesResolve registry := by
  cases step with
  | sort keys mode =>
      simp [Step.compile, Step.computedExprs, Step.AggregatesResolve, Step.aggregateCalls]
  | distinct keys strategy =>
      simp [Step.compile, Step.computedExprs, Step.AggregatesResolve, Step.aggregateCalls]
  | groupBy keys aggregates =>
      simp only [Step.compile, exists_bind_eq_ok_iff, exists_pure_eq_ok, and_true,
        exists_mapM_eq_ok_iff, AggregateCall.exists_compile_iff, Step.computedExprs,
        Step.AggregatesResolve, Step.aggregateCalls, List.forall_mem_flatMap]
      exact ⟨fun h => ⟨fun call hmem => (h call hmem).2, fun call hmem => (h call hmem).1⟩,
        fun h call hmem => ⟨h.2 call hmem, h.1 call hmem⟩⟩
  | project fields =>
      simp only [Step.compile, exists_bind_eq_ok_iff, exists_pure_eq_ok, and_true,
        exists_mapM_eq_ok_iff, Formula.exists_compile_iff, Step.computedExprs,
        Step.AggregatesResolve, Step.aggregateCalls, List.forall_mem_map]
      simp
  | slice offset limit =>
      simp only [Step.compile, exists_bind_eq_ok_iff, exists_pure_eq_ok, and_true,
        exists_and_right, exists_compileOptional_iff, Step.computedExprs, List.forall_mem_append,
        Step.AggregatesResolve, Step.aggregateCalls]
      simp

/-- Steps compile exactly if each of them does: computed expressions resolve, and so do the first
arguments of aggregates. -/
theorem exists_compileSteps_iff {steps : List Step} :
    (∃ compiled, compileSteps registry steps = .ok compiled) ↔
      ∀ step ∈ steps,
        (∀ e ∈ step.computedExprs, e.Resolves registry) ∧ step.AggregatesResolve registry := by
  induction steps with
  | nil => simp [compileSteps]
  | cons step steps ih =>
      simp only [compileSteps, exists_bind_eq_ok_iff, exists_pure_eq_ok, and_true,
        exists_and_right, Step.exists_compile_iff, ih, List.forall_mem_cons]
      exact and_comm

/-! ### What is refused -/

/-- A name or a number of arguments that a registry does not have is reported as a bad protocol. -/
theorem Registry.code_of_lookup {name : String} {count : Nat} {error : FunctionError}
    (h : registry.lookup name count = .error error) :
    (QueryError.function error).code = .badProtocol := by
  unfold lookup at h
  split at h
  · cases h
    rfl
  · split at h <;> cases h
    rfl

/-- So is the use of an aggregate where a scalar function belongs. -/
theorem Registry.code_of_scalar {name : String} {count : Nat} {error : FunctionError}
    (h : registry.scalar name count = .error error) :
    (QueryError.function error).code = .badProtocol := by
  obtain h | ⟨signature, -, h⟩ := bind_eq_error_iff.1 h
  · exact code_of_lookup h
  · split at h <;> cases h
    rfl

/-- So is the use of a scalar function where an aggregate belongs. -/
theorem Registry.code_of_aggregate {name : String} {count : Nat} {error : FunctionError}
    (h : registry.aggregate name count = .error error) :
    (QueryError.function error).code = .badProtocol := by
  obtain h | ⟨signature, -, h⟩ := bind_eq_error_iff.1 h
  · exact code_of_lookup h
  · split at h <;> cases h
    rfl

namespace Formula

mutual

/-- An expression that does not compile is not understood. -/
theorem code_of_compile : ∀ {e : Expr} {error : FunctionError},
    compile registry e = .error error → (QueryError.function error).code = .badProtocol
  | .const _, _, h | .bind _, _, h | .column _, _, h => by cases h
  | .member base _, _, h => by
    obtain h | ⟨_, -, h⟩ := bind_eq_error_iff.1 h
    · exact code_of_compile h
    · cases h
  | .arith _ left right, _, h => by
    obtain h | ⟨_, -, h⟩ := bind_eq_error_iff.1 h
    · exact code_of_compile h
    · obtain h | ⟨_, -, h⟩ := bind_eq_error_iff.1 h
      · exact code_of_compile h
      · cases h
  | .neg operand, _, h => by
    obtain h | ⟨_, -, h⟩ := bind_eq_error_iff.1 h
    · exact code_of_compile h
    · cases h
  | .call _ args, _, h => by
    obtain h | ⟨_, -, h⟩ := bind_eq_error_iff.1 h
    · exact Registry.code_of_scalar h
    · obtain h | ⟨_, -, h⟩ := bind_eq_error_iff.1 h
      · exact code_of_compileList h
      · cases h

/-- Expressions that do not compile are not understood: the first of them that fails is reported. -/
theorem code_of_compileList : ∀ {es : List Expr} {error : FunctionError},
    compileList registry es = .error error → (QueryError.function error).code = .badProtocol
  | [], _, h => by cases h
  | e :: es, _, h => by
    obtain h | ⟨_, -, h⟩ := bind_eq_error_iff.1 h
    · exact code_of_compile h
    · obtain h | ⟨_, -, h⟩ := bind_eq_error_iff.1 h
      · exact code_of_compileList h
      · cases h

end

end Formula

/-- An aggregate call that does not compile is not understood either. -/
theorem AggregateCall.code_of_compile {call : AggregateCall} {error : FunctionError}
    (h : call.compile registry = .error error) :
    (QueryError.function error).code = .badProtocol := by
  obtain h | ⟨function, -, h⟩ := bind_eq_error_iff.1 h
  · exact Registry.code_of_aggregate h
  · split at h
    · cases h
    · obtain h | ⟨_, -, h⟩ := bind_eq_error_iff.1 h
      · exact Formula.code_of_compile h
      · cases h

/-- The same holds of an expression that may be absent. -/
theorem code_of_compileOptional {e : Option Expr} {error : FunctionError}
    (h : compileOptional registry e = .error error) :
    (QueryError.function error).code = .badProtocol := by
  cases e with
  | none => cases h
  | some e =>
      obtain h | ⟨_, -, h⟩ := bind_eq_error_iff.1 h
      · exact Formula.code_of_compile h
      · cases h

/-- A step that does not compile is not understood. -/
theorem Step.code_of_compile {step : Step} {error : FunctionError}
    (h : step.compile registry = .error error) :
    (QueryError.function error).code = .badProtocol := by
  cases step with
  | sort keys mode => cases h
  | distinct keys strategy => cases h
  | groupBy keys aggregates =>
      obtain h | ⟨_, -, h⟩ := bind_eq_error_iff.1 h
      · obtain ⟨call, -, hcall⟩ := exists_of_mapM_eq_error h
        exact AggregateCall.code_of_compile hcall
      · cases h
  | project fields =>
      obtain h | ⟨_, -, h⟩ := bind_eq_error_iff.1 h
      · obtain ⟨field, -, hfield⟩ := exists_of_mapM_eq_error h
        obtain h | ⟨_, -, h⟩ := bind_eq_error_iff.1 hfield
        · exact Formula.code_of_compile h
        · cases h
      · cases h
  | slice offset limit =>
      obtain h | ⟨_, -, h⟩ := bind_eq_error_iff.1 h
      · exact code_of_compileOptional h
      · obtain h | ⟨_, -, h⟩ := bind_eq_error_iff.1 h
        · exact code_of_compileOptional h
        · cases h

/-- Steps that do not compile are not understood, whichever of them fails. -/
theorem code_of_compileSteps {steps : List Step} {error : FunctionError}
    (h : compileSteps registry steps = .error error) :
    (QueryError.function error).code = .badProtocol := by
  induction steps with
  | nil => cases h
  | cons step steps ih =>
      obtain h | ⟨_, -, h⟩ := bind_eq_error_iff.1 h
      · exact ih h
      · obtain h | ⟨_, -, h⟩ := bind_eq_error_iff.1 h
        · exact Step.code_of_compile h
        · cases h

namespace Execution

/-- A query whose steps do not compile is refused as not understood, unless its options have been
refused before. -/
theorem start_of_compile_error {engine : Engine} {query : Query} {error : FunctionError}
    (h : compileSteps engine.registry query.plan.steps = .error error) (fresh : Uuid) :
    ∃ refusal, start engine query fresh = .error refusal ∧
      (refusal.code = .badProtocol ∨ query.options.resolve engine.config = .error refusal) := by
  unfold start
  cases hoptions : query.options.resolve engine.config with
  | error refusal => exact ⟨refusal, rfl, .inr rfl⟩
  | ok options =>
      cases hcheck : query.plan.check with
      | error fault => exact ⟨.plan fault, rfl, .inl rfl⟩
      | ok => exact ⟨.function error, by rw [h]; rfl, .inl (code_of_compileSteps h)⟩

/-- A query that starts has all functions that are looked up. -/
theorem resolves_computed_of_start {engine : Engine} {query : Query} {fresh : Uuid}
    {execution : Execution} (h : start engine query fresh = .ok execution) {step : Step}
    (hmem : step ∈ query.plan.steps) :
    (∀ e ∈ step.computedExprs, e.Resolves engine.registry) ∧
      step.AggregatesResolve engine.registry := by
  obtain ⟨steps, point, hstarted⟩ := start_eq_ok_iff.1 h
  exact exists_compileSteps_iff.1 ⟨steps, hstarted.compile⟩ step hmem

end Execution

/-! ### What gets past a start -/

/-- Where no function of groups takes more than one argument, all functions of a step are looked
up. -/
theorem Step.resolves_of_computed {step : Step}
    (hsingle : ∀ name count, registry.HasAggregate name count → count ≤ 1)
    (hcomputed : ∀ e ∈ step.computedExprs, e.Resolves registry)
    (haggregates : step.AggregatesResolve registry) : step.Resolves registry := by
  refine ⟨?_, haggregates⟩
  cases step with
  | groupBy keys aggregates =>
      simp only [exprs, computedExprs, List.forall_mem_flatMap] at hcomputed ⊢
      intro call hmem
      have htake : call.args.take 1 = call.args :=
        List.take_of_length_le (hsingle _ _ (haggregates call hmem))
      exact htake ▸ hcomputed call hmem
  | sort | distinct | project | slice => exact hcomputed

/-- Where no function of groups takes more than one argument, nothing unknown gets past a start. -/
theorem guards_of_single
    (hsingle : ∀ name count, registry.HasAggregate name count → count ≤ 1) :
    registry.Guards where
  resolves_of_start hstart := by
    intro step hmem
    obtain ⟨hcomputed, haggregates⟩ := Execution.resolves_computed_of_start hstart hmem
    exact Step.resolves_of_computed hsingle hcomputed haggregates
  refused {query} config fresh hunknown := by
    cases hcompile : compileSteps registry query.plan.steps with
    | error error => exact Execution.start_of_compile_error hcompile fresh
    | ok steps =>
        refine absurd (fun step hmem => ?_) hunknown
        obtain ⟨hcomputed, haggregates⟩ := exists_compileSteps_iff.1 ⟨steps, hcompile⟩ step hmem
        exact Step.resolves_of_computed hsingle hcomputed haggregates

/-! ### What does not -/

/-- A text of one lower-case letter over and over is its own lower case. -/
theorem lowerFrom_replicate (before : List Char) (count : Nat) :
    lowerFrom before (List.replicate count 'x') = List.replicate count 'x' := by
  induction count generalizing before with
  | zero => rfl
  | succ count ih =>
      have hmap : mapCase CaseTable.lowerRuns CaseTable.lowerSequences 'x' = ['x'] := by
        decide +kernel
      rw [List.replicate_succ, lowerFrom, if_neg (by decide), hmap, ih]
      rfl

/-- No registry has all names, as it has finitely many and there is a longer one. -/
theorem Registry.exists_unknown (registry : Registry) :
    ∃ name, ∀ count, ¬registry.HasScalar name count := by
  let size (entry : String × Signature) : Nat := entry.1.length
  let name := String.ofList (List.replicate (total size registry.entries + 1) 'x')
  have hname : lowerCase name = name := by
    rw [lowerCase, String.toList_ofList, lowerFrom_replicate]
  have hfind : registry.entries.find? (·.1 == lowerCase name) = none := by
    refine List.find?_eq_none.2 fun entry hmem heq => ?_
    have hlength := congrArg String.length (eq_of_beq heq)
    have hle : entry.1.length ≤ total size registry.entries := le_total_of_mem size hmem
    rw [hname, String.length_ofList, List.length_replicate] at hlength
    omega
  refine ⟨name, fun count ⟨function, hfunction⟩ => ?_⟩
  obtain ⟨signature, hlookup, -⟩ := bind_eq_ok_iff.1 hfunction
  rw [lookup, hfind] at hlookup
  cases hlookup

/-- A plan of one group, computed by a function of groups of no value, of a function of values
without arguments, and of `count` more arguments. -/
def Plan.behindFirst (aggregate unknown : String) (count : Nat) : Plan :=
  ⟨currentVersion,
    [.groupBy [] [⟨"s", aggregate,
      .const .null :: .call unknown [] :: List.replicate count (.const .null)⟩]],
    ⟨"t", [0], true⟩⟩

/-- What stands behind the first argument of an aggregate call gets past a start. -/
theorem Execution.start_behindFirst {aggregate : String} {count : Nat}
    (h : registry.HasAggregate aggregate (count + 2)) (unknown : String) (fresh : Uuid) :
    ∃ execution, start ⟨.standard, registry⟩
      ⟨.behindFirst aggregate unknown count, .empty, .standard, none⟩ fresh = .ok execution := by
  obtain ⟨function, hfunction⟩ := h
  let plan := Plan.behindFirst aggregate unknown count
  let aggregation : Aggregation := ⟨"s", function, some (.const .null)⟩
  let options : ResolvedOptions := ⟨none, none, none, 1024, none, none, .eventual, none, 4⟩
  let pipeline : Pipeline :=
    ⟨[.groupBy [] [aggregation] .start], ⟨"t", 1, 1, .inOrder, [.start 0]⟩⟩
  have hcall : AggregateCall.compile registry ⟨"s", aggregate,
      .const .null :: .call unknown [] :: List.replicate count (.const .null)⟩ =
      .ok aggregation := by
    rw [AggregateCall.compile, List.length_cons, List.length_cons, List.length_replicate, hfunction]
    rfl
  have hrefs : plan.bindRefs = [] := by
    simp [plan, Plan.behindFirst, Plan.bindRefs, Step.exprs, Expr.bindRefs, Expr.listBindRefs]
  have hstarted : Started ⟨.standard, registry⟩ ⟨plan, .empty, .standard, none⟩ fresh
      [.groupBy [] [aggregation]] ⟨fresh, 0, plan.startStates⟩
      ⟨fresh, plan, .empty, options, .ofLimitMb 1024, pipeline, 0, false⟩ := {
    options := rfl
    check := rfl
    compile := by
      change compileSteps registry [.groupBy [] [_]] = _
      rw [compileSteps, Step.compile, List.mapM_cons, hcall]
      rfl
    bound := fun ref href => absurd (hrefs ▸ href) List.not_mem_nil
    start := rfl
    opened := Metered.run_eq_ok_iff.2 ⟨rfl, rfl, rfl⟩
    id_eq := rfl
    plan_eq := rfl
    bindings_eq := rfl
    elapsedMs_eq := rfl
    finished_eq := rfl }
  exact ⟨_, start_eq_ok_iff.2 ⟨_, _, hstarted⟩⟩

/-- **The registries with which nothing unknown gets past a start** are those in which no function
of groups takes more than one argument. -/
theorem guards_iff (registry : Registry) :
    registry.Guards ↔ ∀ name count, registry.HasAggregate name count → count ≤ 1 := by
  refine ⟨fun hguards name count haggregate => ?_, guards_of_single⟩
  by_contra hcount
  obtain ⟨unknown, hunknown⟩ := registry.exists_unknown
  obtain ⟨count, rfl⟩ := Nat.exists_eq_add_of_le' (Nat.not_le.1 hcount)
  obtain ⟨execution, hstart⟩ := Execution.start_behindFirst haggregate unknown ⟨0⟩
  have hresolves : (Plan.behindFirst name unknown count).Resolves registry :=
    hguards.resolves_of_start hstart
  obtain ⟨hexprs, -⟩ := hresolves _ List.mem_cons_self
  have hcall : Expr.Resolves registry (.call unknown []) := hexprs _ (by simp [Step.exprs])
  exact hunknown 0 (hcall (unknown, 0) List.mem_cons_self)

/-- The functions that are always there, and a sum that is given one argument or two. -/
def Registry.withPairs : Registry :=
  (standard standardVersion).register ⟨"pair", 1, some 2, .aggregate .sum⟩

/-- A function that is not there gets past a start as the second argument of a sum. -/
theorem start_unknown_pair :
    (∃ execution, Execution.start ⟨.standard, .withPairs⟩
      ⟨.behindFirst "pair" "nosuch" 0, .empty, .standard, none⟩ ⟨0⟩ = .ok execution) ∧
    Registry.withPairs.scalar "nosuch" 0 = .error (.notFound "nosuch") ∧
    ¬Registry.withPairs.Guards := by
  have hlookups : Registry.withPairs.aggregate "pair" 2 = .ok .sum ∧
      Registry.withPairs.scalar "nosuch" 0 = .error (.notFound "nosuch") := by
    decide +kernel
  obtain ⟨hpair, hnosuch⟩ := hlookups
  obtain ⟨execution, hstart⟩ := Execution.start_behindFirst ⟨.sum, hpair⟩ "nosuch" ⟨0⟩
  refine ⟨⟨execution, hstart⟩, hnosuch, fun hguards => ?_⟩
  have hresolves : (Plan.behindFirst "pair" "nosuch" 0).Resolves .withPairs :=
    hguards.resolves_of_start hstart
  obtain ⟨hexprs, -⟩ := hresolves _ List.mem_cons_self
  have hcall : Expr.Resolves .withPairs (.call "nosuch" []) := hexprs _ (by simp [Step.exprs])
  obtain ⟨function, hfunction⟩ := hcall ("nosuch", 0) List.mem_cons_self
  cases hnosuch.symm.trans hfunction

/-! ### Registered functions -/

namespace Registry

/-- What a registry holds has been registered, or was there before. -/
theorem mem_of_registerAll {signatures : List Signature} {entry : String × Signature}
    (h : entry ∈ (registry.registerAll signatures).entries) :
    entry ∈ registry.entries ∨ entry.2 ∈ signatures := by
  induction signatures generalizing registry with
  | nil => exact .inl h
  | cons signature signatures ih =>
      obtain h | h := ih h
      · obtain rfl | h := List.mem_cons.1 h
        · exact .inr List.mem_cons_self
        · exact .inl (List.mem_filter.1 h).1
      · exact .inr (List.mem_cons_of_mem _ h)

/-- A function of groups has been registered for its number of arguments. -/
theorem exists_of_hasAggregate {name : String} {count : Nat}
    (h : registry.HasAggregate name count) :
    ∃ entry ∈ registry.entries, entry.2.accepts count = true ∧
      ∃ function, entry.2.kind = .aggregate function := by
  obtain ⟨function, hfunction⟩ := h
  obtain ⟨signature, hlookup, hkind⟩ := bind_eq_ok_iff.1 hfunction
  unfold lookup at hlookup
  split at hlookup
  · cases hlookup
  · next key signature' hfind =>
      split at hlookup
      · next haccepts =>
          cases hlookup
          refine ⟨(key, signature), List.mem_of_find?_eq_some hfind, haccepts, ?_⟩
          split at hkind
          · next function' hfunction' => exact ⟨function', hfunction'⟩
          · cases hkind
      · cases hlookup

/-- The functions of groups that are always there take at most one argument. -/
theorem maxArgs_of_builtins {signature : Signature} {function : AggregateFunction}
    (hmem : signature ∈ builtins) (hkind : signature.kind = .aggregate function) :
    ∃ most, signature.maxArgs = some most ∧ most ≤ 1 := by
  obtain hmem | hmem := List.mem_append.1 hmem
  · obtain hmem | hmem := List.mem_append.1 hmem
    · obtain ⟨_, -, rfl⟩ := List.mem_map.1 hmem
      cases hkind
    · obtain ⟨_, -, rfl⟩ := List.mem_map.1 hmem
      cases hkind
  · obtain ⟨function', -, rfl⟩ := List.mem_map.1 hmem
    refine ⟨_, rfl, ?_⟩
    split
    · exact Nat.zero_le 1
    · exact Nat.le_refl 1

end Registry

/-- With the functions that are always there, and with others of which those of groups take at most
one argument, nothing unknown gets past a start. -/
theorem guards_registerAll {signatures : List Signature}
    (h : ∀ signature ∈ signatures, ∀ function, signature.kind = .aggregate function →
      ∀ count, signature.accepts count = true → count ≤ 1) (version : String) :
    ((Registry.standard version).registerAll signatures).Guards := by
  refine guards_of_single fun name count haggregate => ?_
  obtain ⟨⟨key, signature⟩, hmem, haccepts, function, hkind⟩ :=
    Registry.exists_of_hasAggregate haggregate
  obtain hmem | hmem := Registry.mem_of_registerAll hmem
  · obtain hmem | hmem := Registry.mem_of_registerAll hmem
    · cases hmem
    · obtain ⟨most, hmost, hle⟩ := Registry.maxArgs_of_builtins hmem hkind
      rw [Signature.accepts, hmost, Option.all_some, Bool.and_eq_true, decide_eq_true_eq,
        decide_eq_true_eq] at haccepts
      exact Nat.le_trans haccepts.2 hle
  · exact h _ hmem _ hkind _ haccepts

end ShardQuery
