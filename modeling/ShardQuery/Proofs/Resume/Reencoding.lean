import ShardQuery.Proofs.Resume.Ordered

/-!
# Tokens Made Again

An execution that is started with a token has the same token, octet for octet, as long as it has
not made a batch. The states that it goes on with need not be the ones that the token was made of:
doubles that are not numbers become one and the same, a map that is nothing but the name of a
number becomes the number, and counters lose all but their lowest sixty-four bits. But none of
this is to be seen in the documents of the states. All that matters is that maps list their fields
in order, as maps are meant to and as those do that are read from documents. If the maps of a plan,
of the bind variables and of the rows do so, the maps that a query holds do as well.

Main definitions:

* `Execution.Reachable` — the executions that starts and batches lead to.

## Main results

* `Execution.Reachable.isOrdered`: all that the executions hold is ordered.
* `Execution.Reachable.token?_of_start`: what is started with a token has the same token.
-/

namespace ShardQuery

/-! ### States that queries start with -/

/-- There are no values in the states at the beginning. -/
theorem Plan.isOrdered_startStates (plan : Plan) :
    ∀ state ∈ plan.startStates, state.IsOrdered := by
  refine List.forall_mem_append.2 ⟨List.forall_mem_map.2 fun step _ => ?_, ?_⟩
  · cases step with
    | sort => exact List.forall_mem_nil _
    | groupBy => rintro group ⟨⟩
    | distinct => rintro key ⟨⟩
    | project | slice => trivial
  · refine List.forall_mem_singleton.2 (List.forall_mem_map.2 fun shard _ => ?_)
    exact List.forall_mem_nil _

namespace Execution

variable {engine : Engine} {query : Query} {fresh : Uuid} {plan : Plan} {bindings : Bindings}
  {execution : Execution}

/-- **Whatever is started is ordered**, also if it goes on with a token of somebody else. -/
theorem Started.isOrdered {steps : List CompiledStep} {point : StartPoint}
    (h : Started engine query fresh steps point execution) (hplan : query.plan.IsOrdered) :
    execution.pipeline.IsOrdered := by
  refine Pipeline.isOrdered_of_isOf (h.openedNodes.isOf h.compile) hplan ?_
  obtain heq | ⟨token, body, hholds, heq⟩ := h.states_cases <;> rw [heq]
  · exact query.plan.isOrdered_startStates
  · exact hholds.forall_states NodeState.isOrdered_of_ofJson?

/-! ### Executions -/

/-- The executions of a plan under bind variables that have been started, with whatever token or
with none, and gone on batch by batch, while the shards send no rows but ordered ones. -/
inductive Reachable (plan : Plan) (bindings : Bindings) : Execution → Prop
  /-- An execution that has been started. -/
  | started {engine : Engine} {options : QueryOptions} {token : Option Token} {fresh : Uuid}
      {execution : Execution} :
      start engine ⟨plan, bindings, options, token⟩ fresh = .ok execution →
      Reachable plan bindings execution
  /-- An execution after one more batch. -/
  | batch {σ : Type} {reader : ShardReader σ} {budget : Nat} {shards : σ} {execution : Execution}
      {outcome : BatchOutcome σ} :
      Reachable plan bindings execution → reader.Delivers Row.IsOrdered shards →
      execution.nextBatch reader budget shards = some outcome →
      Reachable plan bindings outcome.execution

/-- An open execution can be suspended, for its own plan and bind variables. -/
theorem Reachable.suspendable (h : Reachable plan bindings execution)
    (hopen : execution.finished = false) :
    execution.Suspendable ∧ execution.plan = plan ∧ execution.bindings = bindings := by
  induction h with
  | started hstart =>
      obtain ⟨steps, point, hstarted⟩ := start_eq_ok_iff.1 hstart
      exact ⟨hstarted.suspendable, hstarted.plan_eq, hstarted.bindings_eq⟩
  | batch _ _ hbatch ih =>
      obtain ⟨hsuspendable, hplan, hbindings⟩ := ih (passes_of_open hbatch hopen).1
      have hadvances := advances_of_nextBatch hbatch hopen
      exact ⟨hsuspendable.advances hadvances, hadvances.plan_eq.trans hplan,
        hadvances.bindings_eq.trans hbindings⟩

/-- **All that an open execution holds is ordered**, if its plan and the bind variables are. -/
theorem Reachable.isOrdered (h : Reachable plan bindings execution) (hplan : plan.IsOrdered)
    (hbindings : bindings.All Value.IsOrdered) (hopen : execution.finished = false) :
    execution.pipeline.IsOrdered := by
  induction h with
  | started hstart =>
      obtain ⟨steps, point, hstarted⟩ := start_eq_ok_iff.1 hstart
      exact hstarted.isOrdered hplan
  | batch hbefore hdelivers hbatch ih =>
      obtain ⟨hopen', hpass⟩ := passes_of_open hbatch hopen
      obtain ⟨-, -, hsame⟩ := hbefore.suspendable hopen'
      exact (isOrdered_of_passes hpass ⟨hsame.symm ▸ hbindings, ih hopen', hdelivers⟩).pipeline

/-! ### Tokens -/

/-- An execution that goes on with ordered states, as they have been read, has the same document
in its token. -/
theorem toJson_body_of_states {next : Execution}
    (hstates : ∀ state ∈ execution.pipeline.states, state.IsOrdered)
    (hid : next.id = execution.id) (htime : next.elapsedMs = execution.elapsedMs % UInt64.size)
    (hplan : next.plan = execution.plan)
    (heq : next.pipeline.states = execution.pipeline.states.map NodeState.reread) :
    next.body.toJson = execution.body.toJson := by
  have hdocuments : next.pipeline.states.map NodeState.toJson =
      execution.pipeline.states.map NodeState.toJson := by
    rw [heq, List.map_map]
    exact List.map_congr_left fun state hmem => (hstates state hmem).toJson_reread
  simp only [body, TokenBody.toJson, hid, htime, hplan, hdocuments, Nat.mod_mod]

/-- **What is started with the token of an execution has the same token**, octet for octet, before
its first batch: with whatever engine, under whatever options, and however often the execution has
been suspended before. -/
theorem Reachable.token?_of_start (h : Reachable plan bindings execution) (hplan : plan.IsOrdered)
    (hbindings : bindings.All Value.IsOrdered) {token : Token}
    (htoken : execution.token? = some token) {options : QueryOptions} {resumed : Execution}
    (hstart : start engine ⟨plan, bindings, options, some token⟩ fresh = .ok resumed) :
    resumed.token? = some token := by
  have hopen := unfinished_of_token? htoken
  have hordered := h.isOrdered hplan hbindings hopen
  obtain ⟨hsuspendable, rfl, rfl⟩ := h.suspendable hopen
  obtain ⟨steps, hstarted⟩ := hsuspendable.started_of_token htoken hstart
  have hdocument := toJson_body_of_states hordered.states hstarted.id_eq hstarted.elapsedMs_eq
    hstarted.plan_eq hstarted.states_eq
  rw [← htoken, token?_eq hopen, token?_eq hstarted.finished_eq, Token.encode, Token.encode,
    hdocument, hstarted.plan_eq, hstarted.bindings_eq]
  rfl

end Execution

/-! ### An example -/

/-- What holds of all recorded answers, and of all errors, holds of the one that is taken and of
those that are left. -/
theorem Recorded.forall_take {p : Except RequestError ShardResponse → Prop}
    (herror : ∀ error, p (.error error)) (shard : ShardId)
    {entries : List (ShardId × List (Except RequestError ShardResponse))}
    (h : ∀ entry ∈ entries, ∀ answer ∈ entry.2, p answer) :
    p (take shard entries).1 ∧ ∀ entry ∈ (take shard entries).2, ∀ answer ∈ entry.2, p answer := by
  induction entries with
  | nil => exact ⟨herror _, List.forall_mem_nil _⟩
  | cons entry entries ih =>
      obtain ⟨s, answers⟩ := entry
      obtain ⟨hanswers, hentries⟩ := List.forall_mem_cons.1 h
      unfold take
      split
      · cases answers with
        | nil => exact ⟨herror _, h⟩
        | cons answer answers =>
            obtain ⟨hanswer, hanswers⟩ := List.forall_mem_cons.1 hanswers
            exact ⟨hanswer, List.forall_mem_cons.2 ⟨hanswers, hentries⟩⟩
      · obtain ⟨htaken, hleft⟩ := ih hentries
        exact ⟨htaken, List.forall_mem_cons.2 ⟨hanswers, hleft⟩⟩

/-- A record delivers the rows that are in it. -/
theorem Recorded.delivers {p : Row → Prop} {record : Recorded}
    (h : ∀ entry ∈ record.answers, ∀ answer ∈ entry.2, ∀ response, answer = .ok response →
      ∀ row ∈ response.rows, p row) : reader.Delivers p record := by
  intro requests response hmem
  induction requests generalizing record with
  | nil => cases hmem
  | cons request requests ih =>
      obtain ⟨htaken, hleft⟩ := forall_take (fun _ _ heq => by cases heq) request.shard h
      obtain heq | hmem := List.mem_cons.1 hmem
      · exact htaken response heq.symm
      · exact @ih ⟨(take request.shard record.answers).2⟩ hleft hmem

namespace Execution

/-- A map with a non-number of its own, and with a map that is nothing but the name of a number.
Neither is read back as it is. -/
def unnumbered : Value :=
  .map [("x", .double ⟨0xfff8000000000001⟩), ("y", .map [(Value.nonFiniteField, .string "inf")])]

/-- A shard with a page of two rows, a number and the map. -/
def unnumberedPage : Recorded :=
  ⟨[(0, [.ok ⟨[Row.ofList [("a", .int 1)], Row.ofList [("a", unnumbered)]], none⟩])]⟩

/-- The map and the one in it list their fields in order. -/
theorem isOrdered_unnumbered : unnumbered.IsOrdered :=
  ⟨Value.areSorted_iff_names.2 (by decide), trivial,
    ⟨List.pairwise_singleton _ _, trivial, trivial⟩, trivial⟩

/-- The rows of the page are ordered, which is all that is asked of what shards deliver. -/
theorem delivers_unnumberedPage : Recorded.reader.Delivers Row.IsOrdered unnumberedPage := by
  have hnumber : (Row.ofList [("a", .int 1)]).IsOrdered :=
    Row.all_ofList (List.forall_mem_singleton.2 trivial)
  have hmap : (Row.ofList [("a", unnumbered)]).IsOrdered :=
    Row.all_ofList (List.forall_mem_singleton.2 isOrdered_unnumbered)
  refine Recorded.delivers (List.forall_mem_singleton.2 (List.forall_mem_singleton.2 ?_))
  rintro response ⟨⟩
  exact List.forall_mem_cons.2 ⟨hnumber, List.forall_mem_singleton.2 hmap⟩

/-- After its first row the query has a token, which holds the second one, and whatever is started
with the token has the same one. -/
theorem token?_unnumberedPage : ∃ outcome token resumed,
    rowByRowStart.nextBatch Recorded.reader 3 unnumberedPage = some outcome ∧
      outcome.execution.token? = some token ∧
      start plainEngine { rowByRow with token := some token } ⟨1⟩ = .ok resumed ∧
      resumed.token? = some token := by
  have hfacts : (rowByRowStart.nextBatch Recorded.reader 3 unnumberedPage).any (fun outcome =>
      !outcome.execution.finished &&
        decide (outcome.execution.body.toJson.nesting ≤ Json.depthLimit) &&
        decide (outcome.execution.memory.peak < maxAmount)) = true := by
    decide +kernel
  obtain ⟨outcome, hbatch, hfacts⟩ := (Option.any_eq_true _ _).1 hfacts
  simp only [Bool.and_eq_true, Bool.not_eq_true', decide_eq_true_eq] at hfacts
  obtain ⟨⟨hopen, hreadable⟩, hpeak⟩ := hfacts
  have htoken := token?_eq hopen
  obtain ⟨resumed, hresumed, -⟩ :=
    ((genuine_rowByRow _).batch hbatch).exists_restored hpeak hreadable htoken ⟨1⟩
  have hstart : start plainEngine ⟨rowByRow.plan, .empty, rowByRow.options, none⟩ ⟨0⟩ =
      .ok rowByRowStart := rfl
  have hreachable : Reachable rowByRow.plan .empty outcome.execution :=
    (Reachable.started hstart).batch delivers_unnumberedPage hbatch
  exact ⟨outcome, _, resumed, hbatch, htoken, hresumed,
    hreachable.token?_of_start (List.forall_mem_nil _)
      ⟨List.forall_mem_nil _, List.forall_mem_nil _⟩ htoken hresumed⟩

end Execution

end ShardQuery
