import ShardQuery.Proofs.Resume.Chain
import ShardQuery.Proofs.Termination.Batches

/-!
# Runs End

A run is made batch by batch: by one execution, or by a chain of executions each of which is
started with the token of the one before. Rereading the states of a token does not change where a
run stands, and every full batch brings it nearer to the end. So there are only so many batches, one
more than rows and rounds at most, and all of them are made.

Main definitions:

* `Execution.Completes` — the batches of a run up to its end, in whatever way it goes on between;
* `Engine.resume?` — the execution that is started with the token of another one.

## Main results

* `Execution.exists_completes`: every run comes to its end.
* `Engine.collectFrom_of_completes`: so does a chain of executions that collects all rows.
* `Execution.ends_of_start`: both for whatever query can be started.
-/

namespace ShardQuery

variable {σ : Type}

/-- A batch that has ended, with its last state and the reason of its end. -/
abbrev EndedBatch (σ : Type) : Type :=
  BatchRun σ × BatchEnd

/-- How many rows batches have, all of them together. -/
def rowsOfBatches (ended : List (EndedBatch σ)) : Nat :=
  total (fun batch => batch.1.rows.length) ended

/-- How many rounds of requests batches have made, all of them together. -/
def roundsOfBatches (ended : List (EndedBatch σ)) : Nat :=
  total (fun batch => batch.1.rounds) ended

/-- Whether the batches of a run are productive: all but the last have sent on a row or have asked
the shards, and with the last there is at most one more than these have rows and rounds. -/
structure AreProductive (ended : List (EndedBatch σ)) : Prop where
  /-- All but the last have progressed. -/
  progressed : ∀ batch ∈ ended.dropLast, batch.1.HasProgressed
  /-- There are not too many. -/
  length_le : ended.length ≤ rowsOfBatches ended.dropLast + roundsOfBatches ended.dropLast + 1

/-- The execution that is started with the token of another one for a query, if it is accepted. -/
def Engine.resume? (engine : Engine) (query : Query) (fresh : Uuid) (execution : Execution) :
    Option Execution :=
  execution.token?.bind fun token =>
    (Execution.start engine { query with token := some token } fresh).toOption

namespace Execution

/-- The batches of a run from an execution on up to its end. The run goes on after a full batch as
it is said, and ends if it cannot. -/
inductive Completes (reader : ShardReader σ) (goesOn : Execution → Option Execution) :
    Execution → σ → List (EndedBatch σ) → Prop
  /-- The last batch. -/
  | last {execution : Execution} {shards : σ} {budget : Nat} {last : BatchRun σ}
      {reason : BatchEnd} :
      (BatchRun.start execution shards).steps reader budget = some (last, reason) →
      (reason = .full → goesOn (conclude reader last .full).execution = none) →
      Completes reader goesOn execution shards [(last, reason)]
  /-- A batch before others. -/
  | more {execution next : Execution} {shards : σ} {budget : Nat} {last : BatchRun σ}
      {ended : List (EndedBatch σ)} :
      (BatchRun.start execution shards).steps reader budget = some (last, .full) →
      goesOn (conclude reader last .full).execution = some next →
      Completes reader goesOn next last.shards ended →
      Completes reader goesOn execution shards ((last, .full) :: ended)

/-- A run has at least one batch, which may be its last. -/
theorem Completes.ne_nil {reader : ShardReader σ} {goesOn : Execution → Option Execution}
    {execution : Execution} {shards : σ} {ended : List (EndedBatch σ)}
    (h : Completes reader goesOn execution shards ended) : ended ≠ [] := by
  cases h <;> exact List.cons_ne_nil _ _

/-- Whether an execution asks what another one would have asked, with the same work left. -/
structure TakesOver (execution next : Execution) : Prop where
  /-- The plan is the same. -/
  plan_eq : next.plan = execution.plan
  /-- The options are the same. -/
  options_eq : next.options = execution.options
  /-- The shards have been read up to the same places. -/
  places_eq : next.pipeline.source.places = execution.pipeline.source.places
  /-- There is the same work left. -/
  work_eq : next.pipeline.work = execution.pipeline.work

/-- An execution takes over from itself, for runs that go on in the process. -/
theorem TakesOver.refl (execution : Execution) : execution.TakesOver execution :=
  ⟨rfl, rfl, rfl, rfl⟩

/-- What takes over asks for every page just as the other one would have done. -/
theorem TakesOver.ask_eq {execution next : Execution} (h : execution.TakesOver next) :
    next.ask = execution.ask := by
  funext place
  rw [ask, ask, h.plan_eq, h.options_eq]

/-- A full batch leaves its execution but for the time. -/
theorem advances_conclude (reader : ShardReader σ) (run : BatchRun σ) :
    run.execution.Advances (conclude reader run .full).execution :=
  ⟨rfl, rfl, rfl, rfl, rfl, fun h => h, rfl, .refl _⟩

variable {reader : ShardReader σ} {goesOn : Execution → Option Execution} {execution : Execution}
  {shards : σ} {ended : List (EndedBatch σ)}

/-- A full batch leaves its execution open, so the run can go on. -/
theorem open_of_full {budget : Nat} {last : BatchRun σ} (hopen : execution.finished = false)
    (h : (BatchRun.start execution shards).steps reader budget = some (last, .full)) :
    (conclude reader last .full).execution.finished = false := by
  obtain ⟨before, hbefore, hlast⟩ := passes_of_steps .start h
  exact ((advances_of_passes hbefore).trans (advances_of_step hlast nofun)).finished_eq.trans hopen

/-- **Every run comes to its end**, and all of its full batches have progressed. In whatever way it
goes on, this must lead to an execution that takes over. -/
theorem exists_completes {Inv : Execution → Prop} {ask : Place → ShardRequest}
    (hadvances : ∀ {execution next : Execution}, Inv execution → execution.Advances next → Inv next)
    (hgoesOn : ∀ {execution next : Execution}, Inv execution → goesOn execution = some next →
      Inv next ∧ execution.TakesOver next)
    (hinv : Inv execution) (hcaps : execution.options.Nonzero) (hask : execution.ask = ask)
    (hacc : Acc (reader.Nearer ask) (BatchRun.start execution shards).standing) :
    ∃ ended, execution.Completes reader goesOn shards ended ∧
      ∀ batch ∈ ended, batch.2 = .full → batch.1.HasProgressed := by
  -- A full batch stands several steps nearer to the end, so that the induction is on these.
  have hacc' := hacc.transGen
  generalize hstanding : (BatchRun.start execution shards).standing = standing at hacc'
  induction hacc' generalizing execution shards with
  | intro standing _ ih =>
      subst hstanding
      obtain ⟨budget, last, reason, hsteps, hfull⟩ := exists_batch hcaps hask hacc
      by_cases hreason : reason = .full ∧
          ∃ next, goesOn (conclude reader last .full).execution = some next
      · obtain ⟨rfl, next, hnext⟩ := hreason
        obtain ⟨hprogressed, hlast, hnearer⟩ := hfull rfl
        have hconclude := advances_conclude reader last
        obtain ⟨hinv', hover⟩ := hgoesOn (hadvances hinv (hlast.trans hconclude)) hnext
        have hstanding : (BatchRun.start next last.shards).standing = last.standing := by
          rw [BatchRun.standing, BatchRun.standing]
          exact congrArg₂ (fun places work => ((last.shards, places), work)) hover.places_eq
            hover.work_eq
        have hoptions : next.options = execution.options :=
          hover.options_eq.trans (hlast.trans hconclude).options_eq
        have hask' : next.ask = ask :=
          hover.ask_eq.trans ((hlast.trans hconclude).ask_eq.trans hask)
        have hacc' : Acc (reader.Nearer ask) (BatchRun.start next last.shards).standing :=
          hstanding ▸ acc_transGen_iff.1 (hacc.transGen.inv hnearer)
        obtain ⟨ended, hcompletes, hended⟩ :=
          ih _ hnearer hinv' (hoptions ▸ hcaps) hask' hacc' hstanding
        exact ⟨_, .more hsteps hnext hcompletes,
          List.forall_mem_cons.2 ⟨fun _ => hprogressed, hended⟩⟩
      · refine ⟨_, .last hsteps ?_, List.forall_mem_singleton.2 fun heq => (hfull heq).1⟩
        rintro rfl
        exact Option.eq_none_iff_forall_ne_some.2 fun next hnext => hreason ⟨rfl, next, hnext⟩

/-- The batches of a run are productive if all full ones have progressed. -/
theorem Completes.areProductive (h : execution.Completes reader goesOn shards ended)
    (hfull : ∀ batch ∈ ended, batch.2 = .full → batch.1.HasProgressed) :
    AreProductive ended := by
  induction h with
  | last =>
      refine ⟨?_, ?_⟩
      · rw [List.dropLast_singleton]
        exact List.forall_mem_nil _
      · rw [List.length_singleton]
        exact Nat.le_add_left 1 _
  | @more execution next shards budget last ended _ _ hrest ih =>
      obtain ⟨hlast, hrest'⟩ := List.forall_mem_cons.1 hfull
      have hone : 1 ≤ last.rows.length + last.rounds := (hlast rfl).one_le
      obtain ⟨hprogressed, hlength⟩ := ih hrest'
      have hdropLast := List.dropLast_cons_of_ne_nil (x := (last, .full)) hrest.ne_nil
      refine ⟨?_, ?_⟩
      · rw [hdropLast]
        exact List.forall_mem_cons.2 ⟨hlast rfl, hprogressed⟩
      · rw [hdropLast]
        simp only [rowsOfBatches, roundsOfBatches, total_cons, List.length_cons] at hlength ⊢
        omega

/-! ### One execution -/

/-- The batches of a run of one execution are the batches that it makes, and then it is finished. -/
theorem Completes.exists_makes (h : execution.Completes reader some shards ended)
    (hopen : execution.finished = false) :
    ∃ last lastShards, execution.Makes reader shards
      (ended.map fun batch => conclude reader batch.1 batch.2) last lastShards ∧
        last.finished = true := by
  induction h with
  | @last execution shards budget last reason hsteps hreason =>
      have hbatch := nextBatch_of_steps hopen hsteps
      refine ⟨_, _, .batch hbatch (.none _ _), ?_⟩
      obtain ⟨hfull, -⟩ | ⟨hfinished, -⟩ := token?_conclude reader last reason
      · cases hreason hfull
      · exact hfinished
  | @more execution next shards budget last ended hsteps hnext _ ih =>
      cases hnext
      obtain ⟨final, finalShards, hmakes, hfinal⟩ := ih (open_of_full hopen hsteps)
      have hbatch := nextBatch_of_steps hopen hsteps
      exact ⟨final, finalShards, .batch hbatch hmakes, hfinal⟩

/-- An execution that comes to its end makes every batch that it is asked for on the way, and after
it. -/
theorem Makes.exists_nextBatch {last next : Execution} {lastShards nextShards : σ}
    {outcomes outcomes' : List (BatchOutcome σ)}
    (h : execution.Makes reader shards outcomes last lastShards) (hlast : last.finished = true)
    (h' : execution.Makes reader shards outcomes' next nextShards) :
    ∃ budget outcome, next.nextBatch reader budget nextShards = some outcome := by
  induction h' generalizing outcomes with
  | none execution shards =>
      cases h with
      | none => exact ⟨0, _, nextBatch_of_finished hlast reader 0 _⟩
      | batch hbatch => exact ⟨_, _, hbatch⟩
  | batch hbatch _ ih =>
      cases h with
      | none =>
          rw [nextBatch_of_finished hlast] at hbatch
          cases hbatch
          exact ih (.none _ _)
      | batch hbatch' hrest =>
          cases nextBatch_unique hbatch hbatch'
          exact ih hrest

/-! ### Chains of executions -/

/-- What an execution that can be suspended rests on while a query is run with its tokens. -/
structure IsLinkOf (engine : Engine) (query : Query) (execution : Execution) : Prop where
  /-- It can be suspended. -/
  suspendable : execution.Suspendable
  /-- Its plan is that of the query. -/
  plan_eq : execution.plan = query.plan
  /-- Its variables are those of the query. -/
  bindings_eq : execution.bindings = query.bindings
  /-- Its options are those of the query. -/
  options_eq : query.options.resolve engine.config = .ok execution.options

variable {engine : Engine} {query : Query} {fresh : Uuid}

/-- Whatever is started for the query, with or without a token, is a link of its chain. -/
theorem isLinkOf_of_start {token : Option Token}
    (h : start engine { query with token := token } fresh = .ok execution) :
    execution.IsLinkOf engine query := by
  obtain ⟨steps, point, hstarted⟩ := start_eq_ok_iff.1 h
  exact ⟨hstarted.suspendable, hstarted.plan_eq, hstarted.bindings_eq, hstarted.options⟩

/-- A link that is moved on by a batch is still one. -/
theorem IsLinkOf.advances {next : Execution} (h : execution.IsLinkOf engine query)
    (hnext : execution.Advances next) : next.IsLinkOf engine query :=
  ⟨h.suspendable.advances hnext, hnext.plan_eq.trans h.plan_eq,
    hnext.bindings_eq.trans h.bindings_eq, hnext.options_eq ▸ h.options_eq⟩

/-- The token of an execution is accepted, where the run does go on with it. -/
theorem start_of_resume? {next : Execution}
    (h : engine.resume? query fresh execution = some next) :
    ∃ token, execution.token? = some token ∧
      start engine { query with token := some token } fresh = .ok next := by
  obtain ⟨token, htoken, hstart⟩ := Option.bind_eq_some_iff.1 h
  refine ⟨token, htoken, ?_⟩
  cases hresult : start engine { query with token := some token } fresh with
  | error error =>
      rw [hresult] at hstart
      cases hstart
  | ok next' =>
      rw [hresult] at hstart
      exact congrArg Except.ok (Option.some.inj hstart)

/-- The token of an execution is refused, where the run ends because of it. -/
theorem refused_of_resume? (hopen : execution.finished = false)
    (h : engine.resume? query fresh execution = none) :
    ∃ token error, execution.token? = some token ∧
      start engine { query with token := some token } fresh = .error error := by
  have htoken := token?_eq hopen
  generalize Token.encode execution.plan execution.bindings execution.body = token at htoken
  have hstart := Option.bind_eq_none_iff.1 h token htoken
  cases hresult : start engine { query with token := some token } fresh with
  | error error => exact ⟨token, error, htoken, hresult⟩
  | ok next =>
      rw [hresult] at hstart
      cases hstart

/-- An execution that is started with the token of another one takes over from it: rereading states
changes neither the places nor the work. -/
theorem IsLinkOf.takesOver {next : Execution} (h : execution.IsLinkOf engine query)
    (hnext : engine.resume? query fresh execution = some next) :
    next.IsLinkOf engine query ∧ execution.TakesOver next := by
  obtain ⟨token, htoken, hstart⟩ := start_of_resume? hnext
  have hlink := isLinkOf_of_start hstart
  have hgoOn : { query with token := some token } = execution.goOn query.options token := by
    rw [goOn, h.plan_eq, h.bindings_eq]
  rw [hgoOn] at hstart
  obtain ⟨steps, hstarted⟩ := h.suspendable.started_of_token htoken hstart
  have hstates : next.pipeline.states = execution.pipeline.states.map NodeState.reread :=
    hstarted.states_eq
  refine ⟨hlink, ⟨hlink.plan_eq.trans h.plan_eq.symm, ?_, ?_, ?_⟩⟩
  · exact Except.ok.inj (hlink.options_eq.symm.trans h.options_eq)
  · rw [Source.places, Pipeline.shards_of_states (hstates.trans List.map_append), List.map_map]
    rfl
  · rw [Pipeline.work, hstates, Pipeline.workOf_reread, Pipeline.work]

end Execution

namespace Engine

open Execution

variable {engine : Engine} {reader : ShardReader σ} {query : Query} {fresh : Uuid}

/-- What is collected from a query is what its first batch has and, if that is full, what is
collected from there on. -/
theorem collectFrom_of_steps {execution : Execution} {shards : σ} {least : Nat}
    {last : BatchRun σ} {reason : BatchEnd} (hstart : start engine query fresh = .ok execution)
    (hsteps : (BatchRun.start execution shards).steps reader least = some (last, reason))
    {budget : Nat} (hle : least ≤ budget) (rows : List Row) (sent : List ShardRequest)
    (batches : Nat) :
    engine.collectFrom reader budget fresh query shards rows sent (batches + 1) =
      match reason with
      | .failed error => some ⟨.error error, sent ++ last.sent.reverse, last.shards⟩
      | .exhausted => some ⟨.ok (rows ++ last.rows.reverse), sent ++ last.sent.reverse, last.shards⟩
      | .full =>
        engine.collectFrom reader budget fresh
          { query with token := (conclude reader last .full).execution.token? } last.shards
          (rows ++ last.rows.reverse) (sent ++ last.sent.reverse) batches := by
  obtain ⟨steps, point, hstarted⟩ := start_eq_ok_iff.1 hstart
  have hsteps := BatchRun.steps_mono hsteps hle
  rw [collectFrom_succ, executeBatch, hstart]
  simp only [nextBatch_of_open hstarted.finished_eq, hsteps, Option.map_some, Option.bind_some]
  cases reason with
  | failed | exhausted => rfl
  | full =>
      have htoken := token?_eq (open_of_full hstarted.finished_eq hsteps)
      have hresult : (conclude reader last .full).report.result =
          .ok ⟨last.rows.reverse, (conclude reader last .full).execution.token?⟩ := rfl
      simp only [hresult, htoken]
      rfl

/-- **A chain of executions that collects all rows comes to its end** if its full batches have all
progressed. One more batch than rows and rounds suffices, and what is collected is what the batches
have. -/
theorem collectFrom_of_completes {token : Option Token} {execution : Execution} {shards : σ}
    {ended : List (EndedBatch σ)}
    (hstart : start engine { query with token := token } fresh = .ok execution)
    (h : execution.Completes reader (engine.resume? query fresh) shards ended)
    (hfull : ∀ batch ∈ ended, batch.2 = .full → batch.1.HasProgressed) {batches : Nat}
    (hbatches : rowsOfBatches ended + roundsOfBatches ended < batches) (rows : List Row)
    (sent : List ShardRequest) :
    ∃ least outcome,
      (∀ budget, least ≤ budget →
        engine.collectFrom reader budget fresh { query with token := token } shards rows sent
          batches = some outcome) ∧
      outcome.requests = sent ++ ended.flatMap (·.1.sent.reverse) ∧
      ∀ all, outcome.result = .ok all → all = rows ++ ended.flatMap (·.1.rows.reverse) := by
  obtain ⟨batches, rfl⟩ := Nat.exists_eq_succ_of_ne_zero (Nat.ne_of_gt (Nat.zero_lt_of_lt hbatches))
  induction h generalizing token batches rows sent with
  | @last execution shards least last reason hsteps hreason =>
      rw [List.flatMap_singleton, List.flatMap_singleton]
      cases reason with
      | failed error =>
          exact ⟨least, _, fun budget hle =>
            collectFrom_of_steps hstart hsteps hle rows sent batches, rfl, nofun⟩
      | exhausted =>
          exact ⟨least, _, fun budget hle =>
            collectFrom_of_steps hstart hsteps hle rows sent batches, rfl,
            fun all hall => (Except.ok.inj hall).symm⟩
      | full =>
          -- The token is refused: this takes one more start, which the batch has earned.
          have hone : 1 ≤ last.rows.length + last.rounds :=
            (List.forall_mem_singleton.1 hfull rfl).one_le
          simp only [rowsOfBatches, roundsOfBatches, total_cons, total_nil] at hbatches
          obtain ⟨batches, rfl⟩ := Nat.exists_eq_add_of_le' (show 1 ≤ batches by omega)
          obtain ⟨steps, point, hstarted⟩ := start_eq_ok_iff.1 hstart
          obtain ⟨token, error, htoken, hrefused⟩ :=
            refused_of_resume? (open_of_full hstarted.finished_eq hsteps) (hreason rfl)
          refine ⟨least, ⟨.error error, sent ++ last.sent.reverse, last.shards⟩,
            fun budget hle => ?_, rfl, nofun⟩
          rw [collectFrom_of_steps hstart hsteps hle]
          simp only [htoken, collectFrom, hrefused]
  | @more execution next shards least last ended hsteps hnext _ ih =>
      obtain ⟨token, htoken, hstart'⟩ := start_of_resume? hnext
      obtain ⟨hlast, hrest⟩ := List.forall_mem_cons.1 hfull
      have hone : 1 ≤ last.rows.length + last.rounds := (hlast rfl).one_le
      simp only [rowsOfBatches, roundsOfBatches, total_cons] at hbatches ih
      obtain ⟨batches, rfl⟩ := Nat.exists_eq_add_of_le' (show 1 ≤ batches by omega)
      obtain ⟨least', outcome, hcollect, hrequests, hrows⟩ :=
        ih hstart' hrest (rows ++ last.rows.reverse) (sent ++ last.sent.reverse) batches (by omega)
      refine ⟨max least least', outcome, fun budget hle => ?_, ?_, fun all hall => ?_⟩
      · rw [collectFrom_of_steps hstart hsteps ((Nat.le_max_left _ _).trans hle)]
        simp only [htoken]
        exact hcollect budget ((Nat.le_max_right _ _).trans hle)
      · rw [hrequests, List.flatMap_cons, List.append_assoc]
      · rw [hrows all hall, List.flatMap_cons, List.append_assoc]

end Engine

namespace Execution

variable {engine : Engine} {reader : ShardReader σ} {query : Query} {fresh : Uuid}
  {execution : Execution} {shards : σ}

/-- One execution comes to its end if its shards do, and all of its full batches have progressed. -/
theorem completes_of_ends (hcaps : execution.options.Nonzero)
    (hends : reader.Ends execution.ask shards execution.pipeline.source.places) :
    ∃ ended, execution.Completes reader some shards ended ∧
      ∀ batch ∈ ended, batch.2 = .full → batch.1.HasProgressed :=
  @exists_completes _ reader some execution shards (fun _ => True) _ (fun _ _ => trivial)
    (fun _ hnext => ⟨trivial, Option.some.inj hnext ▸ .refl _⟩) trivial hcaps rfl
    (hends.acc_nearer execution.pipeline.work)

/-- **Every query that is started comes to its end if its shards do.** No limit of batches may be
zero. Then one execution makes every batch that it is asked for, and is finished after finitely
many; and so does a chain of executions, each started with the token of the one before, that
collects all rows. Every batch but the last has sent on a row or has asked the shards, and there is
at most one more than rows and rounds of requests. -/
theorem ends_of_start (hstart : start engine query fresh = .ok execution)
    (hcaps : execution.options.Nonzero)
    (hends : reader.Ends execution.ask shards execution.pipeline.source.places) :
    (∀ outcomes next nextShards, execution.Makes reader shards outcomes next nextShards →
      ∃ budget outcome, next.nextBatch reader budget nextShards = some outcome) ∧
    (∃ ended last lastShards, execution.Completes reader some shards ended ∧
      AreProductive ended ∧
      execution.Makes reader shards (ended.map fun batch => conclude reader batch.1 batch.2)
        last lastShards ∧ last.finished = true) ∧
    ∃ ended least outcome, execution.Completes reader (engine.resume? query fresh) shards ended ∧
      AreProductive ended ∧
      (∀ budget, least ≤ budget →
        engine.collectAll reader (rowsOfBatches ended + roundsOfBatches ended + 1) budget fresh
          query shards = some outcome) ∧
      outcome.requests = ended.flatMap (·.1.sent.reverse) ∧
      ∀ all, outcome.result = .ok all → all = ended.flatMap (·.1.rows.reverse) := by
  obtain ⟨steps, point, hstarted⟩ := start_eq_ok_iff.1 hstart
  obtain ⟨ended, hcompletes, hfull⟩ := completes_of_ends hcaps hends
  obtain ⟨last, lastShards, hmakes, hlast⟩ := hcompletes.exists_makes hstarted.finished_eq
  refine ⟨fun outcomes next nextShards => hmakes.exists_nextBatch hlast,
    ⟨ended, last, lastShards, hcompletes, hcompletes.areProductive hfull, hmakes, hlast⟩, ?_⟩
  have hlink : execution.IsLinkOf engine query := @isLinkOf_of_start _ _ _ _ query.token hstart
  obtain ⟨ended, hcompletes, hfull⟩ :=
    exists_completes IsLinkOf.advances IsLinkOf.takesOver hlink hcaps rfl
      (hends.acc_nearer execution.pipeline.work)
  obtain ⟨least, outcome, hcollect, hrequests, hrows⟩ :=
    @Engine.collectFrom_of_completes _ _ _ _ _ query.token _ _ _ hstart hcompletes hfull _
      (Nat.lt_succ_self _) [] []
  exact ⟨ended, least, outcome, hcompletes, hcompletes.areProductive hfull, hcollect, hrequests,
    hrows⟩

/-- A row at a time, from a page of one row and an empty one: the chain comes to its end. -/
theorem ends_of_rowByRow : ∃ ended least outcome,
    rowByRowStart.Completes Recorded.reader (plainEngine.resume? rowByRow ⟨0⟩) twoPages ended ∧
      AreProductive ended ∧
      (∀ budget, least ≤ budget →
        plainEngine.collectAll Recorded.reader (rowsOfBatches ended + roundsOfBatches ended + 1)
          budget ⟨0⟩ rowByRow twoPages = some outcome) ∧
      outcome.requests = ended.flatMap (·.1.sent.reverse) ∧
      ∀ all, outcome.result = .ok all → all = ended.flatMap (·.1.rows.reverse) :=
  (@ends_of_start _ plainEngine Recorded.reader rowByRow ⟨0⟩ rowByRowStart twoPages rfl
    ⟨nofun, nofun, nofun⟩ (Recorded.ends _ (fun _ => rfl) _ _)).2.2

end Execution

end ShardQuery
