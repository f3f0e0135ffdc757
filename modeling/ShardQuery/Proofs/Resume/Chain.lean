import Mathlib.Tactic.IntervalCases
import ShardQuery.Proofs.Resume.Suspension
import ShardQuery.Shard.Recorded

/-!
# Chains of Executions

The batches of a query can be made by one execution, or by a chain of them: every batch by an
execution of its own, which is started with the token of the batch before. The token is handed
over as its octets or as its text. A caller cannot tell the two ways apart.

Main definitions:

* `Execution.reports` — what a caller sees of the batches of one execution;
* `Engine.reportsByTokens` — what a caller sees of a chain of executions.

## Main results

* `Engine.reportsByTokens_eq_of_start`: the chain goes on as one execution would.
* `Engine.reportsByTokens_eq`: both ways give the same, batch for batch.
-/

namespace ShardQuery

variable {σ : Type}

/-! ### What callers see -/

/-- What a caller sees of a batch, or of the failure to make it. -/
structure BatchReport where
  /-- The rows and the token, or the failure. -/
  result : Except QueryError Batch
  /-- The requests sent, in their order. -/
  requests : List ShardRequest
  /-- The bytes in use at the end. -/
  used : Nat

/-- The report of a query that does not start. -/
def BatchReport.refused (error : QueryError) : BatchReport :=
  ⟨.error error, [], 0⟩

/-- The token to go on with, where the batch is there and not the last one. -/
def BatchReport.token? (report : BatchReport) : Option Token :=
  match report.result with
  | .ok batch => batch.token
  | .error _ => none

/-- The report of a batch: what a caller sees of it, with the requests and the bytes in use. -/
def BatchOutcome.report (outcome : BatchOutcome σ) : BatchReport :=
  ⟨outcome.result, outcome.requests, outcome.execution.memory.used⟩

/-- A form in which a token is handed over. -/
inductive Handover where
  /-- As its octets. -/
  | octets
  /-- As its text. -/
  | text

/-- The token that comes of one that is handed over. -/
def Handover.pass : Handover → Token → Except QueryError Token
  | .octets, token => .ok token
  | .text, token => Token.ofBase64 token.toBase64

/-- The way from one execution of a chain to the next one. -/
structure Hop where
  /-- The form in which the token is handed over. -/
  handover : Handover
  /-- A fresh identity, in case that one is needed. -/
  fresh : Uuid

/-! ### Both ways -/

/-- The reports of the next batch of an execution and of at most so many more, up to the end of
the execution. Each is made in `budget` steps at most; none if they do not suffice. -/
def Execution.reports (reader : ShardReader σ) (budget : Nat) (execution : Execution)
    (shards : σ) : Nat → Option (List BatchReport)
  | 0 => (execution.nextBatch reader budget shards).map fun outcome => [outcome.report]
  | more + 1 =>
    match execution.nextBatch reader budget shards with
    | none => none
    | some outcome =>
      if outcome.execution.finished then some [outcome.report]
      else (outcome.execution.reports reader budget outcome.shards more).map (outcome.report :: ·)

namespace Engine

/-- The reports of the batches of a query made by one execution, `more` after the first one at
most. -/
def reportsInProcess (engine : Engine) (reader : ShardReader σ) (budget : Nat) (query : Query)
    (fresh : Uuid) (shards : σ) (more : Nat) : Option (List BatchReport) :=
  match Execution.start engine query fresh with
  | .error error => some [.refused error]
  | .ok execution => execution.reports reader budget shards more

/-- The report of the first batch of a query, and the shards after it. The execution that makes
it is given up. -/
def executeBatch (engine : Engine) (reader : ShardReader σ) (budget : Nat) (query : Query)
    (fresh : Uuid) (shards : σ) : Option (BatchReport × σ) :=
  match Execution.start engine query fresh with
  | .error error => some (.refused error, shards)
  | .ok execution =>
    (execution.nextBatch reader budget shards).map fun outcome => (outcome.report, outcome.shards)

/-- The reports of the batches of a query, each made by an execution of its own: the first
batch, and one more for every hop up to the end of the query. -/
def reportsByTokens (engine : Engine) (reader : ShardReader σ) (budget : Nat) (query : Query)
    (fresh : Uuid) (shards : σ) : List Hop → Option (List BatchReport)
  | [] => (engine.executeBatch reader budget query fresh shards).map fun (report, _) => [report]
  | hop :: hops =>
    match engine.executeBatch reader budget query fresh shards with
    | none => none
    | some (report, shards) =>
      match report.token? with
      | none => some [report]
      | some token =>
        match hop.handover.pass token with
        | .error error => some [report, .refused error]
        | .ok token =>
          (engine.reportsByTokens reader budget { query with token := some token } hop.fresh shards
            hops).map (report :: ·)

/-- Whether, at the end of every full batch of the execution of a query, its token determines
it. -/
def SuspendsPortably (engine : Engine) (reader : ShardReader σ) (query : Query) (fresh : Uuid)
    (shards : σ) : Prop :=
  ∀ execution, Execution.start engine query fresh = .ok execution →
    ∀ run last, execution.Passes reader shards run → run.step reader = (last, some .full) →
      (Execution.conclude reader last .full).execution.IsPortable

end Engine

/-! ### Tokens -/

/-- A token is handed over as it is, in both forms: reading the text of the octets gives the octets.
-/
theorem Handover.pass_eq (handover : Handover) (token : Token) :
    handover.pass token = .ok token := by
  cases handover with
  | octets => rfl
  | text => exact Token.ofBase64_toBase64 token

/-- Batches alike are reported in the same words. -/
theorem BatchOutcome.Alike.report_eq {outcome other : BatchOutcome σ} (h : outcome.Alike other) :
    other.report = outcome.report := by
  obtain ⟨memory, elapsedMs, hmemory, -, hexecution⟩ := h.execution
  rw [report, report, h.result_eq, h.requests_eq, hexecution, hmemory.used_eq]

/-- Only a full batch leaves the execution open, and comes with its token. -/
theorem Execution.token?_conclude (reader : ShardReader σ) (run : BatchRun σ)
    (reason : BatchEnd) :
    (reason = .full ∧ (conclude reader run reason).report.token? =
      (conclude reader run reason).execution.token?) ∨
    ((conclude reader run reason).execution.finished = true ∧
      (conclude reader run reason).report.token? = none) := by
  cases reason with
  | full => exact .inl ⟨rfl, rfl⟩
  | exhausted => exact .inr ⟨rfl, rfl⟩
  | failed error => exact .inr ⟨rfl, rfl⟩

/-! ### Chains -/

namespace Engine

open Execution

variable {engine : Engine} {reader : ShardReader σ} {query : Query} {fresh : Uuid} {shards : σ}

/-- A batch of its own is the next one of an execution alike. -/
theorem executeBatch_eq (budget : Nat) {execution other : Execution}
    (hother : start engine query fresh = .ok other) (halike : execution.Alike other)
    (shards : σ) :
    engine.executeBatch reader budget query fresh shards =
      (execution.nextBatch reader budget shards).map fun outcome =>
        (outcome.report, outcome.shards) := by
  rw [executeBatch, hother]
  have hbatch := nextBatch_alike reader budget halike shards
  simp only
  generalize execution.nextBatch reader budget shards = outcome,
    other.nextBatch reader budget shards = outcome' at hbatch ⊢
  cases hbatch with
  | none => rfl
  | some halike => rw [Option.map_some, Option.map_some, halike.report_eq, halike.shards_eq]

/-- All batches of a query are made by a chain of executions. -/
theorem collectFrom_succ (budget : Nat) (rows : List Row) (sent : List ShardRequest)
    (batches : Nat) :
    engine.collectFrom reader budget fresh query shards rows sent (batches + 1) =
      (engine.executeBatch reader budget query fresh shards).bind fun (report, shards) =>
        match report.result with
        | .error error => some ⟨.error error, sent ++ report.requests, shards⟩
        | .ok batch =>
          match batch.token with
          | none => some ⟨.ok (rows ++ batch.rows), sent ++ report.requests, shards⟩
          | some token =>
            engine.collectFrom reader budget fresh { query with token := some token } shards
              (rows ++ batch.rows) (sent ++ report.requests) batches := by
  rw [collectFrom, executeBatch]
  cases start engine query fresh with
  | error error => simp only [Option.bind_some, BatchReport.refused, List.append_nil]
  | ok execution =>
      simp only
      cases execution.nextBatch reader budget shards with
      | none => rfl
      | some outcome => rfl

/-- A query goes on alike with the token of its execution, after any number of batches, if the token
determines the execution. -/
theorem start_alike_of_passes (htoken : query.token = none) {first execution : Execution}
    (hstart : start engine query fresh = .ok first) {later : σ}
    (hpass : first.Passes reader shards (.start execution later))
    (hportable : execution.IsPortable) {token : Token} (htoken? : execution.token? = some token)
    (again : Uuid) :
    ∃ resumed, start engine { query with token := some token } again = .ok resumed ∧
      execution.Alike resumed := by
  obtain ⟨steps, point, hstarted⟩ := start_eq_ok_iff.1 hstart
  have hfurther := advances_of_passes hpass
  have hledger := ledger_of_passes isTally_eq (ledger_of_start isTally_eq htoken hstart) hpass
  obtain ⟨resumed, hresumed, halike⟩ :=
    ((founded_of_start htoken hstart).advances hfurther).start_alike hledger.inOrder hportable
      htoken? again
  rw [goOn, hfurther.plan_eq, hfurther.bindings_eq, hstarted.plan_eq, hstarted.bindings_eq]
    at hresumed
  exact ⟨resumed, hresumed, halike⟩

/-- **A chain goes on as one execution would.** If a query starts as an execution that is alike
the one of a query without a token, after any number of batches, the reports are the same from
there on. -/
theorem reportsByTokens_eq_of_start (budget : Nat) {first execution other : Execution}
    (htoken : query.token = none) (hstart : start engine query fresh = .ok first)
    (hportable : engine.SuspendsPortably reader query fresh shards) {later : σ}
    (hpass : first.Passes reader shards (.start execution later)) {token : Option Token}
    {again : Uuid} (hother : start engine { query with token := token } again = .ok other)
    (halike : execution.Alike other) (hops : List Hop) :
    engine.reportsByTokens reader budget { query with token := token } again later hops =
      execution.reports reader budget later hops.length := by
  induction hops generalizing execution other later token again with
  | nil =>
      rw [reportsByTokens, executeBatch_eq budget hother halike, List.length_nil, reports,
        Option.map_map]
      rfl
  | cons hop hops ih =>
      obtain ⟨steps, point, hstarted⟩ := start_eq_ok_iff.1 hstart
      have hopen {execution : Execution} {later : σ}
          (hpass : first.Passes reader shards (.start execution later)) :
          execution.finished = false :=
        (advances_of_passes hpass).finished_eq.trans hstarted.finished_eq
      rw [reportsByTokens, executeBatch_eq budget hother halike, List.length_cons, reports]
      cases hbatch : execution.nextBatch reader budget later with
      | none => rfl
      | some outcome =>
          obtain ⟨before, last, reason, hbefore, hstep, rfl⟩ :=
            passes_of_nextBatch hpass (hopen hpass) hbatch
          simp only [Option.map_some]
          obtain ⟨rfl, hnext⟩ | ⟨hclosed, hnext⟩ := token?_conclude reader last reason
          · -- The execution is suspended, and goes on alike when it is started with the token.
            have hsuspended := hportable first hstart before last hbefore hstep
            have hpass' := hbefore.batch hstep
            have htoken? := token?_eq (hopen hpass')
            obtain ⟨resumed, hresumed, halike'⟩ :=
              start_alike_of_passes htoken hstart hpass' hsuspended htoken? hop.fresh
            rw [hnext, htoken?, hopen hpass']
            simp only [hop.handover.pass_eq, Bool.false_eq_true, if_false]
            rw [ih hpass' hresumed halike']
          · rw [hnext, hclosed]
            rfl

/-- **One execution and a chain of them give the same**, batch for batch: the same rows and
tokens, the same requests in the same order, the same memory in use at the end of the batch,
and the same failure. This holds for all plans, bind variables, options and shards, in whatever
forms the tokens are handed over, provided that the tokens determine the executions. -/
theorem reportsByTokens_eq (budget : Nat) (htoken : query.token = none)
    (hportable : engine.SuspendsPortably reader query fresh shards) (hops : List Hop) :
    engine.reportsByTokens reader budget query fresh shards hops =
      engine.reportsInProcess reader budget query fresh shards hops.length := by
  cases hstart : start engine query fresh with
  | error error =>
      rw [reportsInProcess, hstart]
      have hrefused : engine.executeBatch reader budget query fresh shards =
          some (.refused error, shards) := by
        rw [executeBatch, hstart]
      cases hops with
      | nil => rw [reportsByTokens, hrefused]; rfl
      | cons => rw [reportsByTokens, hrefused]; rfl
  | ok execution =>
      have hsame : { query with token := none } = query := by rw [← htoken]
      have hchain := reportsByTokens_eq_of_start budget htoken hstart hportable .start
        (hsame.symm ▸ hstart) (.refl execution) hops
      rw [reportsInProcess, hstart]
      rwa [hsame] at hchain

/-! ### An example -/

/-- A query for the groups of one shard, one at a time. -/
def groupedScan : Query :=
  ⟨⟨Plan.currentVersion, [.groupBy [⟨"a", false, false⟩] []], ⟨"t", [1], true⟩⟩, .empty,
    { QueryOptions.standard with limit := some 1 }, none⟩

/-- The execution of `groupedScan` at its start, under its own options. -/
def groupedScanStart : Execution where
  id := ⟨0⟩
  plan := groupedScan.plan
  bindings := .empty
  options := ⟨some 1, none, none, 1024, none, none, .eventual, none, 4⟩
  memory := Memory.ofLimitMb 1024
  pipeline :=
    ⟨[.groupBy [⟨"a", false, false⟩] [] .start], ⟨"t", 1, 1, .inOrder, [.start 1]⟩⟩
  elapsedMs := 0
  finished := false

/-- A shard with a page of three rows in two groups. -/
def groupedPage : Recorded :=
  ⟨[(1, [.ok ⟨[Row.ofList [("a", .int 1)], Row.ofList [("a", .int 1)],
    Row.ofList [("a", .int 2)]], none⟩])]⟩

/-- The states of the batches of `groupedScan` in their order. -/
def groupedRun : Nat → BatchRun Recorded
  | 0 => .start groupedScanStart groupedPage
  | n + 1 =>
    match (groupedRun n).step Recorded.reader with
    | (next, none) => next
    | (last, some reason) =>
      .start (conclude Recorded.reader last reason).execution
        (conclude Recorded.reader last reason).shards

/-- The states of all batches of `groupedScan` are those eight. -/
theorem exists_groupedRun {run : BatchRun Recorded}
    (h : groupedScanStart.Passes Recorded.reader groupedPage run) :
    ∃ n ≤ 7, run = groupedRun n := by
  have hend : ((groupedRun 7).step Recorded.reader).2 = some .exhausted := rfl
  have hnext {n : Nat} {next : BatchRun Recorded} {reason : Option BatchEnd} (hn : n ≤ 7)
      (hstep : (groupedRun n).step Recorded.reader = (next, reason))
      (hreason : reason ≠ some .exhausted) : n + 1 ≤ 7 := by
    rcases Nat.lt_or_eq_of_le hn with hlt | rfl
    · exact hlt
    · rw [hstep] at hend
      exact absurd hend hreason
  induction h with
  | start => exact ⟨0, by decide, rfl⟩
  | step _ hstep ih =>
      obtain ⟨n, hn, rfl⟩ := ih
      exact ⟨n + 1, hnext hn hstep nofun, by rw [groupedRun, hstep]⟩
  | batch _ hstep ih =>
      obtain ⟨n, hn, rfl⟩ := ih
      exact ⟨n + 1, hnext hn hstep nofun, by rw [groupedRun, hstep]⟩

/-- An execution of `groupedScan` that has taken all rows of the page is portable. -/
theorem isPortable_of_drained {execution : Execution} {group : Option OpenGroup} {bytes : Nat}
    {done : Bool}
    (hstates : execution.pipeline.states =
      [.groupBy ⟨group, bytes, done, true⟩, .receive [⟨1, none, [], 0, true⟩]])
    (hgroup : ∀ g ∈ group, g.IsPortable)
    (hreadable : execution.IsReadable) (htime : execution.options.timeoutMs = none)
    (hlimit : execution.memory.limit ≠ maxAmount) : execution.IsPortable := by
  refine ⟨?_, hreadable, .inl htime, fun heq => absurd heq hlimit⟩
  rw [hstates]
  refine List.forall_mem_cons.2 ⟨hgroup, List.forall_mem_singleton.2 ?_⟩
  exact List.forall_mem_singleton.2 nofun

/-- The first batch of `groupedScan` is full while the second group is open, the second batch
when all groups have been sent on. -/
theorem suspendsPortably_groupedScan :
    plainEngine.SuspendsPortably Recorded.reader groupedScan ⟨0⟩ groupedPage := by
  intro execution hstart run last hpass hstep
  obtain rfl : groupedScanStart = execution := Except.ok.inj hstart
  have hlast : (run.step Recorded.reader).1 = last := by rw [hstep]
  have hfull : (run.step Recorded.reader).2 = some .full := by rw [hstep]
  obtain ⟨n, hn, rfl⟩ := exists_groupedRun hpass
  obtain rfl | rfl : n = 4 ∨ n = 6 := by
    interval_cases n <;> first | exact .inl rfl | exact .inr rfl | cases hfull
  · subst hlast
    exact @isPortable_of_drained _ (some ⟨[.int 2], []⟩) _ _ rfl
      (fun group hgroup => by cases hgroup; exact ⟨⟨trivial, trivial⟩, nofun⟩)
      (by rw [IsReadable]; decide +kernel) rfl (by decide +kernel)
  · subst hlast
    exact @isPortable_of_drained _ none _ _ rfl nofun (by rw [IsReadable]; decide +kernel) rfl
      (by decide +kernel)

/-- The groups come one at a time, whoever makes the batches and however the tokens are handed
over. -/
theorem reportsByTokens_groupedScan :
    plainEngine.SuspendsPortably Recorded.reader groupedScan ⟨0⟩ groupedPage ∧
      plainEngine.reportsByTokens Recorded.reader 9 groupedScan ⟨0⟩ groupedPage
          [⟨.octets, ⟨1⟩⟩, ⟨.text, ⟨2⟩⟩, ⟨.text, ⟨3⟩⟩] =
        plainEngine.reportsInProcess Recorded.reader 9 groupedScan ⟨0⟩ groupedPage 3 ∧
      (plainEngine.reportsInProcess Recorded.reader 9 groupedScan ⟨0⟩ groupedPage 3).map
        List.length = some 3 :=
  ⟨suspendsPortably_groupedScan, reportsByTokens_eq 9 rfl suspendsPortably_groupedScan _, rfl⟩

end Engine

end ShardQuery
