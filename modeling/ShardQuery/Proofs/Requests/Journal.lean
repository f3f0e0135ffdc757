import ShardQuery.Proofs.Run

/-!
# Journals of Requests

A batch forgets which requests its execution has sent before. A reader that keeps a journal
remembers all of them with their answers, and changes nothing else. In the journal it can be seen
whether a shard has been read page by page: each request asks for the page that the answer before
it has named.

Main definitions:

* `ShardReader.journaled` — a reader that keeps a journal;
* `Paged` — the exchanges with a shard have gone from page to page.

## Main results

* `BatchRun.step_unjournaled`: a step does not depend on the journal.
* `Execution.Passes.exists_journaled`: so every run could have kept one.
* `Paged.answered`: a request for the next page and its answer take the shard one page further.
* `Paged.nodup_asked`: a page is not asked for twice.
-/

namespace ShardQuery

variable {σ : Type}

/-- A request, and what it was answered. A journal is a list of these, in the order of the requests.
-/
structure Exchange where
  /-- The request. -/
  request : ShardRequest
  /-- The answer. -/
  answer : Except RequestError ShardResponse

/-- The cursor that an exchange has given to go on with, if its request has been served. At the
end of the shard it has given none. -/
def Exchange.given? (exchange : Exchange) : Option (Option Cursor) :=
  match exchange.answer with
  | .ok response => some response.cursor
  | .error _ => none

/-- The same reader, keeping a journal of its exchanges. -/
def ShardReader.journaled (reader : ShardReader σ) : ShardReader (σ × List Exchange) where
  latencyMs := reader.latencyMs
  answer request state :=
    let (answer, s) := reader.answer request state.1
    (answer, s, state.2 ++ [⟨request, answer⟩])

/-- Answering requests with a journal gives the same answers, and writes each request down with its
own. -/
theorem ShardReader.answerAll_journaled (reader : ShardReader σ) (requests : List ShardRequest)
    (state : σ × List Exchange) :
    reader.journaled.answerAll requests state =
      ((reader.answerAll requests state.1).1, (reader.answerAll requests state.1).2,
        state.2 ++ List.zipWith Exchange.mk requests (reader.answerAll requests state.1).1) := by
  induction requests generalizing state with
  | nil => simp only [answerAll, List.zipWith_nil_left, List.append_nil]
  | cons request requests ih =>
      simp only [answerAll, ih]
      simp only [journaled, List.zipWith_cons_cons, List.append_assoc, List.singleton_append]

/-- There are as many answers as requests, whether they are rows or errors. -/
theorem ShardReader.length_answerAll (reader : ShardReader σ) (requests : List ShardRequest)
    (s : σ) : (reader.answerAll requests s).1.length = requests.length := by
  induction requests generalizing s with
  | nil => rfl
  | cons request requests ih => exact congrArg (· + 1) (ih _)

/-! ### Forgetting the journal -/

namespace BatchRun

/-- A batch without the journal of its shards, in which it can be seen that the journal has no
influence. -/
def unjournaled (run : BatchRun (σ × List Exchange)) : BatchRun σ :=
  ⟨run.execution, run.shards.1, run.rows, run.bytes, run.rounds, run.sent⟩

/-- Taking in the answers of a round comes to the same without the journal. -/
theorem installed_unjournaled (reader : ShardReader σ) (run : BatchRun (σ × List Exchange))
    (wanted : List Nat) :
    run.unjournaled.installed reader wanted = run.installed reader.journaled wanted := by
  rw [installed, installed, answers, answers, ShardReader.answerAll_journaled]
  rfl

/-- A batch whose shards have been asked is the same one, but for the journal. -/
theorem answered_unjournaled (reader : ShardReader σ) (run : BatchRun (σ × List Exchange))
    (wanted : List Nat) :
    run.unjournaled.answered reader wanted =
      (run.answered reader.journaled wanted).unjournaled := by
  rw [answered, unjournaled, answered, answers, answers, ShardReader.answerAll_journaled]
  rfl

/-- **A step does not depend on the journal.** What is proved of runs with a journal therefore holds
of all runs. -/
theorem step_unjournaled (run : BatchRun (σ × List Exchange)) (reader : ShardReader σ) :
    run.unjournaled.step reader =
      ((run.step reader.journaled).1.unjournaled, (run.step reader.journaled).2) := by
  rcases hstep : run.step reader.journaled with ⟨next, reason⟩
  cases moves_of_step hstep with
  | full hfull => exact step_of_moves (.full hfull)
  | broken hfull hb => exact step_of_moves (.broken hfull hb)
  | row hfull hb => exact step_of_moves (.row hfull hb)
  | exhausted hfull hb => exact step_of_moves (.exhausted hfull hb)
  | again hfull hb => exact step_of_moves (.again hfull hb)
  | noRound hfull hb hround => exact step_of_moves (.noRound hfull hb hround)
  | idle hfull hb hround hnone => exact step_of_moves (.idle hfull hb hround hnone)
  | noTime hfull hb hround hsome htime =>
      exact step_of_moves (.noTime hfull hb hround hsome htime)
  | late hfull hb hround hsome htime hlate =>
      exact step_of_moves (.late hfull hb hround hsome htime hlate)
  | @refused m m' p p' wanted e hfull hb hround hsome htime hlate hi =>
      rw [← installed_unjournaled] at hi
      have hmove : Moves reader run.unjournaled _ _ := .refused hfull hb hround hsome htime hlate hi
      have hanswered := answered_unjournaled reader (run.moved m p) wanted
      exact (step_of_moves hmove).trans (Prod.ext (congrArg (·.moved m' p') hanswered) rfl)
  | @round m m' p p' wanted hfull hb hround hsome htime hlate hi =>
      rw [← installed_unjournaled] at hi
      have hmove : Moves reader run.unjournaled _ _ := .round hfull hb hround hsome htime hlate hi
      have hanswered := answered_unjournaled reader (run.moved m p) wanted
      exact (step_of_moves hmove).trans (Prod.ext (congrArg (·.moved m' p') hanswered) rfl)

end BatchRun

/-- Every run is one that keeps a journal, without it. -/
theorem Execution.Passes.exists_journaled {reader : ShardReader σ} {execution : Execution}
    {shards : σ} {run : BatchRun σ} (h : execution.Passes reader shards run)
    (journal : List Exchange) :
    ∃ journaled, execution.Passes reader.journaled (shards, journal) journaled ∧
      journaled.unjournaled = run := by
  induction h with
  | start => exact ⟨_, .start, rfl⟩
  | @step run next _ hstep ih =>
      obtain ⟨journaled, hpasses, rfl⟩ := ih
      obtain ⟨hnext, hreason⟩ := Prod.mk.inj ((journaled.step_unjournaled reader).symm.trans hstep)
      exact ⟨_, hpasses.next hreason, hnext⟩
  | @batch run last _ hstep ih =>
      obtain ⟨journaled, hpasses, rfl⟩ := ih
      obtain ⟨hlast, hreason⟩ := Prod.mk.inj ((journaled.step_unjournaled reader).symm.trans hstep)
      exact ⟨_, hpasses.batch (Prod.ext rfl hreason), hlast ▸ rfl⟩

/-! ### Pages -/

/-- The cursors that a shard has been asked with, in their order. -/
def asked (shard : ShardId) (journal : List Exchange) : List (Option Cursor) :=
  (journal.filter (·.request.shard == shard)).map (·.request.cursor)

/-- The cursors that a shard has given to go on with, in their order. -/
def given (shard : ShardId) (journal : List Exchange) : List (Option Cursor) :=
  (journal.filter (·.request.shard == shard)).filterMap Exchange.given?

section Concat

variable {shard : ShardId} {journal : List Exchange} {exchange : Exchange}

/-- An exchange with the shard adds the cursor of its request to those that the shard has been asked
with. -/
theorem asked_concat_self (h : exchange.request.shard = shard) :
    asked shard (journal ++ [exchange]) = asked shard journal ++ [exchange.request.cursor] := by
  simp [asked, h]

/-- An exchange with another shard adds nothing to them. -/
theorem asked_concat_of_ne (h : exchange.request.shard ≠ shard) :
    asked shard (journal ++ [exchange]) = asked shard journal := by
  simp [asked, h]

/-- A served exchange with the shard adds the cursor of its answer to those that the shard has
given. -/
theorem given_concat_self {response : ShardResponse} (h : exchange.request.shard = shard)
    (hanswer : exchange.answer = .ok response) :
    given shard (journal ++ [exchange]) = given shard journal ++ [response.cursor] := by
  simp [given, h, Exchange.given?, hanswer]

/-- An exchange with another shard adds nothing to these either. -/
theorem given_concat_of_ne (h : exchange.request.shard ≠ shard) :
    given shard (journal ++ [exchange]) = given shard journal := by
  simp [given, h]

end Concat

/-- Whether the exchanges with a shard have gone from page to page, up to a cursor to go on with
or the end of the shard. -/
structure Paged (shard : ShardId) (journal : List Exchange) (cursor : Option Cursor)
    (exhausted : Bool) : Prop where
  /-- The shard has been asked for its first page and then for each page that it has named, but
  for the last one. -/
  pages : none :: given shard journal = asked shard journal ++ [cursor]
  /-- It has been asked for nothing behind its end. -/
  unended : none ∉ (given shard journal).dropLast
  /-- It is at its end if its last answer has said so. -/
  exhausted_iff : exhausted = true ↔ (given shard journal).getLast? = some none

namespace Paged

variable {shard : ShardId} {journal : List Exchange} {cursor : Option Cursor} {exhausted : Bool}

/-- Nothing has been asked, so the next page is the first one. -/
theorem start (shard : ShardId) : Paged shard [] none false :=
  ⟨rfl, List.not_mem_nil, by simp [given]⟩

/-- The cursor to go on with is the one of the last answer. -/
theorem cursor_eq (h : Paged shard journal cursor exhausted) :
    cursor = (given shard journal).getLast?.join := by
  have hlast : (none :: given shard journal).getLast? = some cursor := by
    rw [h.pages, List.getLast?_concat]
  rw [List.getLast?_cons] at hlast
  cases hgiven : (given shard journal).getLast? with
  | none => rw [hgiven] at hlast; exact (Option.some.inj hlast).symm
  | some last => rw [hgiven] at hlast; exact (Option.some.inj hlast).symm

/-- A shard that is not at its end has never said so. -/
theorem none_notMem_given (h : Paged shard journal cursor false) : none ∉ given shard journal := by
  intro hmem
  rcases List.eq_nil_or_concat (given shard journal) with hnil | ⟨before, last, heq⟩
  · rw [hnil] at hmem
    cases hmem
  · have hunended := h.unended
    have hlast := h.exhausted_iff
    rw [heq, List.concat_eq_append] at hmem hunended hlast
    rw [List.dropLast_concat] at hunended
    rw [List.getLast?_concat] at hlast
    rcases List.mem_append.1 hmem with hbefore | hself
    · exact hunended hbefore
    · cases hlast.2 (congrArg some (List.mem_singleton.1 hself).symm)

/-- **A request for the next page and its answer take the shard one page further.** -/
theorem answered (h : Paged shard journal cursor false) {request : ShardRequest}
    {response : ShardResponse} (hshard : request.shard = shard)
    (hcursor : request.cursor = cursor) :
    Paged shard (journal ++ [⟨request, .ok response⟩]) response.cursor response.cursor.isNone := by
  have hgiven : given shard (journal ++ [⟨request, .ok response⟩]) =
      given shard journal ++ [response.cursor] := given_concat_self hshard rfl
  refine ⟨?_, ?_, ?_⟩
  · rw [hgiven, asked_concat_self hshard, hcursor, ← h.pages]
    rfl
  · rw [hgiven, List.dropLast_concat]
    exact h.none_notMem_given
  · rw [hgiven, List.getLast?_concat, Option.isNone_iff_eq_none, Option.some_inj]

/-- Exchanges with other shards do not matter: where a shard stands depends on its own exchanges
only. -/
theorem other (h : Paged shard journal cursor exhausted) {exchange : Exchange}
    (hshard : exchange.request.shard ≠ shard) :
    Paged shard (journal ++ [exchange]) cursor exhausted := by
  obtain ⟨hpages, hunended, hexhausted⟩ := h
  rw [← given_concat_of_ne hshard] at hpages hunended hexhausted
  rw [← asked_concat_of_ne hshard] at hpages
  exact ⟨hpages, hunended, hexhausted⟩

/-- If a shard gives every cursor once, then it is asked with every cursor once. -/
theorem nodup_asked (h : Paged shard journal cursor exhausted)
    (hgiven : (given shard journal).Nodup) : (asked shard journal).Nodup := by
  rcases List.eq_nil_or_concat (given shard journal) with hnil | ⟨before, last, heq⟩
  · have hpages := h.pages
    rw [hnil] at hpages
    rw [List.eq_nil_of_length_eq_zero (Nat.succ.inj ((congrArg List.length hpages).trans
      List.length_append).symm)]
    exact List.nodup_nil
  · obtain ⟨hpages, hunended, -⟩ := h
    rw [heq, List.concat_eq_append] at hpages hunended hgiven
    rw [List.dropLast_concat] at hunended
    -- The cursors asked with are none and those given before the last one.
    have hasked : none :: before = asked shard journal := List.append_inj_left' hpages rfl
    exact hasked ▸ List.nodup_cons.2 ⟨hunended, (List.nodup_append.1 hgiven).1⟩

/-- If a shard gives every cursor once, then it has not been asked for its next page before. -/
theorem cursor_notMem_asked (h : Paged shard journal cursor false)
    (hgiven : (given shard journal).Nodup) : cursor ∉ asked shard journal := by
  have hall : (asked shard journal ++ [cursor]).Nodup :=
    h.pages ▸ List.nodup_cons.2 ⟨h.none_notMem_given, hgiven⟩
  exact fun hmem => (List.nodup_append.1 hall).2.2 _ hmem _ List.mem_cons_self rfl

end Paged

end ShardQuery
