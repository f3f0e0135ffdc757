import ShardQuery.Proofs.Completeness
import ShardQuery.Proofs.Meaning.Sources
import ShardQuery.Proofs.Requests.Journal
import ShardQuery.Proofs.Resume.Genuine

/-!
# The Discipline of Requests

Which requests an execution sends is settled by its plan, by the rows it has at hand, and by what
the shards have answered before. A round asks different shards, all of them waited for, each for
the page behind its last one; which of them, the delivery of the plan says. Tokens do not disturb
this: what a resumed execution asks for continues what its predecessors have asked for.

Main definitions:

* `Delivery.askable` — the shards that a round asks;
* `Execution.Lineage` — the batches of an execution that goes on, in part with its own tokens,
  and the journal of all of its requests;
* `Execution.Disciplined` — the discipline of requests at one point of a lineage.

## Main results

* `BatchRun.Keeps.isRound`: the requests of a round are those of the delivery.
* `Source.Keeps.round`: a round takes every shard that it asks one page further.
* `Execution.Lineage.disciplined`: every execution is disciplined all the time.
-/

namespace ShardQuery

variable {σ : Type}

/-! ### Deliveries -/

/-- How the scan of a plan delivers its rows: merged below a merging sort. -/
def Plan.delivery (plan : Plan) (fanOut : Nat) : Delivery :=
  match plan.steps.getLast? with
  | some (.sort keys .merge) => .merged keys
  | _ => if plan.scan.ordered then .inOrder else .anyOrder fanOut

/-- The shards that a round asks, of those of a scan as far as they have been read. To merge, all
shards are asked that must be; in order, the first one that is not drained; in any order, the
first ones of those that must be asked. -/
def Delivery.askable (delivery : Delivery) (shards : List ShardProgress) : List ShardProgress :=
  match delivery with
  | .merged _ => shards.filter ShardProgress.needsFetch
  | .inOrder => (shards.find? fun progress => !progress.isDrained).toList
  | .anyOrder fanOut => (shards.filter ShardProgress.needsFetch).take fanOut

/-- The shards that a round asks are shards of the scan, in their order, and none of them twice. -/
theorem Delivery.sublist_askable (delivery : Delivery) (shards : List ShardProgress) :
    (delivery.askable shards).Sublist shards := by
  cases delivery with
  | merged => exact List.filter_sublist
  | anyOrder => exact (List.take_sublist _ _).trans List.filter_sublist
  | inOrder =>
      rw [askable]
      cases hfind : shards.find? fun progress => !progress.isDrained with
      | none => exact List.nil_sublist _
      | some progress => exact List.singleton_sublist.2 (List.mem_of_find?_eq_some hfind)

/-- Compiled steps deliver rows as their plan says: only the innermost step has a say in it. -/
theorem deliveryOf_eq {registry : Registry} {plan : Plan} {steps : List CompiledStep}
    (h : compileSteps registry plan.steps = .ok steps) (fanOut : Nat) :
    Pipeline.deliveryOf steps plan.scan fanOut = plan.delivery fanOut := by
  have hlast := List.forall₂_reverse_iff.2 (compileSteps_eq_ok_iff.1 h)
  rw [Pipeline.deliveryOf, Plan.delivery, ← List.head?_reverse, ← List.head?_reverse]
  generalize plan.steps.reverse = outward at hlast ⊢
  generalize steps.reverse = compiled at hlast ⊢
  cases hlast with
  | nil => rfl
  | @cons step compiled _ _ hcompile _ =>
      cases step with
      | sort keys mode =>
          cases hcompile
          cases mode <;> rfl
      | distinct =>
          cases hcompile
          rfl
      | groupBy | project =>
          obtain ⟨_, -, heq⟩ := bind_eq_ok_iff.1 hcompile
          cases heq
          rfl
      | slice =>
          obtain ⟨_, -, heq⟩ := bind_eq_ok_iff.1 hcompile
          obtain ⟨_, -, heq⟩ := bind_eq_ok_iff.1 heq
          cases heq
          rfl

/-! ### Sources -/

namespace Source

/-- The shards at some of the places that can be asked. -/
theorem filterMap_take_fetchable (source : Source) (n : Nat) :
    (source.fetchable.take n).filterMap (source.shards[·]?) =
      (source.shards.filter ShardProgress.needsFetch).take n := by
  have hfilter : (source.shards.zipIdx.filter fun entry => entry.1.needsFetch).map (·.1) =
      source.shards.filter ShardProgress.needsFetch := by
    have hfst := List.zipIdx_map_fst 0 source.shards
    conv_rhs => rw [← hfst]
    exact (List.filter_map (f := Prod.fst) (p := ShardProgress.needsFetch)).symm
  rw [fetchable, ← List.map_take, List.filterMap_map, ← hfilter, ← List.map_take,
    ← List.filterMap_eq_map]
  refine List.filterMap_congr fun entry hmem => ?_
  exact List.mem_zipIdx_iff_getElem?.1 (List.mem_of_mem_filter (List.mem_of_mem_take hmem))

/-- **A source wants those shards to be asked that its delivery says**, and each of them must
be. -/
theorem askable_of_next {source : Source} {wanted : List Nat}
    (h : source.next.result = .ok (.fetch wanted)) :
    wanted.filterMap (source.shards[·]?) = source.delivery.askable source.shards ∧
      ∀ progress ∈ source.delivery.askable source.shards, progress.needsFetch = true := by
  obtain ⟨-, -, hwants⟩ := wants_of_next h
  unfold Wants at hwants
  cases hdelivery : source.delivery with
  | inOrder =>
      rw [hdelivery] at hwants
      obtain ⟨index, progress, rfl, hp, hneeds, hearlier⟩ := hwants
      obtain ⟨hlt, hindex⟩ := List.getElem?_eq_some_iff.1 hp
      have hfind : source.shards.find? (fun progress => !progress.isDrained) = some progress := by
        refine List.find?_eq_some_iff_getElem.2 ⟨?_, index, hlt, hindex, fun i hi => ?_⟩
        · rw [ShardProgress.isDrained_eq_false hneeds]
          rfl
        · rw [hearlier i hi _ (List.getElem?_eq_getElem (hi.trans hlt))]
          rfl
      rw [Delivery.askable, hfind]
      exact ⟨by simp [hp], List.forall_mem_singleton.2 hneeds⟩
  | anyOrder fanOut =>
      rw [hdelivery] at hwants
      obtain ⟨-, rfl⟩ := hwants
      refine ⟨filterMap_take_fetchable source fanOut, fun progress hmem => ?_⟩
      exact (List.mem_filter.1 (List.mem_of_mem_take hmem)).2
  | merged keys =>
      rw [hdelivery] at hwants
      subst hwants
      refine ⟨?_, fun progress hmem => (List.mem_filter.1 hmem).2⟩
      have hall := filterMap_take_fetchable source source.shards.length
      rwa [List.take_of_length_le (List.length_filter_le _ _), List.take_of_length_le] at hall
      rw [fetchable, List.length_map]
      exact (List.length_filter_le _ _).trans_eq List.length_zipIdx

/-- Whether a source has the given shards, and has read each of them page by page as a journal
says. -/
structure Keeps (shards : List ShardId) (journal : List Exchange) (source : Source) : Prop where
  /-- The shards are those given. -/
  shards_eq : source.shards.map (·.shard) = shards
  /-- Each of them has been read page by page. -/
  paged : ∀ progress ∈ source.shards,
    Paged progress.shard journal progress.cursor progress.exhausted
  /-- Nothing else has been read. -/
  known : ∀ exchange ∈ journal, exchange.request.shard ∈ shards

variable {shards : List ShardId} {journal : List Exchange} {source : Source}

/-- A signal of the source reads no page, so the journal goes on to say what has been read. -/
theorem Keeps.next (h : source.Keeps shards journal) : source.next.state.Keeps shards journal := by
  refine ⟨source.sameScan_next.shards.symm.trans h.shards_eq, ?_, h.known⟩
  obtain heq | ⟨index, progress, row, rows, hp, -, heq⟩ := source.next_state_cases
  · rw [heq]
    exact h.paged
  · rw [heq]
    intro other hmem
    rcases List.mem_or_eq_of_mem_set hmem with hmem | rfl
    · exact h.paged other hmem
    · exact h.paged progress (List.mem_of_getElem? hp)

/-- Rereading the rows that a source holds leaves its pages. -/
theorem Keeps.reread (h : source.Keeps shards journal) {next : Source}
    (hshards : next.shards = source.shards.map ShardProgress.reread) :
    next.Keeps shards journal := by
  refine ⟨?_, fun progress hmem => ?_, h.known⟩
  · rw [hshards, List.map_map]
    exact h.shards_eq
  · rw [hshards] at hmem
    obtain ⟨before, hbefore, rfl⟩ := List.mem_map.1 hmem
    exact h.paged before hbefore

/-- An answer that is taken in takes its shard one page further. -/
theorem Keeps.answered (h : source.Keeps shards journal) (hnodup : shards.Nodup) {index : Nat}
    {progress : ShardProgress} {request : ShardRequest} {response : ShardResponse}
    (hp : source.shards[index]? = some progress) (hneeds : progress.needsFetch = true)
    (hshard : request.shard = progress.shard) (hcursor : request.cursor = progress.cursor)
    (size : Nat) :
    Keeps shards (journal ++ [⟨request, .ok response⟩])
      { source with shards := source.shards.set index (progress.afterResponse response size) } := by
  have hmem := List.mem_of_getElem? hp
  have hopen : progress.exhausted = false := by
    simpa using (Bool.and_eq_true_iff.1 hneeds).2
  have hids : (source.shards.map (·.shard)).Nodup := h.shards_eq ▸ hnodup
  refine ⟨?_, fun other hother => ?_, ?_⟩
  · rw [← h.shards_eq]
    exact (@sameScan_set source index progress (progress.afterResponse response size) hp
      rfl).shards.symm
  · obtain ⟨i, hi⟩ := List.getElem?_of_mem hother
    rw [List.getElem?_set] at hi
    by_cases heq : index = i
    · simp only [if_pos heq] at hi
      split at hi <;> cases hi
      have hpaged := h.paged progress hmem
      rw [hopen] at hpaged
      exact hpaged.answered hshard hcursor
    · rw [if_neg heq] at hi
      refine (h.paged other (List.mem_of_getElem? hi)).other ?_
      exact hshard.trans_ne (ne_of_nodup_map hids hp hi (Ne.symm heq)).symm
  · refine List.forall_mem_append.2 ⟨h.known, List.forall_mem_singleton.2 ?_⟩
    rw [hshard, ← h.shards_eq]
    exact List.mem_map_of_mem hmem

/-- **A round takes every shard that it asks one page further.** -/
theorem Keeps.round {reader : ShardReader σ} {request : ShardProgress → ShardRequest}
    (hrequest : ∀ progress, (request progress).shard = progress.shard ∧
      (request progress).cursor = progress.cursor)
    (hnodup : shards.Nodup) {wanted : List Nat} (hwanted : wanted.Nodup)
    {state : σ × List Exchange} (h : source.Keeps shards state.2)
    (hneeds : ∀ index ∈ wanted,
      ∃ progress, source.shards[index]? = some progress ∧ progress.needsFetch = true)
    (hresult : (source.round reader.journaled request wanted state).1.result = .ok ()) :
    (source.round reader.journaled request wanted state).1.state.Keeps shards
      (source.round reader.journaled request wanted state).2.2 := by
  induction wanted generalizing source state with
  | nil => exact h
  | cons index wanted ih =>
      obtain ⟨hindex, hwanted⟩ := List.nodup_cons.1 hwanted
      obtain ⟨⟨progress, hp, hneed⟩, hneeds⟩ := List.forall_mem_cons.1 hneeds
      obtain ⟨hshard, hcursor⟩ := hrequest progress
      rcases hanswer : reader.answer (request progress) state.1 with ⟨error | response, s⟩
      · have hjournaled : reader.journaled.answer (request progress) state =
            (.error error, s, state.2 ++ [⟨request progress, .error error⟩]) := by
          simp only [ShardReader.journaled, hanswer]
        rw [round_cons_error hp hjournaled] at hresult
        cases hresult
      · have hjournaled : reader.journaled.answer (request progress) state =
            (.ok response, s, state.2 ++ [⟨request progress, .ok response⟩]) := by
          simp only [ShardReader.journaled, hanswer]
        rw [round_cons hp hindex hjournaled] at hresult ⊢
        exact ih hwanted (h.answered hnodup hp hneed hshard hcursor _)
          (needsFetch_set hindex hneeds _) hresult

end Source

namespace Pipeline

/-- A tick moves the source by one signal, or leaves it when a stage outside signals by itself. -/
theorem source_tickStages (bindings : Bindings) (source : Source) (stages : List Stage) :
    (tickStages bindings source stages).state.source = source ∨
      (tickStages bindings source stages).state.source = source.next.state := by
  induction stages with
  | nil => exact .inr rfl
  | cons stage inner ih =>
      generalize hresult : (tickStages bindings source (stage :: inner)).result = result
      cases tickStages_inv hresult with
      | own _ _ hnext => exact .inl (congrArg Pipeline.source hnext)
      | failed _ _ hnext | passed _ _ _ hnext =>
          rw [hnext]
          exact ih

end Pipeline

/-! ### Rounds -/

namespace BatchRun

/-- A tick wants each shard to be asked once, and only if it must be. -/
theorem needsFetch_of_booked {run : BatchRun σ} {m : Memory} {p : Pipeline} {wanted : List Nat}
    (h : run.booked = (m, p, .ok (.fetch wanted))) :
    wanted.Nodup ∧ ∀ index ∈ wanted,
      ∃ progress, p.source.shards[index]? = some progress ∧ progress.needsFetch = true := by
  obtain ⟨-, -, hwants⟩ := Source.wants_of_next (next_of_booked h).1
  exact ⟨hwants.nodup, hwants.needsFetch⟩

/-- The time taken at a point of a batch, in milliseconds. -/
def spentMs (reader : ShardReader σ) (run : BatchRun σ) : Nat :=
  run.execution.elapsedMs + run.rounds * reader.latencyMs

/-- Whether a request is due at a point of a batch whose shards keep a journal. -/
structure IsDue (plan : Plan) (run : BatchRun (σ × List Exchange)) (request : ShardRequest) :
    Prop where
  /-- It asks for rows of the table. -/
  table_eq : request.table = plan.scan.table
  /-- It goes to a shard of the plan. -/
  mem : request.shard ∈ plan.scan.shards
  /-- The shard has no row at hand, and more to come. -/
  waiting : ∃ progress ∈ run.execution.pipeline.source.shards,
    progress.shard = request.shard ∧ progress.buffer = [] ∧ progress.exhausted = false
  /-- The shard has not said that it is at its end. -/
  unended : none ∉ given request.shard run.shards.2
  /-- The cursor is the one of the last answer of the shard, if there has been one. -/
  cursor_eq : request.cursor = (given request.shard run.shards.2).getLast?.join
  /-- All pages that the shard has named before have been asked for. -/
  pages : none :: given request.shard run.shards.2 =
    asked request.shard run.shards.2 ++ [request.cursor]
  /-- The page has not been asked for, if the shard gives every cursor once. -/
  unasked : (given request.shard run.shards.2).Nodup →
    request.cursor ∉ asked request.shard run.shards.2

/-- Whether requests are those of a round at a point of a batch whose shards keep a journal. -/
structure IsRound (plan : Plan) (run : BatchRun (σ × List Exchange))
    (requests : List ShardRequest) : Prop where
  /-- They go to the shards that the delivery of the plan says. -/
  requests_eq : requests = ((plan.delivery run.execution.options.maxFanOut).askable
    run.execution.pipeline.source.shards).map run.execution.request
  /-- There is one at least. -/
  ne_nil : requests ≠ []
  /-- They go to different shards. -/
  nodup : (requests.map (·.shard)).Nodup
  /-- Each of them is due. -/
  due : ∀ request ∈ requests, run.IsDue plan request

/-- What a step of a batch whose shards keep a journal does about requests. -/
inductive Conduct (plan : Plan) (reader : ShardReader σ) (run next : BatchRun (σ × List Exchange))
    (reason : Option BatchEnd) : Prop
  /-- There is no round: nothing is sent. -/
  | quiet : next.rounds = run.rounds → next.sent = run.sent → next.shards = run.shards →
      Conduct plan reader run next reason
  /-- There is a round, but the time is up: nothing is sent, and the query has failed. -/
  | timeUp {limit : Nat} : run.execution.options.timeoutMs = some limit →
      limit ≤ run.spentMs reader.journaled → next.rounds = run.rounds + 1 → next.sent = run.sent →
      next.shards = run.shards → reason = some (.failed (.timeout limit)) →
      Conduct plan reader run next reason
  /-- There is a round in time: its requests are sent, and the journal has them with their answers
  unless the time runs out, by which the query has failed. -/
  | round {requests : List ShardRequest} : run.IsRound plan requests →
      (∀ limit, run.execution.options.timeoutMs = some limit →
        run.spentMs reader.journaled < limit) →
      next.rounds = run.rounds + 1 → next.sent = requests.reverse ++ run.sent →
      (next.shards = run.shards ∧ (∃ limit, reason = some (.failed (.timeout limit))) ∨
        ∃ answers, answers.length = requests.length ∧
          next.shards.2 = run.shards.2 ++ List.zipWith Exchange.mk requests answers) →
      Conduct plan reader run next reason

/-- No time remains exactly if there is a limit and the time spent has reached it. -/
theorem remainingMs_eq_some_zero_iff {reader : ShardReader σ} {run : BatchRun σ} :
    run.remainingMs reader = some 0 ↔
      ∃ limit, run.execution.options.timeoutMs = some limit ∧ limit ≤ run.spentMs reader := by
  rw [remainingMs, Option.map_eq_some_iff]
  simp only [Nat.sub_eq_zero_iff_le, spentMs]

variable {reader : ShardReader σ} {plan : Plan} {run next : BatchRun (σ × List Exchange)}
  {reason : Option BatchEnd}

/-- What a point of a lineage rests on: its scan is that of the plan, and has been read page by
page. -/
structure Keeps (plan : Plan) (run : BatchRun (σ × List Exchange)) : Prop where
  /-- The plan is the one given. -/
  plan_eq : run.execution.plan = plan
  /-- Its shards are different. -/
  nodup : plan.scan.shards.Nodup
  /-- The rows are delivered as the plan says. -/
  delivery_eq : run.execution.pipeline.source.delivery =
    plan.delivery run.execution.options.maxFanOut
  /-- The shards have been read page by page. -/
  source : run.execution.pipeline.source.Keeps plan.scan.shards run.shards.2

/-- **The requests of a round are those of the delivery, and each of them is due.** -/
theorem Keeps.isRound (h : run.Keeps plan) {m : Memory} {p : Pipeline} {wanted : List Nat}
    (hb : run.booked = (m, p, .ok (.fetch wanted))) :
    run.IsRound plan ((run.moved m p).wantedRequests wanted) := by
  obtain ⟨hnext, hsame⟩ := next_of_booked hb
  obtain ⟨haskable, hneeds⟩ := Source.askable_of_next (hsame ▸ hnext)
  rw [h.delivery_eq] at haskable hneeds
  have hsublist := (plan.delivery run.execution.options.maxFanOut).sublist_askable
    run.execution.pipeline.source.shards
  have hrequests : (run.moved m p).wantedRequests wanted =
      ((plan.delivery run.execution.options.maxFanOut).askable
        run.execution.pipeline.source.shards).map run.execution.request := by
    rw [← haskable, wantedRequests, Execution.requests, List.map_filterMap, List.map_filterMap]
    refine List.filterMap_congr fun index _ => ?_
    change Option.map _ (Option.map _ (p.source.shards[index]?)) = _
    rw [hsame, Option.map_map]
    rfl
  refine ⟨hrequests, ?_, ?_, ?_⟩
  · exact fun hnil => requests_ne_nil_of_booked hb (List.map_eq_nil_iff.1 hnil)
  · rw [hrequests, List.map_map]
    exact (hsublist.map (·.shard)).nodup (h.source.shards_eq ▸ h.nodup)
  · rw [hrequests]
    refine List.forall_mem_map.2 fun progress hmem => ?_
    have hpaged := h.source.paged progress (hsublist.mem hmem)
    obtain ⟨hbuffer, hopen⟩ := Bool.and_eq_true_iff.1 (hneeds progress hmem)
    have hopen : progress.exhausted = false := by simpa using hopen
    rw [hopen] at hpaged
    refine ⟨congrArg (·.scan.table) h.plan_eq, ?_, ⟨progress, hsublist.mem hmem, rfl, ?_, hopen⟩,
      hpaged.none_notMem_given, hpaged.cursor_eq, hpaged.pages, hpaged.cursor_notMem_asked⟩
    · exact h.source.shards_eq ▸ List.mem_map_of_mem (hsublist.mem hmem)
    · exact List.isEmpty_iff.1 hbuffer

/-- **Every step keeps the discipline**: it sends nothing, or it sends one round in the way in which
the plan is to be read, and after the time is up it sends no more. -/
theorem Keeps.conduct (h : run.Keeps plan) (hmove : Moves reader.journaled run next reason) :
    run.Conduct plan reader next reason := by
  have hintime (hremaining : run.remainingMs reader.journaled ≠ some 0) (limit : Nat)
      (hlimit : run.execution.options.timeoutMs = some limit) :
      run.spentMs reader.journaled < limit :=
    Nat.lt_of_not_le fun hle => hremaining (remainingMs_eq_some_zero_iff.2 ⟨limit, hlimit, hle⟩)
  have hanswers (run : BatchRun (σ × List Exchange)) (wanted : List Nat) :
      ∃ answers, answers.length = (run.wantedRequests wanted).length ∧
        (run.answered reader.journaled wanted).shards.2 =
          run.shards.2 ++ List.zipWith Exchange.mk (run.wantedRequests wanted) answers := by
    refine ⟨_, reader.length_answerAll _ run.shards.1, ?_⟩
    rw [answered, answers, ShardReader.answerAll_journaled]
  cases hmove with
  | full | broken | row | exhausted | again | noRound => exact .quiet rfl rfl rfl
  | idle _ hb _ hrequests => exact absurd hrequests (requests_ne_nil_of_booked hb)
  | noTime _ _ _ _ htime =>
      obtain ⟨limit, hlimit, hle⟩ := remainingMs_eq_some_zero_iff.1 htime
      refine .timeUp hlimit hle rfl rfl rfl ?_
      rw [timeUp, hlimit]
      rfl
  | late _ hb _ _ htime =>
      exact .round (h.isRound hb) (hintime htime) rfl rfl (.inl ⟨rfl, _, rfl⟩)
  | refused _ hb _ _ htime =>
      exact .round (h.isRound hb) (hintime htime) rfl rfl (.inr (hanswers _ _))
  | round _ hb _ _ htime =>
      exact .round (h.isRound hb) (hintime htime) rfl rfl (.inr (hanswers _ _))

/-- A booked tick reads no page, so it leaves everything that the journal has to answer for. -/
theorem Keeps.booked (h : run.Keeps plan) {m : Memory} {p : Pipeline} {signal : Signal}
    (hb : run.booked = (m, p, .ok signal)) : (run.moved m p).Keeps plan := by
  obtain ⟨-, rfl, -⟩ := Metered.run_eq_ok_iff.1 hb
  have hadvances := Pipeline.advances_tick run.execution.bindings run.execution.pipeline
  obtain ⟨shards, -, hsource⟩ := hadvances.source
  refine ⟨h.plan_eq, h.nodup, (congrArg Source.delivery hsource).trans h.delivery_eq, ?_⟩
  obtain heq | heq := Pipeline.source_tickStages run.execution.bindings
    run.execution.pipeline.source run.execution.pipeline.stages
  · exact (congrArg (Source.Keeps _ _) heq).mpr h.source
  · exact (congrArg (Source.Keeps _ _) heq).mpr h.source.next

/-- The answers of a round, all of them taken in, take its shards one page further. -/
theorem Keeps.installed (h : run.Keeps plan) {m : Memory} {p : Pipeline} {wanted : List Nat}
    (hwanted : wanted.Nodup)
    (hneeds : ∀ index ∈ wanted, ∃ progress,
      run.execution.pipeline.source.shards[index]? = some progress ∧ progress.needsFetch = true)
    (hi : run.installed reader.journaled wanted = (m, p, .ok ())) :
    ((run.answered reader.journaled wanted).moved m p).Keeps plan := by
  obtain ⟨-, rfl, hresult⟩ := Metered.run_eq_ok_iff.1 hi
  obtain ⟨shards, -, hsource⟩ := (Pipeline.advances_receive run.execution.pipeline
    (((run.execution.requests wanted).map (·.1)).zip
      (run.answers reader.journaled wanted).1)).source
  refine ⟨h.plan_eq, h.nodup, (congrArg Source.delivery hsource).trans h.delivery_eq, ?_⟩
  exact h.source.round (fun _ => ⟨rfl, rfl⟩) h.nodup hwanted hneeds hresult

/-- **Every step that does not fail leaves all shards read page by page.** -/
theorem Keeps.moves (h : run.Keeps plan) (hmove : Moves reader.journaled run next reason)
    (hreason : ∀ error, reason ≠ some (.failed error)) : next.Keeps plan := by
  cases hmove with
  | full => exact h
  | row _ hb | exhausted _ hb | again _ hb | noRound _ hb =>
      obtain ⟨hplan, hnodup, hdelivery, hsource⟩ := h.booked hb
      exact ⟨hplan, hnodup, hdelivery, hsource⟩
  | @round m m' p p' wanted _ hb _ _ _ _ hi =>
      obtain ⟨hnodup, hneeds⟩ := needsFetch_of_booked hb
      exact (h.booked hb).installed hnodup hneeds hi
  | broken | idle | noTime | late | refused => exact absurd rfl (hreason _)

/-- Whether an execution with a plan is disciplined at a point of a batch whose shards keep a
journal. -/
structure Disciplined (reader : ShardReader σ) (plan : Plan) (run : BatchRun (σ × List Exchange)) :
    Prop where
  /-- The shards read are those of the plan, all of them different, in the order of the plan. -/
  shards_eq : run.execution.pipeline.source.shards.map (·.shard) = plan.scan.shards
  /-- No shard is read twice. -/
  nodup : plan.scan.shards.Nodup
  /-- No page has been skipped: a shard has been asked for its first page and for all pages that
  it has named, but for the last one. -/
  pages : ∀ shard ∈ plan.scan.shards, ∃ cursor,
    none :: given shard run.shards.2 = asked shard run.shards.2 ++ [cursor]
  /-- No other shard has been asked. -/
  known : ∀ exchange ∈ run.shards.2, exchange.request.shard ∈ plan.scan.shards
  /-- No page has been asked for twice, if the shard gives every cursor once. -/
  once : ∀ shard ∈ plan.scan.shards, (given shard run.shards.2).Nodup →
    (asked shard run.shards.2).Nodup
  /-- What is done next keeps the discipline. -/
  conduct : ∀ next reason, run.step reader.journaled = (next, reason) →
    run.Conduct plan reader next reason

end BatchRun

/-! ### Lineages -/

namespace Execution

/-- The states of all batches of an execution that goes on, in the same process or with its own
tokens, in whatever place and under whatever options. The shards keep a journal all the time;
between batches they may change otherwise. -/
inductive Lineage (reader : ShardReader σ) (plan : Plan) (bindings : Bindings) :
    Engine → QueryOptions → BatchRun (σ × List Exchange) → Prop
  /-- The first batch. -/
  | fresh {engine : Engine} {options : QueryOptions} {id : Uuid} {execution : Execution}
      {shards : σ} :
      start engine ⟨plan, bindings, options, none⟩ id = .ok execution →
      Lineage reader plan bindings engine options (.start execution (shards, []))
  /-- A step of a batch that goes on. -/
  | step {engine : Engine} {options : QueryOptions} {run next : BatchRun (σ × List Exchange)} :
      Lineage reader plan bindings engine options run →
      run.step reader.journaled = (next, none) →
      Lineage reader plan bindings engine options next
  /-- The batch after one that was full. -/
  | batch {engine : Engine} {options : QueryOptions} {run last : BatchRun (σ × List Exchange)}
      {shards : σ} :
      Lineage reader plan bindings engine options run →
      run.step reader.journaled = (last, some .full) →
      Lineage reader plan bindings engine options
        (.start (conclude reader.journaled last .full).execution (shards, last.shards.2))
  /-- The batch after a resumption with the token of the execution. -/
  | resumed {engine engine' : Engine} {options options' : QueryOptions}
      {execution next : Execution} {token : Token} {id : Uuid} {shards shards' : σ}
      {journal : List Exchange} :
      Lineage reader plan bindings engine options (.start execution (shards, journal)) →
      execution.token? = some token →
      start engine' ⟨plan, bindings, options', some token⟩ id = .ok next →
      Lineage reader plan bindings engine' options' (.start next (shards', journal))

variable {reader : ShardReader σ} {plan : Plan} {bindings : Bindings} {engine : Engine}
  {options : QueryOptions} {run : BatchRun (σ × List Exchange)}

/-- An execution delivers rows as its plan says, under the fan-out of its own options. -/
theorem Founded.delivery_eq {execution : Execution} (h : execution.Founded engine options) :
    execution.pipeline.source.delivery =
      execution.plan.delivery execution.options.maxFanOut := by
  obtain ⟨steps, hcompile, hopened⟩ := h.opened
  obtain ⟨shards, -, hsource⟩ := hopened.source_eq
  rw [hsource]
  exact deliveryOf_eq hcompile _

/-- A founded execution whose shards have been read page by page. -/
theorem Founded.keeps {execution : Execution} (h : execution.Founded engine options) {shards : σ}
    {journal : List Exchange}
    (hsource : execution.pipeline.source.Keeps execution.plan.scan.shards journal) :
    (BatchRun.start execution (shards, journal)).Keeps execution.plan :=
  ⟨rfl, Plan.nodup_shards h.check, h.delivery_eq, hsource⟩

/-- All batches of a lineage rest on the checks of the starts, and have read page by page. -/
theorem Lineage.keeps (h : Lineage reader plan bindings engine options run) :
    run.execution.Founded engine options ∧ run.execution.bindings = bindings ∧
      run.Keeps plan := by
  induction h with
  | fresh hstart =>
      obtain ⟨steps, point, hstarted⟩ := start_eq_ok_iff.1 hstart
      cases hstarted.start
      have hfounded := founded_of_start rfl hstart
      obtain rfl := hstarted.plan_eq
      refine ⟨hfounded, hstarted.bindings_eq, hfounded.keeps ?_⟩
      have hshards := Pipeline.shards_of_states hstarted.states_eq
      refine ⟨?_, fun progress hmem => ?_, nofun⟩
      · rw [hshards, List.map_map]
        exact List.map_id _
      · rw [hshards] at hmem
        obtain ⟨shard, -, rfl⟩ := List.mem_map.1 hmem
        exact .start shard
  | step _ hstep ih =>
      obtain ⟨hfounded, hbindings, hkeeps⟩ := ih
      have hadvances := advances_of_step hstep nofun
      exact ⟨hfounded.advances hadvances, hadvances.bindings_eq.trans hbindings,
        hkeeps.moves (BatchRun.moves_of_step hstep) nofun⟩
  | @batch _ _ run last _ _ hstep ih =>
      obtain ⟨hfounded, hbindings, hkeeps⟩ := ih
      obtain ⟨hid, hplan, hvariables, hoptions, hlimit, hpeak, hfinished, hpipeline⟩ :=
        advances_of_step hstep nofun
      obtain ⟨hplan', hnodup, hdelivery, hsource⟩ :=
        hkeeps.moves (BatchRun.moves_of_step hstep) nofun
      have hadvances : run.execution.Advances (conclude reader.journaled last .full).execution :=
        ⟨hid, hplan, hvariables, hoptions, hlimit, hpeak, hfinished, hpipeline⟩
      exact ⟨hfounded.advances hadvances, hvariables.trans hbindings, hplan', hnodup, hdelivery,
        hsource⟩
  | @resumed _ _ _ _ execution next token _ _ _ _ _ htoken hstart ih =>
      obtain ⟨hfounded, rfl, rfl, -, -, hkept⟩ := ih
      obtain ⟨steps, hstarted⟩ := hfounded.suspendable.started_of_token htoken hstart
      have hfounded' := hfounded.founded_of_token htoken hstart
      have hstates : next.pipeline.states =
          (execution.pipeline.stages.map Stage.state).map NodeState.reread ++
            [.receive (execution.pipeline.source.shards.map ShardProgress.reread)] :=
        hstarted.states_eq.trans List.map_append
      have hkept' := hkept.reread (Pipeline.shards_of_states hstates)
      have hplan : next.plan = execution.plan := hstarted.plan_eq
      refine ⟨hfounded', hstarted.bindings_eq, hplan, ?_, ?_, hkept'⟩
      · exact hplan ▸ Plan.nodup_shards hfounded'.check
      · exact hfounded'.delivery_eq.trans (congrArg (·.delivery next.options.maxFanOut) hplan)

/-- A batch with a journal that is reached from a point of a lineage belongs to it. -/
theorem Lineage.passes {execution : Execution} {shards : σ} {journal : List Exchange}
    (h : Lineage reader plan bindings engine options (.start execution (shards, journal)))
    (hpasses : execution.Passes reader.journaled (shards, journal) run) :
    Lineage reader plan bindings engine options run := by
  induction hpasses with
  | start => exact h
  | step _ hstep ih => exact ih.step hstep
  | batch _ hstep ih => exact ih.batch hstep

/-- **Every execution is disciplined all the time**, whatever the shards answer, whatever bounds its
batches, and wherever it is resumed. -/
theorem Lineage.disciplined (h : Lineage reader plan bindings engine options run) :
    run.Disciplined reader plan := by
  obtain ⟨-, -, hkeeps⟩ := h.keeps
  have hsource := hkeeps.source
  have hpaged (shard : ShardId) (hmem : shard ∈ plan.scan.shards) :
      ∃ cursor exhausted, Paged shard run.shards.2 cursor exhausted := by
    rw [← hsource.shards_eq] at hmem
    obtain ⟨progress, hprogress, rfl⟩ := List.mem_map.1 hmem
    exact ⟨_, _, hsource.paged progress hprogress⟩
  refine ⟨hsource.shards_eq, hkeeps.nodup, fun shard hmem => ?_, hsource.known,
    fun shard hmem => ?_, ?_⟩
  · obtain ⟨cursor, _, hshard⟩ := hpaged shard hmem
    exact ⟨cursor, hshard.pages⟩
  · obtain ⟨cursor, _, hshard⟩ := hpaged shard hmem
    exact hshard.nodup_asked
  · exact fun next reason hstep => hkeeps.conduct (BatchRun.moves_of_step hstep)

/-! ### An example -/

/-- A shard with a page of one row, and an empty one behind it. -/
def twoPages : Recorded :=
  ⟨[(0, [.ok ⟨[Row.ofList [("a", .int 1)]], some [7]⟩, .ok ⟨[], none⟩])]⟩

/-- After the first row the query is resumed with its token. The shard has been asked once, and the
second page is due. -/
theorem disciplined_rowByRow : ∃ resumed journal,
    Lineage Recorded.reader rowByRow.plan .empty plainEngine rowByRow.options
      (.start resumed (twoPages, journal)) ∧
    (BatchRun.start resumed (twoPages, journal)).Disciplined Recorded.reader rowByRow.plan ∧
    asked 0 journal = [none] ∧ given 0 journal = [some [7]] := by
  have hfacts : (rowByRowStart.nextBatch Recorded.reader.journaled 3 (twoPages, [])).any
      (fun outcome => !outcome.execution.finished &&
        decide (outcome.execution.body.toJson.nesting ≤ Json.depthLimit) &&
        decide (outcome.execution.memory.peak < maxAmount) &&
        decide (asked 0 outcome.shards.2 = [none]) &&
        decide (given 0 outcome.shards.2 = [some [7]])) = true := by
    decide +kernel
  obtain ⟨outcome, hbatch, hfacts⟩ := (Option.any_eq_true _ _).1 hfacts
  simp only [Bool.and_eq_true, Bool.not_eq_true', decide_eq_true_eq] at hfacts
  obtain ⟨⟨⟨⟨hopen, hreadable⟩, hpeak⟩, hasked⟩, hgiven⟩ := hfacts
  obtain ⟨batch, token, hresult, htoken⟩ := exists_token_of_nextBatch hbatch hopen
  have htoken? := token?_of_nextBatch hbatch hresult htoken
  obtain ⟨resumed, hstart, -⟩ :=
    ((genuine_rowByRow _).batch hbatch).exists_restored hpeak hreadable htoken? ⟨1⟩
  obtain ⟨-, before, last, hbefore, hstep, rfl⟩ := full_of_nextBatch hbatch hopen
  have hfresh : Lineage Recorded.reader rowByRow.plan .empty plainEngine rowByRow.options
      (.start rowByRowStart (twoPages, [])) := @Lineage.fresh _ _ _ _ _ _ ⟨0⟩ _ _ rfl
  have hsuspended : Lineage Recorded.reader rowByRow.plan .empty plainEngine rowByRow.options
      (.start (conclude Recorded.reader.journaled last .full).execution
        (twoPages, last.shards.2)) := (hfresh.passes hbefore).batch hstep
  have hlineage : Lineage Recorded.reader rowByRow.plan .empty plainEngine rowByRow.options
      (.start resumed (twoPages, last.shards.2)) :=
    hsuspended.resumed htoken? hstart
  exact ⟨resumed, _, hlineage, hlineage.disciplined, hasked, hgiven⟩

end Execution

end ShardQuery
