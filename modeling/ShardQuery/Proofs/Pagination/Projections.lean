import ShardQuery.Proofs.Pagination.Equivalence

/-!
# Projections of Unordered Scans

A projection sends on one image of every row, in the order in which the rows come. Over a scan in
any order the rows come from the fronts of the shards, so what a chain of projections gives, up to
its end, is an interleaving of the images of the rows of the shards: none is lost, none comes twice,
and those of one shard keep their order. How many shards are asked at once, what their pages are and
where batches end makes no difference to that.

Main definitions:

* `imageOf` — what a chain of projections makes of a row;
* `Execution.Projects` — which rows an open execution of projections has not taken yet.

## Main results

* `BatchRun.projects_of_moves`: one step of a batch.
* `Execution.interleaves_of_collects`: all batches of an execution.
* `Execution.interleaves_shards`: all batches of a query.
-/

namespace ShardQuery

variable {σ : Type}

open Meaning

/-! ### Images -/

/-- The fields of a projection, each with the formula that it is computed by. -/
abbrev CompiledFields : Type :=
  List (String × Formula)

/-- What projections make of a row, the outermost one first. -/
def imageOf (bindings : Bindings) (row : Row) : List CompiledFields → Except QueryError Row
  | [] => .ok row
  | fields :: inner => do projected bindings fields (← imageOf bindings row inner)

/-- Whether images are those that projections make of rows. -/
def AreImages (bindings : Bindings) (projections : List CompiledFields) :
    List Row → List Row → Prop :=
  List.Forall₂ fun row image => imageOf bindings row projections = .ok image

variable {bindings : Bindings} {projections : List CompiledFields}

/-- Related lists of which each pair has something in between have a list in between. -/
theorem exists_middle_of_forall₂ {α β γ : Type} {P : α → β → Prop} {Q : β → γ → Prop} {l : List α}
    {n : List γ} (h : List.Forall₂ (fun a c => ∃ b, P a b ∧ Q b c) l n) :
    ∃ m, List.Forall₂ P l m ∧ List.Forall₂ Q m n := by
  induction h with
  | nil => exact ⟨[], .nil, .nil⟩
  | cons hfirst _ ih =>
      obtain ⟨b, hp, hq⟩ := hfirst
      obtain ⟨m, hl, hn⟩ := ih
      exact ⟨b :: m, .cons hp hl, .cons hq hn⟩

/-- Projections mean the images of all rows, one by one. -/
theorem rowsOfSteps_of_areImages {rows images : List Row}
    (h : AreImages bindings projections rows images) :
    rowsOfSteps bindings rows (projections.map .project) = .ok images := by
  induction projections generalizing images with
  | nil =>
      have heq : rows = images := by
        rw [← List.forall₂_eq_eq_eq]
        exact h.imp fun _ _ hrow => Except.ok.inj hrow
      exact congrArg Except.ok heq
  | cons fields inner ih =>
      obtain ⟨middle, hinner, hfields⟩ :=
        exists_middle_of_forall₂ (h.imp fun _ _ hrow => bind_eq_ok_iff.1 hrow)
      exact bind_eq_ok_iff.2 ⟨middle, ih hinner, mapM_eq_ok_iff.2 hfields⟩

/-- Steps that are projections are compiled to projections, one for each. -/
theorem exists_projections {registry : Registry} {steps : List Step} {compiled : List CompiledStep}
    (hcompile : compileSteps registry steps = .ok compiled)
    (hkinds : ∀ step ∈ steps, step.kind = .project) :
    ∃ projections, compiled = List.map CompiledStep.project projections := by
  induction compileSteps_eq_ok_iff.1 hcompile with
  | nil => exact ⟨[], rfl⟩
  | @cons step _ _ _ hstep hinner ih =>
      obtain ⟨hkind, hkinds⟩ := List.forall_mem_cons.1 hkinds
      obtain ⟨projections, rfl⟩ := ih (compileSteps_eq_ok_iff.2 hinner) hkinds
      cases step with
      | project fields =>
          obtain ⟨formulas, -, heq⟩ := bind_eq_ok_iff.1 hstep
          cases heq
          exact ⟨formulas :: projections, rfl⟩
      | sort | groupBy | distinct | slice => cases hkind

/-- Under projections an unordered scan delivers its rows in any order. -/
theorem Plan.delivery_of_projections {plan : Plan} (hordered : plan.scan.ordered = false)
    (hkinds : ∀ step ∈ plan.steps, step.kind = .project) (fanOut : Nat) :
    plan.delivery fanOut = .anyOrder fanOut := by
  unfold Plan.delivery
  split
  · next hlast => cases hkinds _ (List.mem_of_getLast? hlast)
  · simp [hordered]

namespace Pipeline

/-- The stages of projections are these, without any state of their own. -/
theorem Opened.stages_of_projections {openSource : List ShardProgress → Source}
    {states : List NodeState} {pipeline : Pipeline}
    (h : Opened bindings openSource (projections.map .project) states pipeline) :
    pipeline.stages = projections.map .project := by
  induction projections generalizing states pipeline with
  | nil =>
      cases h
      rfl
  | cons fields inner ih =>
      cases h with
      | @stage _ state stage _ _ pipeline hstage hinner =>
          cases state <;> cases hstage
          exact congrArg (_ :: ·) (ih hinner)

/-! ### Ticks -/

/-- A projection sends on the image of a row. -/
theorem projected_of_accept {fields : CompiledFields} {row : Row} {signal : Signal}
    (h : ((Stage.project fields).accept bindings row).result = .ok signal) :
    ∃ image, projected bindings fields row = .ok image ∧ signal = .row image ∧
      ((Stage.project fields).accept bindings row).state = .project fields := by
  rw [Stage.projected_eq]
  generalize hown : (Stage.project fields).accept bindings row = own at h ⊢
  cases Stage.accept_inv hown with
  | projected hvalues =>
      cases h
      exact ⟨_, congrArg (Except.map Row.ofList) hvalues, rfl, rfl⟩
  | unprojected => cases h

/-- A row that the source sends on comes out as its image, and every other signal as it is. -/
theorem tick_of_projections {source : Source} {signal : Signal}
    (h : (tickStages bindings source (projections.map .project)).result = .ok signal) :
    (tickStages bindings source (projections.map .project)).state =
        ⟨projections.map .project, source.next.state⟩ ∧
      ∃ below, source.next.result = .ok below ∧
        AreImages bindings projections below.rows signal.rows ∧
        (signal.rows = [] → below = signal) := by
  induction projections generalizing signal with
  | nil =>
      refine ⟨rfl, signal, h, ?_, fun _ => rfl⟩
      exact List.forall₂_same.2 fun _ _ => rfl
  | cons fields inner ih =>
      rw [List.map_cons] at h ⊢
      cases tickStages_inv h with
      | own hready => cases hready
      | @passed middle _ _ hbelow hpass hstate =>
          obtain ⟨hinner, below, hnext, himages, hsame⟩ := ih hbelow
          rw [hstate, hinner]
          cases middle with
          | row row =>
              obtain ⟨image, himage, rfl, hstage⟩ := projected_of_accept hpass
              obtain ⟨first, others, hfirst, hothers, hrows⟩ :=
                List.forall₂_cons_right_iff.1 himages
              refine ⟨congrArg (wrap · _) hstage, below, hnext, ?_, nofun⟩
              rw [hrows]
              exact .cons (bind_eq_ok_iff.2 ⟨row, hfirst, himage⟩) (by cases hothers; exact .nil)
          | exhausted | fetch | again =>
              cases hpass
              refine ⟨rfl, below, hnext, ?_, hsame⟩
              cases hsame rfl
              exact .nil

end Pipeline

/-! ### Steps of batches -/

/-- Whether an open execution of projections over an unordered scan has not taken lists of rows of
its shards yet, read from a table in a state of the shards. -/
structure Execution.Projects (bindings : Bindings) (projections : List CompiledFields)
    (table : String) (ahead : σ → ShardId → Option Cursor → List Row → Prop)
    (execution : Execution) (shards : σ) (lists : List (List Row)) : Prop where
  /-- The execution goes on. -/
  unfinished : execution.finished = false
  /-- The variables are the given ones. -/
  bindings : execution.bindings = bindings
  /-- The rows come from the table. -/
  table : execution.plan.scan.table = table
  /-- They come in any order, and shards can be asked. -/
  delivery : ∃ fanOut, execution.pipeline.source.delivery = .anyOrder (fanOut + 1)
  /-- No shard is read twice. -/
  distinct : (execution.pipeline.source.shards.map (·.shard)).Nodup
  /-- The stages are the projections. -/
  stages : execution.pipeline.stages = projections.map .project
  /-- The source still delivers the rows. -/
  rows : execution.pipeline.source.Ahead (ahead shards) lists

namespace BatchRun

open Execution

variable {reader : ShardReader σ} {table : String}
  {ahead : σ → ShardId → Option Cursor → List Row → Prop} {run : BatchRun σ}
  {lists : List (List Row)}

/-- A booked tick takes a row from the front of a shard and sends on its image, or neither. -/
theorem projects_of_booked {m : Memory} {p : Pipeline} {signal : Signal}
    (h : run.execution.Projects bindings projections table ahead run.shards lists)
    (hb : run.booked = (m, p, .ok signal)) :
    ∃ taken left,
      (run.moved m p).execution.Projects bindings projections table ahead run.shards left ∧
      Takes lists taken left ∧
      AreImages bindings projections taken signal.rows ∧
      (signal = .exhausted → ∀ list ∈ left, list = []) := by
  obtain ⟨-, rfl, hsignal⟩ := Metered.run_eq_ok_iff.1 hb
  obtain ⟨fanOut, hdelivery⟩ := h.delivery
  have hscan := run.execution.pipeline.sameScan_tick run.execution.bindings
  have htick := hsignal
  rw [Pipeline.tick, h.stages] at htick
  obtain ⟨hstate, below, hnext, himages, hsame⟩ := Pipeline.tick_of_projections htick
  obtain ⟨left, hahead, htakes, hend⟩ :=
    Source.takes_of_next_anyOrder hdelivery h.rows hnext
  rw [h.bindings] at himages
  rw [← h.stages, ← Pipeline.tick] at hstate
  refine ⟨below.rows, left, ⟨h.unfinished, h.bindings, h.table, ?_, ?_, ?_, ?_⟩, htakes, himages,
    ?_⟩
  · exact ⟨fanOut, hscan.delivery ▸ hdelivery⟩
  · exact hscan.shards ▸ h.distinct
  · exact (congrArg Pipeline.stages hstate).trans h.stages
  · exact (congrArg Pipeline.source hstate).symm ▸ hahead
  · rintro rfl
    exact hend (hsame rfl)

/-- The answers of a round, all of them taken in, leave the rows that have not been taken. -/
theorem projects_of_installed (hserves : reader.Serves table ahead) {m : Memory} {p : Pipeline}
    {wanted : List Nat}
    (h : run.execution.Projects bindings projections table ahead run.shards lists)
    (hnodup : wanted.Nodup)
    (hwanted : ∀ index ∈ wanted, ∃ progress,
      run.execution.pipeline.source.shards[index]? = some progress ∧ progress.needsFetch = true)
    (hi : run.installed reader wanted = (m, p, .ok ())) :
    ((run.answered reader wanted).moved m p).execution.Projects bindings projections table ahead
      (run.answered reader wanted).shards lists := by
  obtain ⟨fanOut, hdelivery⟩ := h.delivery
  obtain ⟨hahead, hscan, hstages⟩ :=
    ahead_of_installed hserves h.table h.distinct h.rows hnodup hwanted hi
  exact ⟨h.unfinished, h.bindings, h.table, ⟨fanOut, hscan.delivery ▸ hdelivery⟩,
    hscan.shards ▸ h.distinct, hstages.trans h.stages, hahead⟩

/-- One step of a batch takes rows from the fronts of the shards and sends on their images. At the
end of the rows all of them have been taken. -/
theorem projects_of_moves (hserves : reader.Serves table ahead) {next : BatchRun σ}
    {reason : Option BatchEnd}
    (h : run.execution.Projects bindings projections table ahead run.shards lists)
    (hmove : Moves reader run next reason) (hreason : ∀ error, reason ≠ some (.failed error)) :
    ∃ taken left images,
      next.execution.Projects bindings projections table ahead next.shards left ∧
      Takes lists taken left ∧ AreImages bindings projections taken images ∧
      next.rows.reverse = run.rows.reverse ++ images ∧
      (reason = some .exhausted → ∀ list ∈ left, list = []) := by
  cases hmove with
  | full => exact ⟨[], lists, [], h, .none _, .nil, (List.append_nil _).symm, nofun⟩
  | broken | idle | noTime | late | refused => exact absurd rfl (hreason _)
  | row _ hb =>
      obtain ⟨taken, left, hleft, htakes, himages, -⟩ := projects_of_booked h hb
      exact ⟨taken, left, _, hleft, htakes, himages, List.reverse_cons, nofun⟩
  | exhausted _ hb =>
      obtain ⟨taken, left, hleft, htakes, himages, hend⟩ := projects_of_booked h hb
      exact ⟨taken, left, _, hleft, htakes, himages, (List.append_nil _).symm, fun _ => hend rfl⟩
  | again _ hb | noRound _ hb =>
      obtain ⟨taken, left, hleft, htakes, himages, -⟩ := projects_of_booked h hb
      exact ⟨taken, left, _, hleft, htakes, himages, (List.append_nil _).symm, nofun⟩
  | round _ hb _ _ _ _ hi =>
      obtain ⟨taken, left, hleft, htakes, himages, -⟩ := projects_of_booked h hb
      obtain ⟨hnodup, hneeds⟩ := needsFetch_of_booked hb
      exact ⟨taken, left, _, projects_of_installed hserves hleft hnodup hneeds hi, htakes, himages,
        (List.append_nil _).symm, nofun⟩

/-- So do all steps of a batch, one after the other, up to its end. -/
theorem projects_of_steps (hserves : reader.Serves table ahead) {budget : Nat} {last : BatchRun σ}
    {reason : BatchEnd}
    (h : run.execution.Projects bindings projections table ahead run.shards lists)
    (hsteps : run.steps reader budget = some (last, reason))
    (hreason : ∀ error, reason ≠ .failed error) :
    ∃ taken left images,
      last.execution.Projects bindings projections table ahead last.shards left ∧
      Takes lists taken left ∧ AreImages bindings projections taken images ∧
      last.rows.reverse = run.rows.reverse ++ images ∧
      (reason = .exhausted → ∀ list ∈ left, list = []) := by
  induction budget generalizing run lists with
  | zero => cases hsteps
  | succ budget ih =>
      rw [steps] at hsteps
      rcases hs : run.step reader with ⟨next, _ | reason'⟩ <;> rw [hs] at hsteps
      · obtain ⟨taken, middle, images, hnext, htakes, himages, hrows, -⟩ :=
          projects_of_moves hserves h (moves_of_step hs) (by simp)
        obtain ⟨others, left, images', hlast, htakes', himages', hrows', hend⟩ := ih hnext hsteps
        refine ⟨taken ++ others, left, images ++ images', hlast, htakes.append htakes',
          List.rel_append himages himages', ?_, hend⟩
        rw [hrows', hrows, List.append_assoc]
      · cases hsteps
        obtain ⟨taken, left, images, hlast, htakes, himages, hrows, hend⟩ :=
          projects_of_moves hserves h (moves_of_step hs)
            fun error heq => hreason error (Option.some.inj heq)
        exact ⟨taken, left, images, hlast, htakes, himages, hrows,
          fun heq => hend (congrArg some heq)⟩

end BatchRun

/-! ### Batches -/

namespace Execution

variable {reader : ShardReader σ} {table : String}
  {ahead : σ → ShardId → Option Cursor → List Row → Prop} {execution : Execution} {shards : σ}
  {lists : List (List Row)}

/-- An execution that goes on under other options projects the same rows. -/
theorem Projects.continues {next : Execution}
    (h : execution.Projects bindings projections table ahead shards lists)
    (hnext : execution.Continues next) :
    next.Projects bindings projections table ahead shards lists := by
  obtain ⟨hplan, hbindings, hpipeline, hunfinished⟩ := hnext
  refine ⟨hunfinished, hbindings.trans h.bindings, hplan ▸ h.table, ?_, ?_, ?_, ?_⟩ <;>
    rw [hpipeline]
  · exact h.delivery
  · exact h.distinct
  · exact h.stages
  · exact h.rows

/-- A batch without an error gives the images of rows from the fronts of the shards; after the last
one no rows are left. -/
theorem projects_of_nextBatch (hserves : reader.Serves table ahead) {budget : Nat}
    {outcome : BatchOutcome σ} {batch : Batch}
    (h : execution.Projects bindings projections table ahead shards lists)
    (hbatch : execution.nextBatch reader budget shards = some outcome)
    (hresult : outcome.result = .ok batch) :
    ∃ taken left, Takes lists taken left ∧ AreImages bindings projections taken batch.rows ∧
      (batch.token = none → ∀ list ∈ left, list = []) ∧
      (batch.token ≠ none →
        outcome.execution.Projects bindings projections table ahead outcome.shards left) := by
  obtain ⟨hfinished, -⟩ | ⟨-, last, reason, hsteps, rfl⟩ := ended_of_nextBatch hbatch
  · cases h.unfinished.symm.trans hfinished
  cases reason with
  | failed error => cases hresult
  | exhausted =>
      obtain ⟨taken, left, images, -, htakes, himages, hrows, hend⟩ :=
        BatchRun.projects_of_steps hserves h hsteps (by simp)
      cases hresult
      exact ⟨taken, left, htakes, hrows ▸ himages, fun _ => hend rfl, fun hne => absurd rfl hne⟩
  | full =>
      obtain ⟨taken, left, images, hlast, htakes, himages, hrows, -⟩ :=
        BatchRun.projects_of_steps hserves h hsteps (by simp)
      cases hresult
      refine ⟨taken, left, htakes, hrows ▸ himages, fun hnone => ?_, fun _ => ?_⟩
      · simp [token?, hlast.unfinished] at hnone
      · exact ⟨hlast.unfinished, hlast.bindings, hlast.table, hlast.delivery, hlast.distinct,
          hlast.stages, hlast.rows⟩

/-- All batches of an execution give the images of an interleaving of the rows of the shards. -/
theorem interleaves_of_collects (hserves : reader.Serves table ahead) {out : List Row}
    (h : execution.Projects bindings projections table ahead shards lists)
    (hcollects : execution.Collects reader shards out) :
    ∃ rows, Interleaves lists rows ∧ AreImages bindings projections rows out := by
  induction hcollects generalizing lists with
  | last hbatch hresult =>
      obtain ⟨taken, left, htakes, himages, hend, -⟩ :=
        projects_of_nextBatch hserves h hbatch hresult
      exact ⟨taken, ⟨left, htakes, hend rfl⟩, himages⟩
  | more hbatch hresult hnext _ ih =>
      obtain ⟨taken, middle, htakes, himages, -, hmore⟩ :=
        projects_of_nextBatch hserves h hbatch hresult
      obtain ⟨others, ⟨left, htakes', hleft⟩, himages'⟩ := ih ((hmore nofun).continues hnext)
      exact ⟨taken ++ others, ⟨left, htakes.append htakes', hleft⟩,
        List.rel_append himages himages'⟩

/-! ### Queries -/

variable {engine : Engine} {query : Query} {fresh : Uuid} {contents : ShardId → List Row}

/-- At the start no row has been taken yet. -/
theorem projects_of_start (htoken : query.token = none)
    (hstart : start engine query fresh = .ok execution)
    (hordered : query.plan.scan.ordered = false)
    (hkinds : ∀ step ∈ query.plan.steps, step.kind = .project)
    (hcontents : ∀ shard ∈ query.plan.scan.shards, ahead shards shard none (contents shard)) :
    ∃ projections : List CompiledFields,
      compileSteps engine.registry query.plan.steps = .ok (projections.map .project) ∧
      execution.Projects query.bindings projections query.plan.scan.table ahead shards
        (query.plan.scan.shards.map contents) := by
  obtain ⟨steps, hstarted⟩ := exists_started_of_start htoken hstart
  obtain ⟨projections, rfl⟩ := exists_projections hstarted.compile hkinds
  have hopened := hstarted.openedNodes
  have hfounded := founded_of_start htoken hstart
  refine ⟨projections, hstarted.compile, hstarted.finished_eq, hstarted.bindings_eq,
    by rw [hstarted.plan_eq], ?_, nodup_shards_of_start htoken hstart,
    hopened.stages_of_projections, ahead_of_start htoken hstart hcontents⟩
  have hdelivery := hfounded.delivery_eq
  rw [hstarted.plan_eq, Plan.delivery_of_projections hordered hkinds] at hdelivery
  obtain ⟨fanOut, hfanOut⟩ := Nat.exists_eq_add_one_of_ne_zero
    fun hzero => hfounded.fair (hdelivery.trans (congrArg Delivery.anyOrder hzero))
  exact ⟨fanOut, hdelivery.trans (congrArg Delivery.anyOrder hfanOut)⟩

/-- **Projections of an unordered scan give every row of every shard once, in the order of the
shard.** A plan of projections is run over shards whose rows are served page by page. When a run
comes to its end without an error, however many shards are asked at once and wherever pages and
batches end, its rows are an interleaving of the images of the rows of the shards: together they are
these images, and those of each shard stand in its own order. -/
theorem interleaves_shards {out : List Row} (htoken : query.token = none)
    (hstart : start engine query fresh = .ok execution)
    (hordered : query.plan.scan.ordered = false)
    (hkinds : ∀ step ∈ query.plan.steps, step.kind = .project)
    (hserves : reader.Serves query.plan.scan.table ahead)
    (hcontents : ∀ shard ∈ query.plan.scan.shards, ahead shards shard none (contents shard))
    (hcollects : execution.Collects reader shards out) :
    ∃ compiled images, compileSteps engine.registry query.plan.steps = .ok compiled ∧
      List.Forall₂ (fun shard rows =>
        rowsOfSteps query.bindings (contents shard) compiled = .ok rows)
        query.plan.scan.shards images ∧
      Interleaves images out ∧ out.Perm images.flatten ∧ ∀ rows ∈ images, rows.Sublist out := by
  obtain ⟨projections, hcompile, hprojects⟩ :=
    projects_of_start htoken hstart hordered hkinds hcontents
  obtain ⟨rows, hrows, himages⟩ := interleaves_of_collects hserves hprojects hcollects
  obtain ⟨images, hall, hout⟩ := hrows.images himages
  refine ⟨_, images, hcompile, ?_, hout, hout.perm, fun rows hmem => hout.sublist hmem⟩
  exact (List.forall₂_map_left_iff.1 hall).imp fun _ _ h => rowsOfSteps_of_areImages h

/-- Two shards with rows on pages, one of which is empty. -/
def unevenPages : Recorded where
  answers := [
    (1, [.ok ⟨[Engine.keyedRow 0 1], some [0]⟩, .ok ⟨[], some [1]⟩,
      .ok ⟨[Engine.keyedRow 0 2, Engine.keyedRow 0 3], none⟩]),
    (2, [.ok ⟨[Engine.keyedRow 1 4], some [0]⟩, .ok ⟨[Engine.keyedRow 1 5], none⟩])]

/-- The numbers of both shards, in two batches, the first of which ends in the middle of the first
shard. -/
theorem interleaves_unevenPages :
    Interleaves [[Engine.numberedRow 1, Engine.numberedRow 2, Engine.numberedRow 3],
        [Engine.numberedRow 4, Engine.numberedRow 5]]
      ([Engine.numberedRow 1, Engine.numberedRow 4, Engine.numberedRow 5] ++
        [Engine.numberedRow 2, Engine.numberedRow 3]) := by
  have hcollects : Engine.numbersStart.Collects Recorded.reader unevenPages
      ([Engine.numberedRow 1, Engine.numberedRow 4, Engine.numberedRow 5] ++
        [Engine.numberedRow 2, Engine.numberedRow 3]) :=
    @Collects.more _ _ _ _ _ 12 _ _ _ _ rfl rfl ⟨rfl, rfl, rfl, rfl⟩
      (@Collects.last _ _ _ _ 12 _ _ rfl rfl)
  obtain ⟨compiled, images, hcompile, himages, hinterleaves, -⟩ :=
    @interleaves_shards _ _ _ _ _ Engine.collecting
      (Engine.twoShardScan [Engine.numbers] (some 3)) ⟨0⟩ _ _ rfl rfl rfl
      (List.forall_mem_singleton.2 rfl) (Recorded.serves "t") (fun _ _ => rfl) hcollects
  obtain rfl : compiled = [.project [("n", .column "n")]] :=
    Except.ok.inj (hcompile.symm.trans rfl)
  obtain ⟨first, _, hfirst, hothers, rfl⟩ := List.forall₂_cons_left_iff.1 himages
  obtain ⟨second, _, hsecond, hnil, rfl⟩ := List.forall₂_cons_left_iff.1 hothers
  obtain rfl := List.forall₂_nil_left_iff.1 hnil
  cases hfirst.symm.trans rfl
  cases hsecond.symm.trans rfl
  exact hinterleaves

end Execution

end ShardQuery
