import Mathlib.Data.Multiset.MapFold
import ShardQuery.Proofs.Completeness
import ShardQuery.Proofs.Formula
import ShardQuery.Proofs.Meaning.Interleaving
import ShardQuery.Proofs.Requests.Discipline
import ShardQuery.Proofs.Row.Order

/-!
# What Is Due

A sort sends on the rows that it takes, and a projection one image of each of them. Steps of these
two kinds are rowwise: what they make of a row does not depend on the others. So what a pipeline of
rowwise stages still sends on is, but for the order, made up of the images of the rows that it
holds and of those that are still to come, in whatever order they arrive: its dues. Every row that
is sent on is taken off the dues, and nothing else changes them. Rereading the states changes them
no more than the reading of documents does.

Main definitions:

* `Image` — what rowwise steps make of a row;
* `Stage.due`, `Pipeline.dueOfStages` — what stages still send on, in whatever order;
* `Pipeline.Due` — what a pipeline still sends on.

## Main results

* `Pipeline.pays_of_tickStages`: one tick of a pipeline.
* `Pipeline.Opened.due_reread`: the dues of a pipeline that goes on with reread states.
-/

namespace ShardQuery

variable {σ : Type}

/-- What rowwise steps make of a row, or why they fail on it. -/
abbrev Image : Type :=
  Except QueryError Row

namespace Image

/-- An image with the canonical non-number in the place of all others. -/
def canonical (image : Image) : Image :=
  image.map Row.canonical

/-- Rows as images, in whatever order: dues are multisets, so that the order in which shards answer
does not show in them. -/
def ofRows (rows : List Row) : Multiset Image :=
  Multiset.ofList (rows.map Except.ok)

/-- The first row is one more image. -/
theorem ofRows_cons (row : Row) (rows : List Row) :
    ofRows (row :: rows) = .ok row ::ₘ ofRows rows :=
  rfl

/-- The images of rows and other rows are the images of both together. -/
theorem ofRows_append (rows others : List Row) :
    ofRows (rows ++ others) = ofRows rows + ofRows others := by
  rw [ofRows, List.map_append, ← Multiset.coe_add]
  rfl

/-- Rows are the same images exactly if they are permutations of each other, which is what the final
statement about runs is read off. -/
theorem ofRows_eq_iff {rows others : List Row} :
    ofRows rows = ofRows others ↔ rows.Perm others :=
  Multiset.coe_eq_coe.trans (List.map_perm_map_iff fun _ _ => Except.ok.inj)

/-- Canonical images of rows are the images of the canonical rows. -/
theorem map_canonical_ofRows (rows : List Row) :
    (ofRows rows).map canonical = ofRows (rows.map Row.canonical) := by
  rw [ofRows, ofRows, Multiset.map_coe, List.map_map, List.map_map]
  rfl

/-- The images of rows are these rows, and no failures. -/
theorem ok_mem_ofRows {row : Row} {rows : List Row} : .ok row ∈ ofRows rows ↔ row ∈ rows := by
  simp [ofRows]

/-- Whether the rows among images are plain. Images that are failures are no matter. -/
def ArePlain (images : Multiset Image) : Prop :=
  ∀ row, .ok row ∈ images → row.IsPlain

/-- The images of rows are plain exactly if the rows are. -/
theorem arePlain_ofRows {rows : List Row} : ArePlain (ofRows rows) ↔ ∀ row ∈ rows, row.IsPlain :=
  forall_congr' fun _ => imp_congr_left ok_mem_ofRows

end Image

open Image

/-- Whether a signal is what is taken off the dues. -/
def Signal.Pays : Signal → Multiset Image → Multiset Image → Prop
  | .row r, before, after => before = .ok r ::ₘ after
  | .exhausted, before, after => before = 0 ∧ after = 0
  | .fetch _, before, after | .again, before, after => before = after

/-- What is left to be sent on is plain if all that was due before is. -/
theorem Signal.Pays.arePlain {signal : Signal} {before after : Multiset Image}
    (h : signal.Pays before after) (hplain : ArePlain before) : ArePlain after := by
  cases signal with
  | row r =>
      obtain rfl : before = .ok r ::ₘ after := h
      exact fun row hmem => hplain row (Multiset.mem_cons_of_mem hmem)
  | exhausted =>
      obtain ⟨-, rfl⟩ := h
      exact fun row hmem => absurd hmem (Multiset.notMem_zero _)
  | fetch | again =>
      obtain rfl : before = after := h
      exact hplain

/-- A signal that stands between two lists of rows is taken off the one, in whatever order they
are. -/
theorem Signal.Yields.pays {signal : Signal} {before after rows others : List Row}
    (h : signal.Yields before after) (hbefore : before.Perm rows) (hafter : after.Perm others) :
    signal.Pays (ofRows rows) (ofRows others) := by
  rw [← ofRows_eq_iff.2 hbefore, ← ofRows_eq_iff.2 hafter]
  cases signal with
  | row | fetch | again => exact congrArg ofRows h
  | exhausted => exact h.imp (congrArg ofRows) (congrArg ofRows)

/-! ### Stages -/

namespace Stage

/-- Whether a stage is rowwise, and all that it holds is plain. -/
def IsRowwise : Stage → Prop
  | .sort _ _ state => ∀ row ∈ state.buffer, row.IsPlain
  | .project fields => ∀ field ∈ fields, field.2.IsPlain
  | .groupBy .. | .distinct .. | .slice .. => False

variable (bindings : Bindings)

/-- What a rowwise stage still sends on, given what is still to come from below. -/
def due (below : Multiset Image) : Stage → Multiset Image
  | .sort _ .materialize state => ofRows state.buffer + if state.sorted then 0 else below
  | .project fields => below.map (· >>= Meaning.projected bindings fields)
  | .sort _ .merge _ | .groupBy .. | .distinct .. | .slice .. => below

variable {bindings}

/-- A sort that has sorted owes what is in its buffer, and no more. -/
theorem due_of_sorted {keys : List OrderKey} {state : SortState} (h : state.sorted = true)
    (below : Multiset Image) :
    due bindings below (.sort keys .materialize state) = ofRows state.buffer := by
  rw [due, if_pos h, add_zero]

/-- A sort that still collects owes what it holds and all that comes from below. -/
theorem due_of_unsorted {keys : List OrderKey} {state : SortState} (h : state.sorted = false)
    (below : Multiset Image) :
    due bindings below (.sort keys .materialize state) = ofRows state.buffer + below := by
  rw [due, if_neg (by simp [h])]

/-- What a rowwise stage says by itself is taken off its dues. -/
theorem pays_of_ready {stage : Stage} {own : Metered Stage Signal} {signal : Signal}
    (hrowwise : stage.IsRowwise) (hready : stage.ready? = some own)
    (hsignal : own.result = .ok signal) (below : Multiset Image) :
    own.state.IsRowwise ∧
      signal.Pays (due bindings below stage) (due bindings below own.state) := by
  cases ready_inv hready with
  | ends hend =>
      cases hsignal
      cases hend with
      | @sort keys state hsorted hb =>
          have hdue : due bindings below (.sort keys .materialize state) = 0 := by
            rw [due_of_sorted hsorted, hb]
            rfl
          exact ⟨hrowwise, hdue, hdue⟩
      | groupBy | slice => exact hrowwise.elim
  | @pops keys state row rows hsorted hb =>
      cases hsignal
      refine ⟨fun other hmem => hrowwise other (hb ▸ List.mem_cons_of_mem row hmem), ?_⟩
      rw [due_of_sorted hsorted, hb, Metered.after_state, Metered.done_state,
        due_of_sorted (by exact hsorted)]
      rfl

/-- What a rowwise stage does with a row is taken off its dues. -/
theorem pays_of_accept {stage : Stage} {row : Row} {signal : Signal} {after : Multiset Image}
    (hrowwise : stage.IsRowwise) (hready : stage.ready? = none) (hrow : row.IsPlain)
    (hsignal : (stage.accept bindings row).result = .ok signal) :
    (stage.accept bindings row).state.IsRowwise ∧
      signal.Pays (due bindings (.ok row ::ₘ after) stage)
        (due bindings after (stage.accept bindings row).state) := by
  generalize hown : stage.accept bindings row = own at hsignal ⊢
  cases accept_inv hown with
  | merged =>
      cases hsignal
      exact ⟨hrowwise, rfl⟩
  | @kept keys state =>
      have hsorted := sorted_eq_false hready
      cases hsignal
      refine ⟨List.forall_mem_append.2 ⟨hrowwise, List.forall_mem_singleton.2 hrow⟩, ?_⟩
      simp only [Signal.Pays, Metered.after_state, Metered.done_state]
      rw [due_of_unsorted hsorted, due_of_unsorted (by exact hsorted), ofRows_append, add_assoc]
      rfl
  | @projected fields values hvalues =>
      cases hsignal
      refine ⟨hrowwise, ?_⟩
      simp only [Signal.Pays, due, Multiset.map_cons, Metered.done_state]
      refine congrArg (· ::ₘ _) ?_
      exact (projected_eq fields row).trans (congrArg (Except.map Row.ofList) hvalues)
  | unprojected => cases hsignal
  | unsorted | refused | grouped | same | changed | seen | unseen | skipped | sliced =>
      exact hrowwise.elim

/-- What a rowwise stage does at the end of the rows is taken off its dues. -/
theorem pays_of_finish {stage : Stage} {signal : Signal} (hrowwise : stage.IsRowwise)
    (hready : stage.ready? = none) (hsignal : stage.finish.result = .ok signal) :
    stage.finish.state.IsRowwise ∧
      signal.Pays (due bindings 0 stage) (due bindings 0 stage.finish.state) := by
  cases stage with
  | sort keys mode state =>
      cases mode with
      | merge =>
          cases hsignal
          exact ⟨hrowwise, rfl, rfl⟩
      | materialize =>
          have hsorted := sorted_eq_false hready
          cases hsignal
          refine ⟨fun row hmem => hrowwise row (Row.mem_sortBy.1 hmem), ?_⟩
          simp only [Signal.Pays]
          rw [due_of_unsorted hsorted, finish, Metered.done_state, due_of_sorted (by rfl),
            ofRows_eq_iff.2 (Row.perm_sortBy keys state.buffer), add_zero]
  | project fields =>
      cases hsignal
      exact ⟨hrowwise, rfl, rfl⟩
  | groupBy | distinct | slice => exact hrowwise.elim

/-- What a rowwise stage does with a signal from below is taken off its dues. -/
theorem pays_of_pass {stage : Stage} {below signal : Signal} {before after : Multiset Image}
    (hrowwise : stage.IsRowwise) (hready : stage.ready? = none) (hplain : ArePlain before)
    (hbelow : below.Pays before after)
    (hsignal : (Pipeline.pass bindings below stage).result = .ok signal) :
    (Pipeline.pass bindings below stage).state.IsRowwise ∧
      signal.Pays (due bindings before stage)
        (due bindings after (Pipeline.pass bindings below stage).state) := by
  cases below with
  | row row =>
      obtain rfl : before = .ok row ::ₘ after := hbelow
      exact pays_of_accept hrowwise hready (hplain row (Multiset.mem_cons_self _ _)) hsignal
  | exhausted =>
      obtain ⟨rfl, rfl⟩ := hbelow
      exact pays_of_finish hrowwise hready hsignal
  | fetch | again =>
      obtain rfl : before = after := hbelow
      cases hsignal
      exact ⟨hrowwise, rfl⟩

/-- What a rowwise stage owes is plain if what comes from below is, since formulas over plain values
give plain ones. -/
theorem arePlain_due (hbindings : bindings.IsPlain) {stage : Stage}
    (hrowwise : stage.IsRowwise) {below : Multiset Image} (hplain : ArePlain below) :
    ArePlain (due bindings below stage) := by
  cases stage with
  | sort keys mode state =>
      cases mode with
      | merge => exact hplain
      | materialize =>
          intro row hmem
          rcases Multiset.mem_add.1 hmem with hheld | hbelow
          · exact hrowwise row (ok_mem_ofRows.1 hheld)
          · split at hbelow
            · exact absurd hbelow (Multiset.notMem_zero _)
            · exact hplain row hbelow
  | project fields =>
      intro row hmem
      obtain ⟨image, himage, heq⟩ := Multiset.mem_map.1 hmem
      obtain ⟨before, rfl, hprojected⟩ := bind_eq_ok_iff.1 heq
      rw [projected_eq] at hprojected
      cases hvalues : projectFields before bindings fields with
      | error error =>
          rw [hvalues] at hprojected
          cases hprojected
      | ok values =>
          rw [hvalues] at hprojected
          cases hprojected
          exact Row.isPlain_ofList
            (areFieldsPlain_of_projectFields hbindings (hplain before himage) hrowwise hvalues)
  | groupBy | distinct | slice => exact hrowwise.elim

end Stage

/-! ### Sources -/

namespace Source

/-- However rows are delivered, they are the rows of the lists, in some order. -/
theorem perm_rowsOf (delivery : Delivery) (lists : List (List Row)) :
    (delivery.rowsOf lists).Perm lists.flatten := by
  cases delivery with
  | merged keys => exact Meaning.perm_merged keys lists
  | inOrder | anyOrder => exact .refl _

variable {ahead : ShardId → Option Cursor → List Row → Prop} {source : Source}
  {lists : List (List Row)}

/-- In any order, the rows that are taken from the fronts of the shards are taken off those that are
still delivered. -/
theorem pays_of_next_anyOrder {fanOut : Nat} {signal : Signal}
    (hdelivery : source.delivery = .anyOrder (fanOut + 1)) (h : source.Ahead ahead lists)
    (hsignal : source.next.result = .ok signal) :
    ∃ lists', source.next.state.Ahead ahead lists' ∧
      signal.Pays (ofRows lists.flatten) (ofRows lists'.flatten) := by
  obtain ⟨lists', hahead, htakes, hend⟩ := takes_of_next_anyOrder hdelivery h hsignal
  refine ⟨lists', hahead, ?_⟩
  have hperm := ofRows_eq_iff.2 htakes.perm
  cases signal with
  | row row => exact hperm
  | exhausted =>
      have hnil := List.flatten_eq_nil_iff.2 (hend rfl)
      rw [hnil] at hperm ⊢
      exact ⟨hperm, rfl⟩
  | fetch | again => exact hperm

/-- The signals of a source are taken off the rows that it still delivers, however these are
delivered. -/
theorem pays_of_next {signal : Signal} (hfair : source.delivery ≠ .anyOrder 0)
    (h : source.Ahead ahead lists) (hsignal : source.next.result = .ok signal) :
    ∃ lists', source.next.state.Ahead ahead lists' ∧
      signal.Pays (ofRows lists.flatten) (ofRows lists'.flatten) := by
  cases hdelivery : source.delivery with
  | anyOrder fanOut =>
      cases fanOut with
      | zero => exact absurd hdelivery hfair
      | succ fanOut => exact pays_of_next_anyOrder hdelivery h hsignal
  | inOrder | merged =>
      obtain ⟨lists', hyields⟩ := yields_of_next (by simp [hdelivery]) h hsignal
      exact ⟨lists', hyields.ahead, hyields.rows.pays (perm_rowsOf _ _) (perm_rowsOf _ _)⟩

end Source

/-! ### Pipelines -/

namespace Pipeline

/-- What stages still send on, in whatever order, given the rows that are still delivered to the
innermost. -/
def dueOfStages (bindings : Bindings) (rows : List Row) : List Stage → Multiset Image
  | [] => ofRows rows
  | stage :: inner => stage.due bindings (dueOfStages bindings rows inner)

variable {bindings : Bindings} {ahead : ShardId → Option Cursor → List Row → Prop}

/-- What rowwise stages owe is plain, by induction from the source outwards. -/
theorem arePlain_dueOfStages (hbindings : bindings.IsPlain) {rows : List Row}
    (hrows : ∀ row ∈ rows, row.IsPlain) {stages : List Stage}
    (hrowwise : ∀ stage ∈ stages, stage.IsRowwise) :
    ArePlain (dueOfStages bindings rows stages) := by
  induction stages with
  | nil => exact arePlain_ofRows.2 hrows
  | cons stage inner ih =>
      obtain ⟨hstage, hinner⟩ := List.forall_mem_cons.1 hrowwise
      exact Stage.arePlain_due hbindings hstage (ih hinner)

/-- Whether images are what a pipeline of rowwise stages still sends on, in whatever order. All
that it holds and all that is ahead is plain. -/
structure Due (bindings : Bindings) (ahead : ShardId → Option Cursor → List Row → Prop)
    (pipeline : Pipeline) (images : Multiset Image) : Prop where
  /-- The stages are rowwise. -/
  rowwise : ∀ stage ∈ pipeline.stages, stage.IsRowwise
  /-- The images are those of the rows that are held and of those ahead. -/
  images : ∃ lists, pipeline.source.Ahead ahead lists ∧ (∀ row ∈ lists.flatten, row.IsPlain) ∧
    dueOfStages bindings lists.flatten pipeline.stages = images

/-- **The signals of a pipeline are taken off its dues.** -/
theorem pays_of_tickStages (hbindings : bindings.IsPlain) {source : Source}
    {stages : List Stage} {images : Multiset Image} {signal : Signal}
    (hfair : source.delivery ≠ .anyOrder 0) (hdue : Due bindings ahead ⟨stages, source⟩ images)
    (hsignal : (tickStages bindings source stages).result = .ok signal) :
    ∃ images', (tickStages bindings source stages).state.Due bindings ahead images' ∧
      signal.Pays images images' := by
  induction stages generalizing signal images with
  | nil =>
      obtain ⟨-, lists, hahead, hplain, rfl⟩ := hdue
      obtain ⟨lists', hahead', hpays⟩ := Source.pays_of_next hfair hahead hsignal
      have hplain' := arePlain_ofRows.1 (hpays.arePlain (arePlain_ofRows.2 hplain))
      exact ⟨_, ⟨nofun, lists', hahead', hplain', rfl⟩, hpays⟩
  | cons stage inner ih =>
      obtain ⟨hrowwise, lists, hahead, hplain, rfl⟩ := hdue
      obtain ⟨hstage, hinner⟩ := List.forall_mem_cons.1 hrowwise
      cases tickStages_inv hsignal with
      | own hready hown hnext =>
          obtain ⟨hstage', hpays⟩ := Stage.pays_of_ready hstage (ready?_of_result hready hown) hown
            (dueOfStages bindings lists.flatten inner)
          rw [hnext]
          exact ⟨_, ⟨List.forall_mem_cons.2 ⟨hstage', hinner⟩, lists, hahead, hplain, rfl⟩, hpays⟩
      | passed hready hbelow hpass hnext =>
          obtain ⟨_, ⟨hinner', lists', hahead', hplain', rfl⟩, hpays⟩ :=
            ih ⟨hinner, lists, hahead, hplain, rfl⟩ hbelow
          obtain ⟨hstage', hpays'⟩ := Stage.pays_of_pass hstage (ready?_of_readyOver? hready)
            (arePlain_dueOfStages hbindings hplain hinner) hpays hpass
          rw [hnext]
          exact ⟨_, ⟨List.forall_mem_cons.2 ⟨hstage', hinner'⟩, lists', hahead', hplain', rfl⟩,
            hpays'⟩

end Pipeline

/-! ### Reread states -/

namespace Stage

variable {bindings : Bindings}

/-- The fields of a projection come to the same canonical values on a row and on its canonical form,
or fail alike. -/
theorem projectFields_canonical (row : Row) (fields : List (String × Formula)) :
    (projectFields row.canonical bindings fields).map Value.canonicalFields =
      (projectFields row bindings fields).map Value.canonicalFields := by
  induction fields with
  | nil => rfl
  | cons field fields ih =>
      refine map_bind_congr (field.2.eval_canonical row bindings) fun a b hvalue => ?_
      refine map_bind_congr ih fun as bs hvalues => congrArg Except.ok ?_
      exact congrArg₂ List.cons (congrArg (Prod.mk field.1) hvalue) hvalues

/-- A projection does not tell a row from its canonical form. -/
theorem canonical_projected (fields : List (String × Formula)) (row : Row) :
    Image.canonical (Meaning.projected bindings fields row.canonical) =
      Image.canonical (Meaning.projected bindings fields row) := by
  have hcanonical (x : Except QueryError (List (String × Value))) :
      Image.canonical (x.map Row.ofList) = (x.map Value.canonicalFields).map Row.ofList := by
    cases x with
    | error => rfl
    | ok values => exact congrArg Except.ok (Row.canonical_ofList values)
  rw [projected_eq, projected_eq, hcanonical, hcanonical, projectFields_canonical]

/-- What a projection makes of images does not depend on their forms. -/
theorem map_canonical_projected (fields : List (String × Formula)) (images : Multiset Image) :
    (images.map (· >>= Meaning.projected bindings fields)).map Image.canonical =
      (images.map Image.canonical).map fun image =>
        Image.canonical (image >>= Meaning.projected bindings fields) := by
  rw [Multiset.map_map, Multiset.map_map]
  refine Multiset.map_congr rfl fun image _ => ?_
  cases image with
  | error => rfl
  | ok row => exact (canonical_projected fields row).symm

end Stage

/-- Rows that are reread, as a token makes them, are the same images in canonical form. -/
theorem Image.map_canonical_reread {rows : List Row} (h : ∀ row ∈ rows, row.IsPlain) :
    (ofRows (rows.map Row.reread)).map Image.canonical = (ofRows rows).map Image.canonical := by
  rw [map_canonical_ofRows, map_canonical_ofRows, List.map_map]
  refine congrArg ofRows (List.map_congr_left fun row hrow => ?_)
  rw [Function.comp_apply, Row.reread_of_isPlain (h row hrow), row.canonical_canonical]

/-- The dues of a rowwise stage stay when its state is reread. -/
theorem Stage.due_reread {bindings : Bindings} {step : CompiledStep} {state : NodeState}
    {stage stage' : Stage} (hopen : Pipeline.openStage? bindings step state = some (.ok stage))
    (hopen' : Pipeline.openStage? bindings step state.reread = some (.ok stage'))
    (hrowwise : stage.IsRowwise) :
    stage'.IsRowwise ∧ ∀ below below' : Multiset Image,
      below'.map Image.canonical = below.map Image.canonical →
      (due bindings below' stage').map Image.canonical =
        (due bindings below stage).map Image.canonical := by
  cases step with
  | sort keys mode =>
      cases state <;> cases hopen
      next state =>
        cases hopen'
        refine ⟨fun row hmem => ?_, fun below below' hbelow => ?_⟩
        · obtain ⟨before, hbefore, rfl⟩ := List.mem_map.1 hmem
          rw [Row.reread_of_isPlain (hrowwise before hbefore)]
          exact (hrowwise before hbefore).canonical
        · cases mode with
          | merge => exact hbelow
          | materialize =>
              simp only [due, Multiset.map_add]
              rw [Image.map_canonical_reread hrowwise]
              split
              · rfl
              · rw [hbelow]
  | project fields =>
      cases state <;> cases hopen
      cases hopen'
      refine ⟨hrowwise, fun below below' hbelow => ?_⟩
      rw [due, due, map_canonical_projected, map_canonical_projected, hbelow]
  | groupBy | distinct =>
      cases state <;> cases hopen
      exact hrowwise.elim
  | slice offset limit =>
      cases state with
      | slice state =>
          have hstate := Pipeline.state_of_openStage hopen
          cases stage with
          | slice => exact hrowwise.elim
          | sort | groupBy | distinct | project => cases hstate
      | receive | sort | groupBy | distinct | project => cases hopen

/-- The rows that shards still have stay when those that are held are reread. -/
theorem Source.ahead_reread {ahead : ShardId → Option Cursor → List Row → Prop}
    {source source' : Source} {lists : List (List Row)} (h : source.Ahead ahead lists)
    (hplain : ∀ row ∈ lists.flatten, row.IsPlain)
    (hshards : source'.shards = source.shards.map ShardProgress.reread) :
    ∃ lists', source'.Ahead ahead lists' ∧ (∀ row ∈ lists'.flatten, row.IsPlain) ∧
      (ofRows lists'.flatten).map Image.canonical =
        (ofRows lists.flatten).map Image.canonical := by
  suffices hall : ∃ lists', List.Forall₂ (fun progress list => progress.Ahead ahead list)
      (source.shards.map ShardProgress.reread) lists' ∧ (∀ row ∈ lists'.flatten, row.IsPlain) ∧
      (ofRows lists'.flatten).map Image.canonical =
        (ofRows lists.flatten).map Image.canonical by
    obtain ⟨lists', hahead, hrest⟩ := hall
    exact ⟨lists', ahead_of_forall₂ (hshards ▸ hahead), hrest⟩
  have hshard := h.forall₂
  generalize source.shards = shards at hshard
  clear h hshards
  induction hshard with
  | nil => exact ⟨[], .nil, nofun, rfl⟩
  | @cons progress list shards lists hfirst _ ih =>
      obtain ⟨others, rfl, hothers⟩ := hfirst
      rw [List.flatten_cons, List.append_assoc, List.forall_mem_append,
        List.forall_mem_append] at hplain
      obtain ⟨hbuffer, hlater, hlists⟩ := hplain
      obtain ⟨lists', hahead, hplain', hrows⟩ := ih hlists
      refine ⟨(progress.buffer.map Row.reread ++ others) :: lists',
        .cons ⟨others, rfl, hothers⟩ hahead, ?_, ?_⟩
      · rw [List.flatten_cons, List.append_assoc, List.forall_mem_append,
          List.forall_mem_append]
        refine ⟨List.forall_mem_map.2 fun row hmem => ?_, hlater, hplain'⟩
        rw [Row.reread_of_isPlain (hbuffer row hmem)]
        exact (hbuffer row hmem).canonical
      · simp only [List.flatten_cons, ofRows_append, Multiset.map_add]
        rw [hrows, Image.map_canonical_reread hbuffer]

namespace Pipeline

variable {bindings : Bindings} {ahead : ShardId → Option Cursor → List Row → Prop}
  {openSource openSource' : List ShardProgress → Source} {steps : List CompiledStep}
  {states : List NodeState} {pipeline pipeline' : Pipeline}

/-- Dues stay when all states of a pipeline are reread and opened again, up to the canonical form of
the rows. -/
theorem Opened.dueOfStages_reread (hopened : Opened bindings openSource steps states pipeline)
    (hopened' : Opened bindings openSource' steps (states.map NodeState.reread) pipeline')
    (hrowwise : ∀ stage ∈ pipeline.stages, stage.IsRowwise) {rows rows' : List Row}
    (hrows : (ofRows rows').map Image.canonical = (ofRows rows).map Image.canonical) :
    (∀ stage ∈ pipeline'.stages, stage.IsRowwise) ∧
      (dueOfStages bindings rows' pipeline'.stages).map Image.canonical =
        (dueOfStages bindings rows pipeline.stages).map Image.canonical := by
  induction hopened generalizing pipeline' with
  | source =>
      cases hopened' with
      | source => exact ⟨nofun, hrows⟩
  | stage hstage _ ih =>
      cases hopened' with
      | stage hstage' hinner' =>
          obtain ⟨hhere, hothers⟩ := List.forall_mem_cons.1 hrowwise
          obtain ⟨hhere', hdue⟩ := Stage.due_reread hstage hstage' hhere
          obtain ⟨hothers', hdues⟩ := ih hinner' hothers
          exact ⟨List.forall_mem_cons.2 ⟨hhere', hothers'⟩, hdue _ _ hdues⟩

/-- **The dues of a pipeline stay when it goes on with reread states**, the forms of rows aside. -/
theorem Opened.due_reread {images : Multiset Image}
    (hopened : Opened bindings openSource steps states pipeline)
    (hopened' : Opened bindings openSource' steps (states.map NodeState.reread) pipeline')
    (hshards : pipeline'.source.shards = pipeline.source.shards.map ShardProgress.reread)
    (hdue : pipeline.Due bindings ahead images) :
    ∃ images', pipeline'.Due bindings ahead images' ∧
      images'.map Image.canonical = images.map Image.canonical := by
  obtain ⟨hrowwise, lists, hahead, hplain, rfl⟩ := hdue
  obtain ⟨lists', hahead', hplain', hrows⟩ := Source.ahead_reread hahead hplain hshards
  obtain ⟨hrowwise', hdues⟩ := hopened.dueOfStages_reread hopened' hrowwise hrows
  exact ⟨_, ⟨hrowwise', lists', hahead', hplain', rfl⟩, hdues⟩

end Pipeline

end ShardQuery
