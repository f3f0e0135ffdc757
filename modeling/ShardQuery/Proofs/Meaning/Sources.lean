import Mathlib.Data.List.Nodup
import ShardQuery.Proofs.Meaning.Merge
import ShardQuery.Proofs.Meaning.Stages
import ShardQuery.Proofs.Source

/-!
# What Sources Still Deliver

A reader serves the rows of shards page by page, however it cuts them: `ShardReader.Serves`
says so of a relation between a place in a shard and the rows from there on. What a source
still delivers are its buffers and the rows behind its cursors.

## Main results

* `Source.yields_of_next`: the signals of a source are the rows that it still delivers.
* `Source.ahead_of_round`: a round of requests does not change what is still delivered.
-/

namespace ShardQuery

variable {σ : Type}

/-- Whether the rows of the shards of a table are served in order and page by page. `ahead`
says of a state, a shard and a cursor which rows are read from there on. -/
structure ShardReader.Serves (reader : ShardReader σ) (table : String)
    (ahead : σ → ShardId → Option Cursor → List Row → Prop) : Prop where
  /-- A page has the next rows, and a cursor to go on with unless there are no more. -/
  page {request : ShardRequest} {s s' : σ} {response : ShardResponse} {rows : List Row} :
    request.table = table → ahead s request.shard request.cursor rows →
    reader.answer request s = (.ok response, s') →
    ∃ others, rows = response.rows ++ others ∧
      match response.cursor with
      | none => others = []
      | some cursor => ahead s' request.shard (some cursor) others
  /-- An answer of one shard does not touch the rows of the others. -/
  others {request : ShardRequest} {s : σ} {shard : ShardId} {cursor : Option Cursor}
    {rows : List Row} :
    shard ≠ request.shard → ahead s shard cursor rows →
    ahead (reader.answer request s).2 shard cursor rows

/-- Whether every shard that has rows ahead answers when it is asked for the next of them. -/
def ShardReader.Answers (reader : ShardReader σ) (table : String)
    (ahead : σ → ShardId → Option Cursor → List Row → Prop) : Prop :=
  ∀ {request : ShardRequest} {s : σ} {rows : List Row}, request.table = table →
    ahead s request.shard request.cursor rows →
      ∃ response s', reader.answer request s = (.ok response, s')

/-- Whether rows are those that are still to be taken of a shard: its buffer, and the rows
behind its cursor if it has not come to its end. -/
def ShardProgress.Ahead (ahead : ShardId → Option Cursor → List Row → Prop)
    (progress : ShardProgress) (rows : List Row) : Prop :=
  ∃ others, rows = progress.buffer ++ others ∧
    if progress.exhausted then others = [] else ahead progress.shard progress.cursor others

/-- The rows that a delivery makes of those of its shards. -/
def Delivery.rowsOf (delivery : Delivery) (lists : List (List Row)) : List Row :=
  match delivery with
  | .merged keys => Meaning.merged keys lists
  | .inOrder | .anyOrder _ => lists.flatten

namespace Source

/-- Whether lists of rows are those that are still to be taken of the shards. -/
structure Ahead (ahead : ShardId → Option Cursor → List Row → Prop) (source : Source)
    (lists : List (List Row)) : Prop where
  /-- There is one list for every shard. -/
  length_eq : lists.length = source.shards.length
  /-- It has the rows of the shard. -/
  rows {index : Nat} {progress : ShardProgress} {list : List Row} :
    source.shards[index]? = some progress → lists[index]? = some list →
    progress.Ahead ahead list

/-- Whether two sources are of the same scan, with the same shards. -/
structure SameScan (a b : Source) : Prop where
  /-- The table is the same. -/
  table : a.table = b.table
  /-- The place in the plan is the same. -/
  position : a.position = b.position
  /-- The number of shards is the same. -/
  shardCount : a.shardCount = b.shardCount
  /-- The rows are delivered in the same way. -/
  delivery : a.delivery = b.delivery
  /-- The shards are the same. -/
  shards : a.shards.map (·.shard) = b.shards.map (·.shard)

/-- Every source is of its own scan, for the signals that leave the source as it is. -/
theorem SameScan.refl (a : Source) : SameScan a a :=
  ⟨rfl, rfl, rfl, rfl, rfl⟩

/-- Scans are compared along several ticks in a row. -/
theorem SameScan.trans {a b c : Source} (h : SameScan a b) (h' : SameScan b c) : SameScan a c :=
  ⟨h.table.trans h'.table, h.position.trans h'.position, h.shardCount.trans h'.shardCount,
    h.delivery.trans h'.delivery, h.shards.trans h'.shards⟩

/-- Exchanging the progress of a shard does not change the scan. -/
theorem sameScan_set {source : Source} {index : Nat} {progress progress' : ShardProgress}
    (hp : source.shards[index]? = some progress) (hshard : progress'.shard = progress.shard) :
    SameScan source { source with shards := source.shards.set index progress' } := by
  refine ⟨rfl, rfl, rfl, rfl, ?_⟩
  obtain ⟨hlt, rfl⟩ := List.getElem?_eq_some_iff.1 hp
  rw [List.map_set, hshard]
  exact ((List.set_getElem_self (by rwa [List.length_map])).symm.trans (by rw [List.getElem_map]))

/-- Whatever a source signals next, it goes on with the same scan: at most the progress of one shard
changes. -/
theorem sameScan_next (source : Source) : SameScan source source.next.state := by
  obtain heq | ⟨index, progress, row, rows, hp, -, heq⟩ := source.next_state_cases
  · rw [heq]
    exact .refl source
  · rw [heq]
    exact sameScan_set hp rfl

variable {ahead : ShardId → Option Cursor → List Row → Prop} {source : Source}
  {lists : List (List Row)}

/-- For every shard of a source there is a list of the rows still to come from it. -/
theorem Ahead.exists_list (h : source.Ahead ahead lists) {index : Nat} {progress : ShardProgress}
    (hp : source.shards[index]? = some progress) :
    ∃ list, lists[index]? = some list ∧ progress.Ahead ahead list := by
  have hlt : index < lists.length := by
    rw [h.length_eq]
    exact (List.getElem?_eq_some_iff.1 hp).1
  exact ⟨lists[index], List.getElem?_eq_getElem hlt, h.rows hp (List.getElem?_eq_getElem hlt)⟩

/-- Every list of rows still to come belongs to a shard, as the number of both is the same. -/
theorem Ahead.exists_progress (h : source.Ahead ahead lists) {index : Nat} {list : List Row}
    (hl : lists[index]? = some list) :
    ∃ progress, source.shards[index]? = some progress ∧ progress.Ahead ahead list := by
  have hlt : index < source.shards.length := by
    rw [← h.length_eq]
    exact (List.getElem?_eq_some_iff.1 hl).1
  exact ⟨source.shards[index], List.getElem?_eq_getElem hlt,
    h.rows (List.getElem?_eq_getElem hlt) hl⟩

/-- Exchanging the progress and the rows of a shard together. -/
theorem Ahead.set (h : source.Ahead ahead lists) {index : Nat} {progress : ShardProgress}
    {list : List Row} (hp : progress.Ahead ahead list) :
    Ahead ahead { source with shards := source.shards.set index progress }
      (lists.set index list) := by
  refine ⟨by simp only [List.length_set, h.length_eq], ?_⟩
  intro i p l hi hl
  simp only [List.getElem?_set] at hi hl
  by_cases heq : index = i
  · subst heq
    simp only [if_true] at hi hl
    split at hi <;> cases hi
    split at hl <;> cases hl
    exact hp
  · rw [if_neg heq] at hi hl
    exact h.rows hi hl

/-! ### Signals -/

/-- A shard that is drained has no more rows. -/
theorem nil_of_isDrained {progress : ShardProgress} {list : List Row}
    (hdrained : progress.isDrained = true) (h : progress.Ahead ahead list) : list = [] := by
  obtain ⟨others, rfl, hothers⟩ := h
  obtain ⟨hbuffer, hexhausted⟩ := Bool.and_eq_true_iff.1 hdrained
  rw [if_pos hexhausted] at hothers
  rw [List.isEmpty_iff.1 hbuffer, hothers, List.append_nil]

/-- If all shards are drained, there are no more rows at all. -/
theorem Ahead.eq_nil_of_isDrained (h : source.Ahead ahead lists)
    (hdrained : ∀ progress ∈ source.shards, progress.isDrained = true) :
    ∀ list ∈ lists, list = [] := by
  intro list hlist
  obtain ⟨index, hindex⟩ := List.mem_iff_getElem?.1 hlist
  obtain ⟨progress, hp, hahead⟩ := h.exists_progress hindex
  exact nil_of_isDrained (hdrained progress (List.mem_of_getElem? hp)) hahead

/-- Taking a row from a buffer takes it from the rows of the shard. -/
theorem Ahead.popped (h : source.Ahead ahead lists) {index : Nat} {progress : ShardProgress}
    {row : Row} {rows : List Row} (hp : source.shards[index]? = some progress)
    (hb : progress.buffer = row :: rows) :
    ∃ others, lists[index]? = some (row :: others) ∧
      (source.popped index progress row rows).Ahead ahead (lists.set index others) ∧
      SameScan source (source.popped index progress row rows) := by
  obtain ⟨list, hlist, others, rfl, hothers⟩ := h.exists_list hp
  rw [hb, List.cons_append] at hlist
  exact ⟨rows ++ others, hlist, h.set ⟨others, rfl, hothers⟩, sameScan_set hp rfl⟩

/-- The first row of the first list that is not empty is the first row of all. -/
theorem flatten_of_nil_before {index : Nat} {row : Row} {rows : List Row}
    (hlist : lists[index]? = some (row :: rows))
    (hbefore : ∀ i < index, ∀ list, lists[i]? = some list → list = []) :
    lists.flatten = row :: (lists.set index rows).flatten := by
  induction lists generalizing index with
  | nil => cases hlist
  | cons list lists ih =>
      cases index with
      | zero =>
          cases hlist
          rfl
      | succ index =>
          obtain rfl : list = [] := hbefore 0 (Nat.zero_lt_succ _) list rfl
          exact ih hlist fun i hi list hl =>
            hbefore (i + 1) (Nat.succ_lt_succ hi) list hl

/-- If no shard must be asked, the least front of the buffers is that of all rows. -/
theorem leastFrom_eq {shards : List ShardProgress} {lists : List (List Row)}
    (h : List.Forall₂ (fun progress list => progress.Ahead ahead list) shards lists)
    (hnone : ∀ progress ∈ shards, progress.needsFetch = false) (keys : List OrderKey)
    (best : Option (Nat × Row × List Row)) (index : Nat) :
    leastFrom keys (best.map fun front => (front.1, front.2.1)) index shards =
      (Meaning.leastFront keys best index lists).map fun front => (front.1, front.2.1) := by
  induction h generalizing best index with
  | nil => rfl
  | @cons progress list shards lists hfirst _ ih =>
      obtain ⟨hhere, hlater⟩ := List.forall_mem_cons.1 hnone
      obtain ⟨others, rfl, hothers⟩ := hfirst
      cases hb : progress.buffer with
      | nil =>
          have hexhausted : progress.exhausted = true := by
            simpa [ShardProgress.needsFetch, hb] using hhere
          rw [if_pos hexhausted] at hothers
          rw [hothers, List.append_nil, Meaning.leastFront, ← ih hlater]
          simp only [leastFrom, hb]
      | cons row rows =>
          rw [List.cons_append]
          cases best with
          | none =>
              rw [Meaning.leastFront, ← ih hlater]
              simp only [leastFrom, hb]
              rfl
          | some front =>
              obtain ⟨i, least, leastRows⟩ := front
              simp only [leastFrom, hb, Meaning.leastFront, Option.map_some]
              by_cases hlt : Row.compareBy keys row least = .lt
              · rw [if_pos hlt, if_pos (by simp [hlt]), ← ih hlater]
                rfl
              · rw [if_neg hlt, if_neg (by simpa using hlt), ← ih hlater]
                rfl

/-- Shards and lists that correspond one by one are those of a source and the rows still to come
from it. -/
theorem ahead_of_forall₂
    (h : List.Forall₂ (fun progress list => progress.Ahead ahead list) source.shards lists) :
    source.Ahead ahead lists := by
  refine ⟨h.length_eq.symm, fun {index progress list} hp hl => ?_⟩
  obtain ⟨hlt, rfl⟩ := List.getElem?_eq_some_iff.1 hp
  obtain ⟨hlt', rfl⟩ := List.getElem?_eq_some_iff.1 hl
  exact (List.forall₂_iff_get.1 h).2 index hlt hlt'

/-- Shards and lists correspond one by one, in the form that inductions over both of them use. -/
theorem Ahead.forall₂ (h : source.Ahead ahead lists) :
    List.Forall₂ (fun progress list => progress.Ahead ahead list) source.shards lists := by
  rw [List.forall₂_iff_get]
  refine ⟨h.length_eq.symm, fun i hi hi' => ?_⟩
  exact h.rows (List.getElem?_eq_getElem hi) (List.getElem?_eq_getElem hi')

/-- What a signal of a source says about the rows that it still delivers, and about the
shards that it wants to ask. -/
structure Yields (ahead : ShardId → Option Cursor → List Row → Prop) (source : Source)
    (lists : List (List Row)) (x : Metered Source Signal) (signal : Signal)
    (lists' : List (List Row)) : Prop where
  /-- The rows are those of the source behind the signal. -/
  ahead : x.state.Ahead ahead lists'
  /-- The scan is the same. -/
  scan : SameScan source x.state
  /-- The signal stands between the rows before and after it. -/
  rows : signal.Yields (source.delivery.rowsOf lists) (source.delivery.rowsOf lists')
  /-- Different shards are asked, and only those that must be asked. -/
  wanted {wanted : List Nat} : signal = .fetch wanted → wanted.Nodup ∧ ∀ index ∈ wanted,
    ∃ progress, x.state.shards[index]? = some progress ∧ progress.needsFetch = true

/-- Nothing is delivered of shards without rows, in whichever way they are delivered. -/
theorem rowsOf_eq_nil (delivery : Delivery) (h : ∀ list ∈ lists, list = []) :
    delivery.rowsOf lists = [] := by
  have hflatten : lists.flatten = [] := List.flatten_eq_nil_iff.2 h
  cases delivery with
  | inOrder | anyOrder => exact hflatten
  | merged keys =>
      have hperm := Meaning.perm_merged keys lists
      rw [hflatten] at hperm
      exact hperm.eq_nil

/-- The row that a source gives comes before all others that it still delivers: those of earlier
shards have been taken, or it is the least of the first rows. -/
theorem Gives.rowsOf_eq {index : Nat} {row : Row} {others : List Row}
    (hgives : source.Gives index row) (hordered : ∀ n, source.delivery ≠ .anyOrder n)
    (h : source.Ahead ahead lists) (hlist : lists[index]? = some (row :: others)) :
    source.delivery.rowsOf lists = row :: source.delivery.rowsOf (lists.set index others) := by
  unfold Gives at hgives
  cases hdelivery : source.delivery with
  | anyOrder n => exact absurd hdelivery (hordered n)
  | inOrder =>
      rw [hdelivery] at hgives
      refine flatten_of_nil_before hlist fun i hi list hl => ?_
      obtain ⟨progress, hp, hahead⟩ := h.exists_progress hl
      exact nil_of_isDrained (hgives i hi progress hp) hahead
  | merged keys =>
      rw [hdelivery] at hgives
      obtain ⟨hfetchable, hleast⟩ := hgives
      have hfronts := leastFrom_eq h.forall₂ (needsFetch_of_fetchable hfetchable) keys none 0
      rw [Option.map_none, hleast] at hfronts
      obtain ⟨⟨i, least, rows⟩, hfront, heq⟩ := Option.map_eq_some_iff.1 hfronts.symm
      cases heq
      obtain ⟨hlist', hmerged⟩ := Meaning.merged_of_some hfront
      cases hlist.symm.trans hlist'
      exact hmerged

/-- The signals of a source in order are the rows that it still delivers. -/
theorem yields_of_next {signal : Signal} (hordered : ∀ n, source.delivery ≠ .anyOrder n)
    (h : source.Ahead ahead lists) (hsignal : source.next.result = .ok signal) :
    ∃ lists', Yields ahead source lists source.next signal lists' := by
  cases source.next_inv with
  | incomplete _ heq =>
      rw [heq] at hsignal
      cases hsignal
  | gives hp hb hgives heq =>
      obtain ⟨others, hlist, hahead, hscan⟩ := h.popped hp hb
      rw [heq] at hsignal ⊢
      cases hsignal
      exact ⟨_, hahead, hscan, hgives.rowsOf_eq hordered h hlist, nofun⟩
  | ends hdrained heq =>
      have hnil := rowsOf_eq_nil source.delivery <|
        h.eq_nil_of_isDrained (hdrained fun n hdelivery => absurd hdelivery (hordered n))
      rw [heq] at hsignal ⊢
      cases hsignal
      exact ⟨lists, h, .refl source, ⟨hnil, hnil⟩, nofun⟩
  | wants _ hwants heq =>
      rw [heq] at hsignal ⊢
      cases hsignal
      refine ⟨lists, h, .refl source, rfl, ?_⟩
      rintro _ ⟨⟩
      exact ⟨hwants.nodup, hwants.needsFetch⟩

/-! ### Rounds -/

/-- The requests of a round, with the places of their shards. -/
def requestsWith (source : Source) (request : ShardProgress → ShardRequest) (wanted : List Nat) :
    List (Nat × ShardRequest) :=
  wanted.filterMap fun index =>
    source.shards[index]?.map fun progress => (index, request progress)

/-- A round of requests that are all answered before the answers are taken in. -/
def round (reader : ShardReader σ) (request : ShardProgress → ShardRequest) (source : Source)
    (wanted : List Nat) (s : σ) : Metered Source Unit × σ :=
  let requests := source.requestsWith request wanted
  let (responses, s) := reader.answerAll (requests.map (·.2)) s
  (source.receive ((requests.map (·.1)).zip responses), s)

/-- Requests to other shards do not depend on the progress of a shard. -/
theorem requestsWith_set (source : Source) (request : ShardProgress → ShardRequest)
    {wanted : List Nat} {index : Nat} (h : index ∉ wanted) (progress : ShardProgress) :
    requestsWith { source with shards := source.shards.set index progress } request wanted =
      source.requestsWith request wanted := by
  refine List.filterMap_congr fun i hi => ?_
  have hne : index ≠ i := fun heq => h (heq ▸ hi)
  simp only [List.getElem?_set_ne hne]

/-- A round may take every answer in before the next request is sent. -/
theorem round_cons {reader : ShardReader σ} {request : ShardProgress → ShardRequest}
    {source : Source} {index : Nat} {wanted : List Nat} {progress : ShardProgress}
    {response : ShardResponse} {s s₁ : σ} (hp : source.shards[index]? = some progress)
    (hindex : index ∉ wanted) (hanswer : reader.answer (request progress) s = (.ok response, s₁)) :
    source.round reader request (index :: wanted) s =
      let size := Row.totalSize response.rows
      let next := { source with
        shards := source.shards.set index (progress.afterResponse response size) }
      (.after (.reserve size NodeKind.receive.name) source (next.round reader request wanted s₁).1,
        (next.round reader request wanted s₁).2) := by
  have hrequests : source.requestsWith request (index :: wanted) =
      (index, request progress) :: source.requestsWith request wanted := by
    simp only [requestsWith, List.filterMap_cons, hp, Option.map_some]
  simp only [round, hrequests, List.map_cons, ShardReader.answerAll, hanswer, List.zip_cons_cons,
    receive, hp, requestsWith_set source request hindex]

/-- A round whose first answer is an error fails. -/
theorem round_cons_error {reader : ShardReader σ} {request : ShardProgress → ShardRequest}
    {source : Source} {index : Nat} {wanted : List Nat} {progress : ShardProgress}
    {error : RequestError} {s s₁ : σ} (hp : source.shards[index]? = some progress)
    (hanswer : reader.answer (request progress) s = (.error error, s₁)) :
    (source.round reader request (index :: wanted) s).1.result = .error (.request error) := by
  simp only [round, requestsWith, List.filterMap_cons, hp, Option.map_some, List.map_cons,
    ShardReader.answerAll, hanswer, List.zip_cons_cons, receive]
  rfl

/-- An answer of one shard leaves the rows of all others. -/
theorem ahead_of_answer {reader : ShardReader σ} {table : String}
    {ahead : σ → ShardId → Option Cursor → List Row → Prop} (hserves : reader.Serves table ahead)
    {s : σ} {request : ShardRequest} {progress : ShardProgress} {list : List Row}
    (hne : progress.shard ≠ request.shard) (h : progress.Ahead (ahead s) list) :
    progress.Ahead (ahead (reader.answer request s).2) list := by
  obtain ⟨others, hlist, hothers⟩ := h
  refine ⟨others, hlist, ?_⟩
  split at hothers
  · next hexhausted => rwa [if_pos hexhausted]
  · next hexhausted =>
      rw [if_neg hexhausted]
      exact hserves.others hne hothers

/-- A page that is taken in leaves the rows of its shard. -/
theorem ahead_of_page {reader : ShardReader σ} {table : String}
    {ahead : σ → ShardId → Option Cursor → List Row → Prop} (hserves : reader.Serves table ahead)
    {s s' : σ} {request : ShardRequest} {progress : ShardProgress} {list : List Row}
    {response : ShardResponse} (htable : request.table = table)
    (hshard : request.shard = progress.shard) (hcursor : request.cursor = progress.cursor)
    (hneeds : progress.needsFetch = true) (h : progress.Ahead (ahead s) list)
    (hanswer : reader.answer request s = (.ok response, s')) (size : Nat) :
    (progress.afterResponse response size).Ahead (ahead s') list := by
  obtain ⟨hbuffer, hopen⟩ := Bool.and_eq_true_iff.1 hneeds
  obtain ⟨others, rfl, hothers⟩ := h
  rw [if_neg (by simpa using hopen), ← hshard, ← hcursor] at hothers
  obtain ⟨later, rfl, hlater⟩ := hserves.page htable hothers hanswer
  refine ⟨later, ?_, ?_⟩
  · simp only [ShardProgress.afterResponse, List.append_assoc]
  · obtain ⟨rows, cursor⟩ := response
    cases cursor with
    | none => exact hlater
    | some cursor =>
        rw [hshard] at hlater
        exact hlater

/-- The places of a list without repetitions have different items. -/
theorem ne_of_nodup_map {index other : Nat} {progress progress' : ShardProgress}
    (hids : (source.shards.map (·.shard)).Nodup) (hp : source.shards[index]? = some progress)
    (hp' : source.shards[other]? = some progress') (hne : other ≠ index) :
    progress'.shard ≠ progress.shard := by
  intro heq
  have hi : (source.shards.map (·.shard))[index]? = some progress.shard := by
    rw [List.getElem?_map, hp]
    rfl
  have ho : (source.shards.map (·.shard))[other]? = some progress.shard := by
    rw [List.getElem?_map, hp', ← heq]
    rfl
  obtain ⟨hlt, hi⟩ := List.getElem?_eq_some_iff.1 hi
  obtain ⟨hlt', ho⟩ := List.getElem?_eq_some_iff.1 ho
  exact hne ((List.Nodup.getElem_inj_iff hids).1 (ho.trans hi.symm))

/-- A page that is taken in leaves the rows of all shards. -/
theorem Ahead.afterPage {reader : ShardReader σ} {table : String}
    {ahead : σ → ShardId → Option Cursor → List Row → Prop} (hserves : reader.Serves table ahead)
    {s s' : σ} {request : ShardRequest} {index : Nat} {progress : ShardProgress}
    {response : ShardResponse} (htable : request.table = table)
    (hshard : request.shard = progress.shard) (hcursor : request.cursor = progress.cursor)
    (h : source.Ahead (ahead s) lists) (hids : (source.shards.map (·.shard)).Nodup)
    (hp : source.shards[index]? = some progress) (hneeds : progress.needsFetch = true)
    (hanswer : reader.answer request s = (.ok response, s')) :
    Ahead (ahead s') { source with
      shards := source.shards.set index
        (progress.afterResponse response (Row.totalSize response.rows)) } lists := by
  have hs' : s' = (reader.answer request s).2 := by rw [hanswer]
  obtain ⟨list, hlist, hahead⟩ := h.exists_list hp
  have hpage := ahead_of_page hserves htable hshard hcursor hneeds hahead hanswer
    (Row.totalSize response.rows)
  refine ⟨h.length_eq.trans (List.length_set ..).symm, ?_⟩
  intro i p l hi hl
  simp only [List.getElem?_set] at hi
  by_cases heq : index = i
  · subst heq
    cases hlist.symm.trans hl
    simp only [if_true] at hi
    split at hi <;> cases hi
    exact hpage
  · rw [if_neg heq] at hi
    have hne := ne_of_nodup_map hids hp hi (Ne.symm heq)
    rw [hs']
    exact ahead_of_answer hserves (hshard ▸ hne) (h.rows hi hl)

/-- A round of requests to different shards, whose answers are all taken in, does not change
what is still to be taken. -/
theorem ahead_of_round {reader : ShardReader σ} {table : String}
    {ahead : σ → ShardId → Option Cursor → List Row → Prop} (hserves : reader.Serves table ahead)
    {request : ShardProgress → ShardRequest}
    (hrequest : ∀ progress, (request progress).table = table ∧
      (request progress).shard = progress.shard ∧ (request progress).cursor = progress.cursor)
    {source : Source} {lists : List (List Row)} {s : σ} {wanted : List Nat}
    (h : source.Ahead (ahead s) lists) (hids : (source.shards.map (·.shard)).Nodup)
    (hnodup : wanted.Nodup)
    (hwanted : ∀ index ∈ wanted,
      ∃ progress, source.shards[index]? = some progress ∧ progress.needsFetch = true)
    (hresult : (source.round reader request wanted s).1.result = .ok ()) :
    (source.round reader request wanted s).1.state.Ahead
        (ahead (source.round reader request wanted s).2) lists ∧
      SameScan source (source.round reader request wanted s).1.state := by
  induction wanted generalizing source s with
  | nil => exact ⟨h, .refl source⟩
  | cons index wanted ih =>
      obtain ⟨hindex, hnodup⟩ := List.nodup_cons.1 hnodup
      obtain ⟨⟨progress, hp, hneeds⟩, hwanted⟩ := List.forall_mem_cons.1 hwanted
      obtain ⟨htable, hshard, hcursor⟩ := hrequest progress
      rcases hanswer : reader.answer (request progress) s with ⟨error | response, s₁⟩
      · rw [round_cons_error hp hanswer] at hresult
        cases hresult
      · have hscan : SameScan source { source with
            shards := source.shards.set index
              (progress.afterResponse response (Row.totalSize response.rows)) } :=
          sameScan_set hp rfl
        have hnext := h.afterPage hserves htable hshard hcursor hids hp hneeds hanswer
        rw [round_cons hp hindex hanswer] at hresult ⊢
        obtain ⟨hrest, hscan'⟩ := ih hnext (hscan.shards ▸ hids) hnodup
          (needsFetch_set hindex hwanted _) hresult
        exact ⟨hrest, hscan.trans hscan'⟩

/-- A round of requests to different shards does not fail if every shard that has rows ahead
answers. -/
theorem ok_of_round {reader : ShardReader σ} {table : String}
    {ahead : σ → ShardId → Option Cursor → List Row → Prop} (hserves : reader.Serves table ahead)
    (hanswers : reader.Answers table ahead) {request : ShardProgress → ShardRequest}
    (hrequest : ∀ progress, (request progress).table = table ∧
      (request progress).shard = progress.shard ∧ (request progress).cursor = progress.cursor)
    {source : Source} {lists : List (List Row)} {s : σ} {wanted : List Nat}
    (h : source.Ahead (ahead s) lists) (hids : (source.shards.map (·.shard)).Nodup)
    (hnodup : wanted.Nodup)
    (hwanted : ∀ index ∈ wanted,
      ∃ progress, source.shards[index]? = some progress ∧ progress.needsFetch = true) :
    (source.round reader request wanted s).1.result = .ok () := by
  induction wanted generalizing source s with
  | nil => rfl
  | cons index wanted ih =>
      obtain ⟨hindex, hnodup⟩ := List.nodup_cons.1 hnodup
      obtain ⟨⟨progress, hp, hneeds⟩, hwanted⟩ := List.forall_mem_cons.1 hwanted
      obtain ⟨htable, hshard, hcursor⟩ := hrequest progress
      obtain ⟨list, -, others, -, hothers⟩ := h.exists_list hp
      obtain ⟨-, hopen⟩ := Bool.and_eq_true_iff.1 hneeds
      rw [if_neg (by simpa using hopen), ← hshard, ← hcursor] at hothers
      obtain ⟨response, s₁, hanswer⟩ := hanswers htable hothers
      have hnext := h.afterPage hserves htable hshard hcursor hids hp hneeds hanswer
      have hscan := @sameScan_set source index progress
        (progress.afterResponse response (Row.totalSize response.rows)) hp rfl
      rw [round_cons hp hindex hanswer]
      exact ih hnext (hscan.shards ▸ hids) hnodup (needsFetch_set hindex hwanted _)

end Source

end ShardQuery
