import ShardQuery.Proofs.Shard.InMemory

/-!
# Shards Read Page by Page

Requests for the pages of a shard follow one another: the first one asks for the beginning, and
every other one goes on from the cursor that the page before has come with. The cursor is all that
ties them together; how many rows they allow and how much they allow to read may change from one to
the next. Tables in memory then lose no row, repeat none, and come to the end of the shard with no
more requests than it has rows.

Main definitions:

* `ShardReader.pages` — the answers to requests that follow one another;
* `InMemory.Faultless` — tables in memory for which no failure has been arranged;
* `InMemory.ReadsThrough` — the pages that such requests should get.

## Main results

* `InMemory.answer_eq`: what tables in memory answer from a given place on.
* `InMemory.keepsTo_page`: a page keeps to what its request allows.
* `InMemory.readsThrough_of_follows`: from any place on, the pages are those of the rows behind.
* `InMemory.reads_shard_through`: a shard is read through.
-/

namespace ShardQuery

/-- The answers to requests that follow one another, the first of them from a cursor on. Behind a
failure or the last page of a shard nothing more is asked. -/
def ShardReader.pages {σ : Type} (reader : ShardReader σ) (cursor : Option Cursor) :
    List ShardRequest → σ → List (Except RequestError ShardResponse)
  | [], _ => []
  | request :: requests, state =>
    match reader.answer { request with cursor := cursor } state with
    | (.error error, _) => [.error error]
    | (.ok page, state) =>
      .ok page ::
        match page.cursor with
        | some next => reader.pages (some next) requests state
        | none => []

namespace InMemory

/-- Tables in memory for which no failure has been arranged: they have been set up, filled, and may
have answered requests. -/
inductive Faultless : InMemory → Prop
  /-- There are no tables. -/
  | ofPageSize (pageSize : Nat) : Faultless (ofPageSize pageSize)
  /-- A table has been added. -/
  | withTable {store : InMemory} (name : String) (shards : ShardRows) :
      Faultless store → Faultless (store.withTable name shards)
  /-- A request has been answered. -/
  | answered {store : InMemory} (request : ShardRequest) :
      Faultless store → Faultless (answer request store).2

/-- The rows of a shard of a table, if there is such a shard. -/
def rows? (store : InMemory) (table : String) (shard : ShardId) : Option (List Row) :=
  (store.tables.find? (·.1 == table)).bind fun entry =>
    (entry.2.find? (·.1 == shard)).map (·.2)

/-- Whether a page keeps to what its request allows. -/
structure KeepsTo (pageSize : Nat) (request : ShardRequest) (page : ShardResponse) : Prop where
  /-- It has no more rows than a page may have. -/
  length_le_pageSize : page.rows.length ≤ pageSize
  /-- It has no more rows than the request allows. -/
  length_le_limit : ∀ most, request.limit = some most → page.rows.length ≤ most
  /-- It has no more bytes than the request allows to read, unless it is a single row. -/
  totalSize_le : ∀ kb, request.maxReadKb = some kb →
    page.rows.length = 1 ∨ Row.totalSize page.rows ≤ kb * 1024

/-- Whether pages are those that requests get of rows, one after the other and to the end of the
rows if there are requests enough. -/
structure ReadsThrough (pageSize : Nat) (rows : List Row) (requests : List ShardRequest)
    (pages : List ShardResponse) : Prop where
  /-- Every page keeps to what its request allows. -/
  keepsTo : List.Forall₂ (KeepsTo pageSize) (requests.take pages.length) pages
  /-- A page with a cursor has rows. -/
  ne_nil : ∀ page ∈ pages, page.cursor.isSome = true → page.rows ≠ []
  /-- The pages have the first of the rows, each of them once and in their order. -/
  isPrefix : pages.flatMap (·.rows) <+: rows
  /-- If the last page has no cursor, the pages have all of the rows. -/
  flatMap_eq : ∀ page ∈ pages.getLast?, page.cursor = none → pages.flatMap (·.rows) = rows
  /-- There are no more pages than rows, or there is a single page. -/
  length_le : pages.length ≤ max 1 rows.length
  /-- With as many requests as rows, at least one, there is a page without a cursor. -/
  ends : max 1 rows.length ≤ requests.length → ∃ page ∈ pages.getLast?, page.cursor = none

/-! ### Answers -/

/-- A store without failures has pages of at least one row, as zero is raised to one when it is
made. -/
theorem Faultless.pageSize_pos {store : InMemory} (h : store.Faultless) : 0 < store.pageSize := by
  induction h with
  | ofPageSize pageSize => exact Nat.lt_of_lt_of_le Nat.one_pos (Nat.le_max_right pageSize 1)
  | withTable name shards _ ih => exact ih
  | answered request _ ih =>
      simp only [answer]
      split <;> exact ih

/-- A store without failures plans none, and requests do not bring any about. -/
theorem Faultless.failures_eq {store : InMemory} (h : store.Faultless) : store.failures = [] := by
  induction h with
  | ofPageSize pageSize => rfl
  | withTable name shards _ ih => exact ih
  | answered request _ ih =>
      simp only [answer, ih, List.find?_nil]

variable {store : InMemory} {rows : List Row}

/-- Where no failure is arranged, an answer is what has been looked up. -/
theorem answer_eq_lookup (hfailures : store.failures = []) (request : ShardRequest) :
    answer request store =
      (store.lookup request, { store with requests := store.requests + 1 }) := by
  simp only [answer, hfailures, List.find?_nil]
  rfl

/-- What is looked up from a place on in a shard that exists is a page. -/
theorem lookup_eq_page {request : ShardRequest} {position : Nat}
    (hrows : store.rows? request.table request.shard = some rows)
    (hposition : request.cursor.elim (some 0) position? = some position) :
    store.lookup request = .ok (page store.pageSize rows position request) := by
  obtain ⟨⟨name, shards⟩, htable, hrows⟩ := Option.bind_eq_some_iff.1 hrows
  obtain ⟨⟨id, found⟩, hshard, rfl⟩ := Option.map_eq_some_iff.1 hrows
  have hfind : shards.find? (·.1 == request.shard) = some (id, found) := hshard
  rw [lookup, htable]
  simp only [hfind]
  cases hcursor : request.cursor with
  | none =>
      rw [hcursor] at hposition
      cases hposition
      rfl
  | some cursor =>
      rw [hcursor, Option.elim_some] at hposition
      simp only [hposition]

/-- **What tables in memory answer from a place on**, of a shard that exists. -/
theorem answer_eq {request : ShardRequest} {position : Nat} (hfailures : store.failures = [])
    (hrows : store.rows? request.table request.shard = some rows)
    (hposition : request.cursor.elim (some 0) position? = some position) :
    answer request store =
      (.ok (page store.pageSize rows position request),
        { store with requests := store.requests + 1 }) := by
  rw [answer_eq_lookup hfailures, lookup_eq_page hrows hposition]

/-! ### Pages -/

/-- Rows that are taken within some room fit into it, if it is not the first row alone. -/
theorem totalSize_takeWithin_le (room : Nat) (rows : List Row) :
    (takeWithin room rows).length = 1 ∨ Row.totalSize (takeWithin room rows) ≤ room := by
  have hgo (size : Nat) (rows : List Row) : takeWithin.go room size rows = [] ∨
      size + Row.totalSize (takeWithin.go room size rows) ≤ room := by
    induction rows generalizing size with
    | nil => exact .inl rfl
    | cons row rows ih =>
        rw [takeWithin.go]
        split
        · exact .inl rfl
        · next hfits =>
            right
            rw [Row.totalSize, total_cons, ← Nat.add_assoc]
            obtain hnil | hle := ih (size + row.sizeEstimate)
            · rw [hnil, total_nil]
              exact Nat.le_of_not_lt hfits
            · exact hle
  cases rows with
  | nil => exact .inr (Nat.zero_le room)
  | cons row rows =>
      rw [takeWithin]
      obtain hnil | hle := hgo row.sizeEstimate rows
      · exact .inl (by rw [hnil]; rfl)
      · exact .inr hle

/-- **A page keeps to what its request allows**: as many rows as both bounds admit, and as many
bytes, the first row apart, which is always given. -/
theorem keepsTo_page (pageSize : Nat) (rows : List Row) (position : Nat) (request : ShardRequest) :
    KeepsTo pageSize request (page pageSize rows position request) := by
  have hmost : (page pageSize rows position request).rows.length ≤
      min (request.limit.getD pageSize) pageSize := by
    refine Nat.le_trans ?_ (List.length_take_le _ (rows.drop position))
    rw [page]
    simp only
    split
    · exact (takeWithin_isPrefix _ _).length_le
    · exact Nat.le_refl _
  refine ⟨Nat.le_trans hmost (Nat.min_le_right _ _), fun most hlimit => ?_, fun kb hread => ?_⟩
  · rw [hlimit] at hmost
    exact Nat.le_trans hmost (Nat.min_le_left _ _)
  · rw [page]
    simp only [hread]
    exact totalSize_takeWithin_le _ _

/-- A page from a place with rows behind it has one of them at least. -/
theorem page_rows_ne_nil {pageSize position : Nat} {request : ShardRequest}
    (hpageSize : 0 < pageSize) (hlimit : request.limit ≠ some 0) (hmore : position < rows.length) :
    (page pageSize rows position request).rows ≠ [] := by
  have hmost : 0 < min (request.limit.getD pageSize) pageSize := by
    refine Nat.lt_min.2 ⟨?_, hpageSize⟩
    cases hmost : request.limit with
    | none => exact hpageSize
    | some most => exact Nat.pos_of_ne_zero fun hzero => hlimit (hmost.trans (congrArg some hzero))
  obtain ⟨row, others, hcandidates⟩ : ∃ row others,
      (rows.drop position).take (min (request.limit.getD pageSize) pageSize) = row :: others := by
    refine List.exists_cons_of_length_pos ?_
    rw [List.length_take, List.length_drop]
    exact Nat.lt_min.2 ⟨hmost, Nat.sub_pos_of_lt hmore⟩
  rw [page]
  simp only [hcandidates]
  split <;> exact List.cons_ne_nil _ _

/-- A page from the end of a shard on, or from behind it, is empty and the last one. -/
theorem page_of_length_le {position : Nat} (hend : rows.length ≤ position) (pageSize : Nat)
    (request : ShardRequest) : page pageSize rows position request = ⟨[], none⟩ := by
  have hrows : (page pageSize rows position request).rows = [] := by
    have hprefix := page_rows_isPrefix pageSize rows position request
    rw [List.drop_eq_nil_of_le hend] at hprefix
    exact List.prefix_nil.1 hprefix
  have hcursor := page_cursor pageSize rows position request
  rw [if_neg (by omega)] at hcursor
  exact congrArg₂ ShardResponse.mk hrows hcursor

/-! ### Pages that follow one another -/

variable {pageSize : Nat} {requests : List ShardRequest} {pages : List ShardResponse}

/-- Without requests there are no pages, and nothing has been read. -/
theorem readsThrough_nil (pageSize : Nat) (rows : List Row) : ReadsThrough pageSize rows [] [] where
  keepsTo := .nil
  ne_nil := nofun
  isPrefix := List.nil_prefix
  flatMap_eq := nofun
  length_le := Nat.zero_le _
  ends h := absurd (Nat.le_trans (Nat.le_max_left 1 _) h) (Nat.not_succ_le_zero 0)

/-- A page without a cursor that has all of the rows is the only one. -/
theorem readsThrough_last {request : ShardRequest} {page : ShardResponse}
    (hkeeps : KeepsTo pageSize request page) (hcursor : page.cursor = none)
    (requests : List ShardRequest) :
    ReadsThrough pageSize page.rows (request :: requests) [page] where
  keepsTo := .cons hkeeps .nil
  ne_nil other hother hsome := by
    rw [List.mem_singleton.1 hother, hcursor] at hsome
    cases hsome
  isPrefix := by rw [List.flatMap_singleton]
  flatMap_eq _ _ _ := List.flatMap_singleton _ _
  length_le := Nat.le_max_left _ _
  ends _ := ⟨page, rfl, hcursor⟩

/-- Behind a page with a cursor and at least one row come the pages of the other rows. -/
theorem ReadsThrough.cons {request : ShardRequest} {page : ShardResponse} {others : List Row}
    (hkeeps : KeepsTo pageSize request page) (hcursor : page.cursor.isSome = true)
    (hpage : page.rows ≠ []) (hothers : others ≠ [])
    (h : ReadsThrough pageSize others requests pages) :
    ReadsThrough pageSize (page.rows ++ others) (request :: requests) (page :: pages) := by
  have hone : 1 ≤ page.rows.length := List.length_pos_iff.2 hpage
  have hmax : max 1 others.length = others.length :=
    Nat.max_eq_right (List.length_pos_iff.2 hothers)
  have hlength := h.length_le
  rw [hmax] at hlength
  refine ⟨.cons hkeeps h.keepsTo, List.forall_mem_cons.2 ⟨fun _ => hpage, h.ne_nil⟩, ?_, ?_, ?_,
    fun hrequests => ?_⟩
  · rw [List.flatMap_cons]
    exact (List.prefix_append_right_inj page.rows).2 h.isPrefix
  · intro last hlast hnone
    rw [List.flatMap_cons]
    cases pages with
    | nil =>
        obtain rfl : page = last := Option.some.inj hlast
        rw [hnone] at hcursor
        cases hcursor
    | cons next pages =>
        rw [List.getLast?_cons_cons] at hlast
        rw [h.flatMap_eq last hlast hnone]
  · rw [List.length_cons, List.length_append]
    omega
  · have henough : max 1 others.length ≤ requests.length := by
      rw [List.length_append, List.length_cons] at hrequests
      omega
    obtain ⟨last, hlast, hnone⟩ := h.ends henough
    refine ⟨last, ?_, hnone⟩
    cases pages with
    | nil => cases hlast
    | cons next pages => rwa [List.getLast?_cons_cons]

/-- **From any place on, requests that follow one another get the pages of the rows behind.** -/
theorem readsThrough_of_follows (latencyMs : Nat) {table : String} {shard : ShardId}
    (hlength : rows.length ≤ UInt64.size)
    (hrequests : ∀ request ∈ requests,
      request.table = table ∧ request.shard = shard ∧ request.limit ≠ some 0)
    (hpageSize : 0 < store.pageSize) (hfailures : store.failures = [])
    (hrows : store.rows? table shard = some rows) {cursor : Option Cursor} {position : Nat}
    (hposition : cursor.elim (some 0) position? = some position)
    (hmore : position < rows.length ∨ position = 0) :
    ∃ pages, (reader latencyMs).pages cursor requests store = pages.map .ok ∧
      ReadsThrough store.pageSize (rows.drop position) requests pages := by
  induction requests generalizing store cursor position with
  | nil => exact ⟨[], rfl, readsThrough_nil _ _⟩
  | cons request requests ih =>
      obtain ⟨⟨rfl, rfl, hlimit⟩, hrequests⟩ := List.forall_mem_cons.1 hrequests
      have hanswer : answer { request with cursor := cursor } store = _ :=
        answer_eq hfailures hrows hposition
      have hkeeps : KeepsTo store.pageSize request
          (page store.pageSize rows position { request with cursor := cursor }) :=
        let ⟨hpage, hlimit, hread⟩ := keepsTo_page store.pageSize rows position _
        ⟨hpage, hlimit, hread⟩
      have hnonempty := @page_rows_ne_nil rows store.pageSize position
        { request with cursor := cursor } hpageSize hlimit
      obtain ⟨others, hothers⟩ :=
        page_rows_isPrefix store.pageSize rows position { request with cursor := cursor }
      have hcursor := page_cursor store.pageSize rows position { request with cursor := cursor }
      rw [ShardReader.pages]
      simp only [reader, hanswer]
      generalize page store.pageSize rows position { request with cursor := cursor } = page at *
      have hsum := congrArg List.length hothers
      rw [List.length_append, List.length_drop] at hsum
      by_cases hnext : position + page.rows.length < rows.length
      · rw [if_pos hnext] at hcursor
        obtain ⟨pages, hpages, hthrough⟩ := @ih { store with requests := store.requests + 1 }
          hrequests hpageSize hfailures hrows (some (cursorOf (position + page.rows.length)))
          (position + page.rows.length) (position?_cursorOf (Nat.lt_of_lt_of_le hnext hlength))
          (.inl hnext)
        refine ⟨page :: pages, ?_, ?_⟩
        · rw [hcursor]
          exact congrArg (Except.ok page :: ·) hpages
        · rw [← List.drop_drop, ← hothers, List.drop_left] at hthrough
          rw [← hothers]
          refine hthrough.cons hkeeps (by rw [hcursor]; rfl)
            (hnonempty (by omega)) (List.ne_nil_of_length_pos (by omega))
      · rw [if_neg hnext] at hcursor
        refine ⟨[page], by rw [hcursor]; rfl, ?_⟩
        have hall : rows.drop position = page.rows := by
          rw [← hothers, List.length_eq_zero_iff.1 (by omega : others.length = 0), List.append_nil]
        rw [hall]
        exact readsThrough_last hkeeps hcursor requests

/-- **A shard is read through page by page**, if it has no more rows than a cursor can count.
Whatever requests that follow one another allow, all of them are answered, their pages have the rows
of the shard, and they come to its end with no more requests than it has rows, or with one. From a
cursor behind the end on, there is one more empty page, and no cursor to go on from. -/
theorem reads_shard_through (latencyMs : Nat) {table : String} {shard : ShardId}
    (hstore : store.Faultless) (hrows : store.rows? table shard = some rows)
    (hlength : rows.length ≤ UInt64.size) :
    (∀ requests : List ShardRequest,
      (∀ request ∈ requests,
        request.table = table ∧ request.shard = shard ∧ request.limit ≠ some 0) →
      ∃ pages, (reader latencyMs).pages none requests store = pages.map .ok ∧
        ReadsThrough store.pageSize rows requests pages) ∧
    ∀ (request : ShardRequest) (cursor : Cursor) (position : Nat), request.table = table →
      request.shard = shard → request.cursor = some cursor → position? cursor = some position →
      rows.length ≤ position → (answer request store).1 = .ok ⟨[], none⟩ := by
  refine ⟨fun requests hrequests => ?_, ?_⟩
  · have hbeginning : (none : Option Cursor).elim (some 0) position? = some 0 := rfl
    have hthrough := readsThrough_of_follows latencyMs hlength hrequests hstore.pageSize_pos
      hstore.failures_eq hrows hbeginning (.inr rfl)
    rwa [List.drop_zero] at hthrough
  · rintro request cursor position rfl rfl hcursor hposition hend
    have hplace : request.cursor.elim (some 0) position? = some position := by
      rw [hcursor]
      exact hposition
    rw [answer_eq hstore.failures_eq hrows hplace, page_of_length_le hend]

/-- The rows of `week`, which are more than two of its pages hold. -/
def days : List Row :=
  ["Mon", "Tue", "Wed", "Thu", "Fri", "Sat", "Sun"].map fun day =>
    Row.ofList [("day", .string day)]

/-- A shard with a row for every day of the week, in pages of three rows. -/
def week : InMemory :=
  (ofPageSize 3).withTable "days" [(7, days)]

/-- Requests for the days of the week, with different bounds. -/
def weekRequests : List ShardRequest :=
  [(some 2, none), (none, some 0), (some 100, some 1), (none, none), (some 1, some 0), (none, none),
    (none, none)].map fun (limit, maxReadKb) =>
      ⟨"days", 7, none, limit, maxReadKb, none, .eventual⟩

/-- The request for the days behind the end of the week. -/
def eighthDay : ShardRequest :=
  ⟨"days", 7, some (cursorOf 7), none, none, none, .eventual⟩

/-- The days are read with seven requests of different bounds, and behind the last of them there is
nothing. -/
theorem reads_week_through :
    (∃ pages : List ShardResponse, (reader 0).pages none weekRequests week = pages.map .ok ∧
      pages.flatMap (·.rows) = days ∧ pages.length ≤ 7) ∧
    (answer eighthDay week).1 = .ok ⟨[], none⟩ := by
  obtain ⟨hthrough, hbehind⟩ := @reads_shard_through week days 0 "days" 7
    (.withTable "days" [(7, days)] (.ofPageSize 3)) rfl (by decide)
  obtain ⟨pages, hpages, h⟩ := hthrough weekRequests (by decide)
  obtain ⟨last, hlast, hcursor⟩ := h.ends (by decide)
  exact ⟨⟨pages, hpages, h.flatMap_eq last hlast hcursor, h.length_le⟩,
    hbehind eighthDay _ 7 rfl rfl rfl (position?_cursorOf (by decide)) (by decide)⟩

end InMemory

end ShardQuery
