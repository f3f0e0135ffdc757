import Mathlib.Order.WellFounded
import ShardQuery.Proofs.Requests.Discipline
import ShardQuery.Proofs.Shard.Recorded

/-!
# Endless Pages

All that a scan asks of its shards are pages, each from the place where the last page of its shard
has ended. A query can only come to its end if this does: if no shard goes on forever to name a next
page. Since a scan has so many shards and no more, that is to say that its pages cannot be read on
without end, in whatever order its shards are asked.

Main definitions:

* `Place` — where the next page of a shard begins;
* `ShardReader.Reads` — one page is read;
* `ShardReader.Ends` — pages cannot be read on without end.

## Main results

* `ShardReader.ends_of_left`: shards come to their ends if each has so many pages left.
* `Source.reads_of_round`: a round reads pages, one at least.
* `Recorded.ends`: every record comes to its end.
-/

namespace ShardQuery

variable {σ : Type}

/-! ### Places -/

/-- Where the next page of a shard begins, without the rows that have already been received. -/
structure Place where
  /-- The shard. -/
  shard : ShardId
  /-- The cursor that the last page has come with. -/
  cursor : Option Cursor
  /-- Whether that has been the last one of all. -/
  exhausted : Bool

/-- The place behind a page, which is the end of the shard if the page has come without a cursor. -/
def Place.behind (place : Place) (page : ShardResponse) : Place :=
  ⟨place.shard, page.cursor, page.cursor.isNone⟩

/-- The place that a shard has been read up to. -/
def ShardProgress.place (progress : ShardProgress) : Place :=
  ⟨progress.shard, progress.cursor, progress.exhausted⟩

/-- The places that the shards of a source have been read up to. -/
def Source.places (source : Source) : List Place :=
  source.shards.map ShardProgress.place

/-- The request for the page at a place, under the options of the execution. -/
def Execution.ask (execution : Execution) (place : Place) : ShardRequest where
  table := execution.plan.scan.table
  shard := place.shard
  cursor := place.cursor
  limit := execution.options.limit
  maxReadKb := execution.options.maxReadKb
  maxWriteKb := execution.options.maxWriteKb
  consistency := execution.options.consistency

/-! ### Pages -/

namespace ShardReader

/-- A page is read: a shard that is not at its end is asked for its next page and answers with
it. -/
inductive Reads (reader : ShardReader σ) (ask : Place → ShardRequest) :
    σ × List Place → σ × List Place → Prop
  /-- The page of one of the shards. -/
  | page {s s' : σ} {places : List Place} {index : Nat} {place : Place} {page : ShardResponse} :
      places[index]? = some place → place.exhausted = false →
      reader.answer (ask place) s = (.ok page, s') →
      Reads reader ask (s, places) (s', places.set index (place.behind page))

/-- Whether the pages from some places on cannot be read without end: after so many pages each of
the shards has reported its end, or answers no more. -/
def Ends (reader : ShardReader σ) (ask : Place → ShardRequest) (s : σ) (places : List Place) :
    Prop :=
  ¬∃ reading : ℕ → σ × List Place, reading 0 = (s, places) ∧
    ∀ n, reader.Reads ask (reading n) (reading (n + 1))

variable {reader : ShardReader σ} {ask : Place → ShardRequest} {s : σ} {places : List Place}

/-- Where pages cannot be read without end, one can argue from what is read later to what is read
before. -/
theorem Ends.acc (h : reader.Ends ask s places) :
    Acc (fun later earlier => reader.Reads ask earlier later) (s, places) := by
  by_contra hacc
  exact h (not_acc_iff_exists_descending_chain.1 hacc)

/-- **Shards come to their ends if each has so many pages left**: a page that is read from a shard
leaves it with fewer ones, and no other with more. -/
theorem ends_of_left (left : σ → Place → Nat)
    (hread : ∀ {s s' : σ} {place : Place} {page : ShardResponse},
      reader.answer (ask place) s = (.ok page, s') → left s' (place.behind page) < left s place)
    (hothers : ∀ {s s' : σ} {place : Place} {page : ShardResponse} (other : Place),
      reader.answer (ask place) s = (.ok page, s') → left s' other ≤ left s other)
    (s : σ) (places : List Place) : reader.Ends ask s places := by
  rintro ⟨reading, -, hreads⟩
  have hless {before after : σ × List Place} (h : reader.Reads ask before after) :
      total (left after.1) after.2 < total (left before.1) before.2 := by
    cases h with
    | @page s s' places index place page hplace hopen hanswer =>
        obtain ⟨hlt, rfl⟩ := List.getElem?_eq_some_iff.1 hplace
        obtain ⟨front, rest, hplaces, -, hset⟩ :=
          @List.exists_of_set _ _ (places[index].behind page) _ hlt
        have hothers (places : List Place) : total (left s') places ≤ total (left s) places :=
          total_le_total fun other _ => hothers other hanswer
        have hread := hread hanswer
        have hfront := hothers front
        have hrest := hothers rest
        have hbefore := congrArg (total (left s)) hplaces
        rw [total_append, total_cons] at hbefore
        simp only [hset, total_append, total_cons, hbefore]
        omega
  obtain ⟨n, hn⟩ := WellFounded.not_rel_apply_succ (r := (· < ·))
    fun n => total (left (reading n).1) (reading n).2
  exact hn (hless (hreads n))

end ShardReader

/-! ### Rounds -/

namespace Source

variable {reader : ShardReader σ} {ask : Place → ShardRequest}

/-- Exchanging the progress of a shard exchanges its place. -/
theorem places_set (source : Source) (index : Nat) (progress : ShardProgress) :
    places { source with shards := source.shards.set index progress } =
      source.places.set index progress.place :=
  List.map_set

/-- Taking a row leaves the places, since the row has been received before. -/
theorem places_next (source : Source) : source.next.state.places = source.places := by
  obtain heq | ⟨index, progress, row, rows, hp, -, heq⟩ := source.next_state_cases <;> rw [heq]
  have hplace : source.places[index]? = some progress.place := by
    rw [places, List.getElem?_map, hp]
    rfl
  obtain ⟨hlt, hplace⟩ := List.getElem?_eq_some_iff.1 hplace
  refine (source.places_set index (progress.afterRow rows row.sizeEstimate)).trans ?_
  change source.places.set index progress.place = source.places
  rw [← hplace, List.set_getElem_self]

/-- **A round whose answers are all taken in reads pages**, one for every shard that it asks. -/
theorem reads_of_round {source : Source} {s : σ} {wanted : List Nat} (hwanted : wanted.Nodup)
    (hne : wanted ≠ [])
    (hneeds : ∀ index ∈ wanted,
      ∃ progress, source.shards[index]? = some progress ∧ progress.needsFetch = true)
    (hresult :
      (source.round reader (fun progress => ask progress.place) wanted s).1.result = .ok ()) :
    Relation.TransGen (reader.Reads ask) (s, source.places)
      ((source.round reader (fun progress => ask progress.place) wanted s).2,
        (source.round reader (fun progress => ask progress.place) wanted s).1.state.places) := by
  induction wanted generalizing source s with
  | nil => exact absurd rfl hne
  | cons index wanted ih =>
      obtain ⟨hindex, hwanted⟩ := List.nodup_cons.1 hwanted
      obtain ⟨⟨progress, hp, hneed⟩, hneeds⟩ := List.forall_mem_cons.1 hneeds
      rcases hanswer : reader.answer (ask progress.place) s with ⟨error | page, s₁⟩
      · rw [round_cons_error hp hanswer] at hresult
        cases hresult
      · have hopen : progress.exhausted = false := by
          simpa using (Bool.and_eq_true_iff.1 hneed).2
        have hplace : source.places[index]? = some progress.place := by
          rw [places, List.getElem?_map, hp]
          rfl
        have hread : reader.Reads ask (s, source.places)
            (s₁, places { source with
              shards := source.shards.set index
                (progress.afterResponse page (Row.totalSize page.rows)) }) := by
          rw [places_set]
          exact .page hplace hopen hanswer
        rw [round_cons hp hindex hanswer] at hresult ⊢
        cases wanted with
        | nil => exact .single hread
        | cons =>
            exact .head hread
              (ih hwanted (List.cons_ne_nil _ _) (needsFetch_set hindex hneeds _) hresult)

end Source

/-! ### Recorded answers -/

namespace Recorded

/-- **Every record comes to its end**: each request uses up an answer, and where none is left there
is an error. -/
theorem ends (ask : Place → ShardRequest) (hask : ∀ place, (ask place).shard = place.shard)
    (record : Recorded) (places : List Place) : reader.Ends ask record places := by
  have htaken {s s' : Recorded} {place : Place} {page : ShardResponse}
      (h : reader.answer (ask place) s = (.ok page, s')) :
      (take place.shard s.answers).1 = .ok page ∧
        s'.answers = (take place.shard s.answers).2 := by
    rw [← hask place]
    exact ⟨congrArg Prod.fst h, congrArg (answers ∘ Prod.snd) h.symm⟩
  have hread {s s' : Recorded} {place : Place} {page : ShardResponse}
      (h : reader.answer (ask place) s = (.ok page, s')) :
      (answersOf place.shard s'.answers).length < (answersOf place.shard s.answers).length := by
    obtain ⟨hpage, hanswers⟩ := htaken h
    rw [hanswers, answersOf_take hpage]
    exact Nat.lt_succ_self _
  refine ShardReader.ends_of_left
    (fun record place => (answersOf place.shard record.answers).length) hread ?_ record places
  intro s s' place page other h
  by_cases hsame : other.shard = place.shard
  · simp only [hsame]
    exact (hread h).le
  · simp only [(htaken h).2, answersOf_take_of_ne hsame]
    exact Nat.le_refl _

end Recorded

end ShardQuery
