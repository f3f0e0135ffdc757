import ShardQuery.Proofs.Metered
import ShardQuery.Stage.Source

/-!
# What Sources Do

The laws of the operations of a source: which row is taken from a buffer, and which shards
can be asked.

## Main results

* `Source.next_inv`: everything that a source can do next, and when.
-/

namespace ShardQuery

namespace ShardProgress

/-- A shard without rows is at its end, if it need not be asked. -/
theorem isDrained_of_needsFetch {progress : ShardProgress} (hbuffer : progress.buffer = [])
    (h : progress.needsFetch = false) : progress.isDrained = true := by
  simpa [isDrained, needsFetch, hbuffer] using h

/-- A shard without rows that is not at its end must be asked. -/
theorem needsFetch_of_isDrained {progress : ShardProgress} (hbuffer : progress.buffer = [])
    (h : progress.isDrained = false) : progress.needsFetch = true := by
  simpa [isDrained, needsFetch, hbuffer] using h

/-- A shard that must be asked is not at its end. -/
theorem isDrained_eq_false {progress : ShardProgress} (h : progress.needsFetch = true) :
    progress.isDrained = false := by
  obtain ⟨-, hopen⟩ := Bool.and_eq_true_iff.1 h
  have hopen' : progress.exhausted = false := by simpa using hopen
  rw [isDrained, hopen', Bool.and_false]

end ShardProgress

namespace Source

/-- The front of a shard belongs to its progress. -/
theorem front?_eq_some_iff {source : Source} {index : Nat} {progress : ShardProgress} {row : Row}
    {rows : List Row} :
    source.front? index = some (progress, row, rows) ↔
      source.shards[index]? = some progress ∧ progress.buffer = row :: rows := by
  unfold front?
  constructor
  · intro h
    split at h
    · next p hp =>
        split at h <;> cases h
        next hb => exact ⟨hp, hb⟩
    · cases h
  · rintro ⟨hp, hb⟩
    simp only [hp, hb]

/-- The source without the first row of the buffer of a shard. -/
def popped (source : Source) (index : Nat) (progress : ShardProgress) (row : Row)
    (rows : List Row) : Source :=
  { source with shards := source.shards.set index (progress.afterRow rows row.sizeEstimate) }

/-- Taking a row from a shard whose buffer has one gives the row, and its memory back. -/
theorem pop_eq {source : Source} {index : Nat} {progress : ShardProgress} {row : Row}
    {rows : List Row} (hp : source.shards[index]? = some progress)
    (hb : progress.buffer = row :: rows) :
    source.pop index =
      .after (.release row.sizeEstimate) (source.popped index progress row rows)
        (.done (source.popped index progress row rows) (.row row)) := by
  simp only [pop, front?_eq_some_iff.2 ⟨hp, hb⟩, popped]

/-- The places that can be asked are those of the shards that must be asked. -/
theorem mem_fetchable_iff {source : Source} {index : Nat} :
    index ∈ source.fetchable ↔
      ∃ progress, source.shards[index]? = some progress ∧ progress.needsFetch = true := by
  simp only [fetchable, List.mem_map, List.mem_filter, Prod.exists, List.mem_zipIdx_iff_getElem?]
  constructor
  · rintro ⟨progress, i, ⟨hp, hneeds⟩, rfl⟩
    exact ⟨progress, hp, hneeds⟩
  · rintro ⟨progress, hp, hneeds⟩
    exact ⟨progress, index, ⟨hp, hneeds⟩, rfl⟩

/-- An answer of one shard leaves the others to be asked. -/
theorem needsFetch_set {source : Source} {index : Nat} {wanted : List Nat} (hindex : index ∉ wanted)
    (hneeds : ∀ i ∈ wanted,
      ∃ other, source.shards[i]? = some other ∧ other.needsFetch = true)
    (progress : ShardProgress) :
    ∀ i ∈ wanted,
      ∃ other, (source.shards.set index progress)[i]? = some other ∧ other.needsFetch = true := by
  intro i hi
  obtain ⟨other, hother, hneed⟩ := hneeds i hi
  have hne : index ≠ i := fun heq => hindex (heq ▸ hi)
  exact ⟨other, (List.getElem?_set_ne hne).trans hother, hneed⟩

/-- No shard is asked twice, as each place comes up once. -/
theorem nodup_fetchable (source : Source) : source.fetchable.Nodup := by
  have hsub : List.Sublist source.fetchable (source.shards.zipIdx.map (·.2)) :=
    List.Sublist.map _ List.filter_sublist
  refine hsub.nodup ?_
  rw [List.zipIdx_map_snd]
  exact List.nodup_range'

/-- If no shard can be asked, none must be. -/
theorem needsFetch_of_fetchable {source : Source} (h : source.fetchable = []) :
    ∀ progress ∈ source.shards, progress.needsFetch = false := by
  intro progress hmem
  obtain ⟨index, hindex⟩ := List.mem_iff_getElem?.1 hmem
  cases hneeds : progress.needsFetch with
  | false => rfl
  | true =>
      have hfetchable := mem_fetchable_iff.2 ⟨progress, hindex, hneeds⟩
      rw [h] at hfetchable
      cases hfetchable

/-- The least first row is that of the best shard before, or of a shard from there on. -/
theorem leastFrom_eq_some {keys : List OrderKey} {best : Option (Nat × Row)} {index i : Nat}
    {shards : List ShardProgress} {row : Row}
    (h : leastFrom keys best index shards = some (i, row)) :
    best = some (i, row) ∨ ∃ (j : Nat) (progress : ShardProgress) (rows : List Row),
      i = index + j ∧ shards[j]? = some progress ∧ progress.buffer = row :: rows := by
  induction shards generalizing best index with
  | nil => exact .inl h
  | cons progress shards ih =>
      obtain hbest | ⟨j, other, rows, rfl, hother, hb⟩ := ih h
      · cases hb : progress.buffer with
        | nil =>
            rw [hb] at hbest
            exact .inl hbest
        | cons first rows =>
            have hfirst : (index, first) = (i, row) → ∃ (j : Nat) (progress' : ShardProgress)
                (rows : List Row), i = index + j ∧ (progress :: shards)[j]? = some progress' ∧
                  progress'.buffer = row :: rows := by
              rintro ⟨⟩
              exact ⟨0, progress, rows, rfl, rfl, hb⟩
            rw [hb] at hbest
            cases best with
            | none => exact .inr (hfirst (Option.some.inj hbest))
            | some front =>
                simp only at hbest
                split at hbest
                · exact .inr (hfirst (Option.some.inj hbest))
                · exact .inl hbest
      · exact .inr ⟨j + 1, other, rows, by omega, hother, hb⟩

/-- If there is no least first row, there are no rows. -/
theorem leastFrom_eq_none {keys : List OrderKey} {best : Option (Nat × Row)} {index : Nat}
    {shards : List ShardProgress} (h : leastFrom keys best index shards = none) :
    best = none ∧ ∀ progress ∈ shards, progress.buffer = [] := by
  induction shards generalizing best index with
  | nil => exact ⟨h, List.forall_mem_nil _⟩
  | cons progress shards ih =>
      obtain ⟨hbest, hothers⟩ := ih h
      cases hb : progress.buffer with
      | nil =>
          rw [hb] at hbest
          exact ⟨hbest, List.forall_mem_cons.2 ⟨hb, hothers⟩⟩
      | cons first rows =>
          rw [hb] at hbest
          cases best with
          | none => cases hbest
          | some front =>
              simp only at hbest
              split at hbest <;> cases hbest

/-! ### What comes next -/

/-- Whether the first row of a shard is the next one to be taken, as the delivery says. -/
def Gives (source : Source) (index : Nat) (row : Row) : Prop :=
  match source.delivery with
  | .inOrder => ∀ i < index, ∀ progress, source.shards[i]? = some progress →
      progress.isDrained = true
  | .anyOrder _ => ∀ i < index, ∀ progress, source.shards[i]? = some progress →
      progress.buffer = []
  | .merged keys => source.fetchable = [] ∧ leastFrom keys none 0 source.shards = some (index, row)

/-- Whether shards are those that must be asked before the source can go on, as the delivery
says. -/
def Wants (source : Source) (wanted : List Nat) : Prop :=
  match source.delivery with
  | .inOrder => ∃ index progress, wanted = [index] ∧ source.shards[index]? = some progress ∧
      progress.needsFetch = true ∧
      ∀ i < index, ∀ earlier, source.shards[i]? = some earlier → earlier.isDrained = true
  | .anyOrder fanOut => (∀ progress ∈ source.shards, progress.buffer = []) ∧
      wanted = source.fetchable.take fanOut
  | .merged _ => wanted = source.fetchable

/-- What a source does next, in the order in which it tries: its shards are incomplete, it has a row
to give, all shards are drained, or some must be asked. -/
inductive NextCase (source : Source) : Prop
  /-- It has not all of its shards. -/
  | incomplete : source.shards.length ≠ source.shardCount →
      source.next = .fail source (.scanState source.position) → NextCase source
  /-- It takes a row. -/
  | gives {index : Nat} {progress : ShardProgress} {row : Row} {rows : List Row} :
      source.shards[index]? = some progress → progress.buffer = row :: rows →
      source.Gives index row →
      source.next =
        .after (.release row.sizeEstimate) (source.popped index progress row rows)
          (.done (source.popped index progress row rows) (.row row)) →
      NextCase source
  /-- It says that there are no more rows, which is so if it may ask shards at all. -/
  | ends : ((∀ fanOut, source.delivery = .anyOrder fanOut → fanOut ≠ 0) →
        ∀ progress ∈ source.shards, progress.isDrained = true) →
      source.next = .done source .exhausted → NextCase source
  /-- It waits for shards. -/
  | wants {wanted : List Nat} : wanted ≠ [] → source.Wants wanted →
      source.next = .done source (.fetch wanted) → NextCase source

/-- In order, the first shard that is not drained has the next row or must be asked. -/
theorem next_inOrder {source : Source} (hlength : source.shards.length = source.shardCount)
    (hdelivery : source.delivery = .inOrder) : source.NextCase := by
  have hnext : source.next = _ := if_neg fun hne => hne hlength
  rw [hdelivery] at hnext
  simp only at hnext
  cases hfind : source.shards.findIdx? fun progress => !progress.isDrained with
  | none =>
      rw [hfind] at hnext
      refine .ends (fun _ progress hmem => ?_) hnext
      simpa using List.findIdx?_eq_none_iff.1 hfind progress hmem
  | some index =>
      rw [hfind] at hnext
      simp only at hnext
      obtain ⟨hlt, hundrained, hbefore⟩ := List.findIdx?_eq_some_iff_getElem.1 hfind
      have hp := List.getElem?_eq_getElem hlt
      have hearlier : ∀ i < index, ∀ progress, source.shards[i]? = some progress →
          progress.isDrained = true := by
        intro i hi progress hprogress
        obtain ⟨hlt', rfl⟩ := List.getElem?_eq_some_iff.1 hprogress
        simpa using hbefore i hi
      cases hb : source.shards[index].buffer with
      | cons row rows =>
          rw [front?_eq_some_iff.2 ⟨hp, hb⟩] at hnext
          refine .gives hp hb ?_ (hnext.trans (pop_eq hp hb))
          rw [Gives, hdelivery]
          exact hearlier
      | nil =>
          have hfront : ¬ (source.front? index).isSome = true := by
            simp [front?, hp, hb]
          rw [if_neg hfront] at hnext
          have hneeds := ShardProgress.needsFetch_of_isDrained hb (by simpa using hundrained)
          refine .wants (List.cons_ne_nil _ _) ?_ hnext
          rw [Wants, hdelivery]
          exact ⟨index, _, rfl, hp, hneeds, hearlier⟩

/-- In any order, the first shard with a row has the next one; if there is none, as many shards
are asked as may be. -/
theorem next_anyOrder {source : Source} (hlength : source.shards.length = source.shardCount)
    {fanOut : Nat} (hdelivery : source.delivery = .anyOrder fanOut) : source.NextCase := by
  have hnext : source.next = _ := if_neg fun hne => hne hlength
  rw [hdelivery] at hnext
  simp only at hnext
  cases hfind : source.shards.findIdx? fun progress => !progress.buffer.isEmpty with
  | some index =>
      rw [hfind] at hnext
      obtain ⟨hlt, hbuffer, hbefore⟩ := List.findIdx?_eq_some_iff_getElem.1 hfind
      obtain ⟨row, rows, hb⟩ := List.exists_cons_of_ne_nil
        (show source.shards[index].buffer ≠ [] by simpa using hbuffer)
      have hp := List.getElem?_eq_getElem hlt
      refine .gives hp hb ?_ (hnext.trans (pop_eq hp hb))
      rw [Gives, hdelivery]
      intro i hi progress hprogress
      obtain ⟨hlt', rfl⟩ := List.getElem?_eq_some_iff.1 hprogress
      simpa using hbefore i hi
  | none =>
      rw [hfind] at hnext
      have hempty : ∀ progress ∈ source.shards, progress.buffer = [] := fun progress hmem => by
        simpa using List.findIdx?_eq_none_iff.1 hfind progress hmem
      cases hwanted : source.fetchable.take fanOut with
      | nil =>
          simp only [hwanted] at hnext
          refine .ends (fun hpos progress hmem => ?_) hnext
          have hnone : source.fetchable = [] :=
            (List.take_eq_nil_iff.1 hwanted).resolve_left (hpos fanOut hdelivery)
          exact ShardProgress.isDrained_of_needsFetch (hempty progress hmem)
            (needsFetch_of_fetchable hnone progress hmem)
      | cons first others =>
          simp only [hwanted] at hnext
          refine .wants (List.cons_ne_nil _ _) ?_ hnext
          rw [Wants, hdelivery]
          exact ⟨hempty, hwanted.symm⟩

/-- Merged, the least first row is the next one, once no shard must be asked. -/
theorem next_merged {source : Source} (hlength : source.shards.length = source.shardCount)
    {keys : List OrderKey} (hdelivery : source.delivery = .merged keys) : source.NextCase := by
  have hnext : source.next = _ := if_neg fun hne => hne hlength
  rw [hdelivery] at hnext
  simp only at hnext
  cases hwanted : source.fetchable with
  | nil =>
      simp only [hwanted] at hnext
      cases hleast : leastFrom keys none 0 source.shards with
      | none =>
          rw [hleast] at hnext
          refine .ends (fun _ progress hmem => ?_) hnext
          exact ShardProgress.isDrained_of_needsFetch ((leastFrom_eq_none hleast).2 progress hmem)
            (needsFetch_of_fetchable hwanted progress hmem)
      | some front =>
          obtain ⟨index, row⟩ := front
          rw [hleast] at hnext
          obtain hnone | ⟨j, progress, rows, hj, hp, hb⟩ := leastFrom_eq_some hleast
          · cases hnone
          · rw [Nat.zero_add] at hj
            subst hj
            refine .gives hp hb ?_ (hnext.trans (pop_eq hp hb))
            rw [Gives, hdelivery]
            exact ⟨hwanted, hleast⟩
  | cons first others =>
      simp only [hwanted] at hnext
      refine .wants (List.cons_ne_nil _ _) ?_ hnext
      rw [Wants, hdelivery, ← hwanted]

/-- **Everything that a source can do next**, and when. -/
theorem next_inv (source : Source) : source.NextCase := by
  by_cases hlength : source.shards.length = source.shardCount
  · cases hdelivery : source.delivery with
    | inOrder => exact next_inOrder hlength hdelivery
    | anyOrder fanOut => exact next_anyOrder hlength hdelivery
    | merged keys => exact next_merged hlength hdelivery
  · exact .incomplete hlength (if_pos hlength)

/-- The shards that are wanted must be asked: their buffers are empty, and they are not at their
ends. -/
theorem Wants.needsFetch {source : Source} {wanted : List Nat} (h : source.Wants wanted) :
    ∀ index ∈ wanted,
      ∃ progress, source.shards[index]? = some progress ∧ progress.needsFetch = true := by
  unfold Wants at h
  split at h
  · obtain ⟨index, progress, rfl, hp, hneeds, -⟩ := h
    exact List.forall_mem_singleton.2 ⟨progress, hp, hneeds⟩
  · obtain ⟨-, rfl⟩ := h
    exact fun index hmem => mem_fetchable_iff.1 (List.mem_of_mem_take hmem)
  · subst h
    exact fun index hmem => mem_fetchable_iff.1 hmem

/-- No shard is wanted twice in a round. -/
theorem Wants.nodup {source : Source} {wanted : List Nat} (h : source.Wants wanted) :
    wanted.Nodup := by
  unfold Wants at h
  split at h
  · obtain ⟨index, progress, rfl, -⟩ := h
    exact List.pairwise_singleton _ _
  · obtain ⟨-, rfl⟩ := h
    exact (List.take_sublist _ _).nodup source.nodup_fetchable
  · subst h
    exact source.nodup_fetchable

/-- A source goes on by taking a row, or not at all. -/
theorem next_state_cases (source : Source) :
    source.next.state = source ∨ ∃ index progress row rows,
      source.shards[index]? = some progress ∧ progress.buffer = row :: rows ∧
        source.next.state = source.popped index progress row rows := by
  cases source.next_inv with
  | gives hp hb _ h => exact .inr ⟨_, _, _, _, hp, hb, congrArg _ h⟩
  | incomplete _ h | ends _ h | wants _ _ h => exact .inl (congrArg _ h)

/-! ### Failures and requests -/

/-- A source that has all of its shards does not fail. -/
theorem ne_error_of_next {source : Source} (h : source.shards.length = source.shardCount)
    (error : QueryError) : source.next.result ≠ .error error := by
  intro herror
  cases source.next_inv with
  | incomplete hne => exact hne h
  | gives _ _ _ heq | ends _ heq | wants _ _ heq =>
      rw [heq] at herror
      cases herror

/-- A source that waits for shards stays as it is, and wants these. -/
theorem wants_of_next {source : Source} {wanted : List Nat}
    (h : source.next.result = .ok (.fetch wanted)) :
    source.next.state = source ∧ wanted ≠ [] ∧ source.Wants wanted := by
  cases source.next_inv with
  | wants hne hwants heq =>
      rw [heq] at h ⊢
      cases h
      exact ⟨rfl, hne, hwants⟩
  | incomplete _ heq | gives _ _ _ heq | ends _ heq =>
      rw [heq] at h
      cases h

/-- There are shards to be asked, the source stays as it is until they have answered, and all of
their places exist. -/
theorem next_of_fetch {source : Source} {wanted : List Nat}
    (h : source.next.result = .ok (.fetch wanted)) :
    source.next.state = source ∧ wanted ≠ [] ∧ ∀ index ∈ wanted, index < source.shards.length := by
  obtain ⟨hstate, hne, hwants⟩ := wants_of_next h
  refine ⟨hstate, hne, fun index hmem => ?_⟩
  obtain ⟨progress, hp, -⟩ := hwants.needsFetch index hmem
  exact (List.getElem?_eq_some_iff.1 hp).1

/-! ### Responses -/

/-- What every response keeps is kept by taking them in, also if that fails on the way. -/
theorem receive_state {p : Source → Prop}
    {responses : List (Nat × Except RequestError ShardResponse)}
    (hkept : ∀ {source : Source} {index : Nat} {progress : ShardProgress}
      {response : ShardResponse}, p source → (index, .ok response) ∈ responses →
      source.shards[index]? = some progress →
      p { source with
        shards := source.shards.set index
          (progress.afterResponse response (Row.totalSize response.rows)) })
    {source : Source} (h : p source) : p (source.receive responses).state := by
  induction responses generalizing source with
  | nil => exact h
  | cons entry responses ih =>
      obtain ⟨index, error | response⟩ := entry
      · exact h
      · rw [receive]
        split
        · exact h
        · next progress hp =>
            have hnext := hkept h List.mem_cons_self hp
            exact ih (fun hsource hmem => hkept hsource (List.mem_cons_of_mem _ hmem)) hnext

/-- Answers of shards that the source has fail only as the shards say. -/
theorem request_of_receive {source : Source}
    {responses : List (Nat × Except RequestError ShardResponse)} {error : QueryError}
    (hplaces : ∀ index ∈ responses.map (·.1), index < source.shards.length)
    (h : (source.receive responses).result = .error error) :
    ∃ fault, error = .request fault := by
  induction responses generalizing source with
  | nil => cases h
  | cons entry responses ih =>
      obtain ⟨index, fault | response⟩ := entry
      · cases h
        exact ⟨fault, rfl⟩
      · obtain ⟨hindex, hothers⟩ := List.forall_mem_cons.1 hplaces
        rw [receive, List.getElem?_eq_getElem hindex] at h
        exact @ih { source with shards := source.shards.set index _ }
          (by simpa only [List.length_set] using hothers) h

end Source

end ShardQuery
