import ShardQuery.Proofs.Distinct.Keys
import ShardQuery.Proofs.Meaning.Stages
import ShardQuery.Proofs.Stage.Polling

/-!
# The Ways to Drop Repeated Rows

A row is dropped because its key is that of the latest row that was sent on, or because the text of
its key is among those of all rows that were. If rows with the same key follow one another, that is
the same, and both ways send on the first row of every key.

Main definitions:

* `Contiguous` — whether rows with the same key follow one another;
* `FirstOfEach` — the first row of every key.

## Main results

* `Meaning.firstOfEach_deduplicated`: what is kept of rows that follow one another.
* `Stage.polledToEnd_distinct`: a stage that drops rows comes to the end that belongs to its rows.
* `Stage.sends_first_of_each`: both ways send on the first row of every key.
-/

namespace ShardQuery

/-! ### First rows -/

section

variable (same : Row → Row → Prop)

/-- Whether rows that are the same follow one another: between two of them there are only others
of them. -/
def Contiguous (rows : List Row) : Prop :=
  ∀ first between last, List.Sublist [first, between, last] rows → same first last →
    same first between

/-- The first of the rows that are the same, for all rows but those that are the same as one kept
before. -/
inductive FirstOfEach : List Row → List Row → List Row → Prop
  /-- There are no rows. -/
  | nil {seen : List Row} : FirstOfEach seen [] []
  /-- A row that is the same as one kept before is dropped. -/
  | repeated {seen rows kept : List Row} {row earlier : Row} :
      earlier ∈ seen → same earlier row → FirstOfEach seen rows kept →
      FirstOfEach seen (row :: rows) kept
  /-- Any other row is kept. -/
  | new {seen rows kept : List Row} {row : Row} :
      (∀ earlier ∈ seen, ¬ same earlier row) → FirstOfEach (row :: seen) rows kept →
      FirstOfEach seen (row :: rows) (row :: kept)

/-- Whether only the latest of some kept rows can be the same as one of those that are still to
come, and these then come first. -/
def Settled : List Row → List Row → Prop
  | [], _ => True
  | latest :: others, rows =>
    (rows.Pairwise fun a b => same latest b → same latest a) ∧
      ∀ row ∈ rows, ∀ other ∈ others, ¬ same other row

variable {same} {seen rows : List Row} {row : Row}

/-- There is one way only to keep the first rows. -/
theorem FirstOfEach.unique {kept kept' : List Row} (h : FirstOfEach same seen rows kept)
    (h' : FirstOfEach same seen rows kept') : kept = kept' := by
  induction h generalizing kept' with
  | nil =>
      cases h'
      rfl
  | repeated hmem hsame _ ih =>
      cases h' with
      | repeated _ _ hrest => exact ih hrest
      | new hnew => exact absurd hsame (hnew _ hmem)
  | new hnew _ ih =>
      cases h' with
      | repeated hmem hsame => exact absurd hsame (hnew _ hmem)
      | new _ hrest => exact congrArg (_ :: ·) (ih hrest)

/-- Rows of one key still stand together after the first row has been taken away. -/
theorem Contiguous.of_cons (h : Contiguous same (row :: rows)) : Contiguous same rows :=
  fun first between last hsublist => h first between last (hsublist.cons row)

/-- Settled rows stay settled as the rows ahead become fewer. -/
theorem Settled.of_cons (h : Settled same seen (row :: rows)) : Settled same seen rows := by
  cases seen with
  | nil => trivial
  | cons latest others =>
      exact ⟨h.1.of_cons, fun row hrow => h.2 row (List.mem_cons_of_mem _ hrow)⟩

/-- A row that is not the same as any one kept before settles those. -/
theorem Settled.kept (h : Settled same seen (row :: rows))
    (hcontiguous : Contiguous same (row :: rows)) (hnew : ∀ earlier ∈ seen, ¬ same earlier row) :
    Settled same (row :: seen) rows := by
  refine ⟨List.pairwise_iff_forall_sublist.2 fun {a b} hsublist => ?_, fun later hlater => ?_⟩
  · exact hcontiguous row a b (hsublist.cons_cons row)
  · cases seen with
    | nil => exact List.forall_mem_nil _
    | cons latest others =>
        obtain ⟨hfirst, -⟩ := List.pairwise_cons.1 h.1
        refine List.forall_mem_cons.2 ⟨fun hsame => ?_, ?_⟩
        · exact hnew latest List.mem_cons_self (hfirst later hlater hsame)
        · exact h.2 later (List.mem_cons_of_mem _ hlater)

end

/-! ### Rows with keys -/

/-- Whether the key of a row is told apart from others: its values are not the names of numbers,
and its doubles are such that keys may hold. -/
structure Row.HasKey (keys : List String) (row : Row) : Prop where
  /-- No value is the name of a number. -/
  names : row.All (Value.NamesOnly IsFreeName)
  /-- The key holds no non-number and not `2 ^ 63`. -/
  holds : Value.HoldItems Double.IsKept (Stage.distinctKey keys row)

namespace Meaning

variable {keys : List String} {seen rows : List Row} {row : Row}

/-- The texts of the keys that were kept tell whether one is repeated. -/
theorem repeats_hashed_iff (hseen : ∀ earlier ∈ seen, earlier.HasKey keys)
    (hrow : row.HasKey keys) :
    repeats .hashed (seen.map (Stage.distinctKey keys)) (Stage.distinctKey keys row) = true ↔
      ∃ earlier ∈ seen, earlier.SharesKey keys row := by
  rw [repeats, List.any_map, List.any_eq_true]
  refine exists_congr fun earlier => and_congr_right fun hmem => ?_
  rw [Function.comp_apply, beq_iff_eq, Stage.sharesKey_iff]
  exact Stage.keyText_eq_iff (hseen earlier hmem).holds hrow.holds (hseen earlier hmem).names
    hrow.names

/-- The latest key tells whether one is repeated, if the others are settled. -/
theorem repeats_adjacent_iff (hseen : ∀ earlier ∈ seen, earlier.HasKey keys)
    (hrow : row.HasKey keys) (hsettled : Settled (Row.SharesKey keys) seen (row :: rows)) :
    repeats .adjacent (seen.map (Stage.distinctKey keys)) (Stage.distinctKey keys row) = true ↔
      ∃ earlier ∈ seen, earlier.SharesKey keys row := by
  cases seen with
  | nil => exact iff_of_false nofun (by simp)
  | cons latest others =>
      have hothers : ¬ ∃ other ∈ others, other.SharesKey keys row := fun ⟨other, hmem, hsame⟩ =>
        hsettled.2 row List.mem_cons_self other hmem hsame
      simp only [List.mem_cons, exists_eq_or_imp]
      rw [or_iff_left hothers, Stage.sharesKey_iff]
      exact Stage.sameKey_iff (hseen latest List.mem_cons_self).holds hrow.holds

/-- **What is kept of rows that follow one another**, in either way: the first row of every key. -/
theorem firstOfEach_deduplicated (strategy : DistinctStrategy)
    (hseen : ∀ earlier ∈ seen, earlier.HasKey keys) (hrows : ∀ row ∈ rows, row.HasKey keys)
    (hcontiguous : Contiguous (Row.SharesKey keys) rows)
    (hsettled : Settled (Row.SharesKey keys) seen rows) :
    FirstOfEach (Row.SharesKey keys) seen rows
      (deduplicated keys strategy (seen.map (Stage.distinctKey keys)) rows) := by
  induction rows generalizing seen with
  | nil => exact .nil
  | cons row rows ih =>
      obtain ⟨hrow, hrest⟩ := List.forall_mem_cons.1 hrows
      have hrepeats : repeats strategy (seen.map (Stage.distinctKey keys))
          (Stage.distinctKey keys row) = true ↔ ∃ earlier ∈ seen, earlier.SharesKey keys row := by
        cases strategy with
        | adjacent => exact repeats_adjacent_iff hseen hrow hsettled
        | hashed => exact repeats_hashed_iff hseen hrow
      rw [deduplicated]
      by_cases h : ∃ earlier ∈ seen, earlier.SharesKey keys row
      · rw [if_pos (hrepeats.2 h)]
        obtain ⟨earlier, hmem, hsame⟩ := h
        exact .repeated hmem hsame (ih hseen hrest hcontiguous.of_cons hsettled.of_cons)
      · rw [if_neg (mt hrepeats.1 h)]
        have hnew : ∀ earlier ∈ seen, ¬ earlier.SharesKey keys row :=
          fun earlier hmem hsame => h ⟨earlier, hmem, hsame⟩
        exact .new hnew (ih (List.forall_mem_cons.2 ⟨hrow, hseen⟩) hrest hcontiguous.of_cons
          (hsettled.kept hcontiguous hnew))

end Meaning

/-! ### Polled to the end -/

/-- What a signal that is not the end stands between. -/
theorem Signal.Yields.eq_append {signal : Signal} {before after : List Row}
    (h : signal.Yields before after) (hsignal : signal ≠ .exhausted) :
    before = signal.row?.toList ++ after := by
  cases signal with
  | exhausted => exact absurd rfl hsignal
  | row | fetch | again => exact h

namespace Stage

variable {bindings : Bindings} {keys : List String} {strategy : DistinctStrategy}

/-- A stage that drops rows goes on after a row, and takes no memory before it gives some back. -/
theorem goesOn_of_accept_distinct (row : Row) (state : DistinctState) :
    ∃ next signal,
      (accept bindings row (.distinct keys strategy state)).state = .distinct keys strategy next ∧
      (accept bindings row (.distinct keys strategy state)).result = .ok signal ∧
      signal ≠ .exhausted ∧
      ReleasesFirst (accept bindings row (.distinct keys strategy state)).events := by
  have hrow : Signal.row row ≠ .exhausted := by simp
  have hagain : Signal.again ≠ .exhausted := by simp
  generalize hown : accept bindings row (.distinct keys strategy state) = own
  cases accept_inv hown with
  | same | seen => exact ⟨_, _, rfl, rfl, hagain, List.Pairwise.nil⟩
  | changed => exact ⟨_, _, rfl, rfl, hrow, List.pairwise_pair.2 fun _ => rfl⟩
  | unseen => exact ⟨_, _, rfl, rfl, hrow, List.pairwise_singleton _ _⟩

/-- **A stage that drops rows and is given enough memory comes to the end that belongs to its
rows**, however often its input interrupts itself. -/
theorem polledToEnd_distinct {input : List Signal} (hinput : Signal.exhausted ∉ input)
    {state : DistinctState} {sent : List Row}
    (hrest : rest bindings (.distinct keys strategy state) (input.filterMap Signal.row?) =
      .ok sent) :
    ∃ enough, ∀ {memory : Memory} {base : Nat}, memory.used = base + state.bytes →
      base + enough ≤ memory.limit → memory.limit ≤ maxAmount →
      PolledToEnd bindings memory (.distinct keys strategy state) input sent (.ok ()) := by
  induction input generalizing state sent with
  | nil =>
      have hsent : sent = [] := by cases strategy <;> exact (Except.ok.inj hrest).symm
      subst hsent
      exact ⟨0, fun {memory _} _ _ _ => .exhausted (m := memory) rfl⟩
  | cons signal input ih =>
      obtain ⟨hne, hothers⟩ := not_or.1 (List.mem_cons.not.1 hinput)
      cases signal with
      | exhausted => exact absurd rfl hne
      | fetch | again =>
          obtain ⟨enough, hpolled⟩ := ih hothers hrest
          exact ⟨enough, fun hused hroom hcounted =>
            (hpolled hused hroom hcounted).of_interrupted (Ne.symm hne) rfl rfl⟩
      | row row =>
          rw [List.filterMap_cons_some (f := Signal.row?) rfl] at hrest
          obtain ⟨next, signal, hstate, hresult, hsignal, hevents⟩ :=
            @goesOn_of_accept_distinct bindings keys strategy row state
          obtain ⟨out, hout, hyields⟩ := yields_of_accept (by rfl) hresult hrest
          rw [hstate] at hout
          obtain ⟨enough, hpolled⟩ := ih hothers hout
          refine ⟨max next.bytes enough, fun {memory base} hused hroom hcounted => ?_⟩
          have hnext : base + next.bytes ≤ memory.limit :=
            Nat.le_trans (Nat.add_le_add_left (Nat.le_max_left _ enough) base) hroom
          have hlater : base + enough ≤ memory.limit :=
            Nat.le_trans (Nat.add_le_add_left (Nat.le_max_right _ enough) base) hroom
          obtain ⟨m, hlimit, hm, hrun⟩ := run_accept_of_room hevents hused hcounted
            (hstate ▸ hnext)
          rw [hstate] at hm hrun
          rw [hresult] at hrun
          rw [hyields.eq_append hsignal]
          exact .goesOn hrun hsignal (hpolled hm (hlimit ▸ hlater) (hlimit ▸ hcounted))

/-- At the start, what a stage that drops rows sends on is what is kept of all of them. -/
theorem rest_start_distinct (keys : List String) (strategy : DistinctStrategy) (rows : List Row) :
    rest bindings (.distinct keys strategy .start) rows =
      .ok (Meaning.deduplicated keys strategy [] rows) := by
  cases strategy with
  | adjacent => exact congrArg Except.ok (adjacentFrom_eq keys [] rows)
  | hashed => exact congrArg Except.ok (hashedFrom_eq (by simp [DistinctState.start]) rows)

/-- **Both ways to drop repeated rows send on the first row of every key**, whatever the key fields
and however often the input interrupts itself, if the account has enough room: of rows that have
been read from documents, that follow one another if they share a key, and whose keys hold neither
non-numbers nor `2 ^ 63`. -/
theorem sends_first_of_each {input : List Signal} (hinput : Signal.exhausted ∉ input)
    (hread : ∀ row ∈ input.filterMap Signal.row?, ∃ document, Row.ofJson? document = some row)
    (hholds : ∀ row ∈ input.filterMap Signal.row?,
      Value.HoldItems Double.IsKept (distinctKey keys row))
    (hcontiguous : Contiguous (Row.SharesKey keys) (input.filterMap Signal.row?)) :
    ∃ sent, FirstOfEach (Row.SharesKey keys) [] (input.filterMap Signal.row?) sent ∧
      ∃ enough, ∀ {memory : Memory}, memory.used + enough ≤ memory.limit →
        memory.limit ≤ maxAmount → ∀ strategy,
          PolledToEnd bindings memory (.distinct keys strategy .start) input sent (.ok ()) := by
  have hkeys : ∀ row ∈ input.filterMap Signal.row?, row.HasKey keys := fun row hrow =>
    ⟨(hread row hrow).elim fun _ => Value.holdsWhenRead_namesOnly.all_of_ofJson?, hholds row hrow⟩
  have hfirst (strategy : DistinctStrategy) : FirstOfEach (Row.SharesKey keys) []
      (input.filterMap Signal.row?)
      (Meaning.deduplicated keys strategy [] (input.filterMap Signal.row?)) :=
    @Meaning.firstOfEach_deduplicated keys [] _ strategy (List.forall_mem_nil _) hkeys hcontiguous
      trivial
  refine ⟨_, hfirst .adjacent, ?_⟩
  have hrest (strategy : DistinctStrategy) :
      rest bindings (.distinct keys strategy .start) (input.filterMap Signal.row?) =
        .ok (Meaning.deduplicated keys .adjacent [] (input.filterMap Signal.row?)) := by
    rw [rest_start_distinct, (hfirst strategy).unique (hfirst .adjacent)]
  obtain ⟨enough, hadjacent⟩ := polledToEnd_distinct hinput (hrest .adjacent)
  obtain ⟨enough', hhashed⟩ := polledToEnd_distinct hinput (hrest .hashed)
  refine ⟨max enough enough', fun {memory} hroom hcounted strategy => ?_⟩
  have hused : memory.used = memory.used + DistinctState.start.bytes := rfl
  cases strategy with
  | adjacent =>
      exact hadjacent hused (Nat.le_trans (Nat.add_le_add_left (Nat.le_max_left _ _) _) hroom)
        hcounted
  | hashed =>
      exact hhashed hused (Nat.le_trans (Nat.add_le_add_left (Nat.le_max_right _ _) _) hroom)
        hcounted

/-- A row with two fields, both of them integers. -/
def plainRow : Row :=
  Row.ofList [("id", .int 1), ("a", .int 2)]

/-- A row with the same fields in another order, and a whole double in the place of an integer. -/
def turnedRow : Row :=
  Row.ofList [("a", .double (Double.ofInt 2)), ("id", .int 1)]

/-- A row with another field, whose value is a double that no integer stands for. -/
def otherRow : Row :=
  Row.ofList [("id", .int 1), ("b", .double ⟨0x3fe0000000000000⟩)]

/-- Both strategies send the plain row and the other one, and drop the turned one, whichever
interruptions lie between the rows. -/
theorem sends_plainRow_otherRow : ∃ enough, ∀ {memory : Memory},
    memory.used + enough ≤ memory.limit → memory.limit ≤ maxAmount → ∀ strategy,
      PolledToEnd .empty memory (.distinct [] strategy .start)
        [.fetch [0], .row plainRow, .again, .row turnedRow, .fetch [0, 1], .row otherRow]
        [plainRow, otherRow] (.ok ()) := by
  have hread : ∀ row ∈ [plainRow, turnedRow, otherRow], ∃ document,
      Row.ofJson? document = some row := by
    simp only [List.forall_mem_cons]
    refine ⟨⟨.object [("id", .int 1), ("a", .int 2)], rfl⟩,
      ⟨.object [("a", .double (Double.ofInt 2)), ("id", .int 1)], rfl⟩,
      ⟨.object [("id", .int 1), ("b", .double ⟨0x3fe0000000000000⟩)], rfl⟩, List.forall_mem_nil _⟩
  have hholds : ∀ row ∈ [plainRow, turnedRow, otherRow],
      Value.HoldItems Double.IsKept (distinctKey [] row) := by
    simp only [List.forall_mem_cons]
    refine ⟨⟨⟨trivial, trivial, trivial⟩, trivial⟩, ⟨⟨trivial, trivial, trivial⟩, trivial⟩,
      ⟨⟨⟨by decide, by decide⟩, trivial, trivial⟩, trivial⟩, List.forall_mem_nil _⟩
  have hsame : plainRow.SharesKey [] turnedRow := sharesKey_iff.2 rfl
  have hother : ¬ plainRow.SharesKey [] otherRow := fun h => by
    have hfield : some (Value.int 2) = none := h "a"
    cases hfield
  have hcontiguous : Contiguous (Row.SharesKey []) [plainRow, turnedRow, otherRow] := by
    intro first between last hsublist _
    cases hsublist.eq_of_length rfl
    exact hsame
  obtain ⟨sent, hfirst, enough, hpolled⟩ := @sends_first_of_each .empty []
    [.fetch [0], .row plainRow, .again, .row turnedRow, .fetch [0, 1], .row otherRow]
    (by simp) hread hholds hcontiguous
  have hkept : FirstOfEach (Row.SharesKey []) [] [plainRow, turnedRow, otherRow]
      [plainRow, otherRow] :=
    .new (List.forall_mem_nil _) (.repeated List.mem_cons_self hsame
      (.new (List.forall_mem_singleton.2 hother) .nil))
  cases hfirst.unique hkept
  exact ⟨enough, hpolled⟩

end Stage

end ShardQuery
