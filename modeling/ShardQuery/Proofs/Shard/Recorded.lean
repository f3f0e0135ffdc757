import ShardQuery.Proofs.Meaning.Sources
import ShardQuery.Shard.Recorded

/-!
# Recorded Answers Serve Their Pages

A record of answers serves for each shard the rows on its pages, up to the first page without
a cursor. What it is asked for does not matter. If there is such a page and no error before it, no
request is refused.
-/

namespace ShardQuery.Recorded

/-- The rows of recorded answers up to the first one without a cursor. -/
def rowsOfAnswers : List (Except RequestError ShardResponse) → List Row
  | [] => []
  | .error _ :: _ => []
  | .ok response :: answers =>
    response.rows ++ if response.cursor.isSome then rowsOfAnswers answers else []

/-- The answers of a shard that are still to be given. -/
def answersOf (shard : ShardId) :
    List (ShardId × List (Except RequestError ShardResponse)) →
      List (Except RequestError ShardResponse)
  | [] => []
  | (s, answers) :: entries => if s = shard then answers else answersOf shard entries

/-- The rows that a record still has for a shard. -/
def contents (record : Recorded) (shard : ShardId) : List Row :=
  rowsOfAnswers (answersOf shard record.answers)

/-- Whether rows are those that a record still has for a shard. -/
def ahead (record : Recorded) (shard : ShardId) (_ : Option Cursor) (rows : List Row) : Prop :=
  rows = record.contents shard

/-- A good answer is the first one of its shard, which loses it. -/
theorem answersOf_take {shard : ShardId}
    {entries : List (ShardId × List (Except RequestError ShardResponse))}
    {response : ShardResponse} (h : (take shard entries).1 = .ok response) :
    answersOf shard entries = .ok response :: answersOf shard (take shard entries).2 := by
  induction entries with
  | nil => cases h
  | cons entry entries ih =>
      obtain ⟨s, answers⟩ := entry
      unfold take at h ⊢
      by_cases hs : s = shard
      · rw [if_pos hs] at h ⊢
        cases answers with
        | nil => cases h
        | cons answer answers =>
            obtain rfl : answer = .ok response := h
            simp only [answersOf, if_pos hs]
      · rw [if_neg hs] at h ⊢
        simp only [answersOf, if_neg hs]
        exact ih h

/-- The answers of all other shards stay, and so does their order. -/
theorem answersOf_take_of_ne {shard other : ShardId} (hne : other ≠ shard)
    (entries : List (ShardId × List (Except RequestError ShardResponse))) :
    answersOf other (take shard entries).2 = answersOf other entries := by
  induction entries with
  | nil => rfl
  | cons entry entries ih =>
      obtain ⟨s, answers⟩ := entry
      unfold take
      by_cases hs : s = shard
      · subst hs
        rw [if_pos rfl]
        cases answers <;> simp only [answersOf, if_neg (Ne.symm hne)]
      · rw [if_neg hs]
        simp only [answersOf, ih]

/-- A record serves the rows on its pages: what lies ahead of a cursor is what is still recorded. -/
theorem serves (table : String) : reader.Serves table ahead := by
  refine ⟨?_, ?_⟩
  · intro request s s' response rows _ hahead hanswer
    change rows = rowsOfAnswers (answersOf request.shard s.answers) at hahead
    have hfirst : (take request.shard s.answers).1 = .ok response := congrArg Prod.fst hanswer
    have hs' : s'.answers = (take request.shard s.answers).2 :=
      congrArg Recorded.answers (congrArg Prod.snd hanswer).symm
    rw [answersOf_take hfirst, rowsOfAnswers] at hahead
    refine ⟨_, hahead, ?_⟩
    cases response.cursor with
    | none => rfl
    | some cursor => exact congrArg (fun answers => rowsOfAnswers (answersOf _ answers)) hs'.symm
  · intro request s shard cursor rows hne hahead
    exact hahead.trans (congrArg rowsOfAnswers (answersOf_take_of_ne hne s.answers).symm)

/-! ### Complete records -/

/-- Whether recorded answers are pages up to the first one without a cursor, and there is one. -/
def IsComplete : List (Except RequestError ShardResponse) → Prop
  | .ok response :: answers => response.cursor.isSome = true → IsComplete answers
  | [] | .error _ :: _ => False

/-- Whether rows are those that a record still has for a shard, and it has all of their pages. -/
def aheadComplete (record : Recorded) (shard : ShardId) (cursor : Option Cursor)
    (rows : List Row) : Prop :=
  record.ahead shard cursor rows ∧ IsComplete (answersOf shard record.answers)

/-- The first of the answers of a shard is given to its first request. -/
theorem take_of_answersOf {shard : ShardId}
    {entries : List (ShardId × List (Except RequestError ShardResponse))}
    {answer : Except RequestError ShardResponse}
    {answers : List (Except RequestError ShardResponse)}
    (h : answersOf shard entries = answer :: answers) : (take shard entries).1 = answer := by
  induction entries with
  | nil => cases h
  | cons entry entries ih =>
      obtain ⟨s, own⟩ := entry
      unfold answersOf at h
      unfold take
      by_cases hs : s = shard
      · rw [if_pos hs] at h ⊢
        subst h
        rfl
      · rw [if_neg hs] at h ⊢
        exact ih h

/-- A complete record serves the rows on its pages. -/
theorem serves_complete (table : String) : reader.Serves table aheadComplete := by
  refine ⟨?_, ?_⟩
  · intro request s s' response rows htable ⟨hahead, hcomplete⟩ hanswer
    obtain ⟨others, hrows, hothers⟩ := (serves table).page htable hahead hanswer
    have hfirst : (take request.shard s.answers).1 = .ok response := congrArg Prod.fst hanswer
    have hs' : s'.answers = (take request.shard s.answers).2 :=
      congrArg Recorded.answers (congrArg Prod.snd hanswer).symm
    rw [answersOf_take hfirst, ← hs'] at hcomplete
    refine ⟨others, hrows, ?_⟩
    obtain ⟨page, cursor⟩ := response
    cases cursor with
    | none => exact hothers
    | some cursor => exact ⟨hothers, hcomplete rfl⟩
  · intro request s shard cursor rows hne ⟨hahead, hcomplete⟩
    refine ⟨(serves table).others hne hahead, ?_⟩
    rwa [← answersOf_take_of_ne hne s.answers] at hcomplete

/-- A complete record answers as long as there are rows ahead. -/
theorem answers_complete (table : String) : reader.Answers table aheadComplete := by
  intro request s rows _ ⟨_, hcomplete⟩
  cases hanswers : answersOf request.shard s.answers with
  | nil =>
      rw [hanswers] at hcomplete
      cases hcomplete
  | cons answer answers =>
      rw [hanswers] at hcomplete
      cases answer with
      | error error => cases hcomplete
      | ok response =>
          exact ⟨response, _, Prod.ext (take_of_answersOf hanswers) rfl⟩

end ShardQuery.Recorded
