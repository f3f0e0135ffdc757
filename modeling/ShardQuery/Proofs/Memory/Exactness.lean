import Mathlib.Data.List.Infix
import Mathlib.Order.Bounds.Basic
import ShardQuery.Proofs.Memory.Balance

/-!
# Exact Accounts

An account is used by calls: bytes are reserved, given back, or given back all at once. Bytes that
have been reserved and not given back are outstanding. How many these are depends on the calls and
their answers only and is an integer without bounds, while the account counts up to `maxAmount` and
leaves sums beyond it there. The account is exact in a run of calls if at any time it says what is
outstanding, and refuses the reservations that would bring this beyond its limit and no others.

Under a limit below `maxAmount` an amount that cannot be counted is beyond the limit as well, so
that every run of calls is exact. The limit `maxAmount` itself is reached by such an amount, and
not exceeded: the reservation is allowed, and the account has lost what is beyond.

Main definitions:

* `Memory.perform`, `Memory.history` — the answer to a call, and calls with their answers;
* `outstanding` — what has been reserved and not given back;
* `Memory.IsExact` — whether an account is exact in a run of calls.

## Main results

* `Memory.Records.perform`: what one call makes of an exact account.
* `Memory.isExact_iff`: the runs of calls in which an account is exact.
-/

namespace ShardQuery

/-- A use of an account by its interface. What is proved here holds for every order of such uses,
not only for those that operators make. -/
inductive MemoryCall where
  /-- Bytes are to be used; the context is named if the limit forbids it. -/
  | reserve (bytes : Nat) (context : String)
  /-- Bytes are given back. -/
  | release (bytes : Nat)
  /-- All bytes in use are given back. -/
  | releaseAll
deriving DecidableEq, Repr

/-- The answer to a use of an account, as the caller sees it. -/
inductive MemoryAnswer where
  /-- It has been done. -/
  | done
  /-- The limit does not allow it. -/
  | refused (excess : MemoryExcess)
  /-- It has been done, and so many bytes were in use. -/
  | held (bytes : Nat)
deriving DecidableEq, Repr

/-- What is outstanding after a call with its answer. -/
def MemoryCall.leave (owed : Int) : MemoryCall → MemoryAnswer → Int
  | .reserve bytes _, .done => owed + bytes
  | .reserve _ _, _ => owed
  | .release bytes, _ => owed - bytes
  | .releaseAll, _ => 0

/-- What has been reserved and not given back, counted without any bound. It is an integer, since a
caller may give back more than was ever reserved. -/
def outstanding (history : List (MemoryCall × MemoryAnswer)) : Int :=
  history.foldl (fun owed entry => entry.1.leave owed entry.2) 0

/-- What is outstanding after one more call depends on this call, its answer and what was
outstanding before. -/
theorem outstanding_concat (history : List (MemoryCall × MemoryAnswer))
    (entry : MemoryCall × MemoryAnswer) :
    outstanding (history ++ [entry]) = entry.1.leave (outstanding history) entry.2 := by
  rw [outstanding, List.foldl_append]
  rfl

/-- The amounts that have been outstanding so far, at the beginning and after each of the calls. -/
def amountsOf (history : List (MemoryCall × MemoryAnswer)) : Set Int :=
  {owed | ∃ past, past <+: history ∧ outstanding past = owed}

/-- What is outstanding now is one of these amounts. -/
theorem mem_amountsOf (history : List (MemoryCall × MemoryAnswer)) :
    outstanding history ∈ amountsOf history :=
  ⟨history, List.prefix_refl history, rfl⟩

/-- The greatest amount so far is the one before, or the one at the end. -/
theorem isGreatest_concat {history : List (MemoryCall × MemoryAnswer)} {peak : Int}
    (h : IsGreatest (amountsOf history) peak) (entry : MemoryCall × MemoryAnswer) :
    IsGreatest (amountsOf (history ++ [entry])) (max peak (outstanding (history ++ [entry]))) := by
  obtain ⟨⟨past, hpast, hpeak⟩, hupper⟩ := h
  constructor
  · rcases le_total peak (outstanding (history ++ [entry])) with hle | hle
    · rw [max_eq_right hle]
      exact mem_amountsOf _
    · rw [max_eq_left hle]
      exact ⟨past, hpast.trans (List.prefix_append _ _), hpeak⟩
  · rintro owed ⟨past, hpast, rfl⟩
    rcases List.prefix_concat_iff.1 hpast with rfl | hpast
    · exact le_max_right _ _
    · exact (hupper ⟨past, hpast, rfl⟩).trans (le_max_left _ _)

namespace Memory

/-! ### Calls -/

/-- The answer to a call, and the account after it. -/
def perform (memory : Memory) : MemoryCall → MemoryAnswer × Memory
  | .reserve bytes context =>
    match memory.reserve bytes context with
    | .ok memory => (.done, memory)
    | .error excess => (.refused excess, memory)
  | .release bytes => (.done, memory.release bytes)
  | .releaseAll => (.held memory.used, memory.releaseAll)

/-- The account after calls, made one after the other. -/
def after (memory : Memory) (calls : List MemoryCall) : Memory :=
  calls.foldl (fun memory call => (memory.perform call).2) memory

/-- Calls with their answers, in the order in which they are made. -/
def history (memory : Memory) : List MemoryCall → List (MemoryCall × MemoryAnswer)
  | [] => []
  | call :: calls => (call, (memory.perform call).1) :: (memory.perform call).2.history calls

/-- One more call is made on the account that the others have left. -/
theorem after_concat (memory : Memory) (calls : List MemoryCall) (call : MemoryCall) :
    memory.after (calls ++ [call]) = ((memory.after calls).perform call).2 := by
  rw [after, List.foldl_append]
  rfl

/-- One more call adds itself and its answer to the end of the history. -/
theorem history_concat (memory : Memory) (calls : List MemoryCall) (call : MemoryCall) :
    memory.history (calls ++ [call]) =
      memory.history calls ++ [(call, ((memory.after calls).perform call).1)] := by
  induction calls generalizing memory with
  | nil => rfl
  | cons first calls ih => exact congrArg ((first, (memory.perform first).1) :: ·) (ih _)

variable {memory : Memory} {bytes : Nat} {context : String}

/-- A reservation is refused if the sum, counted as far as amounts go, is beyond the limit. -/
theorem perform_reserve_of_lt (h : memory.limit < min (memory.used + bytes) maxAmount) :
    memory.perform (.reserve bytes context) =
      (.refused ⟨context, bytes, memory.used, memory.limit⟩, memory) := by
  simp only [perform, reserve, if_pos h]

/-- A reservation is allowed if the sum, counted as far as amounts go, is within the limit; it may
then raise the peak. -/
theorem perform_reserve_of_le (h : min (memory.used + bytes) maxAmount ≤ memory.limit) :
    memory.perform (.reserve bytes context) =
      (.done, { memory with
        used := min (memory.used + bytes) maxAmount
        peak := max memory.peak (min (memory.used + bytes) maxAmount) }) := by
  simp only [perform, reserve, if_neg (Nat.not_lt.2 h)]

/-! ### Exactness -/

/-- Whether an account is what a history makes of it: what is outstanding is in use, the peak is
the most that has been outstanding, and both keep to the limit. -/
structure Records (memory : Memory) (history : List (MemoryCall × MemoryAnswer)) : Prop where
  /-- What is outstanding is in use. -/
  used_eq : (memory.used : Int) = outstanding history
  /-- The peak is the most that has been outstanding. -/
  isGreatest_peak : IsGreatest (amountsOf history) (memory.peak : Int)
  /-- What is in use keeps to the limit. -/
  used_le_limit : memory.used ≤ memory.limit
  /-- The peak keeps to the limit. -/
  peak_le_limit : memory.peak ≤ memory.limit

/-- Whether the answer to a call is the one due with `owed` bytes outstanding: a reservation is
refused, and then changes nothing, exactly if it would bring them beyond the limit, and giving back
everything gives back what is outstanding. -/
def Answers (memory : Memory) (owed : Int) : MemoryCall → Prop
  | .reserve bytes context =>
    if memory.limit < owed + bytes then
      memory.perform (.reserve bytes context) =
        (.refused ⟨context, bytes, memory.used, memory.limit⟩, memory)
    else (memory.perform (.reserve bytes context)).1 = .done
  | .release bytes => (memory.perform (.release bytes)).1 = .done
  | .releaseAll => ∃ held : Nat, (memory.perform .releaseAll).1 = .held held ∧ held = owed

/-- Whether an account is exact in a run of calls. -/
structure IsExact (memory : Memory) (calls : List MemoryCall) : Prop where
  /-- The limit stays. -/
  limit_eq : ∀ i, (memory.after (calls.take i)).limit = memory.limit
  /-- After every call, the account is what the history makes of it. -/
  records : ∀ i, (memory.after (calls.take i)).Records (memory.history (calls.take i))
  /-- Every answer is the one due. -/
  answers : ∀ i call, calls[i]? = some call →
    (memory.after (calls.take i)).Answers (outstanding (memory.history (calls.take i))) call

/-- Whether no call of a run gives back more than is outstanding. -/
def GivesBackOwn (memory : Memory) (calls : List MemoryCall) : Prop :=
  ∀ i (bytes : Nat), calls[i]? = some (.release bytes) →
    (bytes : Int) ≤ outstanding (memory.history (calls.take i))

/-- Whether no reservation of a run, allowed or not, would bring what is outstanding beyond the
amounts that can be counted. -/
def StaysCountable (memory : Memory) (calls : List MemoryCall) : Prop :=
  ∀ i (bytes : Nat) context, calls[i]? = some (.reserve bytes context) →
    outstanding (memory.history (calls.take i)) + bytes ≤ maxAmount

/-- Whether a call, made with `owed` bytes outstanding, is one that accounts can follow. -/
def Follows (memory : Memory) (owed : Int) : MemoryCall → Prop
  | .reserve bytes _ => memory.limit < maxAmount ∨ owed + bytes ≤ maxAmount
  | .release bytes => bytes ≤ owed
  | .releaseAll => True

variable {history : List (MemoryCall × MemoryAnswer)} {call : MemoryCall} {limit : Nat}

/-- No call changes the limit, whatever its answer. -/
theorem perform_limit (memory : Memory) (call : MemoryCall) :
    (memory.perform call).2.limit = memory.limit := by
  cases call with
  | reserve bytes context =>
      rcases Nat.lt_or_ge memory.limit (min (memory.used + bytes) maxAmount) with hlt | hle
      · rw [perform_reserve_of_lt hlt]
      · rw [perform_reserve_of_le hle]
  | release | releaseAll => rfl

/-- Calls, however many, leave the limit as it is. -/
theorem after_limit (memory : Memory) (calls : List MemoryCall) :
    (memory.after calls).limit = memory.limit := by
  induction calls generalizing memory with
  | nil => rfl
  | cons call calls ih => exact (ih _).trans (perform_limit memory call)

/-- The unused account records that nothing has been done. -/
theorem records_ofLimit (limit : Nat) : (ofLimit limit).Records [] where
  used_eq := rfl
  isGreatest_peak := by
    refine ⟨mem_amountsOf [], ?_⟩
    rintro owed ⟨past, hpast, rfl⟩
    rw [List.prefix_nil.1 hpast]
    exact le_refl _
  used_le_limit := Nat.zero_le _
  peak_le_limit := Nat.zero_le _

/-- A call that reserves nothing leaves the peak, and the records stay right: less is outstanding
than before, so the greatest amount is still the same. -/
theorem Records.concat (h : memory.Records history) {next : Memory} {answer : MemoryAnswer}
    (hlimit : next.limit = memory.limit) (hpeak : next.peak = memory.peak)
    (hused : (next.used : Int) = call.leave memory.used answer) (hle : next.used ≤ memory.used) :
    next.Records (history ++ [(call, answer)]) := by
  have howed : outstanding (history ++ [(call, answer)]) = next.used := by
    rw [outstanding_concat, ← h.used_eq, hused]
  have hupper : outstanding history ≤ memory.peak := h.isGreatest_peak.2 (mem_amountsOf history)
  have hused_eq := h.used_eq
  refine ⟨howed.symm, ?_, ?_, ?_⟩
  · have hgreatest := isGreatest_concat h.isGreatest_peak (call, answer)
    rw [howed, max_eq_left (by omega), ← hpeak] at hgreatest
    exact hgreatest
  · rw [hlimit]
    exact hle.trans h.used_le_limit
  · rw [hlimit, hpeak]
    exact h.peak_le_limit

/-- **One call**: an exact account gives the answer that is due and is exact again. -/
theorem Records.perform (h : memory.Records history) (hlimit : memory.limit ≤ maxAmount)
    (hcall : memory.Follows (outstanding history) call) :
    memory.Answers (outstanding history) call ∧
      (memory.perform call).2.Records (history ++ [(call, (memory.perform call).1)]) := by
  have hused := h.used_eq
  cases call with
  | reserve bytes context =>
      rw [Follows] at hcall
      rw [Answers]
      rcases Nat.lt_or_ge memory.limit (min (memory.used + bytes) maxAmount) with hlt | hle
      · have hbeyond : (memory.limit : Int) < outstanding history + bytes := by omega
        rw [if_pos hbeyond, perform_reserve_of_lt hlt]
        exact ⟨rfl, h.concat rfl rfl rfl le_rfl⟩
      · -- Nothing is lost by counting up to `maxAmount` only: what lies beyond is refused.
        have hsum : min (memory.used + bytes) maxAmount = memory.used + bytes := by omega
        have hallowed : ¬(memory.limit : Int) < outstanding history + bytes := by omega
        rw [if_neg hallowed, perform_reserve_of_le hle, hsum]
        have howed : outstanding (history ++ [(.reserve bytes context, .done)]) =
            (memory.used + bytes : Nat) := by
          rw [outstanding_concat, ← hused]
          rfl
        have hgreatest := isGreatest_concat h.isGreatest_peak (.reserve bytes context, .done)
        have hmax : max (memory.peak : Int) (memory.used + bytes : Nat) =
            (max memory.peak (memory.used + bytes) : Nat) := by omega
        rw [howed, hmax] at hgreatest
        have hwithin : memory.used + bytes ≤ memory.limit := by omega
        exact ⟨rfl, howed.symm, hgreatest, hwithin, Nat.max_le.2 ⟨h.peak_le_limit, hwithin⟩⟩
  | release bytes =>
      rw [Follows] at hcall
      refine ⟨rfl, h.concat rfl rfl ?_ (Nat.sub_le _ _)⟩
      rw [MemoryCall.leave]
      exact Int.ofNat_sub (by omega)
  | releaseAll => exact ⟨⟨memory.used, rfl, hused⟩, h.concat rfl rfl rfl (Nat.zero_le _)⟩

/-- The calls of a run are such that accounts can follow them. -/
theorem follows {calls : List MemoryCall} (hcalls : memory.GivesBackOwn calls)
    (hcountable : memory.limit < maxAmount ∨ memory.StaysCountable calls) {i : Nat}
    (hcall : calls[i]? = some call) :
    (memory.after (calls.take i)).Follows (outstanding (memory.history (calls.take i))) call := by
  cases call with
  | reserve bytes context =>
      rw [Follows, after_limit]
      exact hcountable.imp_right fun hcountable => hcountable i bytes context hcall
  | release bytes => exact hcalls i bytes hcall
  | releaseAll => trivial

/-- **A run of calls**: an unused account is exact as long as it can follow. -/
theorem isExact_of_countable {calls : List MemoryCall} (hlimit : limit ≤ maxAmount)
    (hcalls : (ofLimit limit).GivesBackOwn calls)
    (hcountable : limit < maxAmount ∨ (ofLimit limit).StaysCountable calls) :
    (ofLimit limit).IsExact calls := by
  have hkept (i : Nat) : ((ofLimit limit).after (calls.take i)).limit ≤ maxAmount := by
    rw [after_limit]
    exact hlimit
  have hrecords (i : Nat) :
      ((ofLimit limit).after (calls.take i)).Records ((ofLimit limit).history (calls.take i)) := by
    induction i with
    | zero => exact records_ofLimit limit
    | succ i ih =>
        rw [List.take_add_one]
        cases hcall : calls[i]? with
        | none => simpa using ih
        | some call =>
            rw [Option.toList_some, after_concat, history_concat]
            exact (ih.perform (hkept i) (follows hcalls hcountable hcall)).2
  exact ⟨fun i => after_limit _ _, hrecords, fun i call hcall =>
    ((hrecords i).perform (hkept i) (follows hcalls hcountable hcall)).1⟩

/-- The account of a query is exact, whatever happens to it, if its limit in megabytes is below
`maxAmount` in bytes. -/
theorem isExact_ofLimitMb {megabytes : Nat} {calls : List MemoryCall}
    (hmegabytes : megabytes * bytesPerMb < maxAmount)
    (hcalls : (ofLimitMb megabytes).GivesBackOwn calls) :
    (ofLimitMb megabytes).IsExact calls := by
  have hlimit : min (megabytes * bytesPerMb) maxAmount < maxAmount := by omega
  exact isExact_of_countable hlimit.le hcalls (.inl hlimit)

/-- **Accounts are exact** in every run of calls that give back no more than is outstanding, under
all limits but `maxAmount`, and under this one exactly as long as everything can be counted. -/
theorem isExact_iff {calls : List MemoryCall} (hlimit : limit ≤ maxAmount)
    (hcalls : (ofLimit limit).GivesBackOwn calls) :
    (ofLimit limit).IsExact calls ↔ limit < maxAmount ∨ (ofLimit limit).StaysCountable calls := by
  refine ⟨fun hexact => ?_, isExact_of_countable hlimit hcalls⟩
  rcases Nat.lt_or_ge limit maxAmount with hlt | hge
  · exact .inl hlt
  · refine .inr fun i bytes context hcall => ?_
    -- The limit `maxAmount` refuses nothing, so exactness says that nothing had to be refused.
    have hanswer := hexact.answers i _ hcall
    have hkept : ((ofLimit limit).after (calls.take i)).limit = limit := hexact.limit_eq i
    rw [Answers] at hanswer
    split at hanswer
    · rw [perform_reserve_of_le (by omega)] at hanswer
      cases hanswer
    · next hwithin => omega

/-- A reservation up to the limit, one beyond it, and everything given back in two parts. -/
def filledAndEmptied : List MemoryCall :=
  [.reserve 60 "sort", .reserve 40 "distinct", .reserve 1 "sort", .release 60, .releaseAll]

/-- Such calls are answered exactly under a limit of a hundred bytes, the refusal in the middle
included. -/
theorem isExact_filledAndEmptied : 100 ≤ maxAmount ∧
    (ofLimit 100).GivesBackOwn filledAndEmptied ∧ (ofLimit 100).IsExact filledAndEmptied := by
  have hback : (ofLimit 100).GivesBackOwn filledAndEmptied := by
    intro i bytes hcall
    -- Only the fourth call gives back a number of bytes.
    rcases i with _ | _ | _ | _ | _ | i <;> cases hcall
    decide
  have hlimit : 100 ≤ maxAmount := by decide
  exact ⟨hlimit, hback, (isExact_iff hlimit hback).2 (.inl (by decide))⟩

/-- One byte more than can be counted, reserved in two steps. -/
def oneTooMany : List MemoryCall :=
  [.reserve maxAmount "sort", .reserve 1 "sort"]

/-- Under the limit `maxAmount` one byte is lost, and no reservation refused. -/
theorem not_isExact_oneTooMany : (ofLimit maxAmount).GivesBackOwn oneTooMany ∧
    outstanding ((ofLimit maxAmount).history oneTooMany) = maxAmount + 1 ∧
    ((ofLimit maxAmount).after oneTooMany).used = maxAmount ∧
    ¬(ofLimit maxAmount).IsExact oneTooMany := by
  have howed : outstanding ((ofLimit maxAmount).history oneTooMany) = maxAmount + 1 := by decide
  have hused : ((ofLimit maxAmount).after oneTooMany).used = maxAmount := by decide
  refine ⟨?_, howed, hused, fun hexact => ?_⟩
  · intro i bytes hcall
    rcases i with _ | _ | i <;> cases hcall
  · have hrecords := (hexact.records 2).used_eq
    have htake : oneTooMany.take 2 = oneTooMany := rfl
    rw [htake] at hrecords
    omega

end Memory

end ShardQuery
