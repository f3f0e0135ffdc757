import ShardQuery.Proofs.Resume.Alike
import ShardQuery.Proofs.Resume.Foundation
import ShardQuery.Proofs.Token

/-!
# Suspended Executions

An execution that has been suspended in a token is started again with that token, unless its
document nests too deep to be read. Three things come together: the token reads back, the steps
open the states that are read, and the memory that they are charged for, which is what was in use,
is reserved anew. The values in the states are reread on the way. If that makes no difference to
them, the query goes on where it was suspended.

Main definitions:

* `Execution.Suspendable` — what the token of an execution rests on.

## Main results

* `Execution.Started.suspendable`: whatever is started can be suspended.
* `Memory.settle_charges`: what states are charged for can be reserved if the limit allows it.
* `Execution.Founded.start_token`: what is started with a token.
* `Execution.Founded.start_token_of_deep`: a token that nests too deep is corrupt.
* `Execution.Founded.start_alike`: a query goes on with a token that determines its execution.
-/

namespace ShardQuery

/-! ### Accounts -/

/-- What states are charged for can be reserved if the limit allows all of it. -/
theorem Memory.settle_charges {memory : Memory} {states : List NodeState}
    (hlimit : memory.used + total NodeState.trackedBytes states ≤ memory.limit)
    (hmax : memory.limit ≤ maxAmount) :
    ∃ m, memory.settle (states.flatMap Pipeline.charge) = (m, none) ∧ m.limit = memory.limit ∧
      m.used = memory.used + total NodeState.trackedBytes states := by
  induction states generalizing memory with
  | nil => exact ⟨memory, rfl, rfl, rfl⟩
  | cons state states ih =>
      rw [total_cons] at hlimit
      rw [List.flatMap_cons, total_cons, Pipeline.charge]
      split
      · next hzero =>
          rw [hzero, Nat.zero_add] at hlimit ⊢
          exact ih hlimit hmax
      · rw [List.singleton_append, Memory.settle]
        have hwanted : min (memory.used + state.trackedBytes) maxAmount =
            memory.used + state.trackedBytes := by omega
        rw [Memory.reserve, hwanted, if_neg (by omega)]
        simp only
        obtain ⟨m, hsettle, hlimit', hused⟩ :=
          @ih ⟨memory.limit, memory.used + state.trackedBytes,
            max memory.peak (memory.used + state.trackedBytes)⟩ (by simp only; omega) hmax
        exact ⟨m, hsettle, hlimit', by rw [hused, Nat.add_assoc]⟩

/-! ### States -/

/-- The remembered texts of a state that has been read are in order. -/
theorem NodeState.isRegular_of_ofJson? {document : Json} {state : NodeState}
    (h : ofJson? document = some state) : state.IsRegular := by
  have hseen (texts seen : List String) (hseen : seen.Pairwise (· < ·)) :
      (texts.foldl (fun texts text => insertText text texts) seen).Pairwise (· < ·) := by
    induction texts generalizing seen with
    | nil => exact hseen
    | cons text texts ih => exact ih _ (pairwise_insertText text hseen)
  simp only [ofJson?, Option.bind_eq_bind, Option.bind_eq_some_iff] at h
  obtain ⟨⟨kind, members⟩, -, h⟩ := h
  cases state with
  | distinct state =>
      split at h <;> try simp only [Option.bind_eq_some_iff] at h
      · obtain ⟨_, _, h⟩ := h
        cases h
      · obtain ⟨_, _, _, _, _, _, h⟩ := h
        cases h
      · obtain ⟨_, _, _, _, _, _, _, _, h⟩ := h
        cases h
      · obtain ⟨_, _, _, _, _, _, h⟩ := h
        cases h
        exact hseen _ _ .nil
      · cases h
      · obtain ⟨_, _, _, _, h⟩ := h
        cases h
      · cases h
  | receive | sort | groupBy | project | slice => trivial

/-- A state that fits is regular: the texts that it remembers are in order. -/
theorem NodeState.Fits.isRegular {state : NodeState} {shardCount : Nat}
    (h : state.Fits shardCount) : state.IsRegular := by
  cases state with
  | distinct => exact h
  | receive | sort | groupBy | project | slice => trivial

/-- Regular states of a pipeline could be those of its shards. -/
theorem Pipeline.fits_of_isRegular {pipeline : Pipeline}
    (h : ∀ state ∈ pipeline.states, state.IsRegular) :
    ∀ state ∈ pipeline.states, state.Fits pipeline.source.shards.length := by
  obtain ⟨hstages, -⟩ := List.forall_mem_append.1 h
  refine List.forall_mem_append.2 ⟨List.forall_mem_map.2 fun stage hmem => ?_, ?_⟩
  · have hstage := List.forall_mem_map.1 hstages stage hmem
    cases stage with
    | distinct => exact hstage
    | sort | groupBy | project | slice => trivial
  · exact List.forall_mem_singleton.2 rfl

/-- Rereading a state leaves it fitting, with as many shards and the same remembered texts. -/
theorem NodeState.fits_reread {state : NodeState} {shardCount : Nat}
    (h : state.Fits shardCount) : state.reread.Fits shardCount := by
  cases state with
  | receive shards => exact (List.length_map _).trans h
  | distinct => exact h
  | sort | groupBy | project | slice => trivial

/-- The charges of states do not change when these are reread, if they are words. -/
theorem total_reread {states : List NodeState}
    (h : total NodeState.trackedBytes states < UInt64.size) :
    total NodeState.trackedBytes (states.map NodeState.reread) =
      total NodeState.trackedBytes states := by
  rw [total_map]
  exact total_congr fun state hmem =>
    NodeState.trackedBytes_reread (Nat.lt_of_le_of_lt (le_total_of_mem _ hmem) h)

/-- Rereading states leaves them of their kinds. -/
theorem kinds_reread (states : List NodeState) :
    (states.map NodeState.reread).map NodeState.kind = states.map NodeState.kind := by
  rw [List.map_map]
  exact List.map_congr_left fun state _ => state.kind_reread

/-! ### Executions -/

namespace Execution

variable {engine : Engine} {options : QueryOptions} {execution : Execution}

/-- The counters of an execution whose account is in order are words. -/
theorem InOrder.trackedBytes_lt (h : execution.InOrder)
    (hpeak : execution.memory.peak < maxAmount) :
    execution.pipeline.trackedBytes < UInt64.size := by
  have hle := h.sound.used_le_peak
  rw [h.used_eq] at hle
  rw [maxAmount] at hpeak
  omega

/-- Whether the token of an execution can be read: its document does not nest too deep. -/
def IsReadable (execution : Execution) : Prop :=
  execution.body.toJson.nesting ≤ Json.depthLimit

/-- The query that goes on with the token of an execution under options. -/
def goOn (execution : Execution) (options : QueryOptions) (token : Token) : Query :=
  ⟨execution.plan, execution.bindings, options, some token⟩

/-- An open execution has the token that its plan, its variables and its states are encoded to. -/
theorem token?_eq (h : execution.finished = false) :
    execution.token? = some (.encode execution.plan execution.bindings execution.body) :=
  if_neg (by simp [h])

/-- Whether an open execution can be suspended: its states are of the kinds of the nodes and could
be those of some shards. -/
structure Suspendable (execution : Execution) : Prop where
  /-- The states could be those of some shards. -/
  fits : ∃ shardCount, ∀ state ∈ execution.pipeline.states, state.Fits shardCount
  /-- The states are of the kinds of the nodes. -/
  kinds_eq : execution.pipeline.states.map NodeState.kind = execution.plan.shape
  /-- There are more batches. -/
  unfinished : execution.finished = false

/-- What is founded can be suspended, as it has all that this asks for. -/
theorem Founded.suspendable (h : execution.Founded engine options) : execution.Suspendable :=
  ⟨⟨_, h.fits⟩, h.kinds_eq, h.unfinished⟩

/-- A query starts with the states at the beginning, or with those in its token. -/
theorem Started.states_cases {query : Query} {fresh : Uuid} {steps : List CompiledStep}
    {point : StartPoint} (h : Started engine query fresh steps point execution) :
    execution.pipeline.states = query.plan.startStates ∨
      ∃ (token : Token) (body : TokenBody), token.Holds query.plan query.bindings body ∧
        execution.pipeline.states = body.states := by
  have hstart := h.start
  cases htoken : query.token with
  | none =>
      rw [startPoint, htoken] at hstart
      cases hstart
      exact .inl h.states_eq
  | some token =>
      rw [startPoint_of_token htoken] at hstart
      split at hstart
      · next body hdecode =>
          cases hstart
          exact .inr ⟨token, body, Token.decode_eq_ok_iff.1 hdecode, h.states_eq⟩
      · cases hstart

/-- **Whatever is started can be suspended**, also if it goes on with a token of somebody else. -/
theorem Started.suspendable {query : Query} {fresh : Uuid} {steps : List CompiledStep}
    {point : StartPoint} (h : Started engine query fresh steps point execution) :
    execution.Suspendable := by
  refine ⟨⟨_, Pipeline.fits_of_isRegular ?_⟩, ?_, h.finished_eq⟩
  · obtain heq | ⟨token, body, hholds, heq⟩ := h.states_cases <;> rw [heq]
    · exact fun state hmem => (query.plan.fits_startStates state hmem).isRegular
    · exact hholds.forall_states NodeState.isRegular_of_ofJson?
  · obtain heq | ⟨token, body, hholds, heq⟩ := h.states_cases <;> rw [heq, h.plan_eq]
    · exact query.plan.kinds_startStates
    · exact hholds.kinds_eq

/-- What has been moved on from an execution that can be suspended can be suspended too. -/
theorem Suspendable.advances {next : Execution} (h : execution.Suspendable)
    (hnext : execution.Advances next) : next.Suspendable := by
  obtain ⟨shardCount, hfits⟩ := h.fits
  refine ⟨⟨shardCount, hnext.pipeline.fits hfits⟩, ?_, hnext.finished_eq.trans h.unfinished⟩
  rw [hnext.pipeline.kinds_eq, hnext.plan_eq, h.kinds_eq]

/-- The body of a token is regular if its execution can be suspended, so that it is read back from
its document. -/
theorem Suspendable.isRegular (h : execution.Suspendable) : execution.body.IsRegular := by
  obtain ⟨shardCount, hfits⟩ := h.fits
  exact ⟨fun state hmem => (hfits state hmem).isRegular, Nat.mod_lt _ (by decide)⟩

/-- What is read from the token of an execution. -/
theorem Suspendable.startPoint_eq (h : execution.Suspendable) (hreadable : execution.IsReadable)
    {token : Token} (htoken : execution.token? = some token) (options' : QueryOptions)
    (fresh : Uuid) :
    startPoint (execution.goOn options' token) fresh =
      .ok ⟨execution.id, execution.elapsedMs % UInt64.size,
        execution.pipeline.states.map NodeState.reread⟩ := by
  rw [token?_eq h.unfinished] at htoken
  obtain rfl : _ = token := Option.some.inj htoken
  have hdecode := Token.decode_encode execution.bindings h.isRegular hreadable rfl h.kinds_eq
  rw [startPoint_of_token rfl, goOn, hdecode]
  rfl

/-- Nothing is read from a token whose document nests too deep. -/
theorem Suspendable.startPoint_of_deep (h : execution.Suspendable)
    (hdeep : ¬execution.IsReadable) {token : Token} (htoken : execution.token? = some token)
    (options' : QueryOptions) (fresh : Uuid) :
    startPoint (execution.goOn options' token) fresh = .error (.token .corrupt) := by
  rw [token?_eq h.unfinished] at htoken
  obtain rfl : _ = token := Option.some.inj htoken
  rw [startPoint_of_token rfl, goOn,
    Token.decode_encode_of_deep execution.bindings h.isRegular (Nat.not_le.1 hdeep)]

/-- Whatever is started with the token of an execution goes on with its states, reread. -/
theorem Suspendable.started_of_token (h : execution.Suspendable) {token : Token}
    (htoken : execution.token? = some token) {engine' : Engine} {options' : QueryOptions}
    {fresh : Uuid} {next : Execution}
    (hstart : start engine' (execution.goOn options' token) fresh = .ok next) :
    ∃ steps, Started engine' (execution.goOn options' token) fresh steps
      ⟨execution.id, execution.elapsedMs % UInt64.size,
        execution.pipeline.states.map NodeState.reread⟩ next := by
  obtain ⟨steps, point, hstarted⟩ := start_eq_ok_iff.1 hstart
  by_cases hreadable : execution.IsReadable
  · cases hstarted.start.symm.trans (h.startPoint_eq hreadable htoken options' fresh)
    exact ⟨steps, hstarted⟩
  · cases hstarted.start.symm.trans (h.startPoint_of_deep hreadable htoken options' fresh)

/-- Whatever is started with the token of an execution rests on the same checks. -/
theorem Founded.founded_of_token (h : execution.Founded engine options) {token : Token}
    (htoken : execution.token? = some token) {engine' : Engine} {options' : QueryOptions}
    {fresh : Uuid} {next : Execution}
    (hstart : start engine' (execution.goOn options' token) fresh = .ok next) :
    next.Founded engine' options' := by
  obtain ⟨steps, hstarted⟩ := h.suspendable.started_of_token htoken hstart
  refine hstarted.founded ((kinds_reread _).trans h.kinds_eq) (List.forall_mem_map.2 ?_)
  exact fun state hmem => NodeState.fits_reread (h.fits state hmem)

/-- An execution as it is started with its own token: its states are reread, and of the time taken
there is only a word. -/
structure Restored (execution resumed : Execution) : Prop where
  /-- The same steps open both pipelines. -/
  opened : ∃ steps openSource, (∀ shards, (openSource shards).shards = shards) ∧
    Pipeline.Opened execution.bindings openSource steps execution.pipeline.states
      execution.pipeline ∧
    Pipeline.Opened execution.bindings openSource steps resumed.pipeline.states resumed.pipeline
  /-- The states are reread. -/
  states_eq : resumed.pipeline.states = execution.pipeline.states.map NodeState.reread
  /-- The memory in use is the same. -/
  used_eq : resumed.memory.used = execution.memory.used
  /-- The limit is the same. -/
  limit_eq : resumed.memory.limit = execution.memory.limit
  /-- The time is the same word. -/
  elapsedMs_eq : resumed.elapsedMs = execution.elapsedMs % UInt64.size
  /-- Nothing else has changed. -/
  eq : resumed = { execution with
    memory := resumed.memory, pipeline := resumed.pipeline, elapsedMs := resumed.elapsedMs }

/-- But for its pipeline, an execution that is started with its own token is alike. -/
theorem Restored.alike {resumed : Execution} (h : execution.Restored resumed)
    (htime : execution.options.timeoutMs = none ∨ execution.elapsedMs < UInt64.size) :
    Alike { execution with pipeline := resumed.pipeline } resumed := by
  refine ⟨resumed.memory, resumed.elapsedMs, ⟨resumed.memory.peak, ?_⟩, ⟨?_, ?_⟩, h.eq⟩
  · rw [← h.limit_eq, ← h.used_eq]
  · rw [h.elapsedMs_eq, Nat.mod_mod]
  · refine htime.symm.imp_left fun hlt => ?_
    rw [h.elapsedMs_eq, Nat.mod_eq_of_lt hlt]

/-- **A query is started again with the token of its execution**, whatever identity is at hand,
if the token can be read: the checks pass again, the steps open the states that the token holds,
and the same memory is in use. -/
theorem Founded.start_token (h : execution.Founded engine options) (horder : execution.InOrder)
    (hpeak : execution.memory.peak < maxAmount) (hreadable : execution.IsReadable) {token : Token}
    (htoken : execution.token? = some token) (fresh : Uuid) :
    ∃ resumed, start engine (execution.goOn options token) fresh = .ok resumed ∧
      execution.Restored resumed := by
  obtain ⟨steps, hcompile, hopened⟩ := h.opened
  -- The steps open the states that are read, since these are of the same kinds.
  obtain ⟨pipeline, hopened'⟩ := hopened.reopen (kinds_reread execution.pipeline.states)
  -- What they are charged for is what was in use, so the limit allows it.
  have hbytes := total_reread (horder.trackedBytes_lt hpeak)
  obtain ⟨m, hsettle, hlimit, hused⟩ :=
    @Memory.settle_charges (Memory.ofLimitMb execution.options.maxMemoryMb)
      (execution.pipeline.states.map NodeState.reread)
      (by
        have hle := horder.sound.used_le_limit
        rw [horder.used_eq, h.limit_eq] at hle
        rw [hbytes]
        exact (Nat.zero_add _).trans_le hle)
      (Nat.min_le_right _ _)
  rw [← hopened'.events_eq] at hsettle
  have hrun := Metered.run_eq_ok_iff.2 ⟨hsettle, rfl, Pipeline.openNodes_eq_ok_iff.2 hopened'⟩
  refine ⟨{ execution with
    memory := m
    pipeline := pipeline
    elapsedMs := execution.elapsedMs % UInt64.size }, ?_, ?_⟩
  · exact start_eq_ok_iff.2 ⟨steps, _, h.options, h.check, hcompile, h.bound,
      h.suspendable.startPoint_eq hreadable htoken options fresh, hrun, rfl, rfl, rfl, rfl,
      h.unfinished⟩
  · have hstates := hopened'.states_eq fun _ => rfl
    refine ⟨⟨steps, _, fun _ => rfl, hopened, hstates.symm ▸ hopened'⟩, hstates, ?_,
      hlimit.trans h.limit_eq.symm, rfl, rfl⟩
    rw [horder.used_eq, hused, hbytes]
    exact Nat.zero_add _

/-- A token whose document nests too deep is corrupt. -/
theorem Founded.start_token_of_deep (h : execution.Founded engine options)
    (hdeep : ¬execution.IsReadable) {token : Token} (htoken : execution.token? = some token)
    (fresh : Uuid) :
    start engine (execution.goOn options token) fresh = .error (.token .corrupt) := by
  obtain ⟨steps, hcompile, -⟩ := h.opened
  exact start_eq_error_of_startPoint h.options h.check hcompile h.bound
    (h.suspendable.startPoint_of_deep hdeep htoken options fresh)

/-! ### Portable executions -/

/-- Whether the token of an execution determines it. The states hold no non-number but the
canonical one and no map that is nothing but the name of a number, and maps list their fields in
order; and the document does not nest too deep. -/
structure IsPortable (execution : Execution) : Prop where
  /-- The values in the states are portable. -/
  states : ∀ state ∈ execution.pipeline.states, state.IsPortable
  /-- The document can be read. -/
  readable : execution.IsReadable
  /-- There is no time limit, or the time is an unsigned word. -/
  time : execution.options.timeoutMs = none ∨ execution.elapsedMs < UInt64.size
  /-- If only the greatest amount is the limit, that has never been reached. -/
  peak_lt : execution.memory.limit = maxAmount → execution.memory.peak < maxAmount

/-- The account of a portable execution has never been cut off at the greatest amount. -/
theorem IsPortable.peak_lt_maxAmount (h : execution.IsPortable)
    (hfounded : execution.Founded engine options) : execution.memory.peak < maxAmount := by
  have hpeak := hfounded.peak_le
  have hlimit : execution.memory.limit ≤ maxAmount :=
    hfounded.limit_eq.trans_le (Nat.min_le_right _ _)
  rcases Nat.lt_or_eq_of_le hlimit with hlt | heq
  · exact Nat.lt_of_le_of_lt hpeak hlt
  · exact h.peak_lt heq

/-- **A query goes on with a token where it was suspended**, if the token determines its
execution. -/
theorem Founded.start_alike (h : execution.Founded engine options)
    (horder : execution.memory.peak < maxAmount → execution.InOrder)
    (hportable : execution.IsPortable) {token : Token} (htoken : execution.token? = some token)
    (fresh : Uuid) :
    ∃ resumed, start engine (execution.goOn options token) fresh = .ok resumed ∧
      execution.Alike resumed := by
  have hpeak := hportable.peak_lt_maxAmount h
  obtain ⟨resumed, hstart, hrestored⟩ :=
    h.start_token (horder hpeak) hpeak hportable.readable htoken fresh
  obtain ⟨steps, openSource, -, hopened, hopened'⟩ := hrestored.opened
  have hbytes : execution.pipeline.trackedBytes < UInt64.size :=
    (horder hpeak).trackedBytes_lt hpeak
  have hstates : resumed.pipeline.states = execution.pipeline.states := by
    rw [hrestored.states_eq]
    refine (List.map_congr_left fun state hmem => ?_).trans (List.map_id' _)
    exact NodeState.reread_of_isPortable (hportable.states state hmem)
      (Nat.lt_of_le_of_lt (le_total_of_mem NodeState.trackedBytes hmem) hbytes)
  have hpipeline : resumed.pipeline = execution.pipeline := by
    rw [hstates] at hopened'
    exact Except.ok.inj ((Pipeline.openNodes_eq_ok_iff.2 hopened').symm.trans
      (Pipeline.openNodes_eq_ok_iff.2 hopened))
  have halike := hrestored.alike hportable.time
  rw [hpipeline] at halike
  exact ⟨resumed, hstart, halike⟩

end Execution

end ShardQuery
