import ShardQuery.Proofs.Json.Truncation
import ShardQuery.Proofs.Opening
import ShardQuery.Proofs.Token

/-!
# Damaged Tokens

A token that has lost its end, that has got something behind it, or whose first octets have
changed is refused together with the plan and the bind variables that it was made with, whatever
its states are. The class of the error tells the damage apart: tokens that end within their header
and tokens of other bind variables have been passed in the wrong place, all others are not
understood.

Main definitions:

* `Token.IsRefused` — a token is refused with an error of a class.

## Main results

* `Execution.start_of_decode_error`: a token that cannot be decoded is refused by every start.
* `Token.isRefused_of_damage`: damaged tokens are refused, and with which class.
-/

namespace ShardQuery

/-- A query whose token cannot be decoded does not start: its token is refused, unless the query
is refused whatever token it has. -/
theorem Execution.start_of_decode_error {plan : Plan} {bindings : Bindings} {token : Token}
    {fault : TokenFault} (h : token.decode plan bindings = .error fault) (engine : Engine)
    (options : QueryOptions) (fresh : Uuid) :
    start engine ⟨plan, bindings, options, some token⟩ fresh = .error (.token fault) ∨
      ∃ error, ∀ other, start engine ⟨plan, bindings, options, other⟩ fresh = .error error := by
  cases hoptions : options.resolve engine.config with
  | error error => exact .inr ⟨error, fun _ => by rw [start, hoptions]; rfl⟩
  | ok resolved =>
      cases hcheck : plan.check with
      | error error => exact .inr ⟨.plan error, fun _ => by rw [start, hoptions, hcheck]; rfl⟩
      | ok =>
          cases hcompile : compileSteps engine.registry plan.steps with
          | error error =>
              exact .inr ⟨.function error, fun _ => by rw [start, hoptions, hcheck, hcompile]; rfl⟩
          | ok steps =>
              cases hbound : (plan.bindRefs.forM fun ref => do
                  let _ ← bindings.resolve ref : Except QueryError Unit) with
              | error error =>
                  refine .inr ⟨error, fun _ => ?_⟩
                  rw [start, hoptions, hcheck, hcompile]
                  simp only [Except.mapError, bind, Except.bind] at hbound ⊢
                  rw [hbound]
              | ok =>
                  left
                  rw [start, hoptions, hcheck, hcompile, startPoint_of_token rfl, h]
                  simp only [Except.mapError, bind, Except.bind] at hbound ⊢
                  rw [hbound]

namespace Token

/-- Whether a token is refused with an error of a class: it cannot be decoded with a plan and bind
variables, and a query for them does not start with it. The query has the same error, unless it
would be refused with any other token, too. -/
def IsRefused (token : Token) (plan : Plan) (bindings : Bindings) (code : ErrorCode) : Prop :=
  ∃ fault, fault.code = code ∧ token.decode plan bindings = .error fault ∧
    ∀ engine options fresh,
      Execution.start engine ⟨plan, bindings, options, some token⟩ fresh =
          .error (.token fault) ∨
        ∃ error, ∀ other,
          Execution.start engine ⟨plan, bindings, options, other⟩ fresh = .error error

variable {plan : Plan} {bindings : Bindings}

/-- A token that cannot be decoded is refused for this fault by every start that gets to it. -/
theorem isRefused_of_decode {token : Token} {fault : TokenFault}
    (h : token.decode plan bindings = .error fault) :
    token.IsRefused plan bindings fault.code :=
  ⟨fault, rfl, h, Execution.start_of_decode_error h⟩

/-! ### Bodies -/

/-- A token without a document behind its header is corrupt. -/
theorem isRefused_of_unreadable {octets : List UInt8} (h : Json.read? octets = none) :
    IsRefused ⟨header plan bindings ++ octets⟩ plan bindings .badProtocol := by
  have hdecode : decode ⟨header plan bindings ++ octets⟩ plan bindings = .error .corrupt := by
    rw [decode_header, h]
    rfl
  exact isRefused_of_decode hdecode

/-- A token that ends within its header is too short. -/
theorem isRefused_of_short {token : Token} (h : token.octets.length < tokenHeaderLength) :
    token.IsRefused plan bindings .illegalArgument := by
  have hdecode : token.decode plan bindings = .error (.tooShort token.octets.length) := by
    rw [decode]
    exact if_pos h
  exact isRefused_of_decode hdecode

/-! ### Headers -/

/-- A token is first judged by its version, then by the digest of the plan, then by that of the bind
variables. -/
theorem decode_parts {version : UInt8} {first second : List UInt8} (hfirst : first.length = 32)
    (hsecond : second.length = 32) (rest : List UInt8)
    (hne : version :: (first ++ second) ≠ header plan bindings) :
    decode ⟨version :: (first ++ second) ++ rest⟩ plan bindings =
      .error (if version ≠ currentVersion then .unsupportedVersion version
        else if first ≠ plan.digest then .otherPlan else .otherBindings) := by
  have hlength : ¬(version :: (first ++ second) ++ rest).length < tokenHeaderLength := by
    simp [tokenHeaderLength, hfirst, hsecond]
    omega
  have htake : ((version :: (first ++ second) ++ rest).drop 1).take 32 = first := by
    simp [← hfirst]
  have htake' : ((version :: (first ++ second) ++ rest).drop 33).take 32 = second := by
    simp [hfirst, hsecond]
  rw [decode]
  simp only [if_neg hlength, htake, htake']
  change (if version ≠ currentVersion then _ else _) = _
  split
  · rfl
  · next hversion =>
      split
      · rfl
      · next hplan =>
          have hbindings : second ≠ bindings.digest := by
            rintro rfl
            rw [header, not_not.1 hversion, not_not.1 hplan] at hne
            exact hne rfl
          rw [if_pos hbindings]

/-- A token with another header is one of another version, of another plan, or of other bind
variables. -/
theorem isRefused_of_header {octets : List UInt8} (hlength : octets.length = tokenHeaderLength)
    (hne : octets ≠ header plan bindings) (rest : List UInt8) :
    IsRefused ⟨octets ++ rest⟩ plan bindings
      (if octets.head? = some currentVersion ∧ (octets.drop 1).take 32 = plan.digest then
        .illegalArgument else .badProtocol) := by
  cases octets with
  | nil => cases hlength
  | cons version digests =>
      have hdigests : digests.length = 64 := Nat.succ.inj hlength
      have hfirst : (digests.take 32).length = 32 := by rw [List.length_take, hdigests]; rfl
      have hsecond : (digests.drop 32).length = 32 := by rw [List.length_drop, hdigests]
      rw [← List.take_append_drop 32 digests] at hne ⊢
      have hdecode := decode_parts hfirst hsecond rest hne
      have hrefused := isRefused_of_decode hdecode
      have htake : ((version :: (digests.take 32 ++ digests.drop 32)).drop 1).take 32 =
          digests.take 32 := by
        rw [List.drop_succ_cons, List.drop_zero, List.take_append_drop]
      rw [List.head?_cons, htake]
      by_cases hversion : version = currentVersion
      · by_cases hplan : digests.take 32 = plan.digest
        · rw [if_neg (not_not.2 hversion), if_neg (not_not.2 hplan)] at hrefused
          rwa [if_pos ⟨congrArg some hversion, hplan⟩]
        · rw [if_neg (not_not.2 hversion), if_pos hplan] at hrefused
          rwa [if_neg fun h => hplan h.2]
      · rw [if_pos hversion] at hrefused
        rwa [if_neg fun h => hversion (Option.some.inj h.1)]

/-- **Damaged tokens are refused.** A token that has lost its end is not understood, or has been
passed in the wrong place if it ends within its header. A token with more than blanks behind it is
not understood. One whose header has changed is not understood if it is of another version or of
another plan, and otherwise has been passed with the wrong bind variables. -/
theorem isRefused_of_damage (plan : Plan) (bindings : Bindings) {body : TokenBody}
    (h : body.elapsedMs < UInt64.size) :
    (∀ octets, octets <+: (encode plan bindings body).octets →
      octets ≠ (encode plan bindings body).octets →
      IsRefused ⟨octets⟩ plan bindings
        (if octets.length < tokenHeaderLength then .illegalArgument else .badProtocol)) ∧
    (∀ more, (∃ b ∈ more, Json.isBlank b = false) →
      IsRefused ⟨(encode plan bindings body).octets ++ more⟩ plan bindings .badProtocol) ∧
    ∀ octets, octets.length = tokenHeaderLength → octets ≠ header plan bindings →
      IsRefused ⟨octets ++ (encode plan bindings body).octets.drop tokenHeaderLength⟩ plan bindings
        (if octets.head? = some currentVersion ∧ (octets.drop 1).take 32 = plan.digest then
          .illegalArgument else .badProtocol) := by
  have hwritable := TokenBody.isWritable_toJson h
  refine ⟨fun octets hcut hne => ?_, fun more ⟨b, hmem, hblank⟩ => ?_,
    fun octets hlength hne => isRefused_of_header hlength hne _⟩
  · split
    · next hshort => exact isRefused_of_short hshort
    · next hlength =>
        obtain ⟨rest, rfl⟩ : header plan bindings <+: octets :=
          List.prefix_of_prefix_length_le (List.prefix_append _ _) hcut
            (length_header plan bindings ▸ Nat.not_lt.1 hlength)
        refine isRefused_of_unreadable (Json.read?_of_prefix hwritable ?_ ?_)
        · exact (List.prefix_append_right_inj _).1 hcut
        · exact fun heq => hne (congrArg (header plan bindings ++ ·) heq)
  · rw [encode, List.append_assoc]
    refine isRefused_of_unreadable ?_
    have hread := Json.read?_render_append hwritable more
    rw [if_neg fun hall => by cases hblank.symm.trans (List.all_eq_true.1 hall b hmem)] at hread
    exact hread

/-- A plan that only reads the rows of a shard. -/
def plainPlan : Plan :=
  ⟨Plan.currentVersion, [], ⟨"t", [0], false⟩⟩

/-- The body of a token of `plainPlan` before the first row. -/
def plainBody : TokenBody :=
  ⟨⟨0⟩, 0, plainPlan.shape, plainPlan.startStates⟩

/-- Nothing at all, a brace too many, and octets of another version in the place of the header. -/
theorem isRefused_plainBody :
    IsRefused ⟨[]⟩ plainPlan .empty .illegalArgument ∧
    IsRefused ⟨(encode plainPlan .empty plainBody).octets ++ [0x7d]⟩ plainPlan .empty
      .badProtocol ∧
    IsRefused ⟨List.replicate tokenHeaderLength 0 ++
      (encode plainPlan .empty plainBody).octets.drop tokenHeaderLength⟩ plainPlan .empty
      .badProtocol := by
  obtain ⟨hcut, hmore, hheader⟩ :=
    @isRefused_of_damage plainPlan .empty plainBody (by decide)
  refine ⟨hcut [] List.nil_prefix (by simp [encode, header]), hmore [0x7d] ⟨0x7d, by decide⟩, ?_⟩
  have hne : List.replicate tokenHeaderLength 0 ≠ header plainPlan .empty := fun heq =>
    absurd (List.cons.inj heq).1 (by decide)
  exact hheader _ List.length_replicate hne

end Token

end ShardQuery
