import ShardQuery.Proofs.Json.Reading
import ShardQuery.Proofs.Stage.Codec
import ShardQuery.Proofs.Text.Base64
import ShardQuery.Proofs.Uuid
import ShardQuery.Token

/-!
# Tokens Read Back

A token is accepted together with the plan and the bind variables that it was made with, unless
its document nests too deep to be read. It holds the states that it was made of, their values
reread.

## Main results

* `TokenBody.ofJson?_toJson`: what is read from the document of a body.
* `Token.decode_eq_ok_iff`: the tokens that are accepted.
* `Token.decode_encode`: what is read from a token.
* `Token.decode_encode_of_deep`: a token that nests too deep is corrupt.
* `Token.ofBase64_toBase64`: the text of a token is that of no other one.
-/

namespace ShardQuery

/-- A kind of node is read from its own name, which is how the tag of a state is found again. -/
theorem NodeKind.ofJson?_name (kind : NodeKind) :
    NodeKind.ofJson? (.string kind.name) = some kind := by
  cases kind <;> rfl

namespace TokenBody

/-- Whether the remembered texts in the states of a body are in order, and its time is a word. -/
structure IsRegular (body : TokenBody) : Prop where
  /-- The texts are in order. -/
  states : ∀ state ∈ body.states, state.IsRegular
  /-- The time is a word. -/
  elapsedMs_lt : body.elapsedMs < UInt64.size

/-- What is read from the document of a body. -/
def reread (body : TokenBody) : TokenBody :=
  { body with states := body.states.map NodeState.reread }

/-- The members of the document of a body, in the order in which they are written. -/
def members (body : TokenBody) : List (String × Json) :=
  [("execution_id", .string body.executionId.render),
    ("elapsed_ms", .int body.elapsedMs),
    ("shape", .array (body.shape.map fun kind => .string kind.name)),
    ("states", .array (body.states.map NodeState.toJson))]

/-- All members of the document of a body are known. -/
theorem knownMembers?_toJson {body : TokenBody}
    (h : body.toJson.isSound Json.depthLimit = true) :
    body.toJson.knownMembers? layout = some body.members :=
  if_pos h

/-- The document of a body is writable if its time is a word. -/
theorem isWritable_toJson {body : TokenBody} (h : body.elapsedMs < UInt64.size) :
    Json.IsWritable body.toJson :=
  ⟨trivial, Json.fitsWord_natCast h, Json.areItemsWritable_map fun _ _ => trivial,
    Json.areItemsWritable_map fun state _ => state.isWritable_toJson, trivial⟩

/-- **What is read from the document of a body** that does not nest too deep. -/
theorem ofJson?_toJson {body : TokenBody} (h : body.IsRegular)
    (hnesting : body.toJson.nesting ≤ Json.depthLimit) :
    ofJson? body.toJson = some body.reread := by
  have hmembers := knownMembers?_toJson
    (Json.isSound_of_nesting_le _ _ (isWritable_toJson h.elapsedMs_lt) hnesting)
  have hid : idOfJson? (.string body.executionId.render) = some body.executionId := by
    rw [idOfJson?, Json.toString?, Option.bind_some, Uuid.parse?_render]
  have hshape : Json.toList? NodeKind.ofJson?
      (.array (body.shape.map fun kind => .string kind.name)) = some body.shape :=
    Json.toList?_array_self fun kind _ => kind.ofJson?_name
  have hstates : Json.toList? NodeState.ofJson? (.array (body.states.map NodeState.toJson)) =
      some (body.states.map NodeState.reread) :=
    Json.toList?_array fun state hstate => NodeState.ofJson?_toJson (h.states state hstate)
  simp only [ofJson?, Option.bind_eq_bind, Option.bind_eq_some_iff]
  exact ⟨_, hmembers, _, (Json.required?_eq rfl).trans hid, _,
    (Json.required?_eq rfl).trans (Json.toWord?_int h.elapsedMs_lt), _,
    (Json.required?_eq rfl).trans hshape, _, (Json.required?_eq rfl).trans hstates, rfl⟩

/-- Nothing is read from a document that nests too deep. -/
theorem ofJson?_toJson_of_deep {body : TokenBody}
    (hnesting : Json.depthLimit < body.toJson.nesting) : ofJson? body.toJson = none := by
  have hmembers : body.toJson.knownMembers? layout = none :=
    if_neg fun h => absurd (Json.nesting_le_of_isSound body.toJson Json.depthLimit h)
      (Nat.not_le.2 hnesting)
  rw [ofJson?, hmembers]
  rfl

/-- The bodies that have no fault are those with a state for every node of a plan. -/
theorem fault?_eq_none_iff {body : TokenBody} {shape : List NodeKind} :
    body.fault? shape = none ↔ body.shape = shape ∧ body.states.map NodeState.kind = shape := by
  constructor
  · intro h
    rw [fault?] at h
    split at h
    · cases h
    · next hsame =>
        obtain ⟨hshape, hlength⟩ := not_or.1 hsame
        have hlength : body.states.length = shape.length := not_not.1 hlength
        refine ⟨not_not.1 hshape, List.ext_getElem (by simpa using hlength) fun i hi hi' => ?_⟩
        have hi : i < body.states.length := by simpa using hi
        have hentry : ((body.states[i], shape[i]), i) ∈ (body.states.zip shape).zipIdx := by
          refine List.mem_zipIdx_iff_getElem?.2 (List.getElem?_zip_eq_some.2 ⟨?_, ?_⟩)
          · exact List.getElem?_eq_getElem hi
          · exact List.getElem?_eq_getElem hi'
        have hkind := List.findSome?_eq_none_iff.1 h _ hentry
        rw [List.getElem_map]
        by_contra hne
        cases (if_neg hne).symm.trans hkind
  · rintro ⟨hshape, hkinds⟩
    have hlength : body.states.length = shape.length := by rw [← hkinds, List.length_map]
    rw [fault?, if_neg (not_or.2 ⟨not_not.2 hshape, not_not.2 hlength⟩),
      List.findSome?_eq_none_iff]
    rintro ⟨⟨state, kind⟩, position⟩ hmem
    obtain ⟨hstate, hkind⟩ := List.getElem?_zip_eq_some.1 (List.mem_zipIdx_iff_getElem?.1 hmem)
    rw [← hkinds, List.getElem?_map, hstate] at hkind
    exact if_pos (Option.some.inj hkind)

end TokenBody

namespace Token

/-! ### Octets -/

/-- A hash has thirty-two octets, whatever has been hashed. -/
theorem length_hash (message : List UInt8) : (Sha256.hash message).length = 32 := rfl

/-- The header of a token has the same length for all plans and variables, so the body begins at a
fixed place. -/
theorem length_header (plan : Plan) (bindings : Bindings) :
    (header plan bindings).length = tokenHeaderLength := by
  rw [header, List.length_cons, List.length_append, Plan.digest, Bindings.digest, length_hash,
    length_hash]
  rfl

/-- A token with the octets of a plan and bind variables is decoded by its document. -/
theorem decode_header (plan : Plan) (bindings : Bindings) (rest : List UInt8) :
    decode ⟨header plan bindings ++ rest⟩ plan bindings =
      match (Json.read? rest).bind TokenBody.ofJson? with
      | none => .error .corrupt
      | some body =>
        match body.fault? plan.shape with
        | some fault => .error fault
        | none => .ok body := by
  have hheader := length_header plan bindings
  have hplan : plan.digest.length = 32 := length_hash _
  have hbindings : bindings.digest.length = 32 := length_hash _
  have hbody : (header plan bindings ++ rest).drop tokenHeaderLength = rest := by
    rw [← hheader, List.drop_left]
  have hfirst : ((header plan bindings ++ rest).drop 1).take 32 = plan.digest := by
    simp [header, hplan]
  have hsecond : ((header plan bindings ++ rest).drop 33).take 32 = bindings.digest := by
    simp [header, hplan, hbindings]
  have hversion : (header plan bindings ++ rest).headD 0 = currentVersion := rfl
  have hlength : ¬(header plan bindings ++ rest).length < tokenHeaderLength := by
    rw [List.length_append, hheader]
    omega
  rw [decode]
  simp only
  rw [if_neg hlength, if_neg (not_not.2 hversion), if_neg (not_not.2 hfirst),
    if_neg (not_not.2 hsecond)]
  generalize List.drop tokenHeaderLength _ = document at hbody ⊢
  subst hbody
  rfl

/-- A token that is accepted has the octets of the plan and the bind variables. -/
theorem header_of_decode {token : Token} {plan : Plan} {bindings : Bindings} {body : TokenBody}
    (h : token.decode plan bindings = .ok body) :
    ∃ rest, token.octets = header plan bindings ++ rest := by
  obtain ⟨octets⟩ := token
  rw [decode] at h
  simp only at h
  split at h
  · cases h
  split at h
  · cases h
  split at h
  · cases h
  split at h
  · cases h
  · next hlength hversion hplan hbindings =>
      refine ⟨octets.drop 65, ?_⟩
      cases octets with
      | nil => exact absurd (Nat.zero_lt_succ 64) hlength
      | cons version octets =>
          have hfirst : octets.take 32 = plan.digest := not_not.1 hplan
          have hsecond : (octets.drop 32).take 32 = bindings.digest := not_not.1 hbindings
          have hversion : version = currentVersion := not_not.1 hversion
          rw [header, hversion, ← hfirst, ← hsecond, List.cons_append, List.append_assoc,
            List.drop_succ_cons, ← List.drop_drop (i := 32) (j := 32), List.take_append_drop,
            List.take_append_drop]

/-- Whether a token is one of a plan and bind variables with a body: the document behind their
octets is that of the body, which has a state of the right kind for every node. -/
structure Holds (token : Token) (plan : Plan) (bindings : Bindings) (body : TokenBody) : Prop where
  /-- The body is read from what is behind the octets of the plan and the bind variables. -/
  document : ∃ rest, token.octets = header plan bindings ++ rest ∧
    (Json.read? rest).bind TokenBody.ofJson? = some body
  /-- The shape is that of the plan. -/
  shape_eq : body.shape = plan.shape
  /-- The states are of the kinds of the nodes. -/
  kinds_eq : body.states.map NodeState.kind = plan.shape

/-- **The tokens that are accepted** are those of the plan and the bind variables. -/
theorem decode_eq_ok_iff {token : Token} {plan : Plan} {bindings : Bindings} {body : TokenBody} :
    token.decode plan bindings = .ok body ↔ token.Holds plan bindings body := by
  constructor
  · intro h
    obtain ⟨rest, hoctets⟩ := header_of_decode h
    obtain rfl : token = ⟨header plan bindings ++ rest⟩ := congrArg Token.mk hoctets
    rw [decode_header] at h
    split at h
    · cases h
    · next body' hbody =>
        split at h
        · cases h
        · next hfault =>
            cases h
            obtain ⟨hshape, hkinds⟩ := TokenBody.fault?_eq_none_iff.1 hfault
            exact ⟨⟨rest, rfl, hbody⟩, hshape, hkinds⟩
  · rintro ⟨⟨rest, hoctets, hbody⟩, hshape, hkinds⟩
    obtain rfl : token = ⟨header plan bindings ++ rest⟩ := congrArg Token.mk hoctets
    rw [decode_header, hbody]
    simp only
    rw [TokenBody.fault?_eq_none_iff.2 ⟨hshape, hkinds⟩]

/-- What holds of all states that are read from documents holds of the states in a token. -/
theorem Holds.forall_states {p : NodeState → Prop}
    (hread : ∀ {document state}, NodeState.ofJson? document = some state → p state) {token : Token}
    {plan : Plan} {bindings : Bindings} {body : TokenBody} (h : token.Holds plan bindings body) :
    ∀ state ∈ body.states, p state := by
  obtain ⟨rest, -, hbody⟩ := h.document
  obtain ⟨document, -, hbody⟩ := Option.bind_eq_some_iff.1 hbody
  simp only [TokenBody.ofJson?, Option.bind_eq_bind, Option.bind_eq_some_iff] at hbody
  obtain ⟨members, -, id, -, elapsedMs, -, shape, -, states, hstates, heq⟩ := hbody
  cases heq
  obtain ⟨_, -, hstates⟩ := Json.exists_of_required? hstates
  exact Json.forall_of_toList? hread hstates

/-- What is read from a token is what is read from the document of its body. -/
theorem decode_encode_eq {plan : Plan} {body : TokenBody} (bindings : Bindings)
    (h : Json.IsWritable body.toJson) :
    (encode plan bindings body).decode plan bindings =
      match TokenBody.ofJson? body.toJson with
      | none => .error .corrupt
      | some body =>
        match body.fault? plan.shape with
        | some fault => .error fault
        | none => .ok body := by
  rw [encode, decode_header, Json.read?_render h]
  rfl

/-- **What is read from a token** with the plan and the bind variables that it was made with. -/
theorem decode_encode {plan : Plan} {body : TokenBody} (bindings : Bindings)
    (h : body.IsRegular) (hnesting : body.toJson.nesting ≤ Json.depthLimit)
    (hshape : body.shape = plan.shape) (hkinds : body.states.map NodeState.kind = plan.shape) :
    (encode plan bindings body).decode plan bindings = .ok body.reread := by
  have hkinds' : body.reread.states.map NodeState.kind = plan.shape := by
    rw [← hkinds, TokenBody.reread, List.map_map]
    exact List.map_congr_left fun state _ => state.kind_reread
  have hfits : body.reread.fault? plan.shape = none :=
    TokenBody.fault?_eq_none_iff.2 ⟨hshape, hkinds'⟩
  rw [decode_encode_eq bindings (TokenBody.isWritable_toJson h.elapsedMs_lt),
    TokenBody.ofJson?_toJson h hnesting]
  simp only
  rw [hfits]

/-- A token whose document nests too deep is corrupt. -/
theorem decode_encode_of_deep {plan : Plan} {body : TokenBody} (bindings : Bindings)
    (h : body.IsRegular) (hnesting : Json.depthLimit < body.toJson.nesting) :
    (encode plan bindings body).decode plan bindings = .error .corrupt := by
  rw [decode_encode_eq bindings (TokenBody.isWritable_toJson h.elapsedMs_lt),
    TokenBody.ofJson?_toJson_of_deep hnesting]

/-! ### Text -/

/-- The text of a token is that of no other one. -/
theorem ofBase64_toBase64 (token : Token) : ofBase64 token.toBase64 = .ok token := by
  rw [ofBase64, toBase64, Base64.encode, String.toList_ofList, trimWhiteSpace_encodeOctets,
    Base64.decode?_encodeOctets]

end Token

end ShardQuery
