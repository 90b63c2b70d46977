import FrostMpcTss.Proofs.AgentRuns
import FrostMpcTss.Proofs.Gathering
import FrostMpcTss.Proofs.SigningTurns

/-!
# `FrostMpcTss.Proofs.SigningOrder`: the order of the messages does not matter to a signer

Each other signer sends two messages, its commitments and its share. They
may reach the agent in any order, the shares of some signers before the
commitments of others, and at any time between its polls.

What the agent holds is determined by which messages it has taken:
`known` says what a collection has under each identifier.
`collects_signing` follows the agent with them through both
loops, and `signing_orderIndependent` states the outcome: `round2::sign` and
`aggregate` are called with the complete maps, whatever the order.
-/

set_option autoImplicit false

namespace FrostMpcTss.Proofs

open Lib Network Service FrostMpcTss.Session
open Tss Tss.KeySign

variable {C S : Type} {p : SigningSession C S} {req : AgentRequest} {s : Round1 C S}
  {m : Std.TreeMap Nat C}

/-- The signers of a session: each has an identifier of its own, and the
local one is among them. -/
structure SignerSet (p : SigningSession C S) : Prop where
  nodup : p.participants.Nodup
  nonzero : ∀ id ∈ p.participants, id ≠ 0
  mem : p.identifier ∈ p.participants

/-- The other signers. -/
def remotes (p : SigningSession C S) : List Nat := p.participants.filter (· ≠ p.identifier)

theorem mem_remotes {id : Nat} : id ∈ remotes p ↔ id ∈ p.participants ∧ id ≠ p.identifier := by
  simp [remotes]

theorem SignerSet.parties (h : SignerSet p) : Parties p.identifier (remotes p) :=
  parties_filter h.nodup p.identifier

theorem SignerSet.length_holders (h : SignerSet p) {α : Type} (mine : α) :
    p.participants.length = (holders p.identifier (remotes p) (some mine)).length :=
  length_filter_ne h.nodup h.mem

/-- A position is that of one signer. -/
theorem eq_of_sender {id key : Nat} (hid : id ∈ remotes p)
    (h : p.participants.idxOf key + 1 = p.participants.idxOf id + 1) : key = id := by
  have hid := (mem_remotes.mp hid).1
  exact ((List.idxOf_inj hid).mp (Nat.succ.inj h).symm).symm

theorem mem_ofList {ids : List Nat} {id : Nat} :
    id ∈ Std.TreeSet.ofList ids ↔ id ∈ ids := by
  rw [Std.TreeSet.mem_iff_contains, Std.TreeSet.contains_ofList, List.contains_iff_mem]

section Senders

variable [Identifiers] [LawfulIdentifiers] {p : SigningSession C S}

/-- Identifiers other than zero are accepted as they are. -/
theorem mapM_tryFrom {ids : List Nat} (h : ∀ id ∈ ids, id ≠ 0) :
    ids.mapM Identifiers.tryFrom = .ok ids := by
  induction ids with
  | nil => rfl
  | cons id ids ih =>
      rw [List.mapM_cons, LawfulIdentifiers.tryFrom_of_ne id (h id List.mem_cons_self),
        ih fun id' hid => h id' (List.mem_cons_of_mem _ hid)]
      rfl

/-- The participants that are expected are those of the session. -/
theorem expectedParticipants_eq (hset : SignerSet p) :
    expectedParticipants p = .ok (Std.TreeSet.ofList p.participants) := by
  rw [expectedParticipants, mapM_tryFrom hset.nonzero]
  rfl

/-- A signer is known by its position. -/
theorem senderId_eq (hset : SignerSet p) {id : Nat} (hid : id ∈ p.participants)
    (hreq : req.sender = p.participants.idxOf id + 1) (what : String) :
    senderId p what req = .ok id := by
  have hindex : participantIdentifierForSessionIndex req.sender p.participants = .ok id := by
    rw [participantIdentifierForSessionIndex, hreq, if_neg (Nat.succ_ne_zero _),
      Nat.add_sub_cancel, List.getElem?_idxOf hid]
  have hcontains : (Std.TreeSet.ofList p.participants).contains id = true :=
    Std.TreeSet.mem_iff_contains.mp (mem_ofList.mpr hid)
  rw [senderId, hindex, Lib.Except.ok_bind,
    LawfulIdentifiers.tryFrom_of_ne id (hset.nonzero id hid)]
  show (expectedParticipants p >>= _) = _
  rw [expectedParticipants_eq hset, Lib.Except.ok_bind, if_pos hcontains]

end Senders

section Messages

variable [DagCbor] [SigningCodec C S]

/-- The two messages of a signer, as they reach the agent. -/
structure SignerMessages (p : SigningSession C S) (id : Nat) where
  commitments : C
  share : S
  commitmentsRequest : AgentRequest
  shareRequest : AgentRequest
  sender_commitments : commitmentsRequest.sender = p.participants.idxOf id + 1
  sender_share : shareRequest.sender = p.participants.idxOf id + 1
  encodes_commitments : ∃ bytes, SigningCodec.serializeCommitments S commitments = .ok bytes ∧
    DagCbor.toVec bytes = .ok commitmentsRequest.payload
  encodes_share : DagCbor.toVec (SigningCodec.serializeShare C share) = .ok shareRequest.payload

variable {p : SigningSession C S} (own : C) (msgs : ∀ id, SignerMessages p id)

/-- The messages of all other signers. -/
def signerRequests : List AgentRequest :=
  (remotes p).flatMap fun id => [(msgs id).commitmentsRequest, (msgs id).shareRequest]

/-- The commitments of each signer. -/
def commitmentsOf (id : Nat) : Option C :=
  complete p.identifier (remotes p) (some own) (fun id => (msgs id).commitments) id

/-- The share of each signer. -/
def sharesOf (share : S) (id : Nat) : Option S :=
  complete p.identifier (remotes p) (some share) (fun id => (msgs id).share) id

/-- The commitments known after some messages. -/
def knownCommitments (taken : List AgentRequest) (id : Nat) : Option C :=
  known p.identifier (remotes p) (some own) (fun id => (msgs id).commitments)
    (fun id => (msgs id).commitmentsRequest) taken id

/-- The shares known after some messages. -/
def knownShares (mine : Option S) (taken : List AgentRequest) (id : Nat) : Option S :=
  known p.identifier (remotes p) mine (fun id => (msgs id).share)
    (fun id => (msgs id).shareRequest) taken id

/-- Each remote sends its commitments and its share. -/
theorem mem_signerRequests :
    req ∈ signerRequests msgs ↔ ∃ id ∈ remotes p,
      req = (msgs id).commitmentsRequest ∨ req = (msgs id).shareRequest := by
  simp [signerRequests]

variable [LawfulDagCbor] [LawfulSigningCodec C S]

/-- Commitments are not taken for a share. -/
theorem payload_commitments (id : Nat) :
    ∃ payload, DagCbor.fromSlice (msgs id).commitmentsRequest.payload = .ok payload ∧
      SigningCodec.deserializeCommitments S payload = .ok (msgs id).commitments ∧
      ∃ e, SigningCodec.deserializeShare C (S := S) payload = .error e := by
  obtain ⟨bytes, hserialize, hencode⟩ := (msgs id).encodes_commitments
  have hread := LawfulSigningCodec.deserializeCommitments_serializeCommitments _ _ hserialize
  refine ⟨bytes, LawfulDagCbor.fromSlice_toVec _ _ hencode, hread, ?_⟩
  cases hshare : SigningCodec.deserializeShare C (S := S) bytes with
  | ok share => exact absurd hshare (LawfulSigningCodec.not_both _ _ _ hread)
  | error e => exact ⟨e, rfl⟩

/-- A share is not taken for commitments. -/
theorem payload_share (id : Nat) :
    ∃ payload, DagCbor.fromSlice (msgs id).shareRequest.payload = .ok payload ∧
      SigningCodec.deserializeShare C payload = .ok (msgs id).share ∧
      ∃ e, SigningCodec.deserializeCommitments (C := C) S payload = .error e := by
  have hread := LawfulSigningCodec.deserializeShare_serializeShare (C := C) (msgs id).share
  refine ⟨_, LawfulDagCbor.fromSlice_toVec _ _ (msgs id).encodes_share, hread, ?_⟩
  cases hcomms : SigningCodec.deserializeCommitments (C := C) S
      (SigningCodec.serializeShare C (msgs id).share) with
  | ok comms => exact absurd hread (LawfulSigningCodec.not_both _ _ _ hcomms)
  | error e => exact ⟨e, rfl⟩

/-! ### No two messages are the same -/

omit [LawfulDagCbor] [LawfulSigningCodec C S] in
theorem commitmentsRequest_eq_iff {id : Nat} (hid : id ∈ remotes p) (key : Nat) :
    (msgs key).commitmentsRequest = (msgs id).commitmentsRequest ↔ key = id := by
  refine ⟨fun heq => ?_, fun h => by rw [h]⟩
  have hsender := congrArg AgentRequest.sender heq
  rw [(msgs key).sender_commitments, (msgs id).sender_commitments] at hsender
  exact eq_of_sender hid hsender

omit [LawfulDagCbor] [LawfulSigningCodec C S] in
theorem shareRequest_eq_iff {id : Nat} (hid : id ∈ remotes p) (key : Nat) :
    (msgs key).shareRequest = (msgs id).shareRequest ↔ key = id := by
  refine ⟨fun heq => ?_, fun h => by rw [h]⟩
  have hsender := congrArg AgentRequest.sender heq
  rw [(msgs key).sender_share, (msgs id).sender_share] at hsender
  exact eq_of_sender hid hsender

theorem commitmentsRequest_ne_shareRequest {id : Nat} (hid : id ∈ remotes p) (key : Nat) :
    (msgs key).commitmentsRequest ≠ (msgs id).shareRequest := by
  intro heq
  have hsender := congrArg AgentRequest.sender heq
  rw [(msgs key).sender_commitments, (msgs id).sender_share] at hsender
  obtain rfl := eq_of_sender hid hsender
  obtain ⟨payload, hpayload, _, e, herror⟩ := payload_commitments msgs key
  obtain ⟨payload', hpayload', hshare, _⟩ := payload_share msgs key
  rw [heq, hpayload'] at hpayload
  cases hpayload
  rw [hshare] at herror
  cases herror

/-! ### What a message adds -/

section Adds

variable (hset : SignerSet p) {id : Nat} (hid : id ∈ remotes p)

include hset hid

omit [LawfulDagCbor] [LawfulSigningCodec C S] in
theorem knownCommitments_commitments (taken : List AgentRequest) (key : Nat) :
    knownCommitments own msgs (taken ++ [(msgs id).commitmentsRequest]) key
      = if key = id then some (msgs id).commitments else knownCommitments own msgs taken key :=
  known_append hset.parties hid (fun key _ => commitmentsRequest_eq_iff msgs hid key) key

omit [LawfulDagCbor] [LawfulSigningCodec C S] in
/-- A message that comes again adds nothing. -/
theorem knownCommitments_again {taken : List AgentRequest}
    (h : (knownCommitments own msgs taken id).isSome = true) (key : Nat) :
    knownCommitments own msgs (taken ++ [(msgs id).commitmentsRequest]) key
      = knownCommitments own msgs taken key :=
  known_append_of_isSome hset.parties hid (fun key _ => commitmentsRequest_eq_iff msgs hid key)
    h key

omit [LawfulDagCbor] [LawfulSigningCodec C S] in
theorem knownShares_share (mine : Option S) (taken : List AgentRequest) (key : Nat) :
    knownShares msgs mine (taken ++ [(msgs id).shareRequest]) key
      = if key = id then some (msgs id).share else knownShares msgs mine taken key :=
  known_append hset.parties hid (fun key _ => shareRequest_eq_iff msgs hid key) key

omit [LawfulDagCbor] [LawfulSigningCodec C S] in
theorem knownShares_again {mine : Option S} {taken : List AgentRequest}
    (h : (knownShares msgs mine taken id).isSome = true) (key : Nat) :
    knownShares msgs mine (taken ++ [(msgs id).shareRequest]) key
      = knownShares msgs mine taken key :=
  known_append_of_isSome hset.parties hid (fun key _ => shareRequest_eq_iff msgs hid key) h key

omit hset in
theorem knownCommitments_share (taken : List AgentRequest) (key : Nat) :
    knownCommitments own msgs (taken ++ [(msgs id).shareRequest]) key
      = knownCommitments own msgs taken key :=
  known_append_of_ne (fun key _ => commitmentsRequest_ne_shareRequest msgs hid key) key

end Adds

theorem knownShares_commitments (id : Nat) (mine : Option S) (taken : List AgentRequest)
    (key : Nat) :
    knownShares msgs mine (taken ++ [(msgs id).commitmentsRequest]) key
      = knownShares msgs mine taken key :=
  known_append_of_ne
    (fun _ hkey => (commitmentsRequest_ne_shareRequest msgs hkey id).symm) key

/-! ### What the agent does with a message -/

variable [Identifiers] [LawfulIdentifiers] (hset : SignerSet p) {id : Nat} (hid : id ∈ remotes p)
include hset hid

/-- Round 1 stores the commitments of a party once. -/
theorem takeCommitment_commitments (s : Round1 C S) :
    takeCommitment p s (msgs id).commitmentsRequest
      = .ok (if s.receivedParticipants.contains id then s
          else { s with
            commitmentsMap := s.commitmentsMap.insert id (msgs id).commitments
            receivedParticipants := s.receivedParticipants.insert id }) := by
  obtain ⟨payload, hpayload, hcomms, e, hshare⟩ := payload_commitments msgs id
  rw [takeCommitment, senderId_eq hset (mem_remotes.mp hid).1 (msgs id).sender_commitments,
    Lib.Except.ok_bind, hpayload]
  show (Except.ok payload >>= _) = _
  simp only [Lib.Except.ok_bind, hshare, hcomms]
  cases s.receivedParticipants.contains id <;> rfl

/-- Round 1 defers a share that comes early. -/
theorem takeCommitment_share (s : Round1 C S) :
    takeCommitment p s (msgs id).shareRequest
      = .ok { s with
          deferredSignatureShares :=
            s.deferredSignatureShares.insertIfNew id (msgs id).share } := by
  obtain ⟨payload, hpayload, hshare, e, hcomms⟩ := payload_share msgs id
  rw [takeCommitment, senderId_eq hset (mem_remotes.mp hid).1 (msgs id).sender_share,
    Lib.Except.ok_bind, hpayload]
  show (Except.ok payload >>= _) = _
  simp only [Lib.Except.ok_bind, hshare, hcomms]
  cases s.receivedParticipants.contains id <;> rfl

/-- Round 2 ignores commitments that come again. -/
theorem takeShare_commitments (s : Round2 C S) :
    takeShare p s (msgs id).commitmentsRequest = .ok s := by
  obtain ⟨payload, hpayload, hcomms, e, hshare⟩ := payload_commitments msgs id
  rw [takeShare, senderId_eq hset (mem_remotes.mp hid).1 (msgs id).sender_commitments,
    Lib.Except.ok_bind]
  split
  · rfl
  · rw [hpayload]
    show (Except.ok payload >>= _) = _
    simp only [Lib.Except.ok_bind, hshare, hcomms]
    rfl

/-- Round 2 stores the share of a party once. -/
theorem takeShare_share (s : Round2 C S) :
    takeShare p s (msgs id).shareRequest
      = .ok (if s.receivedSignatureParticipants.contains id then s
          else { s with
            signatureShares := s.signatureShares.insert id (msgs id).share
            receivedSignatureParticipants := s.receivedSignatureParticipants.insert id }) := by
  obtain ⟨payload, hpayload, hshare, e, hcomms⟩ := payload_share msgs id
  rw [takeShare, senderId_eq hset (mem_remotes.mp hid).1 (msgs id).sender_share,
    Lib.Except.ok_bind]
  split
  · rfl
  · rw [hpayload]
    show (Except.ok payload >>= _) = _
    simp only [Lib.Except.ok_bind, hshare]
    rfl

end Messages

section Loops

variable [Identifiers] [LawfulIdentifiers] [DagCbor] [SigningCodec C S] {p : SigningSession C S}
  {own : C}
  {msgs : ∀ id, SignerMessages p id} {taken : List AgentRequest}

/-- The first loop after some messages. -/
structure CommitmentsGathered (own : C) (msgs : ∀ id, SignerMessages p id)
    (taken : List AgentRequest) (s : Round1 C S) : Prop where
  commitments : ∀ id, s.commitmentsMap[id]? = knownCommitments own msgs taken id
  received : ∀ id, s.receivedParticipants.contains id
    = (knownCommitments own msgs taken id).isSome
  deferred : ∀ id, s.deferredSignatureShares[id]? = knownShares msgs none taken id

/-- The second loop after some messages. It keeps the commitments the agent
has signed with. -/
structure SharesGathered (msgs : ∀ id, SignerMessages p id) (m : Std.TreeMap Nat C) (share : S)
    (taken : List AgentRequest) (s : Round2 C S) : Prop where
  commitments : s.commitmentsMap = m
  shares : ∀ id, s.signatureShares[id]? = knownShares msgs (some share) taken id
  received : ∀ id, s.receivedSignatureParticipants.contains id
    = (knownShares msgs (some share) taken id).isSome

omit [Identifiers] [LawfulIdentifiers] in
theorem commitmentsGathered_new : CommitmentsGathered own msgs [] (.new p own) := by
  refine ⟨fun id => ?_, fun id => ?_, fun id => ?_⟩
  · rw [Round1.new, getElem?_insert_eq, knownCommitments, known_nil]
    simp
  · rw [Round1.new, contains_insert_eq, knownCommitments, known_nil]
    by_cases h : id = p.identifier <;> simp [h]
  · rw [Round1.new, knownShares, known_nil]
    simp

variable [LawfulDagCbor] [LawfulSigningCodec C S]

/-- A turn of the first loop. -/
theorem commitmentsGathered_take (hset : SignerSet p) (h : CommitmentsGathered own msgs taken s)
    (hreq : req ∈ signerRequests msgs) :
    ∃ s', takeCommitment p s req = .ok s' ∧
      CommitmentsGathered own msgs (taken ++ [req]) s' := by
  obtain ⟨id, hid, rfl | rfl⟩ := (mem_signerRequests msgs).mp hreq
  · refine ⟨_, takeCommitment_commitments msgs hset hid s, ?_⟩
    have hshares := knownShares_commitments msgs id none taken
    have hadd := knownCommitments_commitments own msgs hset hid taken
    split
    · -- the commitments are there already
      rename_i hcontains
      rw [h.received] at hcontains
      have hsame := knownCommitments_again own msgs hset hid hcontains
      exact ⟨fun key => (h.commitments key).trans (hsame key).symm,
        fun key => by rw [h.received, hsame], fun key => (h.deferred key).trans (hshares key).symm⟩
    · refine ⟨fun key => ?_, fun key => ?_, fun key => (h.deferred key).trans (hshares key).symm⟩
      · show (s.commitmentsMap.insert id (msgs id).commitments)[key]? = _
        rw [getElem?_insert_eq, hadd, h.commitments]
      · show (s.receivedParticipants.insert id).contains key = _
        rw [contains_insert_eq, hadd, h.received]
        by_cases hkey : key = id <;> simp [hkey]
  · -- a share that comes early is set aside, unless one is there already
    refine ⟨_, takeCommitment_share msgs hset hid s, ?_⟩
    have hcomms := knownCommitments_share own msgs hid taken
    refine ⟨fun key => (h.commitments key).trans (hcomms key).symm,
      fun key => by rw [hcomms]; exact h.received key, fun key => ?_⟩
    show (s.deferredSignatureShares.insertIfNew id (msgs id).share)[key]? = _
    rw [getElem?_insertIfNew_eq, h.deferred, h.deferred, knownShares_share msgs hset hid]
    by_cases hkey : key = id
    · subst hkey
      rw [if_pos rfl]
      split
      · rfl
      · rename_i hknown
        exact known_of_isSome hset.parties hid
          (Option.isSome_iff_ne_none.mpr fun hnone => hknown ⟨rfl, hnone⟩)
    · rw [if_neg hkey, if_neg fun h => hkey h.1]

/-- A turn of the second loop. -/
theorem sharesGathered_take (hset : SignerSet p) {share : S} {s : Round2 C S}
    (h : SharesGathered msgs m share taken s) (hreq : req ∈ signerRequests msgs) :
    ∃ s', takeShare p s req = .ok s' ∧ SharesGathered msgs m share (taken ++ [req]) s' := by
  obtain ⟨id, hid, rfl | rfl⟩ := (mem_signerRequests msgs).mp hreq
  · -- commitments are skipped: all of them are there
    refine ⟨_, takeShare_commitments msgs hset hid s, h.commitments, fun key => ?_, fun key => ?_⟩
    · rw [knownShares_commitments]
      exact h.shares key
    · rw [knownShares_commitments]
      exact h.received key
  · refine ⟨_, takeShare_share msgs hset hid s, ?_⟩
    have hadd := knownShares_share msgs hset hid (some share) taken
    split
    · rename_i hcontains
      rw [h.received] at hcontains
      have hsame := knownShares_again msgs hset hid hcontains
      exact ⟨h.commitments, fun key => (h.shares key).trans (hsame key).symm,
        fun key => by rw [h.received, hsame]⟩
    · refine ⟨h.commitments, fun key => ?_, fun key => ?_⟩
      · show (s.signatureShares.insert id (msgs id).share)[key]? = _
        rw [getElem?_insert_eq, hadd, h.shares]
      · show (s.receivedSignatureParticipants.insert id).contains key = _
        rw [contains_insert_eq, hadd, h.received]
        by_cases hkey : key = id <;> simp [hkey]

end Loops

/-! ### The shares that came early -/

/-- An early share is added if there is none. -/
theorem shares_addEarly (expected : Std.TreeSet Nat) (e : Nat × S) {acc : Round2 C S}
    (h : ∀ id, acc.receivedSignatureParticipants.contains id = acc.signatureShares[id]?.isSome) :
    (∀ id, (addEarly expected acc e).receivedSignatureParticipants.contains id
      = (addEarly expected acc e).signatureShares[id]?.isSome) ∧
    ∀ id, (addEarly expected acc e).signatureShares[id]?
      = acc.signatureShares[id]?.or
          (if expected.contains id && compare e.1 id == .eq then some e.2 else none) := by
  have hcompare : ∀ id, (compare e.1 id == .eq) = decide (id = e.1) := by
    intro id
    rw [Bool.beq_eq_decide_eq]
    simp only [Lib.compare_eq_iff]
  unfold addEarly
  split
  · rename_i hadd
    rw [Bool.and_eq_true, Bool.not_eq_true', h] at hadd
    constructor
    · intro id
      rw [contains_insert_eq, getElem?_insert_eq, h]
      by_cases hid : id = e.1 <;> simp [hid]
    · intro id
      rw [getElem?_insert_eq, hcompare]
      by_cases hid : id = e.1
      · subst hid
        -- it was expected and missing, so the early share is the value
        have hnone : acc.signatureShares[e.1]? = none :=
          Option.isNone_iff_eq_none.mp (Option.isSome_eq_false_iff.mp hadd.2)
        rw [if_pos rfl, hnone, hadd.1]
        simp
      · simp [hid]
  · rename_i hskip
    refine ⟨h, fun id => ?_⟩
    rw [hcompare]
    by_cases hid : id = e.1
    · subst hid
      -- not expected, or there already
      cases hexpected : expected.contains e.1 with
      | false => simp
      | true =>
          rw [hexpected, h, Bool.true_and, Bool.not_eq_true, Bool.not_eq_false'] at hskip
          obtain ⟨share, hshare⟩ := Option.isSome_iff_exists.mp hskip
          rw [hshare]
          rfl
    · simp [hid]

/-- The loop over the early shares adds those that are missing. -/
theorem shares_foldl_addEarly (expected : Std.TreeSet Nat) (early : List (Nat × S)) :
    ∀ acc : Round2 C S,
      (∀ id, acc.receivedSignatureParticipants.contains id = acc.signatureShares[id]?.isSome) →
      (∀ id, (early.foldl (addEarly expected) acc).receivedSignatureParticipants.contains id
        = (early.foldl (addEarly expected) acc).signatureShares[id]?.isSome) ∧
      ∀ id, (early.foldl (addEarly expected) acc).signatureShares[id]?
        = acc.signatureShares[id]?.or (if expected.contains id then
            (early.find? fun e => compare e.1 id == .eq).map Prod.snd else none) := by
  -- on the early shares, for every accumulator whose set and map agree
  induction early with
  | nil =>
      intro acc h
      refine ⟨h, fun id => ?_⟩
      simp
  | cons e early ih =>
      intro acc h
      obtain ⟨hadd, hshare⟩ := shares_addEarly expected e h
      obtain ⟨hreceived, hshares⟩ := ih (addEarly expected acc e) hadd
      refine ⟨hreceived, fun id => ?_⟩
      rw [List.foldl_cons, hshares, hshare, Option.or_assoc]
      congr 1
      rw [List.find?_cons]
      cases expected.contains id <;> cases compare e.1 id == .eq <;> rfl

section Ends

variable [Identifiers] [LawfulIdentifiers] [DagCbor] [SigningCodec C S] {p : SigningSession C S}
  {own : C}
  {msgs : ∀ id, SignerMessages p id} {taken : List AgentRequest}

omit [Identifiers] [LawfulIdentifiers] in
/-- Round 1 waits for the remotes whose commitments were not taken. -/
theorem needsCommitments_iff (hset : SignerSet p) (h : CommitmentsGathered own msgs taken s) :
    needsCommitments p s = true ↔ ∃ id ∈ remotes p, (msgs id).commitmentsRequest ∉ taken := by
  rw [needsCommitments, decide_eq_true_iff, hset.length_holders own]
  exact setSize_known_lt_iff hset.parties h.received

omit [Identifiers] [LawfulIdentifiers] in
/-- Round 2 waits for the remotes whose shares were not taken. -/
theorem needsShares_iff (hset : SignerSet p) {share : S} {s : Round2 C S}
    (h : SharesGathered msgs m share taken s) :
    needsShares p s = true ↔ ∃ id ∈ remotes p, (msgs id).shareRequest ∉ taken := by
  rw [needsShares, decide_eq_true_iff, hset.length_holders share]
  exact setSize_known_lt_iff hset.parties h.received

omit [Identifiers] [LawfulIdentifiers] in
theorem commitments_of_done (hset : SignerSet p) (h : CommitmentsGathered own msgs taken s)
    (hdone : needsCommitments p s = false) (id : Nat) :
    s.commitmentsMap[id]? = commitmentsOf own msgs id := by
  rw [h.commitments]
  refine known_eq_complete (fun id hid => ?_) id
  by_contra hmissing
  rw [(needsCommitments_iff hset h).mpr ⟨id, hid, hmissing⟩] at hdone
  cases hdone

omit [Identifiers] [LawfulIdentifiers] in
theorem shares_of_done (hset : SignerSet p) {share : S} {s : Round2 C S}
    (h : SharesGathered msgs m share taken s) (hdone : needsShares p s = false) (id : Nat) :
    s.signatureShares[id]? = sharesOf msgs share id := by
  rw [h.shares]
  refine known_eq_complete (fun id hid => ?_) id
  by_contra hmissing
  rw [(needsShares_iff hset h).mpr ⟨id, hid, hmissing⟩] at hdone
  cases hdone

omit [DagCbor] [SigningCodec C S] in
/-- A complete map passes the check. -/
theorem checkComplete_of_complete {α : Type} (hset : SignerSet p) {m : Std.TreeMap Nat α}
    {mine : α} {value : Nat → α}
    (h : ∀ id, m[id]? = complete p.identifier (remotes p) (some mine) value id) (what : String) :
    checkComplete p what m.keys = .ok () := by
  have hkeys : m.keys = (Std.TreeSet.ofList p.participants).toList := by
    refine keys_eq_toList fun id => ?_
    rw [mem_ofList, Std.TreeMap.mem_iff_isSome_getElem?, h, isSome_complete_iff hset.parties]
    show id ∈ p.identifier :: remotes p ↔ _
    rw [List.mem_cons, mem_remotes]
    by_cases hown : id = p.identifier
    · simp [hown, hset.mem]
    · simp [hown]
  rw [checkComplete, expectedParticipants_eq hset, Lib.Except.ok_bind, if_pos hkeys]

/-- The second loop begins with the own share and those that came early. -/
theorem sharesGathered_new (hset : SignerSet p) (h : CommitmentsGathered own msgs taken s)
    (share : S) :
    ∃ acc, Round2.new p s share = .ok acc ∧
      SharesGathered msgs s.commitmentsMap share taken acc := by
  let acc₀ : Round2 C S :=
    { commitmentsMap := s.commitmentsMap
      signatureShares := (∅ : Std.TreeMap Nat S).insert p.identifier share
      receivedSignatureParticipants := (∅ : Std.TreeSet Nat).insert p.identifier }
  have hown : ∀ id, acc₀.signatureShares[id]? = if id = p.identifier then some share else none := by
    intro id
    rw [getElem?_insert_eq]
    simp
  have hreceived₀ : ∀ id, acc₀.receivedSignatureParticipants.contains id
      = acc₀.signatureShares[id]?.isSome := by
    intro id
    rw [hown, contains_insert_eq]
    by_cases hid : id = p.identifier <;> simp [hid]
  -- the deferred shares are added to the party's own one
  obtain ⟨hreceived, hshares⟩ := shares_foldl_addEarly (Std.TreeSet.ofList p.participants)
    s.deferredSignatureShares.toList acc₀ hreceived₀
  obtain ⟨hcomms, _⟩ := foldl_addEarly (Std.TreeSet.ofList p.participants)
    s.deferredSignatureShares.toList acc₀
  have hknown : ∀ id, (s.deferredSignatureShares.toList.foldl
      (addEarly (Std.TreeSet.ofList p.participants)) acc₀).signatureShares[id]?
      = knownShares msgs (some share) taken id := by
    intro id
    rw [hshares, hown, find?_toList_map, h.deferred, knownShares, knownShares, known, known]
    by_cases hid : id = p.identifier
    · simp [hid]
    · by_cases hremote : id ∈ remotes p
      · have hcontains : (Std.TreeSet.ofList p.participants).contains id = true :=
          Std.TreeSet.mem_iff_contains.mp (mem_ofList.mpr (mem_remotes.mp hremote).1)
        simp [hid, hcontains]
      · simp [hid, hremote]
  refine ⟨_, ?_, hcomms, hknown, fun id => ?_⟩
  · rw [Round2.new, expectedParticipants_eq hset]
    rfl
  · rw [hreceived, hknown]

end Ends

section Polls

variable [Identifiers] [LawfulIdentifiers] [DagCbor] [SigningCodec C S] {p : SigningSession C S}
  {own : C}
  {msgs : ∀ id, SignerMessages p id} {taken order : List AgentRequest}

/-- The results of a run: `round2::sign` gets the commitments of all
signers, and `aggregate` these and the shares of all signers. -/
inductive SignsWith (own : C) (msgs : ∀ id, SignerMessages p id) : AgentResult → Prop where
  | signFailed {m : Std.TreeMap Nat C} {e : String} :
      (∀ id, m[id]? = commitmentsOf own msgs id) → p.sign m = .error e →
      SignsWith own msgs (.error ("failed to generate signature share: " ++ e))
  | encodeFailed {m : Std.TreeMap Nat C} {share : S} {e : String} :
      (∀ id, m[id]? = commitmentsOf own msgs id) → p.sign m = .ok share →
      DagCbor.toVec (SigningCodec.serializeShare C share) = .error e →
      SignsWith own msgs (.error ("failed to encode signature share: " ++ e))
  | aggregated {m : Std.TreeMap Nat C} {share : S} {body : Bytes}
      {shares : Std.TreeMap Nat S} :
      (∀ id, m[id]? = commitmentsOf own msgs id) → p.sign m = .ok share →
      DagCbor.toVec (SigningCodec.serializeShare C share) = .ok body →
      (∀ id, shares[id]? = sharesOf msgs share id) →
      SignsWith own msgs (p.finish m shares)

/-- The agent at each `await`, from the messages it has taken. -/
inductive SigningStage (own : C) (msgs : ∀ id, SignerMessages p id) :
    Signing C S → List AgentRequest → Prop where
  | start : SigningStage own msgs .start []
  | commitmentsSent : SigningStage own msgs (.commitmentsSent own) []
  | round1 {s : Round1 C S} {taken : List AgentRequest} :
      CommitmentsGathered own msgs taken s → SigningStage own msgs (.round1 s) taken
  | shareSent {s : Round1 C S} {share : S} {body : Bytes} {taken : List AgentRequest} :
      CommitmentsGathered own msgs taken s → needsCommitments p s = false →
      p.sign s.commitmentsMap = .ok share →
      DagCbor.toVec (SigningCodec.serializeShare C share) = .ok body →
      SigningStage own msgs (.shareSent s share) taken
  | round2 {s : Round2 C S} {m : Std.TreeMap Nat C} {share : S} {body : Bytes}
      {taken : List AgentRequest} : SharesGathered msgs m share taken s →
      (∀ id, m[id]? = commitmentsOf own msgs id) → p.sign m = .ok share →
      DagCbor.toVec (SigningCodec.serializeShare C share) = .ok body →
      SigningStage own msgs (.round2 s) taken

/-- How far the agent is from its end, when all messages are there. -/
def signingRank : Signing C S → Nat
  | .start => 3
  | .commitmentsSent _ => 2
  | .round1 _ => 2
  | .shareSent _ _ => 1
  | .round2 _ => 0
  | .returned => 0

variable [LawfulDagCbor] [LawfulSigningCodec C S]

/-- The first loop, and what follows it. -/
theorem collectPoll_signRound1 (hset : SignerSet p) {a : Signing C S} (ha : signingRank a = 2)
    (h : CommitmentsGathered own msgs taken s) (horder : order.Perm (signerRequests msgs))
    {incoming : List AgentRequest} (hinitial : taken ++ incoming <+: order)
    (outgoing : List AgentMessage) :
    CollectPoll order (SigningStage own msgs) (SignsWith own msgs) signingRank a taken incoming
      outgoing (runRound1 p s incoming) := by
  have hgood : ∀ req ∈ incoming, req ∈ signerRequests msgs := fun req hreq =>
    horder.mem_iff.mp (hinitial.subset (List.mem_append_right _ hreq))
  have hloop := collect_rule (needsCommitments p) (takeCommitment p)
    (fun hinv hreq _ => commitmentsGathered_take hset hinv hreq) incoming h hgood
  unfold runRound1
  generalize collect (needsCommitments p) (takeCommitment p) s incoming = ended at hloop
  cases hloop with
  | @waiting s' hmore hinv =>
      refine .goesOn (.round1 (by rwa [List.take_length])) fun hall => ?_
      -- a signer is missing, although all messages have been taken
      obtain ⟨id, hid, hmissing⟩ := (needsCommitments_iff hset hinv).mp hmore
      refine absurd ?_ hmissing
      rw [hall]
      exact horder.mem_iff.mpr ((mem_signerRequests msgs).mpr ⟨id, hid, .inl rfl⟩)
  | @done s' used rest hincoming hmore hinv =>
      have hcomms := commitments_of_done hset hinv hmore
      have htake : incoming.take (incoming.length - rest.length) = used := by
        rw [hincoming, List.length_append, Nat.add_sub_cancel, List.take_left]
      simp only [sendShare, checkComplete_of_complete hset hcomms, Lib.Except.ok_bind]
      cases hsign : p.sign s'.commitmentsMap with
      | error e => exact .returns (.signFailed hcomms hsign)
      | ok share =>
          simp only [mapErr, Lib.Except.ok_bind]
          cases hencode : DagCbor.toVec (SigningCodec.serializeShare C share) with
          | error e => exact .returns (.encodeFailed hcomms hsign hencode)
          | ok body =>
              have hstage : SigningStage own msgs (.shareSent s' share)
                  (taken ++ incoming.take (incoming.length - rest.length)) :=
                .shareSent (by rwa [htake]) hmore hsign hencode
              refine .goesOn hstage fun _ => ⟨?_, ?_⟩
              · exact List.append_ne_nil_of_right_ne_nil _ (List.cons_ne_nil _ _)
              · intro _
                rw [ha]
                exact Nat.lt_succ_self 1

/-- The second loop. -/
theorem collectPoll_signRound2 (hset : SignerSet p) {a : Signing C S} {share : S} {body : Bytes}
    {s : Round2 C S} (h : SharesGathered msgs m share taken s)
    (hcomms : ∀ id, m[id]? = commitmentsOf own msgs id) (hsign : p.sign m = .ok share)
    (hencode : DagCbor.toVec (SigningCodec.serializeShare C share) = .ok body)
    (horder : order.Perm (signerRequests msgs)) {incoming : List AgentRequest}
    (hinitial : taken ++ incoming <+: order) (outgoing : List AgentMessage) :
    CollectPoll order (SigningStage own msgs) (SignsWith own msgs) signingRank a taken incoming
      outgoing (runRound2 p s incoming) := by
  have hgood : ∀ req ∈ incoming, req ∈ signerRequests msgs := fun req hreq =>
    horder.mem_iff.mp (hinitial.subset (List.mem_append_right _ hreq))
  have hloop := collect_rule (needsShares p) (takeShare p)
    (fun hinv hreq _ => sharesGathered_take hset hinv hreq) incoming h hgood
  unfold runRound2
  generalize collect (needsShares p) (takeShare p) s incoming = ended at hloop
  cases hloop with
  | @waiting s' hmore hinv =>
      have hstage : SigningStage own msgs (.round2 s') (taken ++ incoming.take incoming.length) :=
        .round2 (by rwa [List.take_length]) hcomms hsign hencode
      refine .goesOn hstage fun hall => ?_
      obtain ⟨id, hid, hmissing⟩ := (needsShares_iff hset hinv).mp hmore
      refine absurd ?_ hmissing
      rw [hall]
      exact horder.mem_iff.mpr ((mem_signerRequests msgs).mpr ⟨id, hid, .inr rfl⟩)
  | @done s' used rest hincoming hmore hinv =>
      have hshares := shares_of_done hset hinv hmore
      simp only [checkComplete_of_complete hset hshares, Lib.Except.ok_bind, hinv.commitments]
      exact .returns (.aggregated hcomms hsign hencode hshares)

/-- A poll of `run_signing`. -/
theorem collects_signing (hset : SignerSet p) {message : AgentMessage}
    (hsent : sendCommitments p = .ok (own, message))
    (horder : order.Perm (signerRequests msgs)) :
    Collecting (runSigning p) order (SigningStage own msgs) (SignsWith own msgs)
      signingRank := by
  intro a taken incoming outgoing h hinitial
  cases h with
  | start =>
      simp only [runSigning, hsent]
      refine .goesOn .commitmentsSent fun _ => ⟨?_, fun _ => Nat.lt_succ_self 2⟩
      exact List.append_ne_nil_of_right_ne_nil _ (List.cons_ne_nil _ _)
  | commitmentsSent =>
      rw [runSigning, expectedParticipants_eq hset]
      split
      · rename_i hout
        exact .goesOn .commitmentsSent fun _ =>
          ⟨List.append_ne_nil_of_left_ne_nil hout _, fun hnil => absurd hnil hout⟩
      · exact collectPoll_signRound1 hset rfl commitmentsGathered_new horder hinitial outgoing
  | round1 h => exact collectPoll_signRound1 hset rfl h horder hinitial outgoing
  | @shareSent s share body taken h hdone hsign hencode =>
      rw [runSigning]
      split
      · rename_i hout
        have hstage : SigningStage own msgs (.shareSent s share) (taken ++ incoming.take 0) :=
          .shareSent (by rwa [List.take_zero, List.append_nil]) hdone hsign hencode
        exact .goesOn hstage fun _ =>
          ⟨List.append_ne_nil_of_left_ne_nil hout _, fun hnil => absurd hnil hout⟩
      · obtain ⟨acc, hnew, hacc⟩ := sharesGathered_new hset h share
        simp only [hnew]
        exact collectPoll_signRound2 hset hacc (commitments_of_done hset h hdone) hsign hencode
          horder hinitial outgoing
  | round2 h hcomms hsign hencode =>
      exact collectPoll_signRound2 hset h hcomms hsign hencode horder hinitial outgoing

/-! ### Whole runs -/

/-- What a run of the agent satisfies at any time. -/
structure CollectsSignatures (own : C) (msgs : ∀ id, SignerMessages p id)
    (t : AgentRun (Signing C S)) : Prop where
  /-- The share that is sent was made with the commitments of all signers. -/
  signs : t.result = none → ∀ s share, t.agent = .shareSent s share →
    (∀ id, s.commitmentsMap[id]? = commitmentsOf own msgs id) ∧
      p.sign s.commitmentsMap = .ok share
  result : ∀ r, t.result = some r → SignsWith own msgs r
  /-- When the last message has arrived, a poll returns or leaves a message
  of the agent's own to be taken. -/
  waits : t.pending = [] → (t.step (runSigning p) .poll).result = none →
    (t.step (runSigning p) .poll).outgoing ≠ []
  returns : t.pending = [] →
    ∃ events, (t.run (runSigning p) events).result.isSome = true

/-- `round2::sign` and `aggregate` see what a map holds and not how it was
built. -/
structure Extensional (p : SigningSession C S) : Prop where
  sign : ∀ m m' : Std.TreeMap Nat C, (∀ id : Nat, m[id]? = m'[id]?) → p.sign m = p.sign m'
  finish : ∀ (m m' : Std.TreeMap Nat C) (shares shares' : Std.TreeMap Nat S),
    (∀ id : Nat, m[id]? = m'[id]?) → (∀ id : Nat, shares[id]? = shares'[id]?) →
    p.finish m shares = p.finish m' shares'

omit [Identifiers] [LawfulIdentifiers] [LawfulDagCbor] [LawfulSigningCodec C S] in
/-- The complete maps determine the result. -/
theorem SignsWith.unique (hext : Extensional p) {r r' : AgentResult}
    (h : SignsWith own msgs r) (h' : SignsWith own msgs r') : r = r' := by
  have hsame : ∀ {m m' : Std.TreeMap Nat C}, (∀ id, m[id]? = commitmentsOf own msgs id) →
      (∀ id, m'[id]? = commitmentsOf own msgs id) → p.sign m = p.sign m' := fun hm hm' =>
    hext.sign _ _ fun id => (hm id).trans (hm' id).symm
  cases h with
  | signFailed hm hsign =>
      cases h' with
      | signFailed hm' hsign' =>
          cases hsign.symm.trans ((hsame hm hm').trans hsign')
          rfl
      | encodeFailed hm' hsign' _ => cases hsign.symm.trans ((hsame hm hm').trans hsign')
      | aggregated hm' hsign' _ _ => cases hsign.symm.trans ((hsame hm hm').trans hsign')
  | encodeFailed hm hsign hencode =>
      cases h' with
      | signFailed hm' hsign' => cases hsign.symm.trans ((hsame hm hm').trans hsign')
      | encodeFailed hm' hsign' hencode' =>
          cases hsign.symm.trans ((hsame hm hm').trans hsign')
          cases hencode.symm.trans hencode'
          rfl
      | aggregated hm' hsign' hencode' _ =>
          cases hsign.symm.trans ((hsame hm hm').trans hsign')
          cases hencode.symm.trans hencode'
  | aggregated hm hsign hencode hshares =>
      cases h' with
      | signFailed hm' hsign' => cases hsign.symm.trans ((hsame hm hm').trans hsign')
      | encodeFailed hm' hsign' hencode' =>
          cases hsign.symm.trans ((hsame hm hm').trans hsign')
          cases hencode.symm.trans hencode'
      | aggregated hm' hsign' _ hshares' =>
          cases hsign.symm.trans ((hsame hm hm').trans hsign')
          exact hext.finish _ _ _ _ (fun id => (hm id).trans (hm' id).symm)
            fun id => (hshares id).trans (hshares' id).symm

/-- Every run of the agent is explained by what it has taken. -/
theorem running_signing (hset : SignerSet p) {message : AgentMessage}
    (hsent : sendCommitments p = .ok (own, message))
    (horder : order.Perm (signerRequests msgs)) (events : List AgentEvent) :
    Running order (SigningStage own msgs) (SignsWith own msgs)
      ((AgentRun.start .start order).run (runSigning p) events) :=
  running_run (collects_signing hset hsent horder) (running_start .start) events

/-- In whatever order the messages of the other signers arrive and whenever
the agent is polled, it signs with the commitments of all signers and
aggregates the shares of all signers, and it waits for no other message. So
the result is the same. -/
theorem signing_orderIndependent (hset : SignerSet p) (msgs : ∀ id, SignerMessages p id)
    {message : AgentMessage} (hsent : sendCommitments p = .ok (own, message)) :
    (∀ order events, order.Perm (signerRequests msgs) →
      CollectsSignatures own msgs
        ((AgentRun.start .start order).run (runSigning p) events)) ∧
    (Extensional p → ∀ order order' events events' r r',
      order.Perm (signerRequests msgs) → order'.Perm (signerRequests msgs) →
      ((AgentRun.start .start order).run (runSigning p) events).result = some r →
      ((AgentRun.start .start order').run (runSigning p) events').result = some r' →
      r = r') := by
  constructor
  · intro order events horder
    have hc := collects_signing hset hsent horder
    have hrunning := running_signing hset hsent horder events
    refine ⟨fun hnone s share hagent => ?_, hrunning.result,
      fun hpending hnone => outgoing_poll hc hrunning hpending hnone,
      fun hpending => returns_of_rank hc hrunning hpending⟩
    obtain ⟨taken, _, hstage⟩ := hrunning.live hnone
    rw [hagent] at hstage
    cases hstage with
    | shareSent h hdone hsign _ => exact ⟨commitments_of_done hset h hdone, hsign⟩
  · intro hext order order' events events' r r' horder horder' hr hr'
    exact ((running_signing hset hsent horder events).result r hr).unique hext
      ((running_signing hset hsent horder' events').result r' hr')

end Polls

namespace ThreeSigners

open scoped PlainAgent

/-- Commitments and shares are bytes behind a tag. -/
local instance : SigningCodec UInt8 UInt8 where
  serializeCommitments commitments := .ok [0, commitments]
  deserializeCommitments
    | [0, commitments] => .ok commitments
    | _ => .error "commitments"
  serializeShare share := [1, share]
  deserializeShare
    | [1, share] => .ok share
    | _ => .error "share"

local instance : LawfulSigningCodec UInt8 UInt8 where
  deserializeCommitments_serializeCommitments commitments bytes h := by
    cases h
    rfl
  deserializeShare_serializeShare share := rfl
  not_both bytes commitments share h h' := by
    change (match bytes with | [0, c] => Except.ok c | _ => .error "commitments") = _ at h
    split at h
    · cases h'
    · cases h

/-- The second of three signers. -/
def session : SigningSession UInt8 UInt8 where
  identifier := 2
  participants := [1, 2, 3]
  prepare := .ok ()
  commit := .ok 20
  sign m := .ok (m.values.foldl (· + ·) 0)
  finish _ shares := .ok shares.values

def messages (id : Nat) : SignerMessages session id where
  commitments := 10 * id.toUInt8
  share := id.toUInt8
  commitmentsRequest :=
    { sender := session.participants.idxOf id + 1
      recipient := none
      payload := [0, 10 * id.toUInt8] }
  shareRequest :=
    { sender := session.participants.idxOf id + 1
      recipient := none
      payload := [1, id.toUInt8] }
  sender_commitments := rfl
  sender_share := rfl
  encodes_commitments := ⟨_, rfl, rfl⟩
  encodes_share := rfl

/-- The share of the third signer comes first. -/
def earlyShare : List AgentRequest :=
  [(messages 3).shareRequest, (messages 1).commitmentsRequest,
    (messages 3).commitmentsRequest, (messages 1).shareRequest]

/-- The agent is polled before anything arrives, in between, and at the
end. -/
def events : List AgentEvent :=
  [.poll, .deliver, .take, .poll, .deliver, .deliver, .poll, .take, .deliver, .poll]

/-- The early share is kept for round 2, and the signer returns what it
would return in any other order. -/
theorem signing_orderIndependent_earlyShare :
    ((AgentRun.start .start earlyShare).run (runSigning session) events).result
      = some (.ok [1, 60, 3]) ∧ SignsWith 20 messages (.ok [1, 60, 3]) := by
  have hset : SignerSet session := ⟨by decide, by decide, by decide⟩
  have hperm : earlyShare.Perm (signerRequests messages) := by decide
  have hresult : ((AgentRun.start .start earlyShare).run (runSigning session) events).result
      = some (.ok [1, 60, 3]) := rfl
  exact ⟨hresult,
    ((signing_orderIndependent hset messages rfl).1 earlyShare events hperm).result _ hresult⟩

end ThreeSigners

end FrostMpcTss.Proofs
