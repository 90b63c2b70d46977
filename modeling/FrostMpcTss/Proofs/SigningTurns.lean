import FrostMpcTss.Lib.Except
import FrostMpcTss.Tss.KeySign

/-!
# `FrostMpcTss.Proofs.SigningTurns`: what one message does to a signing agent

A turn of a receive loop either places a value of the sender or leaves
the accumulators as they are. `CommitmentTurn` and `ShareTurn` list the
cases for the two loops, and `Round2.new` moves the shares that came
early into the second one.
-/

set_option autoImplicit false

namespace FrostMpcTss.Proofs

open Network Service
open Tss Tss.KeySign

variable {C S : Type} {p : SigningSession C S}

/-- A new value under a key, or the old one. -/
theorem getElem?_insert_cases {α : Type} {m : Std.TreeMap Nat α} {id key : Nat}
    {value found : α} (h : (m.insert id value)[key]? = some found) :
    (key = id ∧ found = value) ∨ m[key]? = some found := by
  rw [Std.TreeMap.getElem?_insert] at h
  split at h
  · rename_i hkey
    cases h
    exact .inl ⟨(Std.LawfulEqCmp.eq_of_compare hkey).symm, rfl⟩
  · exact .inr h

section Turns

variable [Identifiers] [DagCbor] [SigningCodec C S] {req : AgentRequest}

/-- The signer a message is from. -/
def signerOf (p : SigningSession C S) (req : AgentRequest) : Option Nat :=
  (senderId p "commitment" req).toOption

/-- The commitments a message carries. -/
def commitmentsIn (C S : Type) [SigningCodec C S] (req : AgentRequest) : Option C :=
  (DagCbor.fromSlice req.payload).toOption.bind fun payload =>
    (SigningCodec.deserializeCommitments (C := C) S payload).toOption

/-- The signature share a message carries. -/
def shareIn (C S : Type) [SigningCodec C S] (req : AgentRequest) : Option S :=
  (DagCbor.fromSlice req.payload).toOption.bind fun payload =>
    (SigningCodec.deserializeShare C (S := S) payload).toOption

omit [SigningCodec C S] [DagCbor] in
/-- The two loops read the sender alike; only the error's text differs. -/
theorem signerOf_eq_some {what : String} {id : Nat} (h : senderId p what req = .ok id) :
    signerOf p req = some id := by
  obtain ⟨identifier, hidentifier, h⟩ := Lib.Except.bind_eq_ok.mp h
  obtain ⟨id', hid, h⟩ := Lib.Except.bind_eq_ok.mp h
  obtain ⟨expected, hexpected, h⟩ := Lib.Except.bind_eq_ok.mp h
  rw [signerOf, senderId, hidentifier, Lib.Except.ok_bind, hid, Lib.Except.ok_bind, hexpected,
    Lib.Except.ok_bind]
  by_cases hmem : expected.contains id' = true
  · rw [if_pos hmem] at h ⊢
    cases h
    rfl
  · rw [if_neg hmem] at h
    cases h

/-- A turn of the first receive loop. -/
inductive CommitmentTurn (p : SigningSession C S) (s : Round1 C S) (req : AgentRequest) :
    Round1 C S → Prop where
  | placed {id : Nat} {comms : C} : signerOf p req = some id →
      s.receivedParticipants.contains id = false → commitmentsIn C S req = some comms →
      CommitmentTurn p s req
        { s with
            commitmentsMap := s.commitmentsMap.insert id comms
            receivedParticipants := s.receivedParticipants.insert id }
  | early {id : Nat} {share : S} : signerOf p req = some id → shareIn C S req = some share →
      CommitmentTurn p s req
        { s with deferredSignatureShares := s.deferredSignatureShares.insertIfNew id share }
  | skipped : CommitmentTurn p s req s

theorem commitmentTurn_of_eq_ok {s s' : Round1 C S} (h : takeCommitment p s req = .ok s') :
    CommitmentTurn p s req s' := by
  obtain ⟨id, hid, h⟩ := Lib.Except.bind_eq_ok.mp h
  obtain ⟨payload, hpayload, h⟩ := Lib.Except.bind_eq_ok.mp h
  have hid := signerOf_eq_some hid
  have hpayload : DagCbor.fromSlice req.payload = .ok payload := mapErr_eq_ok.mp hpayload
  have hshareIn : shareIn C S req
      = (SigningCodec.deserializeShare C (S := S) payload).toOption := by
    rw [shareIn, hpayload]
    rfl
  have hcommsIn : commitmentsIn C S req
      = (SigningCodec.deserializeCommitments (C := C) S payload).toOption := by
    rw [commitmentsIn, hpayload]
    rfl
  -- commitments of a known party are not read again, only a share
  by_cases hknown : s.receivedParticipants.contains id = true
  · simp only [hknown, if_true] at h
    cases hshare : SigningCodec.deserializeShare C (S := S) payload with
    | ok share =>
        rw [hshare] at h hshareIn
        cases h
        exact .early hid hshareIn
    | error e =>
        rw [hshare] at h
        cases h
        exact .skipped
  · simp only [hknown] at h
    cases hcomms : SigningCodec.deserializeCommitments (C := C) S payload with
    | ok comms =>
        rw [hcomms] at h hcommsIn
        cases h
        exact .placed hid (Bool.eq_false_iff.mpr hknown) hcommsIn
    | error e =>
        rw [hcomms] at h
        cases hshare : SigningCodec.deserializeShare C (S := S) payload with
        | ok share =>
            rw [hshare] at h hshareIn
            cases h
            exact .early hid hshareIn
        | error e =>
            rw [hshare] at h
            cases h

/-- A turn of the second receive loop. -/
inductive ShareTurn (p : SigningSession C S) (s : Round2 C S) (req : AgentRequest) :
    Round2 C S → Prop where
  | placed {id : Nat} {share : S} : signerOf p req = some id →
      s.receivedSignatureParticipants.contains id = false → shareIn C S req = some share →
      ShareTurn p s req
        { s with
            signatureShares := s.signatureShares.insert id share
            receivedSignatureParticipants := s.receivedSignatureParticipants.insert id }
  | skipped : ShareTurn p s req s

theorem shareTurn_of_eq_ok {s s' : Round2 C S} (h : takeShare p s req = .ok s') :
    ShareTurn p s req s' := by
  obtain ⟨id, hid, h⟩ := Lib.Except.bind_eq_ok.mp h
  have hid := signerOf_eq_some hid
  by_cases hknown : s.receivedSignatureParticipants.contains id = true
  · rw [if_pos hknown] at h
    cases h
    exact .skipped
  · rw [if_neg hknown] at h
    obtain ⟨payload, hpayload, h⟩ := Lib.Except.bind_eq_ok.mp h
    have hpayload : DagCbor.fromSlice req.payload = .ok payload := mapErr_eq_ok.mp hpayload
    cases hshare : SigningCodec.deserializeShare C (S := S) payload with
    | ok share =>
        have hshareIn : shareIn C S req = some share := by
          rw [shareIn, hpayload]
          exact congrArg Except.toOption hshare
        rw [hshare] at h
        cases h
        exact .placed hid (Bool.eq_false_iff.mpr hknown) hshareIn
    | error e =>
        rw [hshare] at h
        cases hcomms : SigningCodec.deserializeCommitments (C := C) S payload with
        | ok comms =>
            rw [hcomms] at h
            cases h
            exact .skipped
        | error e =>
            rw [hcomms] at h
            cases h

end Turns

section Start

/-- One turn of the loop over the shares that came early. -/
def addEarly (expected : Std.TreeSet Nat) (acc : Round2 C S) (early : Nat × S) : Round2 C S :=
  if expected.contains early.1 && !acc.receivedSignatureParticipants.contains early.1 then
    { acc with
        signatureShares := acc.signatureShares.insert early.1 early.2
        receivedSignatureParticipants := acc.receivedSignatureParticipants.insert early.1 }
  else acc

/-- The loop keeps the commitments, and every share it adds came early. -/
theorem foldl_addEarly (expected : Std.TreeSet Nat) (shares : List (Nat × S)) :
    ∀ acc : Round2 C S,
      (shares.foldl (addEarly expected) acc).commitmentsMap = acc.commitmentsMap ∧
      ∀ id share, (shares.foldl (addEarly expected) acc).signatureShares[id]? = some share →
        acc.signatureShares[id]? = some share ∨ (id, share) ∈ shares := by
  induction shares with
  | nil =>
      intro acc
      exact ⟨rfl, fun _ _ h => .inl h⟩
  | cons early shares ih =>
      intro acc
      obtain ⟨hcomms, hshares⟩ := ih (addEarly expected acc early)
      have hadd : (addEarly expected acc early).commitmentsMap = acc.commitmentsMap ∧
          ∀ id share, (addEarly expected acc early).signatureShares[id]? = some share →
            acc.signatureShares[id]? = some share ∨ (id, share) = early := by
        unfold addEarly
        split
        · refine ⟨rfl, fun id share h => ?_⟩
          rcases getElem?_insert_cases h with ⟨rfl, rfl⟩ | h
          · exact .inr rfl
          · exact .inl h
        · exact ⟨rfl, fun _ _ h => .inl h⟩
      refine ⟨hcomms.trans hadd.1, fun id share h => ?_⟩
      rcases hshares id share h with h | h
      · rcases hadd.2 id share h with h | h
        · exact .inl h
        · exact .inr (h ▸ List.mem_cons_self)
      · exact .inr (List.mem_cons_of_mem _ h)

/-- The second loop starts with the own share and with shares that came
early. -/
theorem round2_new [Identifiers] {s : Round1 C S} {share : S} {acc : Round2 C S}
    (h : Round2.new p s share = .ok acc) :
    acc.commitmentsMap = s.commitmentsMap ∧
      ∀ id early, acc.signatureShares[id]? = some early →
        id = p.identifier ∨ s.deferredSignatureShares[id]? = some early := by
  obtain ⟨expected, _, h⟩ := Lib.Except.bind_eq_ok.mp h
  cases h
  obtain ⟨hcomms, hshares⟩ := foldl_addEarly expected s.deferredSignatureShares.toList
    { commitmentsMap := s.commitmentsMap
      signatureShares := (∅ : Std.TreeMap Nat S).insert p.identifier share
      receivedSignatureParticipants := (∅ : Std.TreeSet Nat).insert p.identifier }
  refine ⟨hcomms, fun id early h => ?_⟩
  rcases hshares id early h with h | h
  · rcases getElem?_insert_cases h with ⟨hid, _⟩ | h
    · exact .inl hid
    · cases Std.TreeMap.getElem?_emptyc.symm.trans h
  · exact .inr (Std.TreeMap.mem_toList_iff_getElem?_eq_some.mp h)

end Start

end FrostMpcTss.Proofs
