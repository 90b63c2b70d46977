import FrostMpcTss.Tss.Agent

/-!
# `FrostMpcTss.Tss.KeySign`: the signing agent

`KeySign::run_signing` is an async function. `Signing` says at which
`await` it stands, and `runSigning` is one poll of it.

The key material, the nonces and the group's arithmetic are
`frost-core`'s. What `compute` does before `run_signing` is one fallible
value (`prepare`), and so are the key material and `round1::commit`
(`commit`), `round2::sign` on the collected commitments (`sign`) and
everything after the last share (`finish`).
-/

set_option autoImplicit false

namespace FrostMpcTss.Tss.KeySign

open Network Service

/-- `SigningCommitments` and `SignatureShare` on the wire. -/
class SigningCodec (C S : Type) where
  serializeCommitments : C → Except String Bytes
  deserializeCommitments : Bytes → Except String C
  serializeShare : S → Bytes
  deserializeShare : Bytes → Except String S

/-- What was serialised is read back, and no bytes are both commitments and
a share. -/
class LawfulSigningCodec (C S : Type) [SigningCodec C S] : Prop where
  deserializeCommitments_serializeCommitments : ∀ (commitments : C) (bytes : Bytes),
    SigningCodec.serializeCommitments S commitments = .ok bytes →
      SigningCodec.deserializeCommitments S bytes = .ok commitments
  deserializeShare_serializeShare : ∀ share : S,
    SigningCodec.deserializeShare C (SigningCodec.serializeShare C share) = .ok share
  not_both : ∀ (bytes : Bytes) (commitments : C) (share : S),
    SigningCodec.deserializeCommitments S bytes = .ok commitments →
      SigningCodec.deserializeShare C bytes ≠ .ok share

/-- What one run of the agent works on. -/
structure SigningSession (C S : Type) where
  /-- `key_share.identifier`. -/
  identifier : Nat
  /-- `signing_participants`. -/
  participants : List Nat
  prepare : Except String Unit
  commit : Except String C
  sign : Std.TreeMap Nat C → Except String S
  finish : Std.TreeMap Nat C → Std.TreeMap Nat S → Except String Bytes

/-- The accumulators of the first receive loop. -/
structure Round1 (C S : Type) where
  commitmentsMap : Std.TreeMap Nat C
  receivedParticipants : Std.TreeSet Nat
  deferredSignatureShares : Std.TreeMap Nat S

/-- The accumulators of the second receive loop. -/
structure Round2 (C S : Type) where
  commitmentsMap : Std.TreeMap Nat C
  signatureShares : Std.TreeMap Nat S
  receivedSignatureParticipants : Std.TreeSet Nat

/-- Where `run_signing` is suspended. -/
inductive Signing (C S : Type) where
  | start
  /-- `rx1.await`, with the own commitments. -/
  | commitmentsSent (commitments : C)
  | round1 (s : Round1 C S)
  /-- `rx2.await`, with the own share. -/
  | shareSent (s : Round1 C S) (share : S)
  | round2 (s : Round2 C S)
  | returned

variable {C S : Type}

/-- `participant_identifier_for_session_index`. -/
def participantIdentifierForSessionIndex (sessionIndex : Nat) (participants : List Nat) :
    Except String Nat :=
  if sessionIndex = 0 then .error "participant index must be one-based"
  else
    match participants[sessionIndex - 1]? with
    | some identifier => .ok identifier
    | none => .error s!"participant index {sessionIndex} is outside signing session"

/-- `expected_participants`. -/
def expectedParticipants [Identifiers] (p : SigningSession C S) :
    Except String (Std.TreeSet Nat) := do
  let ids ← mapErr "invalid participant identifier: " (p.participants.mapM Identifiers.tryFrom)
  return Std.TreeSet.ofList ids

/-- The sender of a message, checked to be a participant. -/
def senderId [Identifiers] (p : SigningSession C S) (what : String) (req : AgentRequest) :
    Except String Nat := do
  let senderIdentifier ← participantIdentifierForSessionIndex req.sender p.participants
  let id ← mapErr s!"invalid sender identifier {senderIdentifier}: "
    (Identifiers.tryFrom senderIdentifier)
  let expected ← expectedParticipants p
  let participants := toString p.participants
  if expected.contains id then .ok id
  else
    .error (s!"Received {what} from unexpected participant {senderIdentifier} " ++
      s!"(expected: {participants})")

/-- One turn of the first receive loop. -/
def takeCommitment [Identifiers] [DagCbor] [SigningCodec C S] (p : SigningSession C S)
    (s : Round1 C S) (req : AgentRequest) : Except String (Round1 C S) := do
  let id ← senderId p "commitment" req
  let payload ← mapErr "failed to decode commitments: " (DagCbor.fromSlice req.payload)
  let deferShare : Option (Round1 C S) :=
    match SigningCodec.deserializeShare (C := C) (S := S) payload with
    | .ok share =>
        some { s with
          deferredSignatureShares := s.deferredSignatureShares.insertIfNew id share }
    | .error _ => none
  if s.receivedParticipants.contains id then
    -- an early share, or a duplicate that is skipped
    return deferShare.getD s
  match SigningCodec.deserializeCommitments (C := C) (S := S) payload with
  | .ok comms =>
      return { s with
        commitmentsMap := s.commitmentsMap.insert id comms
        receivedParticipants := s.receivedParticipants.insert id }
  | .error e =>
      match deferShare with
      | some s' => return s'
      | none => .error s!"failed to deserialize commitments from participant {id}: {e}"

/-- One turn of the second receive loop. -/
def takeShare [Identifiers] [DagCbor] [SigningCodec C S] (p : SigningSession C S)
    (s : Round2 C S) (req : AgentRequest) : Except String (Round2 C S) := do
  let id ← senderId p "signature share" req
  if s.receivedSignatureParticipants.contains id then return s
  let payload ← mapErr "failed to decode signature share: " (DagCbor.fromSlice req.payload)
  match SigningCodec.deserializeShare (C := C) (S := S) payload with
  | .ok share =>
      return { s with
        signatureShares := s.signatureShares.insert id share
        receivedSignatureParticipants := s.receivedSignatureParticipants.insert id }
  | .error e =>
      match SigningCodec.deserializeCommitments (C := C) (S := S) payload with
      | .ok _ => return s
      | .error _ => .error s!"failed to deserialize signature share from participant {id}: {e}"

/-- `received_participants.len() < signing_participants.len()`. -/
def needsCommitments (p : SigningSession C S) (s : Round1 C S) : Bool :=
  s.receivedParticipants.size < p.participants.length

/-- `received_signature_participants.len() < signing_participants.len()`. -/
def needsShares (p : SigningSession C S) (s : Round2 C S) : Bool :=
  s.receivedSignatureParticipants.size < p.participants.length

/-- The accumulators before the first receive loop. -/
def Round1.new (p : SigningSession C S) (commitments : C) : Round1 C S where
  commitmentsMap := (∅ : Std.TreeMap Nat C).insert p.identifier commitments
  receivedParticipants := (∅ : Std.TreeSet Nat).insert p.identifier
  deferredSignatureShares := ∅

/-- The accumulators before the second receive loop: the own share, and
the shares that came early. -/
def Round2.new [Identifiers] (p : SigningSession C S) (s : Round1 C S) (share : S) :
    Except String (Round2 C S) := do
  let expected ← expectedParticipants p
  return s.deferredSignatureShares.toList.foldl
    (fun acc early =>
      if expected.contains early.1 && !acc.receivedSignatureParticipants.contains early.1 then
        { acc with
            signatureShares := acc.signatureShares.insert early.1 early.2
            receivedSignatureParticipants := acc.receivedSignatureParticipants.insert early.1 }
      else acc)
    { commitmentsMap := s.commitmentsMap
      signatureShares := (∅ : Std.TreeMap Nat S).insert p.identifier share
      receivedSignatureParticipants := (∅ : Std.TreeSet Nat).insert p.identifier }

/-- The check after a receive loop: the collected identifiers are the
expected ones. -/
def checkComplete [Identifiers] (p : SigningSession C S) (what : String) (got : List Nat) :
    Except String Unit := do
  let expected ← expectedParticipants p
  let expectedText := debugSet expected.toList
  let gotText := debugVec got
  if got = expected.toList then .ok ()
  else
    .error (s!"Missing {what} from some participants. " ++
      s!"Expected: {expectedText}, Got: {gotText}")

/-- The commitments are complete: sign, and send the share. -/
def sendShare [Identifiers] [DagCbor] [SigningCodec C S] (p : SigningSession C S)
    (s : Round1 C S) : Except String (S × AgentMessage) := do
  checkComplete p "commitments" s.commitmentsMap.keys
  let share ← mapErr "failed to generate signature share: " (p.sign s.commitmentsMap)
  let body ← mapErr "failed to encode signature share: "
    (DagCbor.toVec (SigningCodec.serializeShare C share))
  return (share, { body := body, recipient := none })

/-- The first receive loop, from its accumulators on. -/
def runRound1 [Identifiers] [DagCbor] [SigningCodec C S] (p : SigningSession C S)
    (s : Round1 C S) (incoming : List AgentRequest) : Signing C S × AgentTurn :=
  match collect (needsCommitments p) (takeCommitment p) s incoming with
  | .waiting s' => (.round1 s', .waiting incoming.length [])
  | .failed e rest => (.returned, .returning (incoming.length - rest.length) [] (.error e))
  | .done s' rest =>
      match sendShare p s' with
      | .ok (share, message) =>
          (.shareSent s' share, .waiting (incoming.length - rest.length) [message])
      | .error e => (.returned, .returning (incoming.length - rest.length) [] (.error e))

/-- The second receive loop, from its accumulators on. -/
def runRound2 [Identifiers] [DagCbor] [SigningCodec C S] (p : SigningSession C S)
    (s : Round2 C S) (incoming : List AgentRequest) : Signing C S × AgentTurn :=
  match collect (needsShares p) (takeShare p) s incoming with
  | .waiting s' => (.round2 s', .waiting incoming.length [])
  | .failed e rest => (.returned, .returning (incoming.length - rest.length) [] (.error e))
  | .done s' rest =>
      (.returned, .returning (incoming.length - rest.length) [] (do
        checkComplete p "signature shares" s'.signatureShares.keys
        p.finish s'.commitmentsMap s'.signatureShares))

/-- The commitments, ready to be sent. -/
def sendCommitments [Identifiers] [DagCbor] [SigningCodec C S] (p : SigningSession C S) :
    Except String (C × AgentMessage) := do
  p.prepare
  let _ ← mapErr "invalid identifier: " (Identifiers.tryFrom p.identifier)
  let commitments ← p.commit
  let payload ← mapErr "failed to serialize commitments: "
    (SigningCodec.serializeCommitments S commitments)
  let body ← mapErr "failed to encode commitments: " (DagCbor.toVec payload)
  return (commitments, { body := body, recipient := none })

/-- One poll of `run_signing`. `outgoing` are the own messages that have
not been taken: the feedback of a message comes when it is taken, since
the execution drops the sender with the message. The channel is empty
at both sends. -/
def runSigning [Identifiers] [DagCbor] [SigningCodec C S] (p : SigningSession C S) :
    Signing C S → List AgentRequest → List AgentMessage → Signing C S × AgentTurn
  | .start, _, _ =>
      match sendCommitments p with
      | .ok (commitments, message) => (.commitmentsSent commitments, .waiting 0 [message])
      | .error e => (.returned, .returning 0 [] (.error e))
  | .commitmentsSent commitments, incoming, outgoing =>
      if outgoing ≠ [] then (.commitmentsSent commitments, .waiting 0 [])
      else
        match expectedParticipants p with
        | .ok _ => runRound1 p (.new p commitments) incoming
        | .error e => (.returned, .returning 0 [] (.error e))
  | .round1 s, incoming, _ => runRound1 p s incoming
  | .shareSent s share, incoming, outgoing =>
      if outgoing ≠ [] then (.shareSent s share, .waiting 0 [])
      else
        match Round2.new p s share with
        | .ok s' => runRound2 p s' incoming
        | .error e => (.returned, .returning 0 [] (.error e))
  | .round2 s, incoming, _ => runRound2 p s incoming
  | .returned, _, _ => (.returned, .waiting 0 [])

end FrostMpcTss.Tss.KeySign
