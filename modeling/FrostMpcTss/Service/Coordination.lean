import FrostMpcTss.Service.Negotiation

/-!
# `FrostMpcTss.Service.Coordination`: listening for a proposal and for a start

`Phase1Channel::poll` waits for a proposal of a remote peer or for a
request of the local node. A proposal opens a `Phase2Channel`, which
waits for the start message of that session and gives up after 15 s.

Both take at most one message per poll. A coordination message of the
session is always read as a start message in phase 2, whoever sent
it; when it does not decode the channel aborts.
-/

set_option autoImplicit false

namespace FrostMpcTss.Service

open Lib Network

/-- `MAX_EARLY_COMPUTATION_MESSAGES`. -/
def maxEarlyComputationMessages : Nat := 1024

/-- The timer of phase 2, 15 s. -/
def phase2Timeout : Nat := 15000

/-- `Phase2Channel`. -/
structure Phase2Channel (P ρ : Type) where
  id : RoomId
  sessionId : SessionId
  rx : Nat
  buffered : List (IncomingRequest P ρ)
  timeout : Nat

/-- `oneshot::Receiver::try_recv`. -/
inductive TryRecv (α : Type) where
  | empty
  | value (a : α)
  | canceled
deriving Repr, DecidableEq

/-- What `Phase1Channel::poll` does: `Phase1Msg`, or more waiting. -/
inductive Phase1Poll (P ρ κ : Type) where
  | pending (c : Phase1Channel P ρ) (answers : Answers ρ)
  | fromRemote (peerId : P) (protocolId : Nat) (payload : Bytes) (responseTx : ρ)
      (channel : Phase2Channel P ρ)
  | fromLocal (id : RoomId) (n : Nat) (negotiation : NegotiationChannel P κ)
      (answers : Answers ρ)
  | panic (why : Panic)

/-- What `Phase2Channel::poll` does: `Phase2Msg`, or more waiting. -/
inductive Phase2Poll (P ρ : Type) where
  | pending (c : Phase2Channel P ρ) (answers : Answers ρ)
  | start (roomId : RoomId) (receiverProxy : ReceiverProxy P ρ) (peerset : Peerset P)
      (initBody : Bytes) (sessionId : SessionId)
  | abort (roomId : RoomId) (phase1 : Phase1Channel P ρ) (answers : Answers ρ)
  | panic (why : Panic)

section Buffer

variable {P ρ : Type}

/-- `buffer_early_computation`. -/
def bufferEarlyComputation (buffered : List (IncomingRequest P ρ)) (m : IncomingRequest P ρ) :
    List (IncomingRequest P ρ) × Answers ρ :=
  if maxEarlyComputationMessages ≤ buffered.length then
    (buffered, [(m.pendingResponse, refuse)])
  else (buffered ++ [m], [])

/-- `reject_buffered`. -/
def rejectBuffered (buffered : List (IncomingRequest P ρ)) : Answers ρ :=
  buffered.map fun m => (m.pendingResponse, refuse)

end Buffer

namespace Phase1Channel

variable {P ρ κ : Type}

/-- The second half of `Phase1Channel::poll`: the local request. -/
def pollRequest (c : Phase1Channel P ρ) (localPeerId : P) (request : TryRecv (LocalRpcMsg κ))
    (sessionId : SessionId) (now : Nat) (answers : Answers ρ) : Phase1Poll P ρ κ :=
  match request with
  | .canceled => .panic .requestCanceled
  | .empty => .pending c answers
  | .value msg =>
      .fromLocal c.id msg.n
        (NegotiationChannel.new c.id c.rx msg.n msg.payload localPeerId msg.protocolId
          msg.pendingResponse sessionId now)
        (answers ++ rejectBuffered c.buffered)

/-- `Phase1Channel::poll`. `sessionId` is the id a negotiation would
draw. A proposal returns before the request is looked at. -/
def poll (c : Phase1Channel P ρ) (localPeerId : P) (next : Option (IncomingRequest P ρ))
    (request : TryRecv (LocalRpcMsg κ)) (sessionId : SessionId) (now : Nat) :
    Phase1Poll P ρ κ :=
  match next with
  | none => c.pollRequest localPeerId request sessionId now []
  | some m =>
      match m.context.messageType with
      | .coordination =>
          .fromRemote m.peerId m.context.protocolId m.payload m.pendingResponse
            { id := c.id
              sessionId := m.context.sessionId
              rx := c.rx
              buffered := c.buffered
              timeout := now + phase2Timeout }
      | .computation =>
          let (buffered, answers) := bufferEarlyComputation c.buffered m
          pollRequest { c with buffered := buffered } localPeerId request sessionId now answers

end Phase1Channel

namespace Phase2Channel

variable {P ρ : Type}

/-- `Phase2Channel::abort`, given the name of the new one-shot. -/
def abort (c : Phase2Channel P ρ) (request : Nat) :
    RoomId × Phase1Channel P ρ × Answers ρ :=
  (c.id, Phase1Channel.new c.id c.rx request, rejectBuffered c.buffered)

/-- Back to phase 1, after the answers given so far. -/
def giveUp (c : Phase2Channel P ρ) (request : Nat) (answers : Answers ρ) : Phase2Poll P ρ :=
  .abort c.id (Phase1Channel.new c.id c.rx request) (answers ++ rejectBuffered c.buffered)

/-- The end of `Phase2Channel::poll`: the timer. -/
def checkTimeout (c : Phase2Channel P ρ) (now request : Nat) (answers : Answers ρ) :
    Phase2Poll P ρ :=
  if c.timeout ≤ now then c.giveUp request answers else .pending c answers

/-- A coordination message of the session: it is decoded as a start
message, and a failure to decode ends phase 2. -/
def onCoordination [PeerIdCodec P] [UnsignedVarint] (c : Phase2Channel P ρ) (localPeerId : P)
    (payload : Bytes) (fresh : Nat) : Phase2Poll P ρ :=
  match StartMsg.fromBytes payload localPeerId with
  | .ok startMsg =>
      .start c.id
        (ReceiverProxy.new c.id c.rx startMsg.peerset c.sessionId c.buffered fresh)
        startMsg.peerset startMsg.body c.sessionId
  | .err _ => c.giveUp fresh []
  | .panic why => .panic why

/-- `Phase2Channel::poll`. `fresh` names the channel it makes: the
proxy's on a start, the one-shot of the new `Phase1Channel` on an
abort. -/
def poll [PeerIdCodec P] [UnsignedVarint] (c : Phase2Channel P ρ) (localPeerId : P)
    (next : Option (IncomingRequest P ρ)) (now fresh : Nat) : Phase2Poll P ρ :=
  match next with
  | none => c.checkTimeout now fresh []
  | some m =>
      match m.context.messageType with
      | .coordination =>
          if m.context.sessionId ≠ c.sessionId then
            -- Refused, and the timer is not looked at in this poll.
            .pending c [(m.pendingResponse, refuse)]
          else c.onCoordination localPeerId m.payload fresh
      | .computation =>
          if m.context.sessionId = c.sessionId then
            let (buffered, answers) := bufferEarlyComputation c.buffered m
            checkTimeout { c with buffered := buffered } now fresh answers
          else c.checkTimeout now fresh [(m.pendingResponse, refuse)]

end Phase2Channel

end FrostMpcTss.Service
