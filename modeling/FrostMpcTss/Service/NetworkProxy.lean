import FrostMpcTss.Service.StartMsg

/-!
# `FrostMpcTss.Service.NetworkProxy`: who listens to a room

A room has one inbound receiver. At any time it sits in a
`Phase1Channel`, in the negotiation or `Phase2Channel` that came out
of it, or in the `ReceiverProxy` of the session it started. Receivers
and one-shots are named by numbers; what `try_next` or `try_recv`
finds on them is an argument of the polls, so that the same models
serve one channel alone and the worker that owns many.

This module holds the idle listener's data and the whole proxy.
-/

set_option autoImplicit false

namespace FrostMpcTss.Service

open Network

/-- `LocalRpcMsg`. Of the agent only its protocol id is kept; `κ` is
the RPC caller's channel. -/
structure LocalRpcMsg (κ : Type) where
  n : Nat
  payload : Bytes
  protocolId : Nat
  pendingResponse : κ
deriving Repr, DecidableEq

/-- `Phase1Channel`: `rx` names the room's receiver, `request` the
one-shot a `LocalRpcMsg` may come through. -/
structure Phase1Channel (P ρ : Type) where
  id : RoomId
  rx : Nat
  request : Nat
  buffered : List (IncomingRequest P ρ)

/-- `Phase1Channel::new`, given the name of the new one-shot. -/
def Phase1Channel.new {P ρ : Type} (roomId : RoomId) (roomRx request : Nat) :
    Phase1Channel P ρ where
  id := roomId
  rx := roomRx
  request := request
  buffered := []

/-- `ReceiverProxy`: `tx` names the channel to the execution. -/
structure ReceiverProxy (P ρ : Type) where
  roomId : RoomId
  requestReceiver : Nat
  tx : Nat
  peerset : Peerset P
  sessionId : SessionId
  buffered : List (IncomingRequest P ρ)

/-- The buffer of a proxy's channel. -/
def proxyBuffer : Nat := 1024

/-- The answers a step gives to inbound requests. -/
abbrev Answers (ρ : Type) := List (ρ × OutgoingResponse)

/-- What becomes of a message in `forward_or_reject`. -/
inductive Forwarded (P ρ : Type) where
  | sent (m : IncomingRequest P ρ)
  | refused
  /-- `try_send` failed, and the message is dropped. -/
  | dropped
deriving Repr, DecidableEq

/-- What `ReceiverProxy::poll` does. -/
inductive ProxyPoll (P ρ : Type) where
  /-- The execution is gone: back to phase 1. -/
  | ready (roomId : RoomId) (phase1 : Phase1Channel P ρ)
  /-- `tookNext` says whether a message left the receiver. -/
  | pending (p : ReceiverProxy P ρ) (tookNext : Bool) (feed : List (IncomingRequest P ρ))
      (answers : Answers ρ)

namespace ReceiverProxy

variable {P ρ : Type}

/-- `ReceiverProxy::new`, given the name of the new channel. -/
def new (roomId : RoomId) (requestReceiver : Nat) (peerset : Peerset P)
    (sessionId : SessionId) (buffered : List (IncomingRequest P ρ)) (tx : Nat) :
    ReceiverProxy P ρ where
  roomId := roomId
  requestReceiver := requestReceiver
  tx := tx
  peerset := peerset
  sessionId := sessionId
  buffered := buffered

/-- `should_forward_message`. -/
def shouldForwardMessage (m : IncomingRequest P ρ) (sessionId : SessionId) : Bool :=
  m.context.messageType = .computation && m.context.sessionId = sessionId

/-- `forward_or_reject`, with `queued` messages in the channel. -/
def forwardOrReject [DecidableEq P] (m : IncomingRequest P ρ) (sessionId : SessionId)
    (peerset : Peerset P) (queued : Nat) : Forwarded P ρ :=
  if shouldForwardMessage m sessionId then
    match peerset.indexOf m.peerId with
    | some i => if queued < proxyBuffer + 1 then .sent { m with peerIndex := i } else .dropped
    | none => .refused
  else .refused

/-- The poll's result once a message has gone through `forward_or_reject`. -/
def handled (p : ReceiverProxy P ρ) (tookNext : Bool) (m : IncomingRequest P ρ) :
    Forwarded P ρ → ProxyPoll P ρ
  | .sent m' => .pending p tookNext [m'] []
  | .refused => .pending p tookNext [] [(m.pendingResponse, refuse)]
  | .dropped => .pending p tookNext [] []

/-- `ReceiverProxy::poll`: `closed` is `tx.is_closed()`, `queued` the
length of that channel, `next` the result of `try_next`, and `request`
the name of the one-shot a new `Phase1Channel` gets. -/
def poll [DecidableEq P] (p : ReceiverProxy P ρ) (closed : Bool) (queued : Nat)
    (next : Option (IncomingRequest P ρ)) (request : Nat) : ProxyPoll P ρ :=
  if closed then .ready p.roomId (Phase1Channel.new p.roomId p.requestReceiver request)
  else
    match p.buffered with
    | m :: rest =>
        handled { p with buffered := rest } false m
          (forwardOrReject m p.sessionId p.peerset queued)
    | [] =>
        match next with
        | some m => handled p true m (forwardOrReject m p.sessionId p.peerset queued)
        | none => .pending p false [] []

end ReceiverProxy

end FrostMpcTss.Service
