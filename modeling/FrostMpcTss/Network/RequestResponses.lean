import Mathlib

/-!
# `FrostMpcTss.Network.RequestResponses`: the messages of a room

The data of `request_responses.rs` that the service layer reads. A
room delivers `IncomingRequest`s. Each carries the context written by
its sender, the peer id the transport authenticated, the broadcast
marker of the wire message, and the one-shot handle on which the
receiver answers.

A handle is a value of a type `ρ` of the model's user. Answering is
an effect, so the models of the service layer return the answers they
give as `(handle, OutgoingResponse)` pairs.

`IncomingRequest::peer` repeats `peer_id` in the source and is left
out, and so is `OutgoingResponse::sent_feedback`, which every answer
of the service layer sets to `None`.
-/

set_option autoImplicit false

namespace FrostMpcTss.Network

/-- A byte string, the source's `Vec<u8>`. -/
abbrev Bytes := List UInt8

/-- `RoomId`: the hex digest of the room's name. -/
structure RoomId where
  asStr : String
deriving Repr, DecidableEq

/-- `SessionId = [u8; 16]`. -/
abbrev SessionId := Vector UInt8 16

/-- `NO_SESSION_ID`. -/
def noSessionId : SessionId := Vector.replicate 16 0

/-- `MessageType`. -/
inductive MessageType where
  | coordination
  | computation
deriving Repr, DecidableEq

/-- `MessageContext`. -/
structure MessageContext where
  messageType : MessageType
  protocolId : Nat
  sessionId : SessionId
  messageId : Nat
deriving Repr, DecidableEq

/-- `request_responses::IncomingRequest`, with answer handle `ρ`. The
receiver proxy overwrites `peerIndex`; the network sets it to `0`. -/
structure IncomingRequest (P ρ : Type) where
  context : MessageContext
  peerId : P
  isBroadcast : Bool
  peerIndex : Nat
  payload : Bytes
  pendingResponse : ρ
deriving Repr, DecidableEq

/-- `OutgoingResponse::result`: a payload, or `Err(())`. -/
abbrev OutgoingResponse := Except Unit Bytes

/-- The error answer `Err(())`. -/
def refuse : OutgoingResponse := .error ()

/-- `OutboundFailure`. An I/O error is known by its text. -/
inductive OutboundFailure where
  | dialFailure
  | timeout
  | connectionClosed
  | unsupportedProtocols
  | io (error : String)
deriving Repr, DecidableEq

/-- `RequestFailure`, as the sender of a request sees it. -/
inductive RequestFailure where
  | notConnected
  | unknownProtocol
  | refused
  | obsolete
  | network (error : OutboundFailure)
deriving Repr, DecidableEq

end FrostMpcTss.Network
