import FrostMpcTss.Network.InboundRequests

/-!
# `FrostMpcTss.Network.Swarm`: nodes that send each other requests

Every node has the two halves of `RequestResponsesBehaviour`. What the
outbound half of one node gives to libp2p reaches the inbound half of
another one over a stream of bytes, and the response comes back over the
same stream. The codecs write and read these bytes.

libp2p authenticates the peers, so a stream is between the peers it says
it is between. It can break at any point: each end reads any part of what
the other end has written, from the beginning on. An exchange is named by
the node that has sent the request and the key the request has in its
`pending_requests`; a request is delivered at most once.

Nodes may be dishonest. Such a node sends any bytes it likes, as requests
(`inject`) and as responses (`respond`).

Two parts of the state are there for the statements only. `keys` has the
keys under which the requests of a node were sent, and `arrivedAs` the
number an exchange has at its target.
-/

set_option autoImplicit false

namespace FrostMpcTss.Network

open Lib

/-- What libp2p was given to send under a key. -/
def RequestResponsesBehaviour.sentMessage {P : Type} (b : RequestResponsesBehaviour P)
    (key : ProtocolRequestId) : Option (P × WireMessage) :=
  (b.protocols key.protocol).bind fun details =>
    (details.sent.zipIdx.find? fun entry => details.requestIds entry.2 = key.requestId).map (·.1)

/-- The key of a request that is pending. -/
def RequestResponsesBehaviour.keyOf {P : Type} (b : RequestResponsesBehaviour P) (tx : Nat) :
    Option ProtocolRequestId :=
  (b.pendingRequests.entries.find? fun entry => entry.2.responseTx = some tx).map (·.1)

/-- A node. -/
structure SwarmNode (P : Type) where
  outbound : RequestResponsesBehaviour P
  inbound : InboundBehaviour.State P
  /-- The key under which a request was sent. -/
  keys : Nat → Option ProtocolRequestId

/-- The nodes and what they have exchanged. -/
structure Swarm (P : Type) where
  nodes : P → SwarmNode P
  /-- The number of a request at its target. -/
  arrivedAs : P × ProtocolRequestId → Option Nat

/-- What the nodes are set up with. -/
structure SwarmConfig (P : Type) where
  outbound : P → RequestResponsesBehaviour P
  capacities : P → ProtocolName → Option (Option Nat)
  codec : P → ProtocolName → GenericCodec
  honest : P → Bool

/-- What can happen next. -/
inductive SwarmLabel (P : Type) where
  /-- A call or an event at the outbound half of a node. -/
  | outbound (a : P) (l : RequestResponsesBehaviour.Label P)
  /-- A step of the inbound half of a node. -/
  | inbound (p : P) (l : InboundBehaviour.Label P)
  /-- The target of a request reads `io`. -/
  | arrive (a : P) (key : ProtocolRequestId) (io : Bytes) (now requestId : Nat)
      (reputation : Int)
  /-- A node reads `io`, which a dishonest one has sent as a request. -/
  | inject (a p : P) (io : Bytes) (now : Nat) (key : ProtocolRequestId) (reputation : Int)
  /-- The sender of a request reads `io` as the response. -/
  | respond (a : P) (key : ProtocolRequestId) (io : Bytes) (now : Nat)

namespace Swarm

variable {P : Type} [DecidableEq P]

/-- The nodes before anything has happened. -/
def start (cfg : SwarmConfig P) : Swarm P where
  nodes p :=
    { outbound := cfg.outbound p
      inbound := .running (.new (cfg.capacities p))
      keys := fun _ => none }
  arrivedAs _ := none

/-- The outbound half of a node has changed. -/
def setOutbound (s : Swarm P) (a : P) (b : RequestResponsesBehaviour P) : Swarm P :=
  { s with
      nodes :=
        Function.update s.nodes a
          { s.nodes a with
              outbound := b
              keys := fun tx => ((s.nodes a).keys tx).or (b.keyOf tx) } }

/-- The inbound half of a node has changed. -/
def setInbound (s : Swarm P) (p : P) (x : InboundBehaviour.State P) : Swarm P :=
  { s with nodes := Function.update s.nodes p { s.nodes p with inbound := x } }

/-- The inbound half of a node takes a step, if libp2p keeps its promises. -/
def stepInbound (s : Swarm P) (p : P) (l : InboundBehaviour.Label P) : Option (Swarm P) :=
  if InboundBehaviour.promised (s.nodes p).inbound l then
    (InboundBehaviour.step (s.nodes p).inbound l).map (s.setInbound p)
  else none

/-- The number of the request that arrives next at the node. -/
def nextNumber (s : Swarm P) (p : P) : Nat :=
  match (s.nodes p).inbound with
  | .running b => b.requests.length
  | .panicked => 0

/-- The request of that number at the node. -/
def requestAt (s : Swarm P) (p : P) (i : Nat) : Option (InboundRequest P) :=
  match (s.nodes p).inbound with
  | .running b => b.requests[i]?
  | .panicked => none

/-- libp2p's events about responses come from the streams. -/
def isResponse : RequestResponsesBehaviour.Label P → Bool
  | .event (.response _ _ _ _ _) => true
  | _ => false

/-- Requests come from the streams. -/
def isRequest : InboundBehaviour.Label P → Bool
  | .request _ _ _ _ _ => true
  | _ => false

variable [Varint]

/-- What the target of an exchange has written to the stream: the response
that its libp2p was given, or nothing. -/
def written (s : Swarm P) (a : P) (key : ProtocolRequestId) (target : P) : Bytes :=
  match (s.arrivedAs (a, key)).bind (s.requestAt target) with
  | some r =>
      match r.channel with
      | .sent payload => GenericCodec.writeResponse (.ok payload)
      | _ => []
  | none => []

/-- A node reads a request from a stream. -/
def readRequest (cfg : SwarmConfig P) (s : Swarm P) (a p : P) (io : Bytes) (now : Nat)
    (key : ProtocolRequestId) (reputation : Int) : Option (Swarm P) :=
  match ((cfg.codec p key.protocol).readRequest io).outcome with
  | .ok request => s.stepInbound p (.request now a key request reputation)
  | _ => none

/-- A step of the swarm. -/
def step (cfg : SwarmConfig P) (s : Swarm P) : SwarmLabel P → Option (Swarm P)
  | .outbound a l =>
      if isResponse l then none
      else ((s.nodes a).outbound.step l).map (s.setOutbound a)
  | .inbound p l => if isRequest l then none else s.stepInbound p l
  | .arrive a key io now requestId reputation =>
      match (s.nodes a).outbound.sentMessage key with
      | none => none
      | some (target, message) =>
          if s.arrivedAs (a, key) = none ∧ io.isPrefixOf (GenericCodec.writeRequest message) then
            (readRequest cfg s a target io now ⟨key.protocol, requestId⟩ reputation).map fun s' =>
              { s' with
                  arrivedAs :=
                    Function.update s'.arrivedAs (a, key) (some (s.nextNumber target)) }
          else none
  | .inject a p io now key reputation =>
      if cfg.honest a then none else readRequest cfg s a p io now key reputation
  | .respond a key io now =>
      match (s.nodes a).outbound.sentMessage key with
      | none => none
      | some (target, _) =>
          if !cfg.honest target || io.isPrefixOf (s.written a key target) then
            match ((cfg.codec a key.protocol).readResponse io).outcome with
            | .ok response =>
                ((s.nodes a).outbound.step
                  (.event (.response now target key.protocol key.requestId
                    (response.map Subtype.val)))).map (s.setOutbound a)
            | _ => none
          else none

end Swarm

end FrostMpcTss.Network
