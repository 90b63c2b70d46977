import FrostMpcTss.Network.OutboundRequests

/-!
# `FrostMpcTss.Network.NetworkWorker`: the loop that owns the swarm

`NetworkWorker::run` dials the boot nodes and then selects between the
retry timer, the events of the swarm and the messages of the
`NetworkService`. It keeps two sets. `connected_peers` is what
`get_connected_peers` answers with, and the negotiation waits until it is
large enough. `connected_boot_nodes` says which boot nodes the retry timer
leaves alone.

`Node` adds libp2p's side: the connections that are open. Two peers that
dial each other have two connections. A swarm event is possible if it
agrees with them (`Node.emit`): a connection is opened under an id that
is not in use, only an open connection is closed, and `num_established`
counts the connections to the peer after the event. The worker does not
read `num_established`.

The dials, the Kademlia bootstraps and the answers are logged in
`effects`. The other events of the swarm are logged by the source, and
are one label here.
-/

set_option autoImplicit false

namespace FrostMpcTss.Network

open Lib

/-- `MultiaddrWithPeerId`. -/
structure MultiaddrWithPeerId (P : Type) where
  multiaddr : String
  peerId : P
deriving Repr, DecidableEq

/-- `MessageIntent`. -/
inductive MessageIntent (P : Type) where
  | broadcast (payload : ByteVec) (responseSender : Option Sender)
  | multicast (peerIds : List P) (payload : ByteVec) (responseSender : Option Sender)
  | sendDirect (peerId : P) (payload : ByteVec) (responseSender : Sender)

/-- `ServicetoWorkerMsg` of the network crate. -/
inductive NetworkWorker.ServicetoWorkerMsg (P : Type) where
  | request (roomId : RoomId) (context : WireContext) (message : MessageIntent P)
  | getConnectedPeers (response : Nat)

/-- `SwarmEvent`. -/
inductive SwarmEvent (P : Type) where
  | connectionEstablished (peerId : P) (connectionId numEstablished : Nat)
  | connectionClosed (peerId : P) (connectionId numEstablished : Nat)
  /-- An event that is only logged -/
  | other
deriving Repr, DecidableEq

/-- What the loop does to the outside. -/
inductive WorkerEffect (P : Type) where
  | dial (node : MultiaddrWithPeerId P)
  /-- `bootstrap()`, and whether it succeeded -/
  | bootstrap (ok : Bool)
  | connectedPeers (response : Nat) (peers : Finset P)
deriving DecidableEq

/-- The pause between two Kademlia bootstraps, 2 s. -/
def bootstrapInterval : Nat := 2000

/-- `NetworkWorker` with the variables of `run`. -/
structure NetworkWorker (P : Type) where
  bootNodes : List (MultiaddrWithPeerId P)
  connectedPeers : Finset P
  connectedBootNodes : Finset P
  lastBootstrapTime : Nat
  /-- `behaviour_mut().request_responses` -/
  requestResponses : RequestResponsesBehaviour P
  /-- The loop has not been left. -/
  running : Bool
  effects : List (WorkerEffect P)

namespace NetworkWorker

variable {P : Type} [DecidableEq P]

/-- `run`, up to its loop. -/
def start (bootNodes : List (MultiaddrWithPeerId P))
    (requestResponses : RequestResponsesBehaviour P) (now : Nat) (bootstrapped : Bool) :
    NetworkWorker P where
  bootNodes := bootNodes
  connectedPeers := ∅
  connectedBootNodes := ∅
  lastBootstrapTime := now
  requestResponses := requestResponses
  running := true
  effects := bootNodes.map .dial ++ [.bootstrap bootstrapped]

def log (w : NetworkWorker P) (effects : List (WorkerEffect P)) : NetworkWorker P :=
  { w with effects := w.effects ++ effects }

/-- The boot nodes that the retry timer dials. -/
def retries (w : NetworkWorker P) : List (MultiaddrWithPeerId P) :=
  w.bootNodes.filter (·.peerId ∉ w.connectedBootNodes)

/-- `retry_interval.tick()`. -/
def onRetryTick (w : NetworkWorker P) : NetworkWorker P := w.log (w.retries.map .dial)

/-- Bootstrap again, if the last time is long enough ago. -/
def rebootstrap (w : NetworkWorker P) (now : Nat) (bootstrapped : Bool) : NetworkWorker P :=
  if bootstrapInterval ≤ now - w.lastBootstrapTime then
    if bootstrapped then { w.log [.bootstrap true] with lastBootstrapTime := now }
    else w.log [.bootstrap false]
  else w

/-- `SwarmEvent::ConnectionEstablished { peer_id, .. }`. -/
def onConnectionEstablished (w : NetworkWorker P) (peerId : P) (now : Nat)
    (bootstrapped : Bool) : NetworkWorker P :=
  let w := { w with connectedPeers := insert peerId w.connectedPeers }
  if w.bootNodes.any (·.peerId = peerId) then
    { w with connectedBootNodes := insert peerId w.connectedBootNodes }.rebootstrap now
      bootstrapped
  else w

/-- `SwarmEvent::ConnectionClosed { peer_id, .. }`. -/
def onConnectionClosed (w : NetworkWorker P) (peerId : P) : NetworkWorker P :=
  { w with
      connectedPeers := w.connectedPeers.erase peerId
      connectedBootNodes := w.connectedBootNodes.erase peerId }

/-- An event of the swarm. -/
def onSwarmEvent (w : NetworkWorker P) (now : Nat) (bootstrapped : Bool) :
    SwarmEvent P → NetworkWorker P
  | .connectionEstablished peerId _ _ => w.onConnectionEstablished peerId now bootstrapped
  | .connectionClosed peerId _ _ => w.onConnectionClosed peerId
  | .other => w

/-- The call a `Request` leads to. `peers` is `behaviour.peers(room_id)`. -/
def callOf (peers : List P) (roomId : RoomId) (context : WireContext) :
    MessageIntent P → RequestResponsesBehaviour.Call P
  | .broadcast payload responseSender =>
      .broadcastMessage peers roomId.protocolName context payload responseSender .tryConnect
  | .multicast peerIds payload responseSender =>
      .broadcastMessage peerIds roomId.protocolName context payload responseSender .tryConnect
  | .sendDirect peerId payload responseSender =>
      .sendRequestWithContext peerId roomId.protocolName context payload false responseSender
        .tryConnect

/-- A message of the service. -/
def onServiceMsg (w : NetworkWorker P) (peers : List P) (env : Surroundings P) :
    ServicetoWorkerMsg P → NetworkWorker P
  | .getConnectedPeers response => w.log [.connectedPeers response w.connectedPeers]
  | .request roomId context message =>
      { w with
          requestResponses := w.requestResponses.call env (callOf peers roomId context message) }

end NetworkWorker

/-- An open connection. -/
structure Connection (P : Type) where
  connectionId : Nat
  peerId : P
deriving Repr, DecidableEq

/-- The worker and the connections of its swarm. -/
structure Node (P : Type) where
  worker : NetworkWorker P
  connections : List (Connection P)

namespace Node

variable {P : Type} [DecidableEq P]

/-- The connections to a peer. -/
def established (connections : List (Connection P)) (peerId : P) : List (Connection P) :=
  connections.filter (·.peerId = peerId)

/-- The connections after an event, if libp2p can emit it. -/
def emit (connections : List (Connection P)) : SwarmEvent P → Option (List (Connection P))
  | .connectionEstablished peerId connectionId numEstablished =>
      let after := connections ++ [⟨connectionId, peerId⟩]
      if connections.all (·.connectionId ≠ connectionId) ∧
          numEstablished = (established after peerId).length then some after
      else none
  | .connectionClosed peerId connectionId numEstablished =>
      let after := connections.filter (· ≠ ⟨connectionId, peerId⟩)
      if (⟨connectionId, peerId⟩ : Connection P) ∈ connections ∧
          numEstablished = (established after peerId).length then some after
      else none
  | .other => some connections

/-- One turn of the loop, or something that happens beside it. -/
inductive Label (P : Type) where
  | retryTick
  | swarmEvent (event : SwarmEvent P) (now : Nat) (bootstrapped : Bool)
  | serviceMsg (msg : NetworkWorker.ServicetoWorkerMsg P) (peers : List P) (env : Surroundings P)
  /-- The request-response behaviour, its tasks and its callers -/
  | requestResponses (e : RequestResponsesBehaviour.Event P)
  /-- One of the streams has ended, and the loop is left. -/
  | streamEnds

def step (node : Node P) (l : Label P) : Option (Node P) :=
  if node.worker.running then
    match l with
    | .retryTick => some { node with worker := node.worker.onRetryTick }
    | .swarmEvent event now bootstrapped =>
        (emit node.connections event).map fun connections =>
          { worker := node.worker.onSwarmEvent now bootstrapped event
            connections := connections }
    | .serviceMsg msg peers env =>
        some { node with worker := node.worker.onServiceMsg peers env msg }
    | .requestResponses e =>
        (node.worker.requestResponses.handle e).map fun requestResponses =>
          { node with worker := { node.worker with requestResponses := requestResponses } }
    | .streamEnds => some { node with worker := { node.worker with running := false } }
  else none

/-- A node that enters the loop. It has no connection yet. -/
def start (bootNodes : List (MultiaddrWithPeerId P))
    (requestResponses : RequestResponsesBehaviour P) (now : Nat) (bootstrapped : Bool) :
    Node P where
  worker := .start bootNodes requestResponses now bootstrapped
  connections := []

/-- The peers with an open connection. -/
def openPeers (node : Node P) : Finset P := (node.connections.map (·.peerId)).toFinset

end Node

end FrostMpcTss.Network
