import FrostMpcTss.Service.NetworkProxy

/-!
# `FrostMpcTss.Service.Negotiation`: the proposer's side of a session

`NegotiationChannel::poll` collects the peers that answer a proposal.
A poll with a response channel reads one response from it; a poll
without one may broadcast the proposal, for the first time or again.
When `n` peers are together the start message goes out.

Times are in milliseconds. A poll's inputs are the clock, what the
response channel yields, and the number of connected peers if the
probe for it has come back. `pending_futures` and the probe's future
are left out: the first is drained in every poll, and of the second
only its answer matters.
-/

set_option autoImplicit false

namespace FrostMpcTss.Service

open Network

/-- The timer of a new negotiation, 45 s. -/
def negotiationTimeout : Nat := 45000

/-- The timer from the first broadcast on, 15 s. -/
def broadcastTimeout : Nat := 15000

/-- `wait_timeout` for connections, 30 s. -/
def connectionWaitTimeout : Nat := 30000

/-- The pause between two proposals, 1 s. -/
def retryInterval : Nat := 1000

/-- `NegotiationChannel` and its `NegotiationState`. `peers` is a set:
it grows by `List.insert` only. `responses` tells whether there is a
response channel. -/
structure NegotiationChannel (P κ : Type) where
  rx : Nat
  timeout : Nat
  id : RoomId
  sessionId : SessionId
  n : Nat
  request : Bytes
  protocolId : Nat
  localPeerId : P
  peers : List P
  responses : Bool
  pendingResponse : κ
  lastBroadcastTime : Option Nat
  retryCount : Nat
  connectionWaitStart : Option Nat
  connectionWaitDone : Bool

/-- What polling the response channel gives. -/
inductive ResponsePoll (P : Type) where
  | ok (peerId : P)
  | failed
  | closed
  | pending
deriving Repr, DecidableEq

/-- What a poll of the negotiation reads. -/
structure NegotiationInput (P : Type) where
  now : Nat
  response : ResponsePoll P
  connected : Option Nat

/-- What `NegotiationChannel::poll` does. -/
inductive NegotiationPoll (P ρ κ : Type) where
  | pending (c : NegotiationChannel P κ)
  /-- As `pending`, and a proposal was broadcast to the room. -/
  | proposed (c : NegotiationChannel P κ)
  /-- `NegotiationMsg::Start`; `startMsg` went to `peers`. -/
  | start (protocolId : Nat) (pendingResponse : κ) (receiverProxy : ReceiverProxy P ρ)
      (peerset : Peerset P) (request : Bytes) (sessionId : SessionId)
      (peers : List P) (startMsg : Bytes)
  /-- `NegotiationMsg::Abort`. -/
  | abort (roomId : RoomId) (phase1 : Phase1Channel P ρ) (pendingResponse : κ)
  | panic (why : Panic)

/-- `should_proceed_with_negotiation`. -/
def shouldProceedWithNegotiation (n elapsed connectedPeers waitTimeout : Nat) : Bool :=
  decide (n ≤ connectedPeers + 1) || decide (waitTimeout ≤ elapsed)

namespace NegotiationChannel

variable {P ρ κ : Type}

/-- `NegotiationChannel::new` at time `now`, with a fresh session id. -/
def new (roomId : RoomId) (roomRx n : Nat) (request : Bytes) (localPeerId : P)
    (protocolId : Nat) (pendingResponse : κ) (sessionId : SessionId) (now : Nat) :
    NegotiationChannel P κ where
  rx := roomRx
  timeout := now + negotiationTimeout
  id := roomId
  sessionId := sessionId
  n := n
  request := request
  protocolId := protocolId
  localPeerId := localPeerId
  peers := [localPeerId]
  responses := false
  pendingResponse := pendingResponse
  lastBroadcastTime := none
  retryCount := 0
  connectionWaitStart := none
  connectionWaitDone := false

/-- The wait for connections before the first broadcast. -/
def awaitConnections (c : NegotiationChannel P κ) (input : NegotiationInput P) :
    NegotiationChannel P κ :=
  if c.connectionWaitDone = false ∧ c.lastBroadcastTime = none ∧ c.peers.length < c.n then
    let start := c.connectionWaitStart.getD input.now
    { c with
        connectionWaitStart := some start
        connectionWaitDone :=
          match input.connected with
          | none => false
          | some connected =>
              shouldProceedWithNegotiation c.n (input.now - start) connected
                connectionWaitTimeout }
  else { c with connectionWaitDone := true }

/-- `should_broadcast`. -/
def shouldBroadcast (c : NegotiationChannel P κ) (now : Nat) : Bool :=
  match c.lastBroadcastTime with
  | none => c.connectionWaitDone
  | some lastTime =>
      decide (retryInterval ≤ now - lastTime) && decide (c.peers.length < c.n)

/-- The state after a broadcast. The first one restarts the timer. -/
def broadcast (c : NegotiationChannel P κ) (now : Nat) : NegotiationChannel P κ :=
  { c with
      responses := true
      lastBroadcastTime := some now
      retryCount := c.retryCount + 1
      timeout := if c.lastBroadcastTime = none then now + broadcastTimeout else c.timeout }

/-- The end of every poll that has not returned: the timer. -/
def checkTimeout (c : NegotiationChannel P κ) (now fresh : Nat)
    (next : NegotiationPoll P ρ κ) : NegotiationPoll P ρ κ :=
  if c.timeout ≤ now then
    .abort c.id (Phase1Channel.new c.id c.rx fresh) c.pendingResponse
  else next

/-- The peerset is complete: multicast the start message and hand the
room's receiver to a proxy. -/
def start [PeerIdCodec P] [UnsignedVarint] (c : NegotiationChannel P κ) (fresh : Nat) :
    NegotiationPoll P ρ κ :=
  let peerset := Peerset.new c.peers c.localPeerId
  .start c.protocolId c.pendingResponse
    (ReceiverProxy.new c.id c.rx peerset c.sessionId [] fresh)
    peerset c.request c.sessionId c.peers
    (StartMsg.toBytes { peerset := peerset, body := c.request })

/-- `NegotiationChannel::poll`. `fresh` names the channel it makes: the
proxy's on a start, the one-shot of the new `Phase1Channel` on an
abort. A proposal to `n - 1` peers panics for `n = 0`. -/
def poll [DecidableEq P] [PeerIdCodec P] [UnsignedVarint] (c : NegotiationChannel P κ)
    (input : NegotiationInput P) (fresh : Nat) : NegotiationPoll P ρ κ :=
  if c.responses then
    match input.response with
    | .ok peerId =>
        let c := { c with peers := c.peers.insert peerId }
        if c.peers.length = c.n then c.start fresh
        else c.checkTimeout input.now fresh (.pending c)
    | .failed => c.checkTimeout input.now fresh (.pending c)
    | .closed =>
        let c := { c with responses := false }
        c.checkTimeout input.now fresh (.pending c)
    | .pending => c.checkTimeout input.now fresh (.pending c)
  else
    let c := c.awaitConnections input
    if c.shouldBroadcast input.now then
      match predUnsigned c.n with
      | .error why => .panic why
      | .ok _ =>
          let c := c.broadcast input.now
          c.checkTimeout input.now fresh (.proposed c)
    else c.checkTimeout input.now fresh (.pending c)

end NegotiationChannel

/-- The future of a negotiation. A poll takes `state` out and puts it back
if it has to wait. `polled` are the peers whose `Ok` responses were read,
in order, and `result` is what the future has returned. -/
structure NegotiationFuture (P ρ κ : Type) where
  state : Option (NegotiationChannel P κ)
  polled : List P
  result : Option (NegotiationPoll P ρ κ)

namespace NegotiationFuture

variable {P ρ κ : Type}

def new (c : NegotiationChannel P κ) : NegotiationFuture P ρ κ where
  state := some c
  polled := []
  result := none

/-- The response a poll reads from the response channel, if it is an
`Ok`. -/
def okResponse (c : NegotiationChannel P κ) (input : NegotiationInput P) : Option P :=
  match c.responses, input.response with
  | true, .ok peerId => some peerId
  | _, _ => none

/-- One poll of the future. It is not polled any more once it has
returned. -/
def step [DecidableEq P] [PeerIdCodec P] [UnsignedVarint] (f : NegotiationFuture P ρ κ)
    (l : NegotiationInput P × Nat) : Option (NegotiationFuture P ρ κ) :=
  match f.result, f.state with
  | some _, _ => none
  | none, none => some { f with result := some (.panic .stateMissing) }
  | none, some c =>
      let polled := f.polled ++ (okResponse c l.1).toList
      match (c.poll l.1 l.2 : NegotiationPoll P ρ κ) with
      | .pending c' => some { state := some c', polled := polled, result := none }
      | .proposed c' => some { state := some c', polled := polled, result := none }
      | result => some { state := none, polled := polled, result := some result }

end NegotiationFuture

end FrostMpcTss.Service
