import FrostMpcTss.Service.Echo
import FrostMpcTss.Service.Peerset

/-!
# `FrostMpcTss.Service.Execution`: one run of a protocol

`ProtocolExecution` sits between the network and the agent that
computes. One `poll` takes at most one message of the agent and sends
it, takes at most one message of the network, forwards every complete
broadcast round, and then either looks at the quiet period or polls
the agent.

The agent is another crate's future. One poll of it is an `AgentTurn`:
how many messages it took from its channel, what it sent, and the
result if it returned. Its receiver goes away with it, so a finished
agent means a closed `to_protocol` channel.

Sends and answers are returned as `Effect`s. `pending_futures` is left
out: it holds sends into the network worker's unbounded channel, and
`poll` drains it before it goes on. So is `peerset_rx`, since no agent
uses the peerset cache.
-/

set_option autoImplicit false

namespace FrostMpcTss.Service

open Network

/-- `COMPLETION_QUIET_PERIOD`, in milliseconds. -/
def completionQuietPeriod : Nat := 500

/-- `mpc_service::IncomingRequest`, what the agent receives. The fields
`from` and `to` are `sender` and `recipient` here. -/
structure AgentRequest where
  sender : Nat
  recipient : Option Nat
  payload : Bytes
deriving Repr, DecidableEq

/-- `mpc_service::OutgoingResponse`, what the agent sends. -/
structure AgentMessage where
  body : Bytes
  recipient : Option Nat
deriving Repr, DecidableEq

/-- `anyhow::Result<Vec<u8>>`. -/
abbrev AgentResult := Except String Bytes

/-- One poll of the agent. -/
structure AgentTurn where
  received : Nat
  sent : List AgentMessage
  result : Option AgentResult
deriving Repr, DecidableEq

/-- The order of the keys `(sender, message_id)` in `pending_incoming`. -/
def keyCmp : Nat × Nat → Nat × Nat → Ordering :=
  compareLex (compareOn Prod.fst) (compareOn Prod.snd)

/-- `BTreeMap<(u16, u64), IncomingRequest>`. -/
abbrev PendingIncoming (P ρ : Type) := Std.TreeMap (Nat × Nat) (IncomingRequest P ρ) keyCmp

/-- What a session does to the world outside: `ρ` are the answer
handles of inbound requests, `κ` the one of the RPC caller. -/
inductive Effect (P ρ κ : Type) where
  | multicast (messageId : Nat) (body : Bytes) (peers : List P)
  | sendDirect (peer : P) (body : Bytes)
  | respond (tx : ρ) (response : OutgoingResponse)
  /-- A message entered the echo gadget's channel. -/
  | entered (m : EchoMessage ρ)
  /-- A message was handed to the agent. -/
  | delivered (req : AgentRequest)
  /-- `pending_response` was used. -/
  | answered (tx : κ) (result : AgentResult)
  /-- The echo gadget hashed a group. -/
  | hashed (messageId : Nat) (group : List (EchoMessage ρ)) (echoHash : Bytes)
  /-- A `proceed_round` succeeded. -/
  | verified (messageId : Nat) (echoHash : Bytes) (echoHashes : List (RemoteEcho P))

/-- `ProtocolExecState`. `agentFuture` says whether the agent is still
there, `completionDelay` is the deadline of the quiet period. -/
structure ProtocolExecution (P ρ κ : Type) where
  sessionId : SessionId
  protocolId : Nat
  peerset : Peerset P
  fromNetwork : List (IncomingRequest P ρ)
  toProtocol : List AgentRequest
  fromProtocol : List AgentMessage
  agentFuture : Bool
  agentResult : Option AgentResult
  completionDelay : Option Nat
  pendingResponse : Option κ
  nextOutgoingBroadcastId : Nat
  nextIncomingBroadcastId : Nat
  pendingIncoming : PendingIncoming P ρ
  i : Nat
  n : Nat

/-- The execution and its end of the echo channel, with the effects so
far: what the stages of `poll` pass on. -/
structure PollState (P ρ κ : Type) where
  exec : ProtocolExecution P ρ κ
  echoTx : List (EchoMessage ρ)
  effects : List (Effect P ρ κ)

/-- `Poll<crate::Result<()>>`, or a panic. -/
inductive ExecPoll (P ρ κ : Type) where
  | pending (st : PollState P ρ κ)
  | ready (result : Except Error Unit) (echoTx : List (EchoMessage ρ))
      (effects : List (Effect P ρ κ))
  | panic (why : Panic)

namespace ProtocolExecution

variable {P ρ κ : Type}

/-- `async_channel::bounded`: a panic on a zero capacity. -/
def bounded (capacity : Nat) : Except Panic Unit :=
  if capacity = 0 then .error .zeroCapacity else .ok ()

/-- `ProtocolExecution::new`. -/
def new [DecidableEq P] (sessionId : SessionId) (protocolId : Nat) (peerset : Peerset P)
    (pendingResponse : Option κ) : Except Panic (ProtocolExecution P ρ κ) := do
  let n := asU16 peerset.size
  let i ←
    match peerset.indexOf peerset.localPeerId with
    | some i => .ok i
    | none => .error .localPeerMissing
  let capacity ← predUnsigned n
  bounded capacity
  bounded capacity
  return {
    sessionId := sessionId
    protocolId := protocolId
    peerset := peerset
    fromNetwork := []
    toProtocol := []
    fromProtocol := []
    agentFuture := true
    agentResult := none
    completionDelay := none
    pendingResponse := pendingResponse
    nextOutgoingBroadcastId := 0
    nextIncomingBroadcastId := 0
    pendingIncoming := ∅
    i := i
    n := n }

/-- `echo_tx.try_send(..).expect(..)`. A `futures` channel of buffer
`size` with one sender takes `size + 1` messages, and the gadget's has
a buffer of the peerset's size. -/
def echoTrySend (st : PollState P ρ κ) (m : EchoMessage ρ) :
    Except Panic (PollState P ρ κ) :=
  if st.exec.peerset.size + 1 ≤ st.echoTx.length then .error .echoChannelFull
  else .ok { st with echoTx := st.echoTx ++ [m], effects := st.effects ++ [.entered m] }

/-- `to_protocol.try_send(..).expect(..)`, on a channel of capacity
`n - 1` whose receiver the agent owns. -/
def protocolTrySend (st : PollState P ρ κ) (req : AgentRequest) :
    Except Panic (PollState P ρ κ) :=
  if st.exec.agentFuture = false then .error .applicationChannelClosed
  else if st.exec.n - 1 ≤ st.exec.toProtocol.length then .error .applicationChannelFull
  else
    .ok
      { st with
          exec := { st.exec with toProtocol := st.exec.toProtocol ++ [req] }
          effects := st.effects ++ [.delivered req] }

/-- The message the agent sent: to one peer, or to all of them and to
the echo gadget. -/
def sendOutgoing [DecidableEq P] (st : PollState P ρ κ) (m : AgentMessage) :
    Except Panic (PollState P ρ κ) :=
  match m.recipient with
  | some remoteIndex => do
      let index ← predUnsigned remoteIndex
      let peer ← st.exec.peerset.index index
      return { st with effects := st.effects ++ [.sendDirect peer m.body] }
  | none => do
      let messageId := st.exec.nextOutgoingBroadcastId
      let _ ← predUnsigned st.exec.n
      let sender ← succU16 st.exec.i
      echoTrySend
        { st with
            exec := { st.exec with nextOutgoingBroadcastId := messageId + 1 }
            effects :=
              st.effects ++ [.multicast messageId m.body st.exec.peerset.remotesIter] }
        { messageId := messageId
          sender := sender
          payload := m.body
          response := .outgoing messageId }

/-- The first stage of `poll`: at most one message of the agent. -/
def takeOutgoing [DecidableEq P] (st : PollState P ρ κ) : Except Panic (PollState P ρ κ) :=
  match st.exec.fromProtocol with
  | [] => .ok st
  | m :: rest => sendOutgoing { st with exec := { st.exec with fromProtocol := rest } } m

/-- `forward_direct_message`: acknowledge, then hand on. -/
def forwardDirectMessage (st : PollState P ρ κ) (m : IncomingRequest P ρ) :
    Except Panic (PollState P ρ κ) := do
  let sender ← succU16 m.peerIndex
  let localNumber ← succU16 st.exec.i
  protocolTrySend
    { st with effects := st.effects ++ [.respond m.pendingResponse (.ok [])] }
    { sender := sender, recipient := some localNumber, payload := m.payload }

/-- The message belongs to this session's computation. -/
def accepts (s : ProtocolExecution P ρ κ) (m : IncomingRequest P ρ) : Bool :=
  m.context.sessionId = s.sessionId && m.context.messageType = .computation

/-- Buffer a broadcast under its sender and id. -/
def bufferBroadcast (st : PollState P ρ κ) (m : IncomingRequest P ρ) :
    Except Panic (PollState P ρ κ) := do
  let sender ← succU16 m.peerIndex
  return { st with
    exec :=
      { st.exec with
          pendingIncoming :=
            st.exec.pendingIncoming.insert (sender, m.context.messageId) m } }

/-- A message after completion starts the quiet period anew. -/
def restartQuietPeriod (now : Nat) (st : PollState P ρ κ) : PollState P ρ κ :=
  if st.exec.agentResult.isSome then
    { st with exec := { st.exec with completionDelay := some (now + completionQuietPeriod) } }
  else st

/-- An accepted message of the network. -/
def takeIncoming (now : Nat) (st : PollState P ρ κ) (m : IncomingRequest P ρ) :
    Except Panic (PollState P ρ κ) := do
  let st ← if m.isBroadcast then bufferBroadcast st m else forwardDirectMessage st m
  return restartQuietPeriod now st

/-- The senders with a buffered message of this id, in increasing order. -/
def readySenders (pending : PendingIncoming P ρ) (messageId : Nat) : List Nat :=
  pending.keys.filterMap fun key => if key.2 = messageId then some key.1 else none

/-- Hand the round's message of one sender to the gadget and to the
agent. -/
def forwardOne (messageId : Nat) (st : PollState P ρ κ) (sender : Nat) :
    Except Panic (PollState P ρ κ) :=
  match st.exec.pendingIncoming[(sender, messageId)]? with
  | none => .error .readyKeyMissing
  | some m => do
      let st ← echoTrySend
        { st with
            exec :=
              { st.exec with
                  pendingIncoming := st.exec.pendingIncoming.erase (sender, messageId) } }
        { messageId := messageId
          sender := sender
          payload := m.payload
          response := .incoming m.pendingResponse }
      protocolTrySend st { sender := sender, recipient := none, payload := m.payload }

/-- `forward_buffered_messages`. Every turn of the loop removes `n - 1`
buffered messages, so the number of buffered messages bounds it. -/
def forwardLoop : Nat → PollState P ρ κ → Except Panic (PollState P ρ κ)
  | 0, st => .ok st
  | fuel + 1, st => do
      let messageId := st.exec.nextIncomingBroadcastId
      let ready := readySenders st.exec.pendingIncoming messageId
      if ready.length ≠ st.exec.n - 1 then return st
      let st ← ready.foldlM (forwardOne messageId) st
      forwardLoop fuel
        { st with exec := { st.exec with nextIncomingBroadcastId := messageId + 1 } }

def forwardBufferedMessages (st : PollState P ρ κ) : Except Panic (PollState P ρ κ) :=
  forwardLoop (st.exec.pendingIncoming.size + 1) st

/-- The quiet period is over: answer the RPC caller and return. -/
def report (st : PollState P ρ κ) (result : AgentResult) : ExecPoll P ρ κ :=
  let effects :=
    match st.exec.pendingResponse with
    | some tx => st.effects ++ [.answered tx result]
    | none => st.effects
  match result with
  | .ok _ => .ready (.ok ()) st.echoTx effects
  | .error e => .ready (.error (.internalError e)) st.echoTx effects

/-- The agent is polled: its turn is applied to the channels. -/
def pollAgent (now : Nat) (turn : AgentTurn) (st : PollState P ρ κ) : PollState P ρ κ :=
  let exec :=
    { st.exec with
        toProtocol := st.exec.toProtocol.drop turn.received
        fromProtocol := st.exec.fromProtocol ++ turn.sent }
  match turn.result with
  | none => { st with exec := exec }
  | some result =>
      { st with
          exec :=
            { exec with
                agentResult := some result
                agentFuture := false
                completionDelay := some (now + completionQuietPeriod) } }

/-- The last stage of `poll`: the quiet period, or else the agent. -/
def completeOrPollAgent (now : Nat) (turn : AgentTurn) (st : PollState P ρ κ) :
    ExecPoll P ρ κ :=
  match st.exec.completionDelay with
  | some deadline =>
      if deadline ≤ now then
        match st.exec.agentResult with
        | some result => report st result
        | none => .panic .resultMissing
      else .pending st
  | none => if st.exec.agentFuture then .pending (pollAgent now turn st) else .pending st

/-- The poll's result once the forwarding loop is through. -/
def finish (now : Nat) (turn : AgentTurn) : Except Panic (PollState P ρ κ) → ExecPoll P ρ κ
  | .error why => .panic why
  | .ok st => completeOrPollAgent now turn st

/-- The head of the network's queue is taken out. -/
def withoutHead (st : PollState P ρ κ) : PollState P ρ κ :=
  { st with exec := { st.exec with fromNetwork := st.exec.fromNetwork.tail } }

/-- `poll` from the network's message on. A message of another session
is refused, and `poll` returns without looking at anything else. -/
def pollNetwork (now : Nat) (turn : AgentTurn) (st : PollState P ρ κ) : ExecPoll P ρ κ :=
  match st.exec.fromNetwork with
  | [] => finish now turn (forwardBufferedMessages st)
  | m :: _ =>
      if st.exec.accepts m then
        finish now turn (takeIncoming now (withoutHead st) m >>= forwardBufferedMessages)
      else
        .pending
          { withoutHead st with
              effects := st.effects ++ [.respond m.pendingResponse refuse] }

/-- `ProtocolExecution::poll` at time `now`, with the turn the agent
takes if it is polled. -/
def poll [DecidableEq P] (s : ProtocolExecution P ρ κ) (echoTx : List (EchoMessage ρ))
    (now : Nat) (turn : AgentTurn) : ExecPoll P ρ κ :=
  match takeOutgoing { exec := s, echoTx := echoTx, effects := [] } with
  | .error why => .panic why
  | .ok st => pollNetwork now turn st

end ProtocolExecution

end FrostMpcTss.Service
