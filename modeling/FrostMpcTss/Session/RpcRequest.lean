import FrostMpcTss.Rpc.Tss
import FrostMpcTss.Session.Joiner
import FrostMpcTss.Tss.KeyGen

/-!
# `FrostMpcTss.Session.RpcRequest`: a request from the call to the session

The way of one request: the RPC server makes it, the worker queues it until
the room is free and puts it into the one-shot of the room's
`Phase1Channel`, the channel makes a `NegotiationChannel` of it, and a
negotiation that succeeds becomes a session with its proxy, its execution,
its echo gadget and the agent. What else the worker does only decides when
the next step is taken.

The environment decides what the channels yield. A response carries the id
of the peer that was asked, and a proposal goes to the known peers, which do
not include the local one.
-/

set_option autoImplicit false

namespace FrostMpcTss.Session

open Lib Network Service Tss Rpc

/-- The agent made for a request: `compute` before its first poll, and a
poll of it with the peerset and the request it was called with. -/
structure RequestAgent (P σ : Type) where
  start : σ
  poll : Peerset P → Bytes → σ → List AgentRequest → List AgentMessage → σ × AgentTurn

/-- What the request is made from. -/
structure RequestConfig (P κ σ : Type) where
  localPeerId : P
  transportRoom : RoomId
  client : ProtocolAgentFactory
  call : TssCall
  pendingResponse : κ
  agent : RequestAgent P σ

/-- How far the request has come. -/
inductive RequestStage (P ρ κ σ : Type) where
  | called
  /-- In `from_service` or in `pending_local`. -/
  | queued (msg : ServicetoWorkerMsg κ)
  /-- In the one-shot of a `Phase1Channel`. -/
  | dispatched (msg : LocalRpcMsg κ)
  | negotiating (n : Nat) (c : NegotiationChannel P κ)
  /-- The session of the request, with its proxy as long as that is there. -/
  | executing (request : Bytes) (proxy : Option (ReceiverProxy P ρ)) (session : Session P ρ κ)
      (agent : σ)
  /-- The call has returned, and there is no session. -/
  | replied (result : Except TssError Bytes)
  | panicked (why : Panic)

/-- What can happen next. -/
inductive RequestLabel (P ρ : Type) where
  | call
  /-- `dispatch_to_room` sends the request to the room's channel. -/
  | dispatch
  /-- `dispatch_to_room` finds that the channel is gone. -/
  | cancel
  /-- The worker is gone, and the request goes down with its queue. -/
  | lose
  | pollPhase1 (c : Phase1Channel P ρ) (next : Option (IncomingRequest P ρ))
      (sessionId : SessionId) (now : Nat)
  | pollNegotiation (input : NegotiationInput P) (fresh : Nat)
  | pollProxy (next : Option (IncomingRequest P ρ)) (request : Nat)
  | pollExecution (now : Nat)
  | pollEcho (gone : ρ → Bool)
  | echoResponse (respRx : Nat) (echo : RemoteEcho P)
  | closeResponses (respRx : Nat)

namespace RequestStage

variable {P ρ κ σ : Type}

/-- The request is handed to the worker, or the call ends. -/
def afterCall : Outcome Panic TssError (ServicetoWorkerMsg κ) → RequestStage P ρ κ σ
  | .ok msg => .queued msg
  | .err e => .replied (.error e)
  | .panic why => .panicked why

/-- The channel takes the request. If it reads a proposal first, the request
goes down with its one-shot. -/
def afterPhase1 (msg : LocalRpcMsg κ) : Phase1Poll P ρ κ → RequestStage P ρ κ σ
  | .pending _ _ => .dispatched msg
  | .fromRemote _ _ _ _ _ => .replied (reply none)
  | .fromLocal _ n negotiation _ => .negotiating n negotiation
  | .panic why => .panicked why

/-- What the worker makes of a poll of the negotiation. -/
def afterNegotiation [DecidableEq P] (cfg : RequestConfig P κ σ) (n : Nat) :
    NegotiationPoll P ρ κ → RequestStage P ρ κ σ
  | .pending c => .negotiating n c
  | .proposed c => .negotiating n c
  | .start protocolId pendingResponse receiverProxy peerset request sessionId _ _ =>
      match WrapExecution.new n sessionId protocolId peerset (some pendingResponse) with
      | .ok wrap =>
          .executing request (some receiverProxy) { state := .running wrap, trace := [] }
            cfg.agent.start
      | .error why => .panicked why
  | .abort _ _ _ =>
      .replied (reply (some
        (.error "Negotiation aborted: timeout or failed to assemble peerset")))
  | .panic why => .panicked why

/-- What the proxy sends enters the execution's queue. -/
def afterProxy [DecidableEq P] [Blake2s256] (request : Bytes) (session : Session P ρ κ)
    (agent : σ) : ProxyPoll P ρ → Option (RequestStage P ρ κ σ)
  | .ready _ _ => some (.executing request none session agent)
  | .pending proxy _ feed _ =>
      (run Session.step session (feed.map .deliver)).map fun session =>
        .executing request (some proxy) session agent

/-- The execution is polled, and its agent with it. -/
def pollExecution [DecidableEq P] [Blake2s256] (cfg : RequestConfig P κ σ) (request : Bytes)
    (proxy : Option (ReceiverProxy P ρ)) (session : Session P ρ κ) (agent : σ) (now : Nat) :
    Option (RequestStage P ρ κ σ) :=
  match session.execution with
  | none => none
  | some (s, echoTx) =>
      match agentView s echoTx now with
      | some (incoming, outgoing) =>
          let (agent, turn) := cfg.agent.poll s.peerset request agent incoming outgoing
          (session.step (.pollComputation now turn)).map fun session =>
            .executing request proxy session agent
      | none =>
          (session.step (.pollComputation now idleTurn)).map fun session =>
            .executing request proxy session agent

/-- A step of the session in which the agent is not polled. -/
def stepSession [DecidableEq P] [Blake2s256] (t : RequestStage P ρ κ σ) (l : WrapLabel P ρ) :
    Option (RequestStage P ρ κ σ) :=
  match t with
  | .executing request proxy session agent =>
      (session.step l).map fun session => .executing request proxy session agent
  | _ => none

/-- One step of the request. -/
def step [DecidableEq P] [Blake2s256] [PeerIdCodec P] [UnsignedVarint]
    [CborRecord KeygenRequestPayload] [CborRecord SignRequestPayload]
    (cfg : RequestConfig P κ σ) (t : RequestStage P ρ κ σ) :
    RequestLabel P ρ → Option (RequestStage P ρ κ σ)
  | .call =>
      match t with
      | .called => some (afterCall (cfg.call.send cfg.transportRoom cfg.pendingResponse))
      | _ => none
  | .dispatch =>
      match t with
      | .queued msg => some (.dispatched (Room.localRpcMsg cfg.client msg))
      | _ => none
  | .cancel =>
      match t with
      | .queued _ => some (.replied (reply (some (.error "sender is canceled"))))
      | _ => none
  | .lose =>
      match t with
      | .queued _ => some (.replied (reply none))
      | _ => none
  | .pollPhase1 c next sessionId now =>
      match t with
      | .dispatched msg =>
          some (afterPhase1 msg (c.poll cfg.localPeerId next (.value msg) sessionId now))
      | _ => none
  | .pollNegotiation input fresh =>
      match t with
      | .negotiating n c =>
          if input.response = .ok cfg.localPeerId then none
          else some (afterNegotiation cfg n (c.poll input fresh))
      | _ => none
  | .pollProxy next request =>
      match t with
      | .executing body (some proxy) session agent =>
          afterProxy body session agent
            (proxy.poll session.execution.isNone (Joiner.queue session).length next request)
      | _ => none
  | .pollExecution now =>
      match t with
      | .executing request proxy session agent =>
          pollExecution cfg request proxy session agent now
      | _ => none
  | .pollEcho gone => t.stepSession (.pollEcho gone)
  | .echoResponse respRx echo => t.stepSession (.echoResponse respRx echo)
  | .closeResponses respRx => t.stepSession (.closeResponses respRx)

end RequestStage

section Agents

variable {P : Type} {A B C S : Type}

/-- `KeyGen`: the number of signers is the size of the peerset, and so is
the room in the agent's channel but for one. The rest of what `run_dkg` works
on may be anything. -/
def dealer [Identifiers] [DagCbor] [KeyGen.DkgCodec A B]
    (material : Peerset P → Bytes → KeyGen.DkgSession A B) :
    RequestAgent P (KeyGen.Dkg A B) where
  start := .start
  poll peerset request :=
    KeyGen.runDkg { material peerset request with maxSigners := asU16 peerset.size }
      (asU16 peerset.size - 1)

/-- `KeySign`, with any key share. -/
def signer [Identifiers] [DagCbor] [KeySign.SigningCodec C S]
    (material : Peerset P → Bytes → KeySign.SigningSession C S) :
    RequestAgent P (KeySign.Signing C S) where
  start := .start
  poll peerset request := KeySign.runSigning (material peerset request)

end Agents

end FrostMpcTss.Session
