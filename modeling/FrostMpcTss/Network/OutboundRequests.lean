import FrostMpcTss.Lib.Mpsc
import FrostMpcTss.Network.GenericCodec

/-!
# `FrostMpcTss.Network.OutboundRequests`: requests and their results

The outbound half of `RequestResponsesBehaviour`. A caller hands
`send_request_with_context` or `broadcast_message` a handle on its
response channel. Every request gets a one-shot and a spawned task, the
bridge, that awaits the one-shot and relays its value into the response
channel. The sender of the one-shot goes into `pending_requests` under
the protocol and the request id. From there the result comes from a
`Response` event, an `OutboundFailure` event or the periodic check. A
request that cannot be sent is answered on the spot through the caller's
own handle, and its one-shot is dropped.

libp2p's `Behaviour` of a protocol is the counter of its request ids and
the list of what it was given to send. Whether a peer is connected and
what the time is are inputs of the calls. libp2p's events are labels, and
any event may come at any time: late, twice, or for an id that was never
given out.

Requests are numbered in the order of the calls, and the number of a
request names its one-shot and its bridge. Each bridge keeps the list of
every `try_send` made for its request, and `multicasts` the broadcasts
made so far; both are there for the statements about them.

Response channels are numbered by their makers. A handle the caller
passes in may be parked, if the caller has sent on it before. The dummy
channel of a broadcast without a handle has no receiver; its handle is
`none`.

The inbound half is not here. Its events end a pass of `poll` as every
event does (`Event.inbound`).
-/

set_option autoImplicit false

namespace FrostMpcTss.Network

open Lib

/-- `ProtocolName`: compared and hashed by its text. -/
abbrev ProtocolName := String

/-- `RoomId::protocol_name`. -/
def RoomId.protocolName (id : RoomId) : ProtocolName := "/room/" ++ id.asStr

/-- `MessageContext`, with the ranges of its types. -/
abbrev WireContext := { ctx : MessageContext // ctx.protocolId < 2 ^ 64 ∧ ctx.messageId < 2 ^ 64 }

/-- `WireMessage { context, payload, is_broadcast }`. -/
def wireMessage (ctx : WireContext) (payload : ByteVec) (isBroadcast : Bool) : WireMessage where
  context := ctx.1
  payload := payload
  isBroadcast := isBroadcast
  protocolId_lt := ctx.2.1
  messageId_lt := ctx.2.2

/-- The context `send_request_inner` writes. -/
def defaultContext : WireContext :=
  ⟨{ messageType := .computation, protocolId := 0, sessionId := noSessionId, messageId := 0 },
    by decide⟩

/-- `IfDisconnected`. -/
inductive IfDisconnected where
  | tryConnect
  | immediateError
deriving Repr, DecidableEq

/-- `should_connect`. -/
def IfDisconnected.shouldConnect : IfDisconnected → Bool
  | .tryConnect => true
  | .immediateError => false

/-- `ProtocolRequestId<OutboundRequestId>`. -/
structure ProtocolRequestId where
  protocol : ProtocolName
  requestId : Nat
deriving Repr, DecidableEq

/-- `PendingRequest`. `responseTx` is the number of the request. -/
structure PendingRequest where
  startedAt : Nat
  responseTx : Option Nat
  fallbackRequest : Option (ByteVec × ProtocolName)

/-- `ProtocolConfig`, as far as outbound requests depend on it. -/
structure ProtocolConfig where
  name : ProtocolName
  requestTimeout : Nat
deriving Repr, DecidableEq

/-- `ProtocolDetails`: the timeout, and the protocol's `Behaviour`. -/
structure ProtocolDetails (P : Type) where
  requestTimeout : Nat
  /-- The request ids in the order in which libp2p gives them out. All that
  it says about them is that no two are the same. -/
  requestIds : Nat ↪ Nat
  sent : List (P × WireMessage)

/-- `behaviour.send_request`: a fresh request id. -/
def ProtocolDetails.sendRequest {P : Type} (d : ProtocolDetails P) (target : P)
    (message : WireMessage) : Nat × ProtocolDetails P :=
  (d.requestIds d.sent.length, { d with sent := d.sent ++ [(target, message)] })

/-- What comes out of a one-shot. -/
abbrev RequestResult := Except RequestFailure (Bytes × ProtocolName)

/-- What goes into a response channel. -/
abbrev Reply (P : Type) := Except RequestFailure (P × Bytes)

/-- A request made by `send_request_with_context`. -/
structure Bridge (P : Type) where
  target : P
  /-- The caller's handle; the task has a clone of it. -/
  pendingResponse : Option Sender
  /-- The one-shot that the task awaits. -/
  rx : Oneshot RequestResult
  /-- Every `try_send` made for this request. -/
  offers : List (Reply P × TrySend)

namespace Bridge

variable {P : Type}

/-- What the task makes of the value of its one-shot. -/
def relay (t : Bridge P) : RequestResult → Reply P
  | .ok (payload, _) => .ok (t.target, payload)
  | .error e => .error e

/-- The results the response channel has received for this request. -/
def received (t : Bridge P) : List (Reply P) :=
  t.offers.filterMap fun o => if o.2 = .sent then some o.1 else none

/-- The results produced for this request: offered to the channel, or on
their way to the task. -/
def produced (t : Bridge P) : List (Reply P) :=
  t.offers.map (·.1) ++
    match t.rx with
    | .sent result => [t.relay result]
    | _ => []

/-- The request was sent with a handle on that channel. -/
def isOn (t : Bridge P) (channel : Nat) : Bool :=
  t.pendingResponse.any (·.channel = channel)

end Bridge

/-- `Event::RequestFinished`. -/
structure RequestFinished (P : Type) where
  peer : P
  protocol : ProtocolName
  duration : Nat
  result : Except RequestFailure Unit

/-- A call of `broadcast_message`: the number of its first request, its
targets and the handle it was given. -/
structure Multicast (P : Type) where
  first : Nat
  targets : List P
  pendingResponse : Option Sender

/-- What a call finds: the peers the protocol's `Behaviour` is connected
to, and the time. -/
structure Surroundings (P : Type) where
  isConnected : P → Bool
  now : Nat

/-- `RequestResponsesBehaviour` with the bridges it has spawned and the
response channels of its callers. -/
structure RequestResponsesBehaviour (P : Type) where
  protocols : ProtocolName → Option (ProtocolDetails P)
  pendingRequests : AList fun _ : ProtocolRequestId => PendingRequest
  /-- `fallback_requests` of the current pass of `poll`. -/
  fallbackRequests : List (P × ProtocolName × ByteVec × Nat)
  bridges : List (Bridge P)
  channels : Nat → Mpsc (Reply P)
  /-- What `poll` has returned. -/
  events : List (RequestFinished P)
  multicasts : List (Multicast P)

/-- `RegisterError`. -/
inductive RegisterError where
  | duplicateProtocol (name : ProtocolName)
deriving Repr, DecidableEq

namespace RequestResponsesBehaviour

variable {P : Type}

/-- The loop over the configured protocols. -/
def register (requestIds : ProtocolName → Nat ↪ Nat)
    (protocols : ProtocolName → Option (ProtocolDetails P)) :
    List ProtocolConfig → Except RegisterError (ProtocolName → Option (ProtocolDetails P))
  | [] => .ok protocols
  | config :: list =>
      match protocols config.name with
      | some _ => .error (.duplicateProtocol config.name)
      | none =>
          register requestIds
            (Function.update protocols config.name
              (some
                { requestTimeout := config.requestTimeout
                  requestIds := requestIds config.name
                  sent := [] }))
            list

/-- `RequestResponsesBehaviour::new`. libp2p picks the request ids, and the
callers make their channels with the given buffers. -/
def new (list : List ProtocolConfig) (requestIds : ProtocolName → Nat ↪ Nat)
    (buffer : Nat → Nat) : Except RegisterError (RequestResponsesBehaviour P) :=
  (register requestIds (fun _ => none) list).map fun protocols =>
    { protocols := protocols
      pendingRequests := ∅
      fallbackRequests := []
      bridges := []
      channels := fun c => .new (buffer c)
      events := []
      multicasts := [] }

/-! ### One-shots and response channels -/

/-- `tokio::spawn` of the bridge, with a new one-shot. -/
def spawnBridge (b : RequestResponsesBehaviour P) (target : P)
    (pendingResponse : Option Sender) : RequestResponsesBehaviour P :=
  { b with
      bridges :=
        b.bridges ++
          [{ target := target, pendingResponse := pendingResponse, rx := .waiting, offers := [] }] }

/-- `response_tx.send(result)`. -/
def send (b : RequestResponsesBehaviour P) (tx : Nat) (result : RequestResult) :
    RequestResponsesBehaviour P :=
  { b with bridges := b.bridges.modify tx fun t => { t with rx := t.rx.send result } }

/-- `response_tx.send(result).is_ok()`: the task still awaits its one-shot. -/
def delivers (b : RequestResponsesBehaviour P) (tx : Nat) : Bool :=
  (b.bridges[tx]?).any (·.rx.isWaiting)

/-- The sender of the one-shot is dropped. -/
def cancel (b : RequestResponsesBehaviour P) (tx : Nat) : RequestResponsesBehaviour P :=
  { b with bridges := b.bridges.modify tx fun t => { t with rx := t.rx.cancel } }

/-- The bridge has what it waited for. -/
def close (b : RequestResponsesBehaviour P) (tx : Nat) : RequestResponsesBehaviour P :=
  { b with bridges := b.bridges.modify tx fun t => { t with rx := .closed } }

/-- `try_send` on the handle. -/
def trySendOn (channels : Nat → Mpsc (Reply P)) (handle : Option Sender) (reply : Reply P) :
    (Nat → Mpsc (Reply P)) × TrySend :=
  match handle with
  | none => (channels, .disconnected)
  | some s =>
      match (channels s.channel).trySend s reply with
      | (channel, _, outcome) => (Function.update channels s.channel channel, outcome)

/-- `try_send` on the handle, for the request `tx`. -/
def offer (b : RequestResponsesBehaviour P) (tx : Nat) (handle : Option Sender)
    (reply : Reply P) : RequestResponsesBehaviour P :=
  let tried := trySendOn b.channels handle reply
  { b with
      channels := tried.1
      bridges := b.bridges.modify tx fun t => { t with offers := t.offers ++ [(reply, tried.2)] } }

/-! ### Calls -/

/-- The request is passed to libp2p and becomes pending. Its id is fresh,
so that nothing is overwritten. -/
def insertPending (b : RequestResponsesBehaviour P) (details : ProtocolDetails P)
    (protocol : ProtocolName) (target : P) (message : WireMessage) (request : PendingRequest) :
    RequestResponsesBehaviour P :=
  match details.sendRequest target message with
  | (requestId, details) =>
      { b with
          protocols := Function.update b.protocols protocol (some details)
          pendingRequests := b.pendingRequests.insert ⟨protocol, requestId⟩ request }

/-- `send_request_inner`. -/
def sendRequestInner (b : RequestResponsesBehaviour P) (env : Surroundings P)
    (details : ProtocolDetails P) (target : P) (protocol : ProtocolName) (request : ByteVec)
    (fallbackRequest : Option (ByteVec × ProtocolName)) (pendingResponse : Nat)
    (connect : IfDisconnected) : RequestResponsesBehaviour P :=
  if env.isConnected target || connect.shouldConnect then
    b.insertPending details protocol target (wireMessage defaultContext request false)
      { startedAt := env.now
        responseTx := some pendingResponse
        fallbackRequest := fallbackRequest }
  else b.send pendingResponse (.error .notConnected)

/-- A request that is not sent: the caller's handle gets the failure, and
the one-shot is dropped. -/
def refuseRequest (b : RequestResponsesBehaviour P) (tx : Nat) (pendingResponse : Option Sender)
    (failure : RequestFailure) : RequestResponsesBehaviour P :=
  (b.offer tx pendingResponse (.error failure)).cancel tx

/-- `send_request_with_context`. -/
def sendRequestWithContext (b : RequestResponsesBehaviour P) (env : Surroundings P) (target : P)
    (protocolName : ProtocolName) (ctx : WireContext) (payload : ByteVec) (isBroadcast : Bool)
    (pendingResponse : Option Sender) (connect : IfDisconnected) :
    RequestResponsesBehaviour P :=
  let tx := b.bridges.length
  let b := b.spawnBridge target pendingResponse
  match b.protocols protocolName with
  | some details =>
      if env.isConnected target || connect.shouldConnect then
        b.insertPending details protocolName target (wireMessage ctx payload isBroadcast)
          { startedAt := env.now, responseTx := some tx, fallbackRequest := none }
      else b.refuseRequest tx pendingResponse .notConnected
  | none => b.refuseRequest tx pendingResponse .unknownProtocol

/-- The loop of `broadcast_message`. Every target gets a clone of the
handle. -/
def broadcastLoop (env : Surroundings P) (protocolName : ProtocolName) (ctx : WireContext)
    (payload : ByteVec) (pendingResponse : Option Sender) (connect : IfDisconnected) :
    List P → RequestResponsesBehaviour P → RequestResponsesBehaviour P
  | [], b => b
  | target :: targets, b =>
      broadcastLoop env protocolName ctx payload pendingResponse connect targets
        (b.sendRequestWithContext env target protocolName ctx payload true
          (pendingResponse.map Sender.clone) connect)

/-- `broadcast_message`. -/
def broadcastMessage (b : RequestResponsesBehaviour P) (env : Surroundings P) (targets : List P)
    (protocolName : ProtocolName) (ctx : WireContext) (payload : ByteVec)
    (pendingResponse : Option Sender) (connect : IfDisconnected) :
    RequestResponsesBehaviour P :=
  { broadcastLoop env protocolName ctx payload pendingResponse connect targets b with
      multicasts :=
        b.multicasts ++
          [{ first := b.bridges.length, targets := targets, pendingResponse := pendingResponse }] }

/-! ### The passes of `poll` -/

/-- An entry leaves `pending_requests`, with a result if its sender is
still there. -/
def finishRequest (b : RequestResponsesBehaviour P) (key : ProtocolRequestId)
    (request : PendingRequest) (result : RequestResult) : RequestResponsesBehaviour P :=
  let b := { b with pendingRequests := b.pendingRequests.erase key }
  match request.responseTx with
  | some tx => b.send tx result
  | none => b

/-- The periodic check of one entry. -/
def checkRequest (now : Nat) (b : RequestResponsesBehaviour P)
    (entry : Σ _ : ProtocolRequestId, PendingRequest) : RequestResponsesBehaviour P :=
  match b.protocols entry.1.protocol with
  | none => b.finishRequest entry.1 entry.2 (.error .unknownProtocol)
  | some details =>
      if details.requestTimeout < now - entry.2.startedAt then
        b.finishRequest entry.1 entry.2 (.error (.network .timeout))
      else b

/-- `pending_requests.retain(..)`. -/
def periodicRequestCheck (now : Nat) (b : RequestResponsesBehaviour P) :
    RequestResponsesBehaviour P :=
  b.pendingRequests.entries.foldl (checkRequest now) b

/-- `poll` returns, or starts over: `fallback_requests` is dropped. -/
def leavePoll (b : RequestResponsesBehaviour P) : RequestResponsesBehaviour P :=
  { b.fallbackRequests.foldl (fun b r => b.cancel r.2.2.2) b with fallbackRequests := [] }

/-- `return Poll::Ready(ToSwarm::GenerateEvent(..))`. -/
def returnEvent (b : RequestResponsesBehaviour P) (event : RequestFinished P) :
    RequestResponsesBehaviour P :=
  { b.leavePoll with events := b.events ++ [event] }

/-- A response from a remote to one of our requests. -/
def onResponse (b : RequestResponsesBehaviour P) (now : Nat) (peer : P)
    (protocol : ProtocolName) (requestId : Nat) (response : Except Unit Bytes) :
    RequestResponsesBehaviour P :=
  let key : ProtocolRequestId := ⟨protocol, requestId⟩
  match b.pendingRequests.lookup key with
  | some ⟨startedAt, some tx, fallbackRequest⟩ =>
      let result : RequestResult :=
        match response with
        | .ok resp => .ok (resp, protocol)
        | .error () => .error .refused
      (b.finishRequest key ⟨startedAt, some tx, fallbackRequest⟩ result).returnEvent
        { peer := peer
          protocol := protocol
          duration := now - startedAt
          result := if b.delivers tx then .ok () else .error .obsolete }
  | _ => { b with pendingRequests := b.pendingRequests.erase key }

/-- One of our requests has failed. -/
def onOutboundFailure (b : RequestResponsesBehaviour P) (now : Nat) (peer : P)
    (protocol : ProtocolName) (requestId : Nat) (error : OutboundFailure) :
    RequestResponsesBehaviour P :=
  let key : ProtocolRequestId := ⟨protocol, requestId⟩
  match b.pendingRequests.lookup key with
  | some ⟨startedAt, some tx, fallbackRequest⟩ =>
      let failed :=
        (b.finishRequest key ⟨startedAt, some tx, fallbackRequest⟩
          (.error (.network error))).returnEvent
          { peer := peer
            protocol := protocol
            duration := now - startedAt
            result := .error (.network error) }
      match fallbackRequest with
      | some (request, fallbackProtocol) =>
          if error = .unsupportedProtocols then
            { b with
                pendingRequests := b.pendingRequests.erase key
                fallbackRequests :=
                  b.fallbackRequests ++ [(peer, fallbackProtocol, request, tx)] }
          else failed
      | none => failed
  | _ => { b with pendingRequests := b.pendingRequests.erase key }

/-- One turn of the loop over `fallback_requests`. -/
def sendFallback (env : Surroundings P) (b : RequestResponsesBehaviour P)
    (r : P × ProtocolName × ByteVec × Nat) : RequestResponsesBehaviour P :=
  match r with
  | (peer, protocol, request, tx) =>
      match b.protocols protocol with
      | some details =>
          b.sendRequestInner env details peer protocol request none tx .immediateError
      | none => b.cancel tx

/-- Send out the fallback requests, at the end of a pass. -/
def sendFallbackRequests (env : Surroundings P) (b : RequestResponsesBehaviour P) :
    RequestResponsesBehaviour P :=
  b.fallbackRequests.foldl (sendFallback env) { b with fallbackRequests := [] }

/-- The task of the bridge runs on, if its one-shot has something for it. -/
def pollBridge (b : RequestResponsesBehaviour P) (tx : Nat) :
    Option (RequestResponsesBehaviour P) :=
  match b.bridges[tx]? with
  | none => none
  | some t =>
      match t.rx with
      | .sent result =>
          some ((b.offer tx (t.pendingResponse.map Sender.clone) (t.relay result)).close tx)
      | .canceled => some (b.close tx)
      | .waiting | .closed => none

/-! ### Runs -/

/-- The calls of the two methods. -/
inductive Call (P : Type) where
  | sendRequestWithContext (target : P) (protocolName : ProtocolName) (ctx : WireContext)
      (payload : ByteVec) (isBroadcast : Bool) (pendingResponse : Sender)
      (connect : IfDisconnected)
  | broadcastMessage (targets : List P) (protocolName : ProtocolName) (ctx : WireContext)
      (payload : ByteVec) (pendingResponse : Option Sender) (connect : IfDisconnected)

/-- What happens between the calls. -/
inductive Event (P : Type) where
  /-- libp2p's `Message::Response` -/
  | response (now : Nat) (peer : P) (protocol : ProtocolName) (requestId : Nat)
      (response : Except Unit Bytes)
  /-- libp2p's `OutboundFailure` -/
  | outboundFailure (now : Nat) (peer : P) (protocol : ProtocolName) (requestId : Nat)
      (error : OutboundFailure)
  /-- Any other event of libp2p -/
  | inbound
  | periodicRequestCheck (now : Nat)
  /-- `poll` comes to the end of a pass. -/
  | passEnds (env : Surroundings P)
  /-- The executor runs a bridge. -/
  | pollBridge (tx : Nat)
  /-- A caller reads its response channel. -/
  | receive (channel : Nat)
  /-- A caller drops its response channel. -/
  | dropReceiver (channel : Nat)

/-- Perform a call. -/
def call (b : RequestResponsesBehaviour P) (env : Surroundings P) :
    Call P → RequestResponsesBehaviour P
  | .sendRequestWithContext target protocolName ctx payload isBroadcast pendingResponse connect =>
      b.sendRequestWithContext env target protocolName ctx payload isBroadcast
        (some pendingResponse) connect
  | .broadcastMessage targets protocolName ctx payload pendingResponse connect =>
      b.broadcastMessage env targets protocolName ctx payload pendingResponse connect

/-- An event. Only a registered protocol has a `Behaviour` that emits
any. -/
def handle (b : RequestResponsesBehaviour P) : Event P → Option (RequestResponsesBehaviour P)
  | .response now peer protocol requestId response =>
      if (b.protocols protocol).isSome then
        some (b.onResponse now peer protocol requestId response)
      else none
  | .outboundFailure now peer protocol requestId error =>
      if (b.protocols protocol).isSome then
        some (b.onOutboundFailure now peer protocol requestId error)
      else none
  | .inbound => some b.leavePoll
  | .periodicRequestCheck now => some (b.periodicRequestCheck now)
  | .passEnds env => some (b.sendFallbackRequests env)
  | .pollBridge tx => b.pollBridge tx
  | .receive channel =>
      ((b.channels channel).receive).map fun ch =>
        { b with channels := Function.update b.channels channel ch }
  | .dropReceiver channel =>
      some
        { b with
            channels := Function.update b.channels channel (b.channels channel).dropReceiver }

/-- A call or an event. -/
inductive Label (P : Type) where
  | call (env : Surroundings P) (c : Call P)
  | event (e : Event P)

/-- A step of the behaviour with its tasks and its callers. -/
def step (b : RequestResponsesBehaviour P) : Label P → Option (RequestResponsesBehaviour P)
  | .call env c => some (b.call env c)
  | .event e => b.handle e

/-- The request is in `pending_requests`. -/
def isPending (b : RequestResponsesBehaviour P) (tx : Nat) : Bool :=
  b.pendingRequests.entries.any fun entry => entry.2.responseTx = some tx

/-- The requests of a broadcast. -/
def requestsOf (b : RequestResponsesBehaviour P) (m : Multicast P) : List (Bridge P) :=
  (b.bridges.drop m.first).take m.targets.length

/-- The executor runs every bridge once. -/
def pollBridges (b : RequestResponsesBehaviour P) : RequestResponsesBehaviour P :=
  (List.range b.bridges.length).foldl (fun b tx => (b.pollBridge tx).getD b) b

end RequestResponsesBehaviour

end FrostMpcTss.Network
