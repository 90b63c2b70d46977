import FrostMpcTss.Network.OutboundRequests

/-!
# `FrostMpcTss.Network.InboundRequests`: requests of remotes and their responses

The inbound half of `RequestResponsesBehaviour`. A request of a remote is
put into the inbound queue of its protocol, with the sender of a one-shot,
and a future that awaits the one-shot goes into `pending_responses`. The
handler takes the request out of the queue and answers it, or drops it.
When the future is ready, a successful answer goes to libp2p through the
`ResponseChannel` of the request. libp2p reports the end of every request
by `ResponseSent` or `InboundFailure`.

Requests are numbered in the order of their arrival, and the number of a
request names its one-shot, its future and its channel. The state has all
requests that ever arrived. `rx` is the one-shot that the future awaits;
it is closed when the future is through, or if there never was one. The
`ResponseChannel` is a one-shot too. It is closed when libp2p has dropped
its end, because of a timeout or a closed connection.

The futures are polled one at a time, in any order. Events of libp2p are
labels. `contract` is what libp2p promises about them: an id is used for
one request, a request ends once, `ResponseSent` is for a response that
was given to libp2p, and libp2p drops its end of the channel before it
reports a failure.
-/

set_option autoImplicit false

namespace FrostMpcTss.Network

open Lib

/-- `InboundFailure`. An I/O error is known by its text. -/
inductive InboundFailure where
  | timeout
  | connectionClosed
  | unsupportedProtocols
  | responseOmission
  | io (error : String)
deriving Repr, DecidableEq

/-- `BANNED_THRESHOLD = 71 * (i32::MIN / 100)`. -/
def bannedThreshold : Int := 71 * Int.tdiv (-2 ^ 31) 100

/-- `OutgoingResponse`, with the sender that is told when the response has
been sent. -/
structure BuiltResponse where
  result : Except Unit ByteVec
  sentFeedback : Option Nat

/-- A request that has arrived. -/
structure InboundRequest (P : Type) where
  peer : P
  key : ProtocolRequestId
  request : WireMessage
  arrivedAt : Nat
  /-- The one-shot that the future in `pending_responses` awaits. -/
  rx : Oneshot BuiltResponse
  /-- `inner_channel`. -/
  channel : Oneshot ByteVec
  /-- What the handler has answered. -/
  answer : Option BuiltResponse

/-- `async_channel::bounded(capacity)`. -/
structure InboundQueue (P : Type) where
  capacity : Nat
  queue : List (IncomingRequest P Nat)
  closed : Bool

/-- `try_send`: `none` if the message is dropped. -/
def InboundQueue.trySend {P : Type} (q : InboundQueue P) (m : IncomingRequest P Nat) :
    Option (InboundQueue P) :=
  if q.closed || decide (q.capacity ≤ q.queue.length) then none
  else some { q with queue := q.queue ++ [m] }

/-- `Event::InboundRequest`. The id is not part of the event; libp2p has
reported it. -/
structure InboundReport (P : Type) where
  peer : P
  key : ProtocolRequestId
  result : Except InboundFailure Nat

/-- The inbound part of `RequestResponsesBehaviour`, with the handlers of
its queues. -/
structure InboundBehaviour (P : Type) where
  /-- `protocols`: those that are registered, with `inbound_queue`. -/
  queues : ProtocolName → Option (Option (InboundQueue P))
  requests : List (InboundRequest P)
  /-- `pending_responses_arrival_time`. -/
  arrivalTime : AList fun _ : ProtocolRequestId => Nat
  sendFeedback : AList fun _ : ProtocolRequestId => Nat
  /-- What the handlers have taken out of the queues. -/
  handled : List (IncomingRequest P Nat)
  /-- The feedback senders that were told. -/
  notified : List Nat
  /-- What `poll` has returned. -/
  reports : List (InboundReport P)

namespace InboundBehaviour

variable {P : Type}

/-- `RequestResponsesBehaviour::new`: the protocols and the capacities of
their inbound queues. -/
def new (capacities : ProtocolName → Option (Option Nat)) : InboundBehaviour P where
  queues name := (capacities name).map fun capacity =>
    capacity.map fun n => { capacity := n, queue := [], closed := false }
  requests := []
  arrivalTime := ∅
  sendFeedback := ∅
  handled := []
  notified := []
  reports := []

/-- A change to the request of that number. -/
def modifyRequest (b : InboundBehaviour P) (i : Nat)
    (f : InboundRequest P → InboundRequest P) : InboundBehaviour P :=
  { b with requests := b.requests.modify i f }

/-- The request is put into the inbound queue of its protocol. The result
tells whether it is there; if not, the sender of its one-shot is gone. -/
def submit (b : InboundBehaviour P) (protocol : ProtocolName) (m : IncomingRequest P Nat) :
    InboundBehaviour P × Bool :=
  match b.queues protocol with
  | some (some q) =>
      match q.trySend m with
      | some q => ({ b with queues := Function.update b.queues protocol (some (some q)) }, true)
      | none => (b, false)
  | _ => (b, false)

/-- `IncomingRequest { .. }`, as the handler gets it. -/
def incoming (peer : P) (request : WireMessage) (tx : Nat) : IncomingRequest P Nat where
  context := request.context
  peerId := peer
  isBroadcast := request.isBroadcast
  peerIndex := 0
  payload := request.payload.1
  pendingResponse := tx

/-- `Message::Request`. A peer with a low reputation is not served: the
channel of its request is dropped. -/
def onRequest (b : InboundBehaviour P) (now : Nat) (peer : P) (key : ProtocolRequestId)
    (request : WireMessage) (reputation : Int) : InboundBehaviour P :=
  let b := { b with arrivalTime := b.arrivalTime.insert key now }
  if reputation < bannedThreshold then
    { b with
        requests :=
          b.requests ++
            [{ peer := peer, key := key, request := request, arrivedAt := now, rx := .closed,
               channel := .canceled, answer := none }] }
  else
    match b.submit key.protocol (incoming peer request b.requests.length) with
    | (b, submitted) =>
        { b with
            requests :=
              b.requests ++
                [{ peer := peer, key := key, request := request, arrivedAt := now,
                   rx := if submitted then .waiting else .canceled, channel := .waiting,
                   answer := none }] }

/-- `behaviour.send_response(inner_channel, Ok(payload))`, and the feedback
sender is kept if libp2p takes the response. -/
def sendResponse (b : InboundBehaviour P) (i : Nat) (r : InboundRequest P) (payload : ByteVec)
    (sentFeedback : Option Nat) : InboundBehaviour P :=
  if r.channel.isWaiting then
    let b := b.modifyRequest i fun r => { r with rx := .closed, channel := .sent payload }
    match sentFeedback with
    | some feedback => { b with sendFeedback := b.sendFeedback.insert r.key feedback }
    | none => b
  else b.modifyRequest i fun r => { r with rx := .closed }

/-- The future of a request is through without a response: its channel is
dropped. -/
def omitResponse (b : InboundBehaviour P) (i : Nat) : InboundBehaviour P :=
  b.modifyRequest i fun r => { r with rx := .closed, channel := r.channel.cancel }

/-- A future in `pending_responses` is ready. -/
def pollResponse (b : InboundBehaviour P) (i : Nat) : Option (InboundBehaviour P) :=
  match b.requests[i]? with
  | none => none
  | some r =>
      match r.rx with
      | .sent ⟨.ok payload, sentFeedback⟩ =>
          if (b.queues r.key.protocol).isSome then
            some (b.sendResponse i r payload sentFeedback)
          else some (b.omitResponse i)
      | .sent ⟨.error (), _⟩ => some (b.omitResponse i)
      | .canceled => some (b.omitResponse i)
      | .waiting | .closed => none

/-- `InboundFailure`. -/
def onInboundFailure (b : InboundBehaviour P) (peer : P) (key : ProtocolRequestId)
    (error : InboundFailure) : InboundBehaviour P :=
  { b with
      arrivalTime := b.arrivalTime.erase key
      sendFeedback := b.sendFeedback.erase key
      reports := b.reports ++ [{ peer := peer, key := key, result := .error error }] }

/-- `ResponseSent`. There is no result if the arrival time is missing:
that panics. -/
def onResponseSent (b : InboundBehaviour P) (now : Nat) (peer : P) (key : ProtocolRequestId) :
    Option (InboundBehaviour P) :=
  (b.arrivalTime.lookup key).map fun arrivedAt =>
    { b with
        arrivalTime := b.arrivalTime.erase key
        sendFeedback := b.sendFeedback.erase key
        notified := b.notified ++ (b.sendFeedback.lookup key).toList
        reports := b.reports ++ [{ peer := peer, key := key, result := .ok (now - arrivedAt) }] }

/-! ### Handlers -/

/-- The handler of a protocol takes the next request out of its queue. -/
def takeRequest (b : InboundBehaviour P) (protocol : ProtocolName) : Option (InboundBehaviour P) :=
  match b.queues protocol with
  | some (some q) =>
      match q.queue with
      | m :: rest =>
          some
            { b with
                queues :=
                  Function.update b.queues protocol (some (some { q with queue := rest }))
                handled := b.handled ++ [m] }
      | [] => none
  | _ => none

/-- The handler of a protocol drops its end of the queue. -/
def closeQueue (b : InboundBehaviour P) (protocol : ProtocolName) : Option (InboundBehaviour P) :=
  match b.queues protocol with
  | some (some q) =>
      some
        { b with
            queues := Function.update b.queues protocol (some (some { q with closed := true })) }
  | _ => none

/-- The handler has the request of that number, and has not used its
one-shot. -/
def holdsHandle (b : InboundBehaviour P) (i : Nat) : Bool :=
  b.handled.any (·.pendingResponse = i) && (b.requests[i]?).any (·.rx.isWaiting)

/-- `pending_response.send(response)`. -/
def answer (b : InboundBehaviour P) (i : Nat) (response : BuiltResponse) :
    Option (InboundBehaviour P) :=
  if b.holdsHandle i then
    some (b.modifyRequest i fun r => { r with rx := .sent response, answer := some response })
  else none

/-- The handler drops the request. -/
def dropHandle (b : InboundBehaviour P) (i : Nat) : Option (InboundBehaviour P) :=
  if b.holdsHandle i then some (b.modifyRequest i fun r => { r with rx := .canceled }) else none

/-- libp2p drops its end of the channel. -/
def closeChannel (b : InboundBehaviour P) (i : Nat) : InboundBehaviour P :=
  b.modifyRequest i fun r =>
    { r with channel := if r.channel.isWaiting then .closed else r.channel }

/-! ### Runs -/

/-- What can happen next. -/
inductive Label (P : Type) where
  | request (now : Nat) (peer : P) (key : ProtocolRequestId) (request : WireMessage)
      (reputation : Int)
  | pollResponse (i : Nat)
  | responseSent (now : Nat) (peer : P) (key : ProtocolRequestId)
  | inboundFailure (peer : P) (key : ProtocolRequestId) (error : InboundFailure)
  | takeRequest (protocol : ProtocolName)
  | closeQueue (protocol : ProtocolName)
  | answer (i : Nat) (response : BuiltResponse)
  | dropHandle (i : Nat)
  | closeChannel (i : Nat)

/-- The behaviour, or its panic. -/
inductive State (P : Type) where
  | running (b : InboundBehaviour P)
  /-- `ResponseSent` for a request without an arrival time. -/
  | panicked

/-- A step of the behaviour with its handlers. -/
def next (b : InboundBehaviour P) : Label P → Option (State P)
  | .request now peer key request reputation =>
      some (.running (b.onRequest now peer key request reputation))
  | .pollResponse i => (b.pollResponse i).map .running
  | .responseSent now peer key =>
      match b.onResponseSent now peer key with
      | some b => some (.running b)
      | none => some .panicked
  | .inboundFailure peer key error => some (.running (b.onInboundFailure peer key error))
  | .takeRequest protocol => (b.takeRequest protocol).map .running
  | .closeQueue protocol => (b.closeQueue protocol).map .running
  | .answer i response => (b.answer i response).map .running
  | .dropHandle i => (b.dropHandle i).map .running
  | .closeChannel i => some (.running (b.closeChannel i))

/-- A step. Nothing follows a panic. -/
def step : State P → Label P → Option (State P)
  | .running b, l => b.next l
  | .panicked, _ => none

/-! ### libp2p's promises -/

/-- libp2p has reported the end of the request. -/
def isOver (b : InboundBehaviour P) (key : ProtocolRequestId) : Bool :=
  b.reports.any (·.key = key)

/-- The request with that id, if it has arrived. -/
def requestOf (b : InboundBehaviour P) (key : ProtocolRequestId) : Option (InboundRequest P) :=
  b.requests.find? (·.key = key)

/-- The response has been given to libp2p. -/
def isSent {α : Type} : Oneshot α → Bool
  | .sent _ => true
  | _ => false

/-- libp2p keeps its promises in this step. -/
def contract [DecidableEq P] (b : InboundBehaviour P) : Label P → Bool
  | .request _ _ key _ _ =>
      ((b.queues key.protocol).any (·.isSome)) && (b.requestOf key).isNone && !b.isOver key
  | .responseSent _ peer key =>
      !b.isOver key && (b.requestOf key).any fun r => decide (r.peer = peer) && isSent r.channel
  | .inboundFailure peer key _ =>
      !b.isOver key &&
        (b.requestOf key).all fun r => decide (r.peer = peer) && !r.channel.isWaiting
  | _ => true

/-- libp2p keeps its promises in this step of a running behaviour. -/
def promised [DecidableEq P] : State P → Label P → Bool
  | .running b, l => b.contract l
  | .panicked, _ => true

end InboundBehaviour

end FrostMpcTss.Network
