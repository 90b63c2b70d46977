import FrostMpcTss.Service.Coordination
import FrostMpcTss.Service.WrapExecution

/-!
# `FrostMpcTss.Service.Worker`: the loop that owns the rooms

`Worker::run` selects between a request of the service, an event of a
`Phase1Channel`, the end of an execution and the end of a proxy. Its
collections are keyed by room, or unordered sets of futures that belong
to one room each, so the model keeps them room by room (`Room`).

A step polls one future, with what that poll finds in its channels, and
handles the result if there is one. The negotiation or the
`Phase2Channel` that comes out of a `Phase1Channel` is awaited inside its
branch: until it is ready nothing else is polled.

Receivers, one-shots and proxy channels are named by numbers. The
configured rooms have the receivers `0, 1, 2, …`, and every later name is
fresh. A receiver that `dispatch_to_room` makes for lack of a sender has
no sender of its own, so nothing is ever read from it.

A one-shot's sender is kept under the room of its `Phase1Channel`, and
only there: it is alive while `rpc` names it.
-/

set_option autoImplicit false

namespace FrostMpcTss.Service

open Network

/-- `ServicetoWorkerMsg`. -/
inductive ServicetoWorkerMsg (κ : Type) where
  | keySign (n : Nat) (roomId : RoomId) (payload : Bytes) (sender : κ)
  | keyGen (t n : Nat) (roomId : RoomId) (payload : Bytes) (sender : κ)
deriving Repr, DecidableEq

/-- `service_msg_room_id`. -/
def serviceMsgRoomId {κ : Type} : ServicetoWorkerMsg κ → RoomId
  | .keySign _ roomId _ _ => roomId
  | .keyGen _ _ roomId _ _ => roomId

/-- `ProtocolAgentFactory`: whether `make` succeeds for a protocol, and
the protocols of the agents `keygen` and `keysign` make. -/
structure ProtocolAgentFactory where
  make : Nat → Bool
  keygen : Nat
  keysign : Nat

/-- A `Phase1Channel` in `rooms_coordination`, with what its one-shot
holds. -/
structure Listener (P ρ κ : Type) where
  channel : Phase1Channel P ρ
  sent : Option (LocalRpcMsg κ)

/-- An execution in `protocol_executions`. `fromNetwork` names the
proxy's channel it reads from. -/
structure RunningExecution (P ρ κ : Type) where
  fromNetwork : Nat
  wrap : WrapExecution P ρ κ

/-- What the coordination branch awaits. -/
inductive Awaited (P ρ κ : Type) where
  | phase2 (protocolId : Nat) (c : Phase2Channel P ρ)
  | negotiation (n : Nat) (c : NegotiationChannel P κ)

/-- What the worker does to the requests and messages of a room. -/
inductive WorkerEvent (ρ κ : Type) where
  /-- A request was taken from `from_service`. -/
  | took (msg : ServicetoWorkerMsg κ)
  /-- `dispatch_local_msg` returned true. -/
  | dispatched (msg : ServicetoWorkerMsg κ)
  /-- A value was sent on a `pending_response`. -/
  | answered (tx : κ) (result : AgentResult)
  /-- An inbound request was answered. -/
  | responded (tx : ρ) (response : OutgoingResponse)

/-- The entries of the worker's collections for one room. -/
structure Room (P ρ κ : Type) where
  /-- `rooms_coordination` -/
  coordination : List (Listener P ρ κ)
  /-- `rooms_rpc` -/
  rpc : Option Nat
  /-- `busy_rooms` -/
  busy : Bool
  /-- `pending_room_restores`; the sender belongs to the channel. -/
  restore : Option (Phase1Channel P ρ)
  /-- `pending_local` -/
  pendingLocal : List (ServicetoWorkerMsg κ)
  /-- `network_proxies` -/
  proxies : List (ReceiverProxy P ρ)
  /-- `protocol_executions` -/
  executions : List (RunningExecution P ρ κ)
  trace : List (WorkerEvent ρ κ)

/-- The outcome of a branch: the room after it and what is awaited. -/
abbrev Branch (P ρ κ : Type) := Except Panic (Room P ρ κ × Option (Awaited P ρ κ))

namespace Room

variable {P ρ κ : Type}

def empty : Room P ρ κ where
  coordination := []
  rpc := none
  busy := false
  restore := none
  pendingLocal := []
  proxies := []
  executions := []
  trace := []

def log (room : Room P ρ κ) (events : List (WorkerEvent ρ κ)) : Room P ρ κ :=
  { room with trace := room.trace ++ events }

/-- Log the answers to inbound requests. -/
def respond (room : Room P ρ κ) (answers : Answers ρ) : Room P ρ κ :=
  room.log (answers.map fun a => .responded a.1 a.2)

/-- What a session answers. -/
def eventsOf (effects : List (Effect P ρ κ)) : List (WorkerEvent ρ κ) :=
  effects.filterMap fun
    | .answered tx result => some (.answered tx result)
    | .respond tx response => some (.responded tx response)
    | _ => none

/-- `request.try_recv()`. -/
def tryRecv (room : Room P ρ κ) (l : Listener P ρ κ) : TryRecv (LocalRpcMsg κ) :=
  match l.sent with
  | some msg => .value msg
  | none => if room.rpc = some l.channel.request then .empty else .canceled

/-- `tx.send(..)`, or nothing if `tx.is_canceled()`. A sender goes with
its message, so the one-shot is still empty. -/
def sendTo (request : Nat) (msg : LocalRpcMsg κ) :
    List (Listener P ρ κ) → Option (List (Listener P ρ κ))
  | [] => none
  | l :: ls =>
      if l.sent.isNone ∧ l.channel.request = request then
        some ({ l with sent := some msg } :: ls)
      else (sendTo request msg ls).map (l :: ·)

/-- `rooms_coordination.push` and `rooms_rpc.insert`. -/
def listen (room : Room P ρ κ) (c : Phase1Channel P ρ) : Room P ρ κ :=
  { room with
      coordination := room.coordination ++ [{ channel := c, sent := none }]
      rpc := some c.request }

/-- The room's sender, or the one of a placeholder. -/
def takeSender (room : Room P ρ κ) (roomId : RoomId) (fresh : Nat) : Nat × Room P ρ κ :=
  match room.rpc with
  | some tx => (tx, { room with rpc := none })
  | none =>
      (fresh,
        { room with
            coordination := room.coordination ++
              [{ channel := Phase1Channel.new roomId fresh fresh, sent := none }] })

/-- `dispatch_to_room`. -/
def dispatchToRoom (room : Room P ρ κ) (roomId : RoomId) (fresh : Nat)
    (localMsg : LocalRpcMsg κ) : Room P ρ κ × Bool :=
  let (tx, room) := room.takeSender roomId fresh
  match sendTo tx localMsg room.coordination with
  | some coordination => ({ room with coordination := coordination }, true)
  | none =>
      (room.log [.answered localMsg.pendingResponse (.error "sender is canceled")], false)

/-- The `LocalRpcMsg` of `dispatch_local_msg`. -/
def localRpcMsg (client : ProtocolAgentFactory) : ServicetoWorkerMsg κ → LocalRpcMsg κ
  | .keyGen _ n _ payload sender =>
      { n := n, payload := payload, protocolId := client.keygen, pendingResponse := sender }
  | .keySign n _ payload sender =>
      { n := n, payload := payload, protocolId := client.keysign, pendingResponse := sender }

/-- `dispatch_local_msg`, and `busy_rooms.insert` if it returns true. -/
def dispatchLocalMsg (client : ProtocolAgentFactory) (room : Room P ρ κ) (fresh : Nat)
    (msg : ServicetoWorkerMsg κ) : Room P ρ κ :=
  match room.dispatchToRoom (serviceMsgRoomId msg) fresh (localRpcMsg client msg) with
  | (room, true) => { room.log [.dispatched msg] with busy := true }
  | (room, false) => room

/-- `dispatch_pending_local`. -/
def dispatchPendingLocal (client : ProtocolAgentFactory) (room : Room P ρ κ) (fresh : Nat) :
    Room P ρ κ :=
  if room.busy then room
  else
    match room.pendingLocal with
    | [] => room
    | msg :: rest => dispatchLocalMsg client { room with pendingLocal := rest } fresh msg

/-- The room listens again, and its queue is served. -/
def comeBack (client : ProtocolAgentFactory) (room : Room P ρ κ) (fresh : Nat)
    (c : Phase1Channel P ρ) : Room P ρ κ :=
  dispatchPendingLocal client (room.listen c) fresh

/-- The branch of `from_service`. -/
def takeLocal (client : ProtocolAgentFactory) (room : Room P ρ κ) (fresh : Nat)
    (msg : ServicetoWorkerMsg κ) : Room P ρ κ :=
  let room := room.log [.took msg]
  if room.busy then { room with pendingLocal := room.pendingLocal ++ [msg] }
  else dispatchLocalMsg client room fresh msg

/-- A `Phase1Channel` is polled, and its event handled. -/
def pollPhase1 (client : ProtocolAgentFactory) (localPeerId : P) (room : Room P ρ κ)
    (fresh k : Nat) (l : Listener P ρ κ) (next : Option (IncomingRequest P ρ))
    (sessionId : SessionId) (now : Nat) : Branch P ρ κ :=
  let removed := room.coordination.eraseIdx k
  match l.channel.poll localPeerId next (room.tryRecv l) sessionId now with
  | .pending c answers =>
      .ok
        (respond { room with coordination := room.coordination.set k { l with channel := c } }
          answers, none)
  | .fromRemote _ protocolId _ responseTx channel =>
      if client.make protocolId then
        .ok
          (respond { room with coordination := removed, busy := true } [(responseTx, .ok [])],
            some (.phase2 protocolId channel))
      else
        let (_, phase1, answers) := channel.abort fresh
        .ok
          (comeBack client (respond { room with coordination := removed, busy := false } answers)
            fresh phase1, none)
  | .fromLocal _ n negotiation answers =>
      .ok (respond { room with coordination := removed } answers, some (.negotiation n negotiation))
  | .panic why => .error why

/-- A proxy and its execution are started. -/
def startSession (room : Room P ρ κ) (receiverProxy : ReceiverProxy P ρ)
    (wrap : Except Panic (WrapExecution P ρ κ)) : Branch P ρ κ :=
  wrap.map fun wrap =>
    ({ room with
        busy := true
        proxies := room.proxies ++ [receiverProxy]
        executions := room.executions ++ [{ fromNetwork := receiverProxy.tx, wrap := wrap }] },
      none)

/-- The awaited `Phase2Channel` is polled. -/
def pollPhase2 [DecidableEq P] [PeerIdCodec P] [UnsignedVarint] (client : ProtocolAgentFactory)
    (localPeerId : P) (room : Room P ρ κ) (fresh protocolId : Nat) (c : Phase2Channel P ρ)
    (next : Option (IncomingRequest P ρ)) (now : Nat) : Branch P ρ κ :=
  match c.poll localPeerId next now fresh with
  | .pending c answers => .ok (room.respond answers, some (.phase2 protocolId c))
  | .start _ receiverProxy peerset _ sessionId =>
      room.startSession receiverProxy
        (WrapExecution.new peerset.size sessionId protocolId peerset none)
  | .abort _ phase1 answers =>
      .ok (comeBack client (respond { room with busy := false } answers) fresh phase1, none)
  | .panic why => .error why

/-- The awaited negotiation is polled. -/
def pollNegotiation [DecidableEq P] [PeerIdCodec P] [UnsignedVarint]
    (client : ProtocolAgentFactory) (room : Room P ρ κ) (fresh n : Nat)
    (c : NegotiationChannel P κ) (input : NegotiationInput P) : Branch P ρ κ :=
  match (c.poll input fresh : NegotiationPoll P ρ κ) with
  | .pending c => .ok (room, some (.negotiation n c))
  | .proposed c => .ok (room, some (.negotiation n c))
  | .start protocolId pendingResponse receiverProxy peerset _ sessionId _ _ =>
      room.startSession receiverProxy
        (WrapExecution.new n sessionId protocolId peerset (some pendingResponse))
  | .abort _ phase1 pendingResponse =>
      let answered := log { room with busy := false }
        [.answered pendingResponse
          (.error "Negotiation aborted: timeout or failed to assemble peerset")]
      .ok (comeBack client answered fresh phase1, none)
  | .panic why => .error why

/-- The execution at the other end of a proxy's channel, while its
receiver is there. -/
def reader (room : Room P ρ κ) (tx : Nat) : Option (ProtocolExecution P ρ κ) :=
  (room.executions.find? (·.fromNetwork = tx)).bind (·.wrap.computation)

/-- Put messages into a proxy's channel. -/
def deliver (tx : Nat) (feed : List (IncomingRequest P ρ)) (x : RunningExecution P ρ κ) :
    RunningExecution P ρ κ :=
  if x.fromNetwork = tx then
    { x with
        wrap :=
          { x.wrap with
              computation := x.wrap.computation.map fun s =>
                { s with fromNetwork := s.fromNetwork ++ feed } } }
  else x

/-- A proxy is polled, and its end handled. -/
def pollProxy [DecidableEq P] (client : ProtocolAgentFactory) (room : Room P ρ κ)
    (fresh k : Nat) (p : ReceiverProxy P ρ) (next : Option (IncomingRequest P ρ)) :
    Room P ρ κ :=
  let reader := room.reader p.tx
  let queued := (reader.map (·.fromNetwork.length)).getD 0
  match p.poll reader.isNone queued next fresh with
  | .ready _ phase1 =>
      let room := { room with proxies := room.proxies.eraseIdx k }
      if room.busy then { room with restore := some phase1 }
      else comeBack client room fresh phase1
  | .pending p' _ feed answers =>
      respond
        { room with
            proxies := room.proxies.set k p'
            executions := room.executions.map (deliver p.tx feed) }
        answers

/-- The branch of `protocol_executions`, for `Ok` and `Err` alike. -/
def finishExecution (client : ProtocolAgentFactory) (room : Room P ρ κ) (fresh : Nat) :
    Room P ρ κ :=
  let room := { room with busy := false }
  match room.restore with
  | some phase1 => comeBack client { room with restore := none } fresh phase1
  | none => room

/-- An execution takes a step, and its end is handled. -/
def pollExecution [DecidableEq P] [Blake2s256] (client : ProtocolAgentFactory)
    (room : Room P ρ κ) (fresh k : Nat) (x : RunningExecution P ρ κ) (l : WrapLabel P ρ) :
    Option (Branch P ρ κ) :=
  (x.wrap.step l).map fun
    | (.running wrap, effects) =>
        .ok
          (log { room with executions := room.executions.set k { x with wrap := wrap } }
            (eventsOf effects), none)
    | (.returned _, effects) =>
        .ok
          (finishExecution client
            (log { room with executions := room.executions.eraseIdx k } (eventsOf effects))
            fresh, none)
    | (.panicked why, _) => .error why

end Room

/-- What the worker is built from. -/
structure WorkerConfig (P : Type) where
  localPeerId : P
  rooms : List RoomId
  client : ProtocolAgentFactory

/-- `Worker::run` between two polls. -/
structure Worker (P ρ κ : Type) where
  rooms : RoomId → Room P ρ κ
  awaited : Option (RoomId × Awaited P ρ κ)
  fresh : Nat
  panicked : Option Panic

/-- What can happen next. -/
inductive WorkerLabel (P ρ κ : Type) where
  | takeLocal (msg : ServicetoWorkerMsg κ)
  | pollPhase1 (roomId : RoomId) (k : Nat) (next : Option (IncomingRequest P ρ))
      (sessionId : SessionId) (now : Nat)
  | pollPhase2 (next : Option (IncomingRequest P ρ)) (now : Nat)
  | pollNegotiation (input : NegotiationInput P)
  | pollProxy (roomId : RoomId) (k : Nat) (next : Option (IncomingRequest P ρ))
  | pollExecution (roomId : RoomId) (k : Nat) (l : WrapLabel P ρ)

namespace Worker

variable {P ρ κ : Type}

/-- A configured room starts with a `Phase1Channel` on its receiver. -/
def startRoom (cfg : WorkerConfig P) (roomId : RoomId) : Room P ρ κ :=
  if roomId ∈ cfg.rooms then
    let k := cfg.rooms.idxOf roomId
    Room.listen Room.empty (Phase1Channel.new roomId k k)
  else Room.empty

def start (cfg : WorkerConfig P) : Worker P ρ κ where
  rooms := startRoom cfg
  awaited := none
  fresh := cfg.rooms.length
  panicked := none

/-- The branch of a room is done. -/
def finish (w : Worker P ρ κ) (roomId : RoomId) : Branch P ρ κ → Worker P ρ κ
  | .ok (room, awaited) =>
      { w with
          rooms := Function.update w.rooms roomId room
          awaited := awaited.map (roomId, ·)
          fresh := w.fresh + 1 }
  | .error why => { w with panicked := some why }

/-- Nothing is read from a placeholder. -/
def mayRead (cfg : WorkerConfig P) (rx : Nat) (next : Option (IncomingRequest P ρ)) : Bool :=
  next.isNone || rx < cfg.rooms.length

/-- A branch of `select!`, when nothing is awaited. -/
def select [DecidableEq P] [Blake2s256] (cfg : WorkerConfig P) (w : Worker P ρ κ) :
    WorkerLabel P ρ κ → Option (Worker P ρ κ)
  | .takeLocal msg =>
      let roomId := serviceMsgRoomId msg
      some (w.finish roomId
        (.ok ((w.rooms roomId).takeLocal cfg.client w.fresh msg, none)))
  | .pollPhase1 roomId k next sessionId now =>
      ((w.rooms roomId).coordination[k]?.filter fun l => mayRead cfg l.channel.rx next).map
        fun l => w.finish roomId
          ((w.rooms roomId).pollPhase1 cfg.client cfg.localPeerId w.fresh k l next sessionId now)
  | .pollProxy roomId k next =>
      ((w.rooms roomId).proxies[k]?.filter fun p => mayRead cfg p.requestReceiver next).map
        fun p =>
          w.finish roomId (.ok ((w.rooms roomId).pollProxy cfg.client w.fresh k p next, none))
  | .pollExecution _ _ (.deliver _) => none
  | .pollExecution roomId k l =>
      ((w.rooms roomId).executions[k]?.bind fun x =>
        (w.rooms roomId).pollExecution cfg.client w.fresh k x l).map (w.finish roomId)
  | _ => none

/-- The awaited future is polled. -/
def pollAwaited [DecidableEq P] [PeerIdCodec P] [UnsignedVarint] (cfg : WorkerConfig P)
    (w : Worker P ρ κ) (roomId : RoomId) :
    Awaited P ρ κ → WorkerLabel P ρ κ → Option (Worker P ρ κ)
  | .phase2 protocolId c, .pollPhase2 next now =>
      if mayRead cfg c.rx next then
        some (w.finish roomId
          ((w.rooms roomId).pollPhase2 cfg.client cfg.localPeerId w.fresh protocolId c next now))
      else none
  | .negotiation n c, .pollNegotiation input =>
      some (w.finish roomId ((w.rooms roomId).pollNegotiation cfg.client w.fresh n c input))
  | _, _ => none

/-- One step of the worker. Nothing follows a panic. -/
def step [DecidableEq P] [Blake2s256] [PeerIdCodec P] [UnsignedVarint] (cfg : WorkerConfig P)
    (w : Worker P ρ κ) (l : WorkerLabel P ρ κ) : Option (Worker P ρ κ) :=
  match w.panicked, w.awaited with
  | some _, _ => none
  | none, none => w.select cfg l
  | none, some (roomId, awaited) => w.pollAwaited cfg roomId awaited l

end Worker

end FrostMpcTss.Service
