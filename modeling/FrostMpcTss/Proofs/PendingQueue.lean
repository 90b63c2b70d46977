import FrostMpcTss.Proofs.RoomOwnership

/-!
# `FrostMpcTss.Proofs.PendingQueue`: the requests that wait for a room

A request for a busy room waits in `pending_local`, and the branches that
let the room listen again serve the head of its queue. `served` says that
a room with a queue is busy or has a proxy whose end serves it, and
`inOrder` that requests are dispatched in the order in which they were
taken.

Both hold in the runs without a placeholder for a room with a proxy. A
request that is dispatched to one overtakes the queue. Later there can be
two sessions in the room, and the end of the second one clears the busy
mark of the request that the first one's end has dispatched.
-/

set_option autoImplicit false

namespace FrostMpcTss.Proofs

open Lib Network Service
open Service.Room

section Served

variable {P ρ κ : Type} {cfg : WorkerConfig P}

/-- A room with a queue is busy, or it has a proxy, and the next poll of
the proxy dispatches the head of the queue. -/
structure Served [DecidableEq P] (room : Room P ρ κ) : Prop where
  held : room.pendingLocal ≠ [] → room.busy = true ∨ room.proxies ≠ []
  dispatches : ∀ (msg : ServicetoWorkerMsg κ) (rest : List (ServicetoWorkerMsg κ))
    (client : ProtocolAgentFactory) (fresh k : Nat) (p : ReceiverProxy P ρ)
    (next : Option (IncomingRequest P ρ)), room.pendingLocal = msg :: rest →
    room.busy = false → room.proxies[k]? = some p →
    (room.pollProxy client fresh k p next).busy = true ∧
      (room.pollProxy client fresh k p next).pendingLocal = rest

/-- In every form a request is dispatched, or something runs that will come
back for it. -/
theorem served_of_shape [DecidableEq P] {rx : Nat} {a : Option (Awaited P ρ κ)}
    {room : Room P ρ κ} (h : Shape rx a room) : Served room := by
  cases h with
  | idle _ _ _ => exact ⟨fun hne => absurd rfl hne, nofun⟩
  | waiting _ _ _ _ _ _ => exact ⟨fun _ => .inl rfl, nofun⟩
  | awaited _ _ _ _ _ => exact ⟨fun _ => .inl rfl, nofun⟩
  | running _ _ _ _ _ _ _ => exact ⟨fun _ => .inl rfl, nofun⟩
  | proxyDone _ _ _ _ _ _ _ => exact ⟨fun _ => .inl rfl, nofun⟩
  | executionDone p rpc pendingLocal trace hp =>
      refine ⟨fun _ => .inr (List.cons_ne_nil _ _), ?_⟩
      rintro msg rest client fresh k q next rfl _ hq
      obtain ⟨rfl, rfl⟩ := getElem?_singleton_eq_some hq
      -- nobody reads from the proxy's channel, so it ends
      have hroom : Room.pollProxy client
          { coordination := [], rpc := rpc, busy := false, restore := none,
            pendingLocal := msg :: rest, proxies := [q], executions := [], trace := trace }
          fresh 0 q next
        = comeBack client
          { coordination := [], rpc := rpc, busy := false, restore := none,
            pendingLocal := msg :: rest, proxies := [], executions := [], trace := trace }
          fresh (Phase1Channel.new q.roomId q.requestReceiver fresh) := rfl
      rw [hroom, comeBack_cons]
      exact ⟨rfl, rfl⟩

/-- In every run of the worker in which no request makes a placeholder for
a room with an unfinished proxy, no queue is left alone. -/
theorem served [DecidableEq P] [Blake2s256] [PeerIdCodec P] [UnsignedVarint]
    (cfg : WorkerConfig P) {w : Worker P ρ κ}
    (hreach : Reach (Worker.step cfg) (fun w l => noPlaceholder w l = true) (Worker.start cfg)
      w) (roomId : RoomId) : Served (w.rooms roomId) := by
  have hshape : WorkerShape cfg w := hreach.invariant (workerShape_start cfg)
    fun _ _ _ hw hl hstep => workerShape_step hw hl hstep
  rcases hshape.rooms roomId with ⟨rx, _, h⟩ | ⟨_, _, hempty⟩
  · exact served_of_shape h
  · rw [hempty]
    exact ⟨fun hne => absurd rfl hne, nofun⟩

end Served

section Order

variable {P ρ κ : Type} {cfg : WorkerConfig P} {room : Room P ρ κ}

/-- The requests taken from the service. -/
def takenIn (trace : List (WorkerEvent ρ κ)) : List (ServicetoWorkerMsg κ) :=
  trace.filterMap fun
    | .took msg => some msg
    | _ => none

/-- The requests dispatched. -/
def dispatchedIn (trace : List (WorkerEvent ρ κ)) : List (ServicetoWorkerMsg κ) :=
  trace.filterMap fun
    | .dispatched msg => some msg
    | _ => none

/-- The requests dispatched and then those that wait are in the order in
which they were taken. Those that were answered at once are missing. -/
def InOrder (room : Room P ρ κ) : Prop :=
  (dispatchedIn room.trace ++ room.pendingLocal).Sublist (takenIn room.trace)

theorem takenIn_append (trace events : List (WorkerEvent ρ κ)) :
    takenIn (trace ++ events) = takenIn trace ++ takenIn events :=
  List.filterMap_append

theorem dispatchedIn_append (trace events : List (WorkerEvent ρ κ)) :
    dispatchedIn (trace ++ events) = dispatchedIn trace ++ dispatchedIn events :=
  List.filterMap_append

/-- Events that are only answers. -/
structure OnlyAnswers (events : List (WorkerEvent ρ κ)) : Prop where
  taken : takenIn events = []
  dispatched : dispatchedIn events = []

theorem onlyAnswers_responses (answers : Answers ρ) :
    OnlyAnswers (answers.map fun a => (.responded a.1 a.2 : WorkerEvent ρ κ)) := by
  constructor
  · simp [takenIn]
  · simp [dispatchedIn]

/-- An execution takes and dispatches no request. -/
theorem onlyAnswers_eventsOf (effects : List (Effect P ρ κ)) : OnlyAnswers (eventsOf effects) := by
  constructor
  · rw [takenIn, eventsOf, List.filterMap_filterMap, List.filterMap_eq_nil_iff]
    intro effect _
    cases effect <;> rfl
  · rw [dispatchedIn, eventsOf, List.filterMap_filterMap, List.filterMap_eq_nil_iff]
    intro effect _
    cases effect <;> rfl

/-- Answers change nothing. -/
theorem InOrder.answers {room' : Room P ρ κ} {events : List (WorkerEvent ρ κ)} (h : InOrder room)
    (hevents : OnlyAnswers events) (htrace : room'.trace = room.trace ++ events)
    (hpending : room'.pendingLocal = room.pendingLocal) : InOrder room' := by
  unfold InOrder
  rw [htrace, hpending, takenIn_append, dispatchedIn_append, hevents.taken, hevents.dispatched,
    List.append_nil, List.append_nil]
  exact h

theorem InOrder.congr {room' : Room P ρ κ} (h : InOrder room) (htrace : room'.trace = room.trace)
    (hpending : room'.pendingLocal = room.pendingLocal) : InOrder room' := by
  unfold InOrder
  rw [htrace, hpending]
  exact h

/-- The request that is dispatched was the next one. -/
theorem inOrder_dispatches {room' : Room P ρ κ} (msg : ServicetoWorkerMsg κ)
    (h : (dispatchedIn room.trace ++ msg :: room.pendingLocal).Sublist (takenIn room.trace))
    (hdispatches : Dispatches room msg room') : InOrder room' := by
  unfold InOrder
  cases hdispatches with
  | sent _ =>
      rw [takenIn_append, dispatchedIn_append]
      show (dispatchedIn room.trace ++ [msg] ++ room.pendingLocal).Sublist
        (takenIn room.trace ++ [])
      rw [List.append_nil, List.append_assoc]
      exact h
  | canceled _ =>
      rw [takenIn_append, dispatchedIn_append]
      show (dispatchedIn room.trace ++ [] ++ room.pendingLocal).Sublist
        (takenIn room.trace ++ [])
      rw [List.append_nil, List.append_nil]
      exact (List.Sublist.append_left (List.sublist_cons_self _ _) _).trans h

/-- The head of the queue is the next to be dispatched. -/
theorem InOrder.comeBack (client : ProtocolAgentFactory) (fresh : Nat) (c : Phase1Channel P ρ)
    (h : InOrder room) : InOrder (Room.comeBack client room fresh c) := by
  unfold Room.comeBack Room.dispatchPendingLocal
  have hlisten : InOrder (room.listen c) := h
  split
  · exact hlisten
  · cases hpending : (room.listen c).pendingLocal with
    | nil => exact hlisten
    | cons msg rest =>
        refine inOrder_dispatches msg ?_ (dispatches_dispatchLocalMsg _ _ _ _)
        unfold InOrder at hlisten
        rw [hpending] at hlisten
        exact hlisten

/-- A direct dispatch is in order if nothing waits. With a queue there is
no sender, and the request is answered at once. -/
theorem inOrder_takeLocal {rx : Nat} (client : ProtocolAgentFactory) (fresh : Nat)
    (msg : ServicetoWorkerMsg κ) (hshape : Shape rx none room) (hkeeps : keepsReceiver room = true)
    (h : InOrder room) : InOrder (room.takeLocal client fresh msg) := by
  have htaken : (dispatchedIn (room.trace ++ [WorkerEvent.took msg])
      ++ (room.pendingLocal ++ [msg])).Sublist
        (takenIn (room.trace ++ [WorkerEvent.took msg])) := by
    rw [takenIn_append, dispatchedIn_append]
    show (dispatchedIn room.trace ++ [] ++ (room.pendingLocal ++ [msg])).Sublist
      (takenIn room.trace ++ [msg])
    rw [List.append_nil, ← List.append_assoc]
    exact h.append_right [msg]
  cases hshape with
  | idle c trace _ =>
      exact inOrder_dispatches msg htaken (dispatches_dispatchLocalMsg _ _ _ _)
  | waiting _ _ _ _ _ _ => exact htaken
  | running _ _ _ _ _ _ _ => exact htaken
  | proxyDone _ _ _ _ _ _ _ => exact htaken
  | executionDone p rpc pendingLocal trace _ =>
      cases rpc with
      | none => cases hkeeps
      | some tx =>
          have hlogged : InOrder (Room.log (P := P)
              { coordination := [], rpc := none, busy := false, restore := none,
                pendingLocal := pendingLocal, proxies := [p], executions := [], trace := trace }
              [.took msg]) :=
            (List.Sublist.append_left (List.sublist_append_left _ [msg]) _).trans htaken
          exact hlogged.answers ⟨rfl, rfl⟩ rfl rfl

/-- The branch leaves the room in order. -/
def BranchInOrder : Branch P ρ κ → Prop
  | .ok (room, _) => InOrder room
  | .error _ => True

theorem InOrder.respond (h : InOrder room) (answers : Answers ρ) : InOrder (room.respond answers) :=
  h.answers (onlyAnswers_responses answers) rfl rfl

/-- Phase 1 dispatches nothing. -/
theorem inOrder_pollPhase1 (client : ProtocolAgentFactory) (localPeerId : P) (fresh k : Nat)
    (l : Listener P ρ κ) (next : Option (IncomingRequest P ρ)) (sessionId : SessionId) (now : Nat)
    (h : InOrder room) :
    BranchInOrder (room.pollPhase1 client localPeerId fresh k l next sessionId now) := by
  unfold Room.pollPhase1
  cases l.channel.poll localPeerId next (room.tryRecv l) sessionId now with
  | pending c answers => exact InOrder.respond (h.congr rfl rfl) answers
  | fromRemote _ protocolId _ responseTx channel =>
      simp only
      split
      · exact InOrder.respond (h.congr rfl rfl) _
      · exact InOrder.comeBack _ _ _ (InOrder.respond (h.congr rfl rfl) _)
  | fromLocal _ n negotiation answers => exact InOrder.respond (h.congr rfl rfl) answers
  | panic why => exact trivial

theorem inOrder_startSession (receiverProxy : ReceiverProxy P ρ)
    (wrap : Except Panic (WrapExecution P ρ κ)) (h : InOrder room) :
    BranchInOrder (room.startSession receiverProxy wrap) := by
  cases wrap with
  | error why => exact trivial
  | ok wrap => exact h.congr rfl rfl

/-- An abort serves the queue, a start leaves it. -/
theorem inOrder_pollPhase2 [DecidableEq P] [PeerIdCodec P] [UnsignedVarint]
    (client : ProtocolAgentFactory) (localPeerId : P) (fresh protocolId : Nat)
    (c : Phase2Channel P ρ) (next : Option (IncomingRequest P ρ)) (now : Nat) (h : InOrder room) :
    BranchInOrder (room.pollPhase2 client localPeerId fresh protocolId c next now) := by
  unfold Room.pollPhase2
  cases c.poll localPeerId next now fresh with
  | pending c answers => exact InOrder.respond h answers
  | start _ receiverProxy peerset _ sessionId => exact inOrder_startSession _ _ h
  | abort _ phase1 answers => exact InOrder.comeBack _ _ _ (InOrder.respond (h.congr rfl rfl) _)
  | panic why => exact trivial

/-- So does a negotiation. -/
theorem inOrder_pollNegotiation [DecidableEq P] [PeerIdCodec P] [UnsignedVarint]
    (client : ProtocolAgentFactory) (fresh n : Nat) (c : NegotiationChannel P κ)
    (input : NegotiationInput P) (h : InOrder room) :
    BranchInOrder (room.pollNegotiation client fresh n c input) := by
  unfold Room.pollNegotiation
  cases (c.poll input fresh : NegotiationPoll P ρ κ) with
  | pending c => exact h
  | proposed c => exact h
  | start protocolId pendingResponse receiverProxy peerset _ sessionId _ _ =>
      exact inOrder_startSession _ _ h
  | abort _ phase1 pendingResponse =>
      exact InOrder.comeBack _ _ _ (h.answers ⟨rfl, rfl⟩ rfl rfl)
  | panic why => exact trivial

/-- The end of a proxy serves the queue of a room that is not busy. -/
theorem inOrder_pollProxy [DecidableEq P] (client : ProtocolAgentFactory) (fresh k : Nat)
    (p : ReceiverProxy P ρ) (next : Option (IncomingRequest P ρ)) (h : InOrder room) :
    InOrder (room.pollProxy client fresh k p next) := by
  unfold Room.pollProxy
  simp only
  split
  · split
    · exact h.congr rfl rfl
    · exact InOrder.comeBack _ _ _ (h.congr rfl rfl)
  · exact InOrder.respond (h.congr rfl rfl) _

theorem inOrder_finishExecution (client : ProtocolAgentFactory) (fresh : Nat) (h : InOrder room) :
    InOrder (room.finishExecution client fresh) := by
  unfold Room.finishExecution
  simp only
  split
  · exact InOrder.comeBack _ _ _ (h.congr rfl rfl)
  · exact h.congr rfl rfl

/-- An execution that ends dispatches the head of the queue. -/
theorem inOrder_pollExecution [DecidableEq P] [Blake2s256] {branch : Branch P ρ κ}
    (client : ProtocolAgentFactory) (fresh k : Nat) (x : RunningExecution P ρ κ) (l : WrapLabel P ρ)
    (h : InOrder room) (hbranch : room.pollExecution client fresh k x l = some branch) :
    BranchInOrder branch := by
  obtain ⟨⟨state, effects⟩, _, rfl⟩ := Option.map_eq_some_iff.mp hbranch
  cases state with
  | running wrap => exact h.answers (onlyAnswers_eventsOf effects) rfl rfl
  | returned _ =>
      exact inOrder_finishExecution _ _ (h.answers (onlyAnswers_eventsOf effects) rfl rfl)
  | panicked why => exact trivial

/-- A step that leaves its own room in order leaves every room in order. -/
theorem inOrder_finish {w : Worker P ρ κ} {roomId : RoomId} {branch : Branch P ρ κ}
    (h : ∀ roomId, InOrder (w.rooms roomId)) (hbranch : BranchInOrder branch)
    (roomId' : RoomId) : InOrder ((w.finish roomId branch).rooms roomId') := by
  cases branch with
  | error why => exact h roomId'
  | ok result =>
      obtain ⟨room, a⟩ := result
      show InOrder (Function.update w.rooms roomId room roomId')
      by_cases heq : roomId' = roomId
      · rw [heq, Function.update_self]
        exact hbranch
      · rw [Function.update_of_ne heq]
        exact h roomId'

/-- Every step keeps the order. -/
theorem inOrder_step [DecidableEq P] [Blake2s256] [PeerIdCodec P] [UnsignedVarint]
    {w w' : Worker P ρ κ} {l : WorkerLabel P ρ κ} (hshape : WorkerShape cfg w)
    (h : ∀ roomId, InOrder (w.rooms roomId)) (hl : noPlaceholder w l = true)
    (hstep : w.step cfg l = some w') (roomId : RoomId) : InOrder (w'.rooms roomId) := by
  obtain ⟨roomId', branch, hsteps, rfl⟩ := workerSteps_step hstep
  refine inOrder_finish h ?_ roomId
  cases hsteps with
  | @takeLocal msg hawaited =>
      have hroom := hshape.rooms (serviceMsgRoomId msg)
      rw [awaitedAt_eq_none hawaited] at hroom
      rcases hroom with ⟨rx, _, hroom⟩ | ⟨_, _, hempty⟩
      · exact inOrder_takeLocal _ _ _ hroom hl (h _)
      · rw [hempty]
        have hdispatches := dispatches_dispatchLocalMsg cfg.client
          ((Room.empty : Room P ρ κ).log [.took msg]) w.fresh msg
        refine inOrder_dispatches msg ?_ hdispatches
        exact List.Sublist.refl [msg]
  | pollPhase1 _ _ => exact inOrder_pollPhase1 _ _ _ _ _ _ _ _ (h _)
  | pollProxy _ _ => exact inOrder_pollProxy _ _ _ _ _ (h _)
  | pollExecution _ _ _ hbranch => exact inOrder_pollExecution _ _ _ _ _ (h _) hbranch
  | pollPhase2 _ => exact inOrder_pollPhase2 _ _ _ _ _ _ _ (h _)
  | pollNegotiation _ => exact inOrder_pollNegotiation _ _ _ _ _ (h _)

theorem inOrder_startRoom (cfg : WorkerConfig P) (roomId : RoomId) :
    InOrder (Worker.startRoom cfg roomId : Room P ρ κ) := by
  unfold Worker.startRoom
  split <;> exact List.nil_sublist _

/-- In every run of the worker in which no request makes a placeholder for
a room with an unfinished proxy, each room's requests are dispatched in
the order in which they were taken. -/
theorem inOrder [DecidableEq P] [Blake2s256] [PeerIdCodec P] [UnsignedVarint]
    (cfg : WorkerConfig P) {w : Worker P ρ κ}
    (hreach : Reach (Worker.step cfg) (fun w l => noPlaceholder w l = true) (Worker.start cfg)
      w) (roomId : RoomId) : InOrder (w.rooms roomId) := by
  have hinv := hreach.invariant
    (I := fun w => WorkerShape cfg w ∧ ∀ roomId, InOrder (w.rooms roomId))
    ⟨workerShape_start cfg, inOrder_startRoom cfg⟩ fun _ _ _ hw hl hstep =>
      ⟨workerShape_step hw.1 hl hstep, inOrder_step hw.1 hw.2 hl hstep⟩
  exact hinv.2 roomId

end Order

namespace StrandedRequest

open LateRequest

open scoped IdentityHash

/-- A session runs, another request waits, and the execution ends. -/
def waitingRequest : List Label :=
  [request 0, listens 0 0] ++ negotiates 0 ++ [request 1] ++ fails 0

/-- The end of the proxy will dispatch the request. -/
theorem served_waitingRequest :
    ∃ w : Worker Ed25519PeerId Nat Nat,
      runIf (Worker.step cfg) noPlaceholder (Worker.start cfg) waitingRequest = some w ∧
      (w.rooms roomId).pendingLocal = [.keySign 2 roomId [] 1] ∧
      (w.rooms roomId).busy = false ∧ Served (w.rooms roomId) := by
  refine ⟨_, rfl, rfl, rfl, ?_⟩
  exact served cfg (reach_of_runIf waitingRequest rfl) roomId

/-- The request that waited is dispatched after the first one. -/
theorem inOrder_waitingRequest :
    ∃ w : Worker Ed25519PeerId Nat Nat,
      runIf (Worker.step cfg) noPlaceholder (Worker.start cfg) (waitingRequest ++ [proxyEnds])
        = some w ∧
      dispatchedIn (w.rooms roomId).trace = [.keySign 2 roomId [] 0, .keySign 2 roomId [] 1] ∧
      InOrder (w.rooms roomId) := by
  refine ⟨_, rfl, rfl, ?_⟩
  exact inOrder cfg (reach_of_runIf (waitingRequest ++ [proxyEnds]) rfl) roomId

/-- A third request comes before the end of the proxy. It is dispatched to
a placeholder, and the second one still waits. -/
theorem not_inOrder_overtaking :
    ∃ w : Worker Ed25519PeerId Nat Nat,
      Reach (Worker.step cfg) Always (Worker.start cfg) w ∧ w.panicked = none ∧
      dispatchedIn (w.rooms roomId).trace = [.keySign 2 roomId [] 0, .keySign 2 roomId [] 2] ∧
      (w.rooms roomId).pendingLocal = [.keySign 2 roomId [] 1] ∧
      ¬ InOrder (w.rooms roomId) := by
  refine ⟨_, reach_of_run (waitingRequest ++ [request 2]) rfl, rfl, rfl, rfl, ?_⟩
  intro h
  have hsublist : ([.keySign 2 roomId [] 0, .keySign 2 roomId [] 2, .keySign 2 roomId [] 1]
      : List (ServicetoWorkerMsg Nat)).Sublist
        [.keySign 2 roomId [] 0, .keySign 2 roomId [] 1, .keySign 2 roomId [] 2] := h
  revert hsublist
  decide

/-- A coordination message of the other peer. -/
def coordination (payload : Bytes) : IncomingRequest Ed25519PeerId Nat where
  context :=
    { messageType := .coordination, protocolId := 1, sessionId := noSessionId, messageId := 0 }
  peerId := .ofByte 2
  isBroadcast := true
  peerIndex := 0
  payload := payload
  pendingResponse := 0

def startMsg : StartMsg Ed25519PeerId where
  peerset := { localPeerId := .ofByte 2, peers := [.ofByte 1, .ofByte 2], parties := [] }
  body := []

/-- The first channel takes a proposal, and its session starts. -/
def joins (now : Nat) : List Label :=
  [.pollPhase1 roomId 0 (some (coordination [])) noSessionId now,
    .pollPhase2 (some (coordination startMsg.toBytes)) now]

/-- The second session is on a placeholder, and its execution ends between
the two proxies, so that the room listens on two channels. -/
def twoChannels : List Label :=
  session ++ [request 1, listens 0 500] ++ negotiates 500 ++ [proxyEnds] ++ fails 500
    ++ [proxyEnds]

/-- The other peer's broadcast in the session. -/
def broadcast : IncomingRequest Ed25519PeerId Nat :=
  { coordination [] with
      context :=
        { messageType := .computation, protocolId := 1, sessionId := noSessionId, messageId := 0 }
      peerIndex := 1 }

/-- The agent sends its own broadcast, if it has to. -/
def pollsAgent (now : Nat) (sent : List AgentMessage) : Label :=
  .pollExecution roomId 0 (.pollComputation now { received := 0, sent := sent, result := none })

/-- Both peers broadcast. The gadget takes the broadcasts, hashes them and
waits for the other peer's echo. -/
def bothBroadcast (now : Nat) : List Label :=
  [pollsAgent now [{ body := [], recipient := none }], .pollProxy roomId 0 (some broadcast),
    pollsAgent now []] ++ List.replicate 4 (.pollExecution roomId 0 (.pollEcho noneGone))

/-- The echo of the other peer arrives. -/
def echoes (echo : RemoteEcho Ed25519PeerId) : Label :=
  .pollExecution roomId 0 (.echoResponse 0 echo)

/-- A request goes to the placeholder and a proposal to the room's own
channel. The request's negotiation runs out of time while the proposed
session waits for an echo, which marks the room as not busy. The agent of
the session returns, and the next two requests come after the end of its
proxy. Then the echo arrives, and the session ends. -/
def stranding : List Label :=
  twoChannels ++ [request 2] ++ joins 1000 ++ bothBroadcast 1000
    ++ [listens 0 1000, noAnswer 46000] ++ ends 46000 (.ok [])
    ++ [proxyEnds, request 3, request 4, echoes (.ok (.ofByte 2, []))]
    ++ List.replicate 2 (.pollExecution roomId 0 (.pollEcho noneGone))

set_option maxRecDepth 4000 in
/-- The last request waits in a room that is not busy and has no proxy. -/
theorem not_served_stranding :
    ∃ w : Worker Ed25519PeerId Nat Nat,
      Reach (Worker.step cfg) Always (Worker.start cfg) w ∧ w.panicked = none ∧
        w.awaited.isNone = true ∧ ¬ Served (w.rooms roomId) := by
  refine ⟨_, reach_of_run stranding rfl, rfl, rfl, fun h => ?_⟩
  exact (h.held (List.cons_ne_nil _ _)).elim nofun fun hproxies => hproxies rfl

end StrandedRequest

end FrostMpcTss.Proofs
