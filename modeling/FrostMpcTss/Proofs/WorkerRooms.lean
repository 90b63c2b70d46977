import FrostMpcTss.Proofs.NegotiationQuorum
import FrostMpcTss.Proofs.SessionSteps
import FrostMpcTss.Service.Worker

/-!
# `FrostMpcTss.Proofs.WorkerRooms`: what a room of the worker looks like

The worker moves a room's receiver between its `Phase1Channel`, the
awaited future, the proxy and the restored channel. `Shape` lists the
six forms a room can have, each with exactly one owner of the receiver.

Every branch of the worker keeps the forms, as long as `dispatch_to_room`
does not make a placeholder for a room whose receiver is still in a proxy
(`noPlaceholder`). It does so when a request arrives after the end of the
execution and before the end of the proxy.
-/

set_option autoImplicit false

namespace FrostMpcTss.Proofs

open Lib Network Service
open Service.Room

section Polls

variable {P ρ κ : Type}

/-- The receiver an awaited future owns. -/
def Awaited.rx : Awaited P ρ κ → Nat
  | .phase2 _ c => c.rx
  | .negotiation _ c => c.rx

/-- What a poll of phase 1 passes on. -/
inductive Phase1Passes (c : Phase1Channel P ρ) (next : Option (IncomingRequest P ρ))
    (request : TryRecv (LocalRpcMsg κ)) : Phase1Poll P ρ κ → Prop where
  | pending {c' : Phase1Channel P ρ} {answers : Answers ρ} : request = .empty → c'.rx = c.rx →
      c'.request = c.request → Phase1Passes c next request (.pending c' answers)
  | fromRemote {m : IncomingRequest P ρ} {peerId : P} {protocolId : Nat} {payload : Bytes}
      {responseTx : ρ} {channel : Phase2Channel P ρ} : next = some m →
      m.context.messageType = .coordination → channel.rx = c.rx →
      Phase1Passes c next request (.fromRemote peerId protocolId payload responseTx channel)
  | fromLocal {msg : LocalRpcMsg κ} {roomId : RoomId} {n : Nat}
      {negotiation : NegotiationChannel P κ} {answers : Answers ρ} : request = .value msg →
      negotiation.rx = c.rx → negotiation.pendingResponse = msg.pendingResponse →
      Phase1Passes c next request (.fromLocal roomId n negotiation answers)
  | panic {why : Panic} : request = .canceled → Phase1Passes c next request (.panic why)

/-- `c'` stands for the channel after the poll has read a message. -/
theorem phase1Passes_pollRequest (c c' : Phase1Channel P ρ) (localPeerId : P)
    (next : Option (IncomingRequest P ρ)) (request : TryRecv (LocalRpcMsg κ))
    (sessionId : SessionId) (now : Nat) (answers : Answers ρ) (hrx : c'.rx = c.rx)
    (hrequest : c'.request = c.request) :
    Phase1Passes c next request (c'.pollRequest localPeerId request sessionId now answers) := by
  cases request with
  | empty => exact .pending rfl hrx hrequest
  | value msg => exact .fromLocal rfl hrx rfl
  | canceled => exact .panic rfl

/-- Every poll of phase 1 passes the receiver on. -/
theorem phase1Passes_poll (c : Phase1Channel P ρ) (localPeerId : P)
    (next : Option (IncomingRequest P ρ)) (request : TryRecv (LocalRpcMsg κ))
    (sessionId : SessionId) (now : Nat) :
    Phase1Passes c next request (c.poll localPeerId next request sessionId now) := by
  unfold Phase1Channel.poll
  cases next with
  | none => exact phase1Passes_pollRequest c c _ _ _ _ _ _ rfl rfl
  | some m =>
      cases htype : m.context.messageType with
      | coordination =>
          simp only [htype]
          exact .fromRemote rfl htype rfl
      | computation =>
          simp only [htype]
          exact phase1Passes_pollRequest c _ _ _ _ _ _ _ rfl rfl

/-- What a poll of phase 2 passes on. -/
inductive Phase2Passes (c : Phase2Channel P ρ) : Phase2Poll P ρ → Prop where
  | pending {c' : Phase2Channel P ρ} {answers : Answers ρ} : c'.rx = c.rx →
      Phase2Passes c (.pending c' answers)
  | start {roomId : RoomId} {receiverProxy : ReceiverProxy P ρ} {peerset : Peerset P}
      {initBody : Bytes} {sessionId : SessionId} : receiverProxy.requestReceiver = c.rx →
      Phase2Passes c (.start roomId receiverProxy peerset initBody sessionId)
  | abort {roomId : RoomId} {phase1 : Phase1Channel P ρ} {answers : Answers ρ} :
      phase1.rx = c.rx → Phase2Passes c (.abort roomId phase1 answers)
  | panic {why : Panic} : Phase2Passes c (.panic why)

theorem phase2Passes_checkTimeout (c c' : Phase2Channel P ρ) (now request : Nat)
    (answers : Answers ρ) (hrx : c'.rx = c.rx) :
    Phase2Passes c (c'.checkTimeout now request answers) := by
  unfold Phase2Channel.checkTimeout
  split
  · exact .abort hrx
  · exact .pending hrx

/-- Every poll of phase 2 passes the receiver on, to the channel, to the
proxy or back to phase 1. -/
theorem phase2Passes_poll [PeerIdCodec P] [UnsignedVarint] (c : Phase2Channel P ρ)
    (localPeerId : P) (next : Option (IncomingRequest P ρ)) (now fresh : Nat) :
    Phase2Passes c (c.poll localPeerId next now fresh) := by
  unfold Phase2Channel.poll
  cases next with
  | none => exact phase2Passes_checkTimeout c c _ _ _ rfl
  | some m =>
      cases htype : m.context.messageType with
      | coordination =>
          simp only [htype]
          split
          · exact .pending rfl
          · unfold Phase2Channel.onCoordination
            split
            · exact .start rfl
            · exact .abort rfl
            · exact .panic
      | computation =>
          simp only [htype]
          split
          · exact phase2Passes_checkTimeout c _ _ _ _ rfl
          · exact phase2Passes_checkTimeout c c _ _ _ rfl

/-- What a poll of a negotiation passes on. -/
inductive NegotiationPasses (c : NegotiationChannel P κ) : NegotiationPoll P ρ κ → Prop where
  | pending {c' : NegotiationChannel P κ} : c'.rx = c.rx →
      c'.pendingResponse = c.pendingResponse → NegotiationPasses c (.pending c')
  | proposed {c' : NegotiationChannel P κ} : c'.rx = c.rx →
      c'.pendingResponse = c.pendingResponse → NegotiationPasses c (.proposed c')
  | start {protocolId : Nat} {receiverProxy : ReceiverProxy P ρ} {peerset : Peerset P}
      {request startMsg : Bytes} {sessionId : SessionId} {peers : List P} :
      receiverProxy.requestReceiver = c.rx →
      NegotiationPasses c (.start protocolId c.pendingResponse receiverProxy peerset request
        sessionId peers startMsg)
  | abort {roomId : RoomId} {phase1 : Phase1Channel P ρ} : phase1.rx = c.rx →
      NegotiationPasses c (.abort roomId phase1 c.pendingResponse)
  | panic {why : Panic} : NegotiationPasses c (.panic why)

/-- Every poll of a negotiation passes on the receiver and the caller's
channel. -/
theorem negotiationPasses_poll [DecidableEq P] [PeerIdCodec P] [UnsignedVarint]
    (c : NegotiationChannel P κ) (input : NegotiationInput P) (fresh : Nat) :
    NegotiationPasses c (c.poll input fresh : NegotiationPoll P ρ κ) := by
  have hsteps := negotiationSteps_poll (ρ := ρ) c input fresh
  generalize (c.poll input fresh : NegotiationPoll P ρ κ) = poll at hsteps ⊢
  cases hsteps with
  | starts _ => exact .start rfl
  | waits _ hsame _ _ => exact .pending hsame.rx hsame.pendingResponse
  | proposes _ hsame _ _ => exact .proposed hsame.rx hsame.pendingResponse
  | aborts _ _ => exact .abort rfl
  | panics _ => exact .panic

/-- A session whose execution is gone does not get it back. -/
theorem computation_of_step [DecidableEq P] [Blake2s256] {wrap wrap' : WrapExecution P ρ κ}
    {l : WrapLabel P ρ} {effects : List (Effect P ρ κ)} (hnone : wrap.computation = none)
    (h : wrap.step l = some (.running wrap', effects)) : wrap'.computation = none := by
  have hexec : ({ state := .running wrap, trace := [] } : Session P ρ κ).execution = none := by
    rw [execution_running rfl, hnone]
    rfl
  have hstep : ({ state := .running wrap, trace := [] } : Session P ρ κ).step l
      = some { state := .running wrap', trace := [] ++ effects } := by
    show (wrap.step l).map _ = _
    rw [h]
    rfl
  cases hsome : wrap'.computation with
  | none => rfl
  | some s =>
      have hexec' : ({ state := .running wrap', trace := [] ++ effects }
          : Session P ρ κ).execution = some (s, wrap'.echoRx) := by
        rw [execution_running rfl, hsome]
        rfl
      cases sessionSteps_step hstep with
      | pending hs _ _ _ _ =>
          rw [hexec] at hs
          cases hs
      | ready hs _ _ _ _ =>
          rw [hexec] at hs
          cases hs
      | panics hs _ _ _ =>
          rw [hexec] at hs
          cases hs
      | delivers hs _ _ _ =>
          rw [hexec] at hs
          cases hs
      | keeps _ _ hkeeps _ _ _ =>
          obtain ⟨_, hs⟩ := hkeeps s _ hexec'
          rw [hexec] at hs
          cases hs

end Polls

section Steps

variable {P ρ κ : Type} [DecidableEq P] [Blake2s256] [PeerIdCodec P] [UnsignedVarint]

/-- The branch a step takes, and the room it is about. -/
inductive WorkerSteps (cfg : WorkerConfig P) (w : Worker P ρ κ) :
    WorkerLabel P ρ κ → RoomId → Branch P ρ κ → Prop where
  | takeLocal {msg : ServicetoWorkerMsg κ} : w.awaited = none →
      WorkerSteps cfg w (.takeLocal msg) (serviceMsgRoomId msg)
        (.ok ((w.rooms (serviceMsgRoomId msg)).takeLocal cfg.client w.fresh msg, none))
  | pollPhase1 {roomId : RoomId} {k now : Nat} {next : Option (IncomingRequest P ρ)}
      {sessionId : SessionId} {l : Listener P ρ κ} : w.awaited = none →
      (w.rooms roomId).coordination[k]? = some l →
      WorkerSteps cfg w (.pollPhase1 roomId k next sessionId now) roomId
        ((w.rooms roomId).pollPhase1 cfg.client cfg.localPeerId w.fresh k l next sessionId now)
  | pollProxy {roomId : RoomId} {k : Nat} {next : Option (IncomingRequest P ρ)}
      {p : ReceiverProxy P ρ} : w.awaited = none → (w.rooms roomId).proxies[k]? = some p →
      WorkerSteps cfg w (.pollProxy roomId k next) roomId
        (.ok ((w.rooms roomId).pollProxy cfg.client w.fresh k p next, none))
  | pollExecution {roomId : RoomId} {k : Nat} {wl : WrapLabel P ρ}
      {x : RunningExecution P ρ κ} {branch : Branch P ρ κ} : w.awaited = none →
      (w.rooms roomId).executions[k]? = some x → (∀ m, wl ≠ .deliver m) →
      (w.rooms roomId).pollExecution cfg.client w.fresh k x wl = some branch →
      WorkerSteps cfg w (.pollExecution roomId k wl) roomId branch
  | pollPhase2 {roomId : RoomId} {protocolId now : Nat} {c : Phase2Channel P ρ}
      {next : Option (IncomingRequest P ρ)} :
      w.awaited = some (roomId, .phase2 protocolId c) →
      WorkerSteps cfg w (.pollPhase2 next now) roomId
        ((w.rooms roomId).pollPhase2 cfg.client cfg.localPeerId w.fresh protocolId c next now)
  | pollNegotiation {roomId : RoomId} {n : Nat} {c : NegotiationChannel P κ}
      {input : NegotiationInput P} : w.awaited = some (roomId, .negotiation n c) →
      WorkerSteps cfg w (.pollNegotiation input) roomId
        ((w.rooms roomId).pollNegotiation cfg.client w.fresh n c input)

/-- While nothing is awaited, `select!` takes one of its branches. -/
theorem workerSteps_select {cfg : WorkerConfig P} {w w' : Worker P ρ κ}
    {l : WorkerLabel P ρ κ} (hawaited : w.awaited = none) (h : w.select cfg l = some w') :
    ∃ roomId branch, WorkerSteps cfg w l roomId branch ∧ w' = w.finish roomId branch := by
  cases l with
  | takeLocal msg =>
      cases h
      exact ⟨_, _, .takeLocal hawaited, rfl⟩
  | pollPhase1 roomId k next sessionId now =>
      obtain ⟨l, hl, rfl⟩ := Option.map_eq_some_iff.mp h
      exact ⟨_, _, .pollPhase1 hawaited (Option.filter_eq_some_iff.mp hl).1, rfl⟩
  | pollProxy roomId k next =>
      obtain ⟨p, hp, rfl⟩ := Option.map_eq_some_iff.mp h
      exact ⟨_, _, .pollProxy hawaited (Option.filter_eq_some_iff.mp hp).1, rfl⟩
  | pollExecution roomId k wl =>
      have hwl : ∀ m, wl ≠ .deliver m := by
        rintro m rfl
        cases h
      have hmap : ((w.rooms roomId).executions[k]?.bind fun x =>
          (w.rooms roomId).pollExecution cfg.client w.fresh k x wl).map (w.finish roomId)
          = some w' := by
        cases wl with
        | deliver m => exact absurd rfl (hwl m)
        | _ => exact h
      obtain ⟨branch, hbranch, rfl⟩ := Option.map_eq_some_iff.mp hmap
      obtain ⟨x, hx, hbranch⟩ := Option.bind_eq_some_iff.mp hbranch
      exact ⟨roomId, branch, .pollExecution hawaited hx hwl hbranch, rfl⟩
  | pollPhase2 _ _ => cases h
  | pollNegotiation _ => cases h

/-- Every step takes a branch of one room. While something is awaited, it is
a poll of that. -/
theorem workerSteps_step {cfg : WorkerConfig P} {w w' : Worker P ρ κ} {l : WorkerLabel P ρ κ}
    (h : w.step cfg l = some w') :
    ∃ roomId branch, WorkerSteps cfg w l roomId branch ∧ w' = w.finish roomId branch := by
  unfold Worker.step at h
  split at h
  · cases h
  · rename_i hawaited
    exact workerSteps_select hawaited h
  · rename_i roomId a _ hawaited
    cases a with
    | phase2 protocolId c =>
        cases l with
        | pollPhase2 next now =>
            simp only [Worker.pollAwaited] at h
            split at h
            · cases h
              exact ⟨_, _, .pollPhase2 hawaited, rfl⟩
            · cases h
        | _ => cases h
    | negotiation n c =>
        cases l with
        | pollNegotiation input =>
            cases h
            exact ⟨_, _, .pollNegotiation hawaited, rfl⟩
        | _ => cases h

end Steps

section Shapes

variable {P ρ κ : Type} {room : Room P ρ κ}

/-- The forms of a room whose receiver is `rx`, with what is awaited for
it. -/
inductive Shape (rx : Nat) : Option (Awaited P ρ κ) → Room P ρ κ → Prop where
  /-- It listens, and its queue is empty. -/
  | idle (c : Phase1Channel P ρ) (trace : List (WorkerEvent ρ κ)) : c.rx = rx →
      Shape rx none
        { coordination := [{ channel := c, sent := none }], rpc := some c.request, busy := false,
          restore := none, pendingLocal := [], proxies := [], executions := [], trace := trace }
  /-- It listens with a request in the one-shot. -/
  | waiting (c : Phase1Channel P ρ) (msg : LocalRpcMsg κ) (rpc : Option Nat)
      (pendingLocal : List (ServicetoWorkerMsg κ)) (trace : List (WorkerEvent ρ κ)) :
      c.rx = rx →
      Shape rx none
        { coordination := [{ channel := c, sent := some msg }], rpc := rpc, busy := true,
          restore := none, pendingLocal := pendingLocal, proxies := [], executions := [],
          trace := trace }
  | awaited (a : Awaited P ρ κ) (rpc : Option Nat)
      (pendingLocal : List (ServicetoWorkerMsg κ)) (trace : List (WorkerEvent ρ κ)) :
      Awaited.rx a = rx →
      Shape rx (some a)
        { coordination := [], rpc := rpc, busy := true, restore := none,
          pendingLocal := pendingLocal, proxies := [], executions := [], trace := trace }
  | running (p : ReceiverProxy P ρ) (x : RunningExecution P ρ κ) (rpc : Option Nat)
      (pendingLocal : List (ServicetoWorkerMsg κ)) (trace : List (WorkerEvent ρ κ)) :
      p.requestReceiver = rx → x.fromNetwork = p.tx →
      Shape rx none
        { coordination := [], rpc := rpc, busy := true, restore := none,
          pendingLocal := pendingLocal, proxies := [p], executions := [x], trace := trace }
  /-- The proxy was the first to end. -/
  | proxyDone (c : Phase1Channel P ρ) (x : RunningExecution P ρ κ) (rpc : Option Nat)
      (pendingLocal : List (ServicetoWorkerMsg κ)) (trace : List (WorkerEvent ρ κ)) :
      c.rx = rx → x.wrap.computation = none →
      Shape rx none
        { coordination := [], rpc := rpc, busy := true, restore := some c,
          pendingLocal := pendingLocal, proxies := [], executions := [x], trace := trace }
  /-- The execution was the first to end: the room is not busy, and its
  queue waits for the proxy. -/
  | executionDone (p : ReceiverProxy P ρ) (rpc : Option Nat)
      (pendingLocal : List (ServicetoWorkerMsg κ)) (trace : List (WorkerEvent ρ κ)) :
      p.requestReceiver = rx →
      Shape rx none
        { coordination := [], rpc := rpc, busy := false, restore := none,
          pendingLocal := pendingLocal, proxies := [p], executions := [], trace := trace }

/-- The branch leaves the room in one of its forms. -/
def BranchShape (rx : Nat) : Branch P ρ κ → Prop
  | .ok (room, a) => Shape rx a room
  | .error _ => True

/-- The callers whose requests wait in one-shots. -/
def heldIn (coordination : List (Listener P ρ κ)) : List κ :=
  coordination.filterMap fun l => l.sent.map (·.pendingResponse)

theorem heldIn_append (coordination coordination' : List (Listener P ρ κ)) :
    heldIn (coordination ++ coordination') = heldIn coordination ++ heldIn coordination' :=
  List.filterMap_append

/-- The caller's channel of a request. -/
def senderOf : ServicetoWorkerMsg κ → κ
  | .keySign _ _ _ sender => sender
  | .keyGen _ _ _ _ sender => sender

theorem pendingResponse_localRpcMsg (client : ProtocolAgentFactory)
    (msg : ServicetoWorkerMsg κ) :
    (localRpcMsg client msg).pendingResponse = senderOf msg := by
  cases msg <;> rfl

/-- The one-shot that is sent to holds the caller, and the others hold what
they held. -/
theorem heldIn_sendTo {request : Nat} {msg : LocalRpcMsg κ} :
    ∀ {ls ls' : List (Listener P ρ κ)}, sendTo request msg ls = some ls' →
      (heldIn ls').Perm (msg.pendingResponse :: heldIn ls)
  | [], _, h => nomatch h
  | l :: ls, ls', h => by
      unfold sendTo at h
      split at h
      · rename_i hempty
        cases h
        have hnone : l.sent = none := Option.isNone_iff_eq_none.mp hempty.1
        simp [heldIn, hnone]
      · obtain ⟨rest, hrest, rfl⟩ := Option.map_eq_some_iff.mp h
        have hperm := heldIn_sendTo hrest
        cases hsent : l.sent with
        | none => simpa [heldIn, hsent] using hperm
        | some m =>
            simp only [heldIn, List.filterMap_cons, hsent, Option.map_some] at hperm ⊢
            exact (hperm.cons _).trans (List.Perm.swap _ _ _)

/-- What `dispatch_local_msg` does: the request enters a one-shot, or it
is answered at once. -/
inductive Dispatches (room : Room P ρ κ) (msg : ServicetoWorkerMsg κ) :
    Room P ρ κ → Prop where
  | sent {coordination : List (Listener P ρ κ)} :
      (heldIn coordination).Perm (senderOf msg :: heldIn room.coordination) →
      Dispatches room msg
        { room with
            coordination := coordination, rpc := none, busy := true,
            trace := room.trace ++ [.dispatched msg] }
  | canceled {coordination : List (Listener P ρ κ)} :
      heldIn coordination = heldIn room.coordination →
      Dispatches room msg
        { room with
            coordination := coordination, rpc := none,
            trace := room.trace ++ [.answered (senderOf msg) (.error "sender is canceled")] }

/-- A dispatched request is in a one-shot or answered: no request is lost
here. -/
theorem dispatches_dispatchLocalMsg (client : ProtocolAgentFactory) (room : Room P ρ κ)
    (fresh : Nat) (msg : ServicetoWorkerMsg κ) :
    Dispatches room msg (dispatchLocalMsg client room fresh msg) := by
  have hsender := pendingResponse_localRpcMsg client msg
  -- with a sender or with a placeholder's, the same messages are held
  obtain ⟨tx, coordination, htake, hheld⟩ : ∃ tx coordination,
      room.takeSender (serviceMsgRoomId msg) fresh
        = (tx, { room with coordination := coordination, rpc := none }) ∧
      heldIn coordination = heldIn room.coordination := by
    unfold takeSender
    cases hrpc : room.rpc with
    | some tx => exact ⟨tx, room.coordination, rfl, rfl⟩
    | none =>
        refine ⟨fresh, room.coordination ++
          [{ channel := Phase1Channel.new (serviceMsgRoomId msg) fresh fresh, sent := none }],
          rfl, ?_⟩
        rw [heldIn_append]
        exact List.append_nil _
  unfold dispatchLocalMsg dispatchToRoom
  rw [htake]
  simp only
  cases hsend : sendTo tx (localRpcMsg client msg) coordination with
  | some coordination' =>
      refine .sent ?_
      rw [← hheld, ← hsender]
      exact heldIn_sendTo hsend
  | none =>
      simp only [hsender]
      exact .canceled hheld

/-- A request goes into the one-shot of a listening room. -/
theorem dispatchLocalMsg_listening (client : ProtocolAgentFactory) (fresh : Nat)
    (msg : ServicetoWorkerMsg κ) (c : Phase1Channel P ρ) (busy : Bool)
    (restore : Option (Phase1Channel P ρ)) (pendingLocal : List (ServicetoWorkerMsg κ))
    (proxies : List (ReceiverProxy P ρ)) (executions : List (RunningExecution P ρ κ))
    (trace : List (WorkerEvent ρ κ)) :
    dispatchLocalMsg client
        { coordination := [{ channel := c, sent := none }], rpc := some c.request, busy := busy,
          restore := restore, pendingLocal := pendingLocal, proxies := proxies,
          executions := executions, trace := trace } fresh msg
      = { coordination := [{ channel := c, sent := some (localRpcMsg client msg) }],
          rpc := none, busy := true, restore := restore, pendingLocal := pendingLocal,
          proxies := proxies, executions := executions,
          trace := trace ++ [.dispatched msg] } := by
  simp [dispatchLocalMsg, dispatchToRoom, takeSender, sendTo, Room.log]

/-- A room that comes back with a queue dispatches the head of it. -/
theorem comeBack_cons (client : ProtocolAgentFactory) (fresh : Nat) (c : Phase1Channel P ρ)
    (rpc : Option Nat) (msg : ServicetoWorkerMsg κ) (rest : List (ServicetoWorkerMsg κ))
    (trace : List (WorkerEvent ρ κ)) :
    comeBack client
        { coordination := [], rpc := rpc, busy := false, restore := none,
          pendingLocal := msg :: rest, proxies := [], executions := [], trace := trace } fresh c
      = { coordination := [{ channel := c, sent := some (localRpcMsg client msg) }],
          rpc := none, busy := true, restore := none, pendingLocal := rest, proxies := [],
          executions := [], trace := trace ++ [.dispatched msg] } :=
  dispatchLocalMsg_listening client fresh msg c false none rest [] [] trace

/-- A room whose listener comes back is idle, or waits with the head of its
queue. -/
theorem shape_comeBack {rx : Nat} (client : ProtocolAgentFactory) (fresh : Nat)
    (c : Phase1Channel P ρ) (rpc : Option Nat) (pendingLocal : List (ServicetoWorkerMsg κ))
    (trace : List (WorkerEvent ρ κ)) (hc : c.rx = rx) :
    Shape rx none
      (comeBack client
        { coordination := [], rpc := rpc, busy := false, restore := none,
          pendingLocal := pendingLocal, proxies := [], executions := [], trace := trace }
        fresh c) := by
  cases pendingLocal with
  | nil => exact .idle c trace hc
  | cons msg rest =>
      rw [comeBack_cons]
      exact .waiting c _ _ _ _ hc

/-- `dispatch_to_room` does not make a placeholder while the room's
receiver is in a proxy. -/
def keepsReceiver (room : Room P ρ κ) : Bool :=
  room.busy || room.rpc.isSome || room.proxies.isEmpty

/-- Taking a request keeps the form of the room, unless it makes a
placeholder. -/
theorem shape_takeLocal {rx : Nat} (client : ProtocolAgentFactory) (fresh : Nat)
    (msg : ServicetoWorkerMsg κ) (h : Shape rx none room) (hkeeps : keepsReceiver room = true) :
    Shape rx none (room.takeLocal client fresh msg) := by
  cases h with
  | idle c trace hc =>
      show Shape rx none (dispatchLocalMsg client
        { coordination := [{ channel := c, sent := none }], rpc := some c.request, busy := false,
          restore := none, pendingLocal := [], proxies := [], executions := [],
          trace := trace ++ [.took msg] } fresh msg)
      rw [dispatchLocalMsg_listening]
      exact .waiting c _ _ _ _ hc
  | waiting c m rpc pendingLocal trace hc => exact .waiting c m rpc _ _ hc
  | running p x rpc pendingLocal trace hp hx => exact .running p x rpc _ _ hp hx
  | proxyDone c x rpc pendingLocal trace hc hx => exact .proxyDone c x rpc _ _ hc hx
  | executionDone p rpc pendingLocal trace hp =>
      cases rpc with
      | none => cases hkeeps
      | some tx =>
          -- the sender's channel is gone, and the request is answered at once
          exact .executionDone p none pendingLocal _ hp

theorem getElem?_singleton_eq_some {α : Type} {a b : α} {k : Nat} (h : [a][k]? = some b) :
    k = 0 ∧ b = a := by
  cases k with
  | zero => exact ⟨rfl, (Option.some.inj h).symm⟩
  | succ k => cases h

/-- Phase 1 goes on, or is followed by what is awaited then. -/
theorem shape_pollPhase1 {rx k : Nat} {l : Listener P ρ κ} (client : ProtocolAgentFactory)
    (localPeerId : P) (fresh : Nat) (next : Option (IncomingRequest P ρ)) (sessionId : SessionId)
    (now : Nat) (h : Shape rx none room) (hl : room.coordination[k]? = some l) :
    BranchShape rx
      (room.pollPhase1 client localPeerId fresh k l next sessionId now) := by
  unfold Room.pollPhase1
  have hpoll := phase1Passes_poll l.channel localPeerId next (room.tryRecv l) sessionId now
  generalize l.channel.poll localPeerId next (room.tryRecv l) sessionId now = poll at hpoll ⊢
  cases h with
  | idle c trace hc =>
      obtain ⟨rfl, rfl⟩ := getElem?_singleton_eq_some hl
      cases hpoll with
      | @pending c' answers _ hrx hrequest =>
          rw [← hrequest]
          exact .idle c' _ (hrx.trans hc)
      | @fromRemote _ _ protocolId _ _ channel _ _ hrx =>
          simp only
          split
          · exact .awaited (.phase2 protocolId channel) _ _ _ (hrx.trans hc)
          · exact shape_comeBack client fresh _ _ _ _ (hrx.trans hc)
      | fromLocal hvalue _ _ =>
          -- nothing was sent
          unfold Room.tryRecv at hvalue
          simp only at hvalue
          split at hvalue <;> cases hvalue
      | panic _ => exact trivial
  | waiting c m rpc pendingLocal trace hc =>
      obtain ⟨rfl, rfl⟩ := getElem?_singleton_eq_some hl
      cases hpoll with
      | pending hempty _ _ => cases hempty
      | @fromRemote _ _ protocolId _ _ channel _ _ hrx =>
          simp only
          split
          · exact .awaited (.phase2 protocolId channel) _ _ _ (hrx.trans hc)
          · exact shape_comeBack client fresh _ _ _ _ (hrx.trans hc)
      | @fromLocal _ _ n negotiation _ _ hrx _ =>
          exact .awaited (.negotiation n negotiation) _ _ _ (hrx.trans hc)
      | panic _ => exact trivial
  | running _ _ _ _ _ _ _ => cases hl
  | proxyDone _ _ _ _ _ _ _ => cases hl
  | executionDone _ _ _ _ _ => cases hl

/-- A session that starts has one proxy and one execution. -/
theorem shape_startSession {rx : Nat} {a : Awaited P ρ κ} {receiverProxy : ReceiverProxy P ρ}
    (wrap : Except Panic (WrapExecution P ρ κ)) (h : Shape rx (some a) room)
    (hproxy : receiverProxy.requestReceiver = rx) :
    BranchShape rx (room.startSession receiverProxy wrap) := by
  cases h with
  | awaited _ rpc pendingLocal trace _ =>
      cases wrap with
      | error _ => exact trivial
      | ok wrap =>
          exact .running receiverProxy { fromNetwork := receiverProxy.tx, wrap := wrap } _ _ _
            hproxy rfl

/-- Phase 2 goes on, starts a session or gives the listener back. -/
theorem shape_pollPhase2 [DecidableEq P] [PeerIdCodec P] [UnsignedVarint] {rx protocolId : Nat}
    {c : Phase2Channel P ρ} (client : ProtocolAgentFactory) (localPeerId : P) (fresh : Nat)
    (next : Option (IncomingRequest P ρ)) (now : Nat)
    (h : Shape rx (some (.phase2 protocolId c)) room) :
    BranchShape rx (room.pollPhase2 client localPeerId fresh protocolId c next now) := by
  have hc : c.rx = rx := by
    cases h with
    | awaited _ _ _ _ ha => exact ha
  unfold Room.pollPhase2
  have hpoll := phase2Passes_poll c localPeerId next now fresh
  generalize c.poll localPeerId next now fresh = poll at hpoll ⊢
  cases hpoll with
  | @pending c' _ hrx =>
      cases h with
      | awaited _ rpc pendingLocal trace _ =>
          exact .awaited (.phase2 protocolId c') _ _ _ (hrx.trans hc)
  | start hrx => exact shape_startSession _ h (hrx.trans hc)
  | abort hrx =>
      cases h with
      | awaited _ rpc pendingLocal trace _ =>
          exact shape_comeBack client fresh _ _ _ _ (hrx.trans hc)
  | panic => exact trivial

/-- A negotiation goes on, starts a session or gives the listener back. -/
theorem shape_pollNegotiation [DecidableEq P] [PeerIdCodec P] [UnsignedVarint] {rx n : Nat}
    {c : NegotiationChannel P κ} (client : ProtocolAgentFactory) (fresh : Nat)
    (input : NegotiationInput P) (h : Shape rx (some (.negotiation n c)) room) :
    BranchShape rx (room.pollNegotiation client fresh n c input) := by
  have hc : c.rx = rx := by
    cases h with
    | awaited _ _ _ _ ha => exact ha
  unfold Room.pollNegotiation
  have hpoll := negotiationPasses_poll (ρ := ρ) c input fresh
  generalize (c.poll input fresh : NegotiationPoll P ρ κ) = poll at hpoll ⊢
  cases hpoll with
  | @pending c' hrx _ =>
      cases h with
      | awaited _ rpc pendingLocal trace _ =>
          exact .awaited (.negotiation n c') _ _ _ (hrx.trans hc)
  | @proposed c' hrx _ =>
      cases h with
      | awaited _ rpc pendingLocal trace _ =>
          exact .awaited (.negotiation n c') _ _ _ (hrx.trans hc)
  | start hrx => exact shape_startSession _ h (hrx.trans hc)
  | abort hrx =>
      cases h with
      | awaited _ rpc pendingLocal trace _ =>
          exact shape_comeBack client fresh _ _ _ _ (hrx.trans hc)
  | panic => exact trivial

/-- A poll of a proxy keeps its receiver and its channel; a proxy ends
when its channel has no reader. -/
inductive ProxyPasses (p : ReceiverProxy P ρ) (closed : Bool) : ProxyPoll P ρ → Prop where
  | ready {roomId : RoomId} {phase1 : Phase1Channel P ρ} : closed = true →
      phase1.rx = p.requestReceiver → ProxyPasses p closed (.ready roomId phase1)
  | pending {p' : ReceiverProxy P ρ} {tookNext : Bool} {feed : List (IncomingRequest P ρ)}
      {answers : Answers ρ} : closed = false → p'.requestReceiver = p.requestReceiver →
      p'.tx = p.tx → ProxyPasses p closed (.pending p' tookNext feed answers)

/-- Every poll of a proxy keeps its receiver, also the last one. -/
theorem proxyPasses_poll [DecidableEq P] (p : ReceiverProxy P ρ) (closed : Bool)
    (queued : Nat) (next : Option (IncomingRequest P ρ)) (request : Nat) :
    ProxyPasses p closed (p.poll closed queued next request) := by
  unfold ReceiverProxy.poll
  cases closed with
  | true => exact .ready rfl rfl
  | false =>
      simp only [Bool.false_eq_true, if_false]
      split
      · unfold ReceiverProxy.handled
        split <;> exact .pending rfl rfl rfl
      · split
        · unfold ReceiverProxy.handled
          split <;> exact .pending rfl rfl rfl
        · exact .pending rfl rfl rfl

/-- Whichever of proxy and execution ends first, the other one follows. -/
theorem shape_pollProxy [DecidableEq P] {rx k : Nat} {p : ReceiverProxy P ρ}
    (client : ProtocolAgentFactory) (fresh : Nat) (next : Option (IncomingRequest P ρ))
    (h : Shape rx none room) (hp : room.proxies[k]? = some p) :
    Shape rx none (room.pollProxy client fresh k p next) := by
  unfold Room.pollProxy
  simp only
  have hpoll := proxyPasses_poll p (room.reader p.tx).isNone
    (((room.reader p.tx).map (·.fromNetwork.length)).getD 0) next fresh
  generalize p.poll (room.reader p.tx).isNone
    (((room.reader p.tx).map (·.fromNetwork.length)).getD 0) next fresh = poll at hpoll ⊢
  cases h with
  | running q x rpc pendingLocal trace hq hx =>
      obtain ⟨rfl, rfl⟩ := getElem?_singleton_eq_some hp
      cases hpoll with
      | @ready _ phase1 hclosed hrx =>
          have hnone : x.wrap.computation = none := by
            simpa [Room.reader, hx] using hclosed
          exact .proxyDone phase1 x _ _ _ (hrx.trans hq) hnone
      | @pending p' _ feed _ _ hrx htx =>
          refine .running p' (deliver p.tx feed x) _ _ _ (hrx.trans hq) ?_
          unfold Room.deliver
          split <;> exact hx.trans htx.symm
  | executionDone q rpc pendingLocal trace hq =>
      obtain ⟨rfl, rfl⟩ := getElem?_singleton_eq_some hp
      cases hpoll with
      | ready _ hrx => exact shape_comeBack client fresh _ _ _ _ (hrx.trans hq)
      | pending hopen _ _ => cases hopen
  | idle _ _ _ => cases hp
  | waiting _ _ _ _ _ _ => cases hp
  | proxyDone _ _ _ _ _ _ _ => cases hp

/-- An execution that ends after its proxy gives the listener back, and one
that ends before it leaves the proxy behind. -/
theorem shape_pollExecution [DecidableEq P] [Blake2s256] {rx k : Nat} {x : RunningExecution P ρ κ}
    {branch : Branch P ρ κ} (client : ProtocolAgentFactory) (fresh : Nat) (l : WrapLabel P ρ)
    (h : Shape rx none room) (hx : room.executions[k]? = some x)
    (hbranch : room.pollExecution client fresh k x l = some branch) : BranchShape rx branch := by
  obtain ⟨⟨state, effects⟩, hstep, rfl⟩ := Option.map_eq_some_iff.mp hbranch
  cases h with
  | running p y rpc pendingLocal trace hp hy =>
      obtain ⟨rfl, rfl⟩ := getElem?_singleton_eq_some hx
      cases state with
      | running wrap => exact .running p { x with wrap := wrap } _ _ _ hp hy
      | returned _ => exact .executionDone p _ _ _ hp
      | panicked _ => exact trivial
  | proxyDone c y rpc pendingLocal trace hc hy =>
      obtain ⟨rfl, rfl⟩ := getElem?_singleton_eq_some hx
      cases state with
      | running wrap =>
          exact .proxyDone c { x with wrap := wrap } _ _ _ hc (computation_of_step hy hstep)
      | returned _ => exact shape_comeBack client fresh _ _ _ _ hc
      | panicked _ => exact trivial
  | idle _ _ _ => cases hx
  | waiting _ _ _ _ _ _ => cases hx
  | executionDone _ _ _ _ _ => cases hx

end Shapes

section Worker

variable {P ρ κ : Type} {cfg : WorkerConfig P} {w : Worker P ρ κ} {branch : Branch P ρ κ}

/-- What is awaited for a room. -/
def awaitedAt (w : Worker P ρ κ) (roomId : RoomId) : Option (Awaited P ρ κ) :=
  w.awaited.bind fun a => if a.1 = roomId then some a.2 else none

/-- A configured room has its own receiver, any other room one that was
made for it. -/
def OwnReceiver (cfg : WorkerConfig P) (roomId : RoomId) (rx : Nat) : Prop :=
  if roomId ∈ cfg.rooms then rx = cfg.rooms.idxOf roomId else cfg.rooms.length ≤ rx

/-- A room has one of its forms, or it is not configured and has not been
asked for yet. -/
def RoomShape (cfg : WorkerConfig P) (roomId : RoomId) (a : Option (Awaited P ρ κ))
    (room : Room P ρ κ) : Prop :=
  (∃ rx, OwnReceiver cfg roomId rx ∧ Shape rx a room) ∨
    (roomId ∉ cfg.rooms ∧ a = none ∧ room = Room.empty)

structure WorkerShape (cfg : WorkerConfig P) (w : Worker P ρ κ) : Prop where
  fresh : cfg.rooms.length ≤ w.fresh
  rooms : ∀ roomId, RoomShape cfg roomId (awaitedAt w roomId) (w.rooms roomId)

/-- A request finds the room's sender, or a room without a proxy. -/
def noPlaceholder (w : Worker P ρ κ) : WorkerLabel P ρ κ → Bool
  | .takeLocal msg => keepsReceiver (w.rooms (serviceMsgRoomId msg))
  | _ => true

/-- At the start every configured room is idle. -/
theorem workerShape_start (cfg : WorkerConfig P) :
    WorkerShape cfg (Worker.start cfg : Worker P ρ κ) := by
  refine ⟨Nat.le_refl _, fun roomId => ?_⟩
  show RoomShape cfg roomId none (Worker.startRoom cfg roomId)
  unfold Worker.startRoom
  by_cases hmem : roomId ∈ cfg.rooms
  · rw [if_pos hmem]
    refine .inl ⟨cfg.rooms.idxOf roomId, ?_, .idle _ _ rfl⟩
    rw [OwnReceiver, if_pos hmem]
  · rw [if_neg hmem]
    exact .inr ⟨hmem, rfl, rfl⟩

theorem awaitedAt_finish (w : Worker P ρ κ) (roomId : RoomId) (room : Room P ρ κ)
    (a : Option (Awaited P ρ κ)) : awaitedAt (w.finish roomId (.ok (room, a))) roomId = a := by
  cases a with
  | none => rfl
  | some a => exact if_pos rfl

/-- A branch leaves nothing awaited for other rooms. -/
theorem awaitedAt_finish_of_ne (w : Worker P ρ κ) {roomId roomId' : RoomId}
    (room : Room P ρ κ) (a : Option (Awaited P ρ κ)) (hne : roomId' ≠ roomId) :
    awaitedAt (w.finish roomId (.ok (room, a))) roomId' = none := by
  cases a with
  | none => rfl
  | some a => exact if_neg (Ne.symm hne)

/-- A branch of one room leaves the other rooms alone. -/
theorem WorkerShape.finish {roomId : RoomId} (h : WorkerShape cfg w)
    (hothers : ∀ roomId' ≠ roomId, awaitedAt w roomId' = none)
    (hbranch : ∀ room a, branch = .ok (room, a) → RoomShape cfg roomId a room) :
    WorkerShape cfg (w.finish roomId branch) := by
  cases branch with
  | error why => exact ⟨h.fresh, h.rooms⟩
  | ok result =>
      obtain ⟨room, a⟩ := result
      refine ⟨Nat.le_succ_of_le h.fresh, fun roomId' => ?_⟩
      show RoomShape cfg roomId' _ (Function.update w.rooms roomId room roomId')
      by_cases heq : roomId' = roomId
      · rw [heq, Function.update_self, awaitedAt_finish]
        exact hbranch room a rfl
      · have hroom := h.rooms roomId'
        rw [hothers roomId' heq] at hroom
        rw [Function.update_of_ne heq, awaitedAt_finish_of_ne w room a heq]
        exact hroom

/-- The first request for a room that is not configured makes its
receiver. -/
theorem shape_takeLocal_empty (client : ProtocolAgentFactory) (fresh : Nat)
    (msg : ServicetoWorkerMsg κ) :
    Shape fresh none ((Room.empty : Room P ρ κ).takeLocal client fresh msg) := by
  have hroom : (Room.empty : Room P ρ κ).takeLocal client fresh msg
      = { coordination :=
            [{ channel := Phase1Channel.new (serviceMsgRoomId msg) fresh fresh,
               sent := some (localRpcMsg client msg) }]
          rpc := none, busy := true, restore := none, pendingLocal := [], proxies := [],
          executions := [], trace := [.took msg, .dispatched msg] } := by
    simp [Room.takeLocal, Room.empty, Room.log, dispatchLocalMsg, dispatchToRoom, takeSender,
      sendTo, Phase1Channel.new]
  rw [hroom]
  exact .waiting _ _ _ _ _ rfl

/-- A fresh number is not the receiver of a configured room. -/
theorem ownReceiver_fresh {roomId : RoomId} {fresh : Nat} (hroom : roomId ∉ cfg.rooms)
    (hfresh : cfg.rooms.length ≤ fresh) : OwnReceiver cfg roomId fresh := by
  rw [OwnReceiver, if_neg hroom]
  exact hfresh

/-- An unused room has nothing to poll. -/
theorem RoomShape.shape {roomId : RoomId} {a : Option (Awaited P ρ κ)} {room : Room P ρ κ}
    (h : RoomShape cfg roomId a room) (hused : room ≠ Room.empty) :
    ∃ rx, OwnReceiver cfg roomId rx ∧ Shape rx a room :=
  h.resolve_right fun hempty => hused hempty.2.2

theorem awaitedAt_eq_none (h : w.awaited = none) (roomId : RoomId) : awaitedAt w roomId = none := by
  rw [awaitedAt, h]
  rfl

theorem awaitedAt_eq_some {roomId : RoomId} {a : Awaited P ρ κ} (h : w.awaited = some (roomId, a)) :
    awaitedAt w roomId = some a ∧ ∀ roomId' ≠ roomId, awaitedAt w roomId' = none := by
  rw [awaitedAt, h]
  refine ⟨if_pos rfl, fun roomId' hne => ?_⟩
  rw [awaitedAt, h]
  exact if_neg (Ne.symm hne)

/-- Only the step's own room may have something awaited. -/
theorem awaitedAt_of_steps [DecidableEq P] [Blake2s256] [PeerIdCodec P] [UnsignedVarint]
    {l : WorkerLabel P ρ κ} {roomId : RoomId} (h : WorkerSteps cfg w l roomId branch) :
    ∀ roomId' ≠ roomId, awaitedAt w roomId' = none := by
  cases h with
  | takeLocal hawaited => exact fun roomId' _ => awaitedAt_eq_none hawaited roomId'
  | pollPhase1 hawaited _ => exact fun roomId' _ => awaitedAt_eq_none hawaited roomId'
  | pollProxy hawaited _ => exact fun roomId' _ => awaitedAt_eq_none hawaited roomId'
  | pollExecution hawaited _ _ _ => exact fun roomId' _ => awaitedAt_eq_none hawaited roomId'
  | pollPhase2 hawaited => exact (awaitedAt_eq_some hawaited).2
  | pollNegotiation hawaited => exact (awaitedAt_eq_some hawaited).2

/-- What a branch leaves is a room in one of its forms. -/
theorem roomShape_of_branch {roomId : RoomId} {rx : Nat} (hown : OwnReceiver cfg roomId rx)
    (h : BranchShape rx branch) (room : Room P ρ κ) (a : Option (Awaited P ρ κ))
    (heq : branch = .ok (room, a)) : RoomShape cfg roomId a room := by
  rw [heq] at h
  exact .inl ⟨rx, hown, h⟩

/-- Every branch of the worker keeps the forms. -/
theorem workerShape_step [DecidableEq P] [Blake2s256] [PeerIdCodec P] [UnsignedVarint]
    {w' : Worker P ρ κ} {l : WorkerLabel P ρ κ} (h : WorkerShape cfg w)
    (hl : noPlaceholder w l = true) (hstep : w.step cfg l = some w') : WorkerShape cfg w' := by
  obtain ⟨roomId, branch, hsteps, rfl⟩ := workerSteps_step hstep
  refine h.finish (awaitedAt_of_steps hsteps) ?_
  have hroom := h.rooms roomId
  cases hsteps with
  | @takeLocal msg hawaited =>
      rw [awaitedAt_eq_none hawaited] at hroom
      rcases hroom with ⟨rx, hown, hshape⟩ | ⟨hother, _, hempty⟩
      · exact roomShape_of_branch hown (shape_takeLocal _ _ _ hshape hl)
      · -- a room that had no channel gets its first one
        rw [hempty]
        exact roomShape_of_branch (ownReceiver_fresh hother h.fresh)
          (shape_takeLocal_empty _ _ _)
  | @pollPhase1 _ _ _ _ _ listener hawaited hlistener =>
      rw [awaitedAt_eq_none hawaited] at hroom
      obtain ⟨rx, hown, hshape⟩ := hroom.shape fun hempty => by
        rw [hempty] at hlistener
        cases hlistener
      exact roomShape_of_branch hown (shape_pollPhase1 _ _ _ _ _ _ hshape hlistener)
  | pollProxy hawaited hp =>
      rw [awaitedAt_eq_none hawaited] at hroom
      obtain ⟨rx, hown, hshape⟩ := hroom.shape fun hempty => by
        rw [hempty] at hp
        cases hp
      exact roomShape_of_branch hown (shape_pollProxy _ _ _ hshape hp)
  | pollExecution hawaited hx _ hbranch =>
      rw [awaitedAt_eq_none hawaited] at hroom
      obtain ⟨rx, hown, hshape⟩ := hroom.shape fun hempty => by
        rw [hempty] at hx
        cases hx
      exact roomShape_of_branch hown (shape_pollExecution _ _ _ hshape hx hbranch)
  | pollPhase2 hawaited =>
      rw [(awaitedAt_eq_some hawaited).1] at hroom
      obtain ⟨rx, hown, hshape⟩ := hroom.resolve_right nofun
      exact roomShape_of_branch hown (shape_pollPhase2 _ _ _ _ _ hshape)
  | pollNegotiation hawaited =>
      rw [(awaitedAt_eq_some hawaited).1] at hroom
      obtain ⟨rx, hown, hshape⟩ := hroom.resolve_right nofun
      exact roomShape_of_branch hown (shape_pollNegotiation _ _ _ hshape)

end Worker

end FrostMpcTss.Proofs
