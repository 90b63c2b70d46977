import FrostMpcTss.Service.Codecs
import FrostMpcTss.Proofs.WorkerRooms

/-!
# `FrostMpcTss.Proofs.RoomOwnership`: one session per room, on its own receiver

In every run without a placeholder for a room whose proxy is unfinished,
each configured room's receiver has exactly one owner, its executions
read from a proxy over that receiver, and every `Phase1Channel` has its
sender (`onePerRoom`).

A request that comes between the end of an execution and the end of its
proxy breaks all of this. It is dispatched to a placeholder, on which a
session can start; and when the proxy ends, the sender of the restored
channel replaces the one of the placeholder, whose next poll panics.
-/

set_option autoImplicit false

namespace FrostMpcTss.Proofs

open Lib Network Service

section Owners

variable {P ρ κ : Type} {cfg : WorkerConfig P} {a : Option (Awaited P ρ κ)} {room : Room P ρ κ}

/-- The receivers in a room's listening channels, awaited future, proxies
and restored channel. -/
def receiversIn (a : Option (Awaited P ρ κ)) (room : Room P ρ κ) : List Nat :=
  room.coordination.map (·.channel.rx) ++ a.toList.map Awaited.rx
    ++ room.proxies.map (·.requestReceiver) ++ room.restore.toList.map (·.rx)

def owners (w : Worker P ρ κ) (roomId : RoomId) : List Nat :=
  receiversIn (awaitedAt w roomId) (w.rooms roomId)

/-- The room's own receiver has one owner, and a running execution of the
room reads from a proxy over it. -/
structure OnOwnReceiver (cfg : WorkerConfig P) (w : Worker P ρ κ) (roomId : RoomId) : Prop where
  owner : (owners w roomId).count (cfg.rooms.idxOf roomId) = 1
  elsewhere : ∀ roomId' ≠ roomId, cfg.rooms.idxOf roomId ∉ owners w roomId'
  executions : (w.rooms roomId).executions.length ≤ 1
  fed : ∀ x ∈ (w.rooms roomId).executions, x.wrap.computation.isSome = true →
    ∃ p ∈ (w.rooms roomId).proxies, p.tx = x.fromNetwork ∧
      p.requestReceiver = cfg.rooms.idxOf roomId

structure OnePerRoom (cfg : WorkerConfig P) (w : Worker P ρ κ) : Prop where
  rooms : ∀ roomId ∈ cfg.rooms, OnOwnReceiver cfg w roomId
  /-- No poll finds its sender gone. -/
  senders : ∀ roomId, ∀ l ∈ (w.rooms roomId).coordination,
    (w.rooms roomId).tryRecv l ≠ .canceled

/-- In each form the receiver has one owner. -/
theorem receiversIn_of_shape {rx : Nat} (h : Shape rx a room) : receiversIn a room = [rx] := by
  cases h with
  | idle _ _ hc => exact congrArg (fun rx => [rx]) hc
  | waiting _ _ _ _ _ hc => exact congrArg (fun rx => [rx]) hc
  | awaited _ _ _ _ ha => exact congrArg (fun rx => [rx]) ha
  | running _ _ _ _ _ hp _ => exact congrArg (fun rx => [rx]) hp
  | proxyDone _ _ _ _ _ hc _ => exact congrArg (fun rx => [rx]) hc
  | executionDone _ _ _ _ hp => exact congrArg (fun rx => [rx]) hp

theorem length_executions_of_shape {rx : Nat} (h : Shape rx a room) :
    room.executions.length ≤ 1 := by
  cases h <;> simp

theorem fed_of_shape {rx : Nat} (h : Shape rx a room) {x : RunningExecution P ρ κ}
    (hx : x ∈ room.executions) (hrunning : x.wrap.computation.isSome = true) :
    ∃ p ∈ room.proxies, p.tx = x.fromNetwork ∧ p.requestReceiver = rx := by
  cases h with
  | running p y _ _ _ hp hy =>
      rw [List.mem_singleton.mp hx]
      exact ⟨p, List.mem_singleton_self p, hy.symm, hp⟩
  | proxyDone _ y _ _ _ _ hy =>
      -- its own receiver is gone, that is why the proxy has ended
      rw [List.mem_singleton.mp hx, hy] at hrunning
      cases hrunning
  | idle _ _ _ => cases hx
  | waiting _ _ _ _ _ _ => cases hx
  | awaited _ _ _ _ _ => cases hx
  | executionDone _ _ _ _ _ => cases hx

theorem sender_of_shape {rx : Nat} (h : Shape rx a room) {l : Listener P ρ κ}
    (hl : l ∈ room.coordination) : room.tryRecv l ≠ .canceled := by
  cases h with
  | idle c _ _ =>
      rw [List.mem_singleton.mp hl]
      simp [Room.tryRecv]
  | waiting c msg _ _ _ _ =>
      rw [List.mem_singleton.mp hl]
      nofun
  | awaited _ _ _ _ _ => cases hl
  | running _ _ _ _ _ _ _ => cases hl
  | proxyDone _ _ _ _ _ _ _ => cases hl
  | executionDone _ _ _ _ _ => cases hl

/-- The receivers of different rooms are different. -/
theorem ne_of_ownReceiver {roomId roomId' : RoomId} {rx : Nat} (hmem : roomId ∈ cfg.rooms)
    (hne : roomId' ≠ roomId) (hown : OwnReceiver cfg roomId' rx) :
    rx ≠ cfg.rooms.idxOf roomId := by
  rintro rfl
  unfold OwnReceiver at hown
  split at hown
  · exact hne (List.idxOf_inj hmem |>.mp hown).symm
  · exact absurd (List.idxOf_lt_length_of_mem hmem) (Nat.not_lt.mpr hown)

theorem onePerRoom_of_workerShape {w : Worker P ρ κ} (h : WorkerShape cfg w) :
    OnePerRoom cfg w := by
  refine ⟨fun roomId hmem => ?_, fun roomId l hl => ?_⟩
  · have hown : ∀ rx, OwnReceiver cfg roomId rx → rx = cfg.rooms.idxOf roomId := by
      intro rx hrx
      rwa [OwnReceiver, if_pos hmem] at hrx
    obtain ⟨rx, hrx, hshape⟩ := (h.rooms roomId).resolve_right fun hempty => hempty.1 hmem
    cases hown rx hrx
    refine ⟨?_, fun roomId' hne hin => ?_, length_executions_of_shape hshape,
      fun x => fed_of_shape hshape⟩
    · rw [owners, receiversIn_of_shape hshape]
      exact List.count_singleton_self
    · rcases h.rooms roomId' with ⟨rx', hrx', hshape'⟩ | ⟨_, ha, hempty⟩
      · rw [owners, receiversIn_of_shape hshape'] at hin
        exact ne_of_ownReceiver hmem hne hrx' (List.mem_singleton.mp hin).symm
      · rw [owners, ha, hempty] at hin
        cases hin
  · rcases h.rooms roomId with ⟨rx, _, hshape⟩ | ⟨_, _, hempty⟩
    · exact sender_of_shape hshape hl
    · rw [hempty] at hl
      cases hl

/-- In every run of the worker in which no request makes a placeholder for
a room with an unfinished proxy, every state has one owner per receiver
and one session per room. -/
theorem onePerRoom [DecidableEq P] [Blake2s256] [PeerIdCodec P] [UnsignedVarint]
    (cfg : WorkerConfig P) {w : Worker P ρ κ}
    (hreach : Reach (Worker.step cfg) (fun w l => noPlaceholder w l = true) (Worker.start cfg)
      w) : OnePerRoom cfg w := by
  have hshape : WorkerShape cfg w := hreach.invariant (workerShape_start cfg)
    fun _ _ _ hw hl hstep => workerShape_step hw hl hstep
  exact onePerRoom_of_workerShape hshape

end Owners

namespace LateRequest

open scoped IdentityHash

def roomId : RoomId := ⟨"room"⟩

/-- A worker of the peer with the byte `1`, with one room. -/
def cfg : WorkerConfig Ed25519PeerId where
  localPeerId := .ofByte 1
  rooms := [roomId]
  client := { make := fun protocolId => protocolId < 2, keygen := 0, keysign := 1 }

abbrev Label := WorkerLabel Ed25519PeerId Nat Nat

/-- A request for a signature of two peers. -/
def request (sender : Nat) : Label := .takeLocal (.keySign 2 roomId [] sender)

/-- The channel at this position is polled, and no message is there. -/
def listens (k now : Nat) : Label := .pollPhase1 roomId k none noSessionId now

/-- The negotiation proposes, and the other peer answers. -/
def negotiates (now : Nat) : List Label :=
  [.pollNegotiation { now := now, response := .pending, connected := some 1 },
    .pollNegotiation { now := now, response := .ok (.ofByte 2), connected := none }]

/-- The negotiation has no answer. -/
def noAnswer (now : Nat) : Label :=
  .pollNegotiation { now := now, response := .pending, connected := none }

/-- The agent returns, and the execution after the quiet period. -/
def ends (now : Nat) (result : AgentResult) : List Label :=
  [.pollExecution roomId 0 (.pollComputation now
      { received := 0, sent := [], result := some result }),
    .pollExecution roomId 0 (.pollComputation (now + completionQuietPeriod)
      { received := 0, sent := [], result := none })]

def fails (now : Nat) : List Label := ends now (.error "failed")

def proxyEnds : Label := .pollProxy roomId 0 none

/-- A session runs and its execution ends. -/
def session : List Label := [request 0, listens 0 0] ++ negotiates 0 ++ fails 0

/-- After the proxy has ended too, the next session gets the same
receiver. -/
theorem onePerRoom_nextSession :
    ∃ w : Worker Ed25519PeerId Nat Nat,
      runIf (Worker.step cfg) noPlaceholder (Worker.start cfg)
        (session ++ [proxyEnds, request 1, listens 0 500] ++ negotiates 500) = some w ∧
      owners w roomId = [0] ∧ (w.rooms roomId).executions.length = 1 ∧ OnePerRoom cfg w := by
  refine ⟨_, rfl, rfl, rfl, ?_⟩
  exact onePerRoom cfg (reach_of_runIf
    (session ++ [proxyEnds, request 1, listens 0 500] ++ negotiates 500) rfl)

/-- A request before that is served by a placeholder. Its session reads
from a receiver that is not the room's. And if its negotiation runs out of
time, the end of the proxy takes the placeholder's sender away, so that
its next poll panics. -/
theorem not_onePerRoom_lateRequest :
    (∃ w : Worker Ed25519PeerId Nat Nat,
      Reach (Worker.step cfg) Always (Worker.start cfg) w ∧ ¬ OnePerRoom cfg w) ∧
    ∃ w : Worker Ed25519PeerId Nat Nat,
      Reach (Worker.step cfg) Always (Worker.start cfg) w ∧
        w.panicked = some .requestCanceled := by
  refine ⟨⟨_, reach_of_run (session ++ [request 1, listens 0 500] ++ negotiates 500) rfl,
    fun h => ?_⟩, _, reach_of_run (session ++ [request 1, listens 0 500, noAnswer 46000,
      proxyEnds, listens 0 46000]) rfl, rfl⟩
  obtain ⟨p, hp, htx, hrx⟩ := (h.rooms roomId (List.mem_singleton_self _)).fed _
    List.mem_cons_self rfl
  -- the second proxy is the one the execution reads from
  have hmem : (p.tx, p.requestReceiver) ∈ [(4, 0), (10, 7)] :=
    List.mem_map_of_mem (f := fun p => (p.tx, p.requestReceiver)) hp
  have hpair : (p.tx, p.requestReceiver) = (10, 0) := Prod.ext htx hrx
  rw [hpair] at hmem
  exact absurd hmem (by decide)

end LateRequest

end FrostMpcTss.Proofs
