import FrostMpcTss.Proofs.Execution
import FrostMpcTss.Service.Codecs
import FrostMpcTss.Service.Coordination
import FrostMpcTss.Service.WrapExecution

/-!
# `FrostMpcTss.Proofs.ReceivedStart`: from a start message to an execution

A joiner that decodes a start message goes on to
`ProtocolExecution::new` without a look at the decoded peers. The
constructor needs the local peer among them (`unwrap`) and a count
that is at least two after the cast to `u16` (`n - 1`, and the two
bounded channels of that capacity): `new_eq_ok` and `new_ne_ok`. It
does not need distinct peers.

`receivedStart_iff` follows one payload from the `Phase2Channel` on
and gives both conditions: when the worker does not panic, and when it
also starts only sessions in which the local peer occurs once among at
least two peers.
-/

set_option autoImplicit false

namespace FrostMpcTss.Proofs

open Lib Network Service

section New

variable {P ρ κ : Type} [DecidableEq P]

/-- The worker's constructor call returns under the same condition. -/
theorem wrapNew_isOk_iff (n : Nat) (sessionId : SessionId) (protocolId : Nat)
    (peerset : Peerset P) (pendingResponse : Option κ) :
    (∃ w : WrapExecution P ρ κ,
        WrapExecution.new n sessionId protocolId peerset pendingResponse = .ok w) ↔
      peerset.localPeerId ∈ peerset.peers ∧ 2 ≤ asU16 peerset.size := by
  constructor
  · rintro ⟨w, hw⟩
    by_contra hbad
    unfold WrapExecution.new at hw
    cases hs : ProtocolExecution.new (ρ := ρ) sessionId protocolId peerset pendingResponse with
    | ok s => exact new_ne_ok sessionId protocolId peerset pendingResponse hbad s hs
    | error why =>
        rw [hs] at hw
        cases hw
  · rintro ⟨hlocal, hsize⟩
    obtain ⟨s, hs, _⟩ :=
      new_eq_ok (ρ := ρ) sessionId protocolId peerset pendingResponse hlocal hsize
    unfold WrapExecution.new
    rw [hs]
    exact ⟨_, rfl⟩

end New

section Received

variable {P ρ κ : Type} [DecidableEq P] [PeerIdCodec P] [UnsignedVarint]

omit [DecidableEq P] in
/-- A decoded peerset has the local peer id the decoder was given. -/
theorem localPeerId_of_fromBytes {payload : Bytes} {localPeerId : P} {startMsg : StartMsg P}
    (h : StartMsg.fromBytes payload localPeerId = .ok startMsg) :
    startMsg.peerset.localPeerId = localPeerId := by
  simp only [StartMsg.fromBytes, Peerset.fromBytes, Outcome.bind_eq_ok] at h
  obtain ⟨_, _, _, _, _, _, _, _, peerset, ⟨_, _, _, _, _, _, _, _, _, _, hp⟩, hm⟩ := h
  cases hp
  cases hm
  rfl

/-- The local peer occurs exactly once, among at least two peers. -/
def LocalOnceAmongTwo (localPeerId : P) (peers : List P) : Prop :=
  peers.count localPeerId = 1 ∧ 2 ≤ peers.dedup.length

/-- The worker does not panic on the way to the execution, and starts
one only in a peerset with the local peer once among at least two. -/
def SafelyStarted (localPeerId : P) (peers : List P)
    (started : Except Panic (WrapExecution P ρ κ)) : Prop :=
  (∀ why, started ≠ .error why) ∧
  ∀ w, started = .ok w → LocalOnceAmongTwo localPeerId peers

/-- For every payload that decodes: `Phase2Msg::Start` comes out of the
poll; the constructors after it do not panic if and only if the local
peer is listed and the truncated count is at least two; and the start
is safe if and only if, on top of that, the local peer is listed once
and among at least two peers. -/
theorem receivedStart_iff (c : Phase2Channel P ρ) (localPeerId : P) (m : IncomingRequest P ρ)
    (startMsg : StartMsg P) (now fresh protocolId : Nat)
    (hm : m.context.messageType = .coordination) (hs : m.context.sessionId = c.sessionId)
    (hd : StartMsg.fromBytes m.payload localPeerId = .ok startMsg) :
    let peers := startMsg.peerset.peers
    let started : Except Panic (WrapExecution P ρ κ) :=
      WrapExecution.new startMsg.peerset.size c.sessionId protocolId startMsg.peerset none
    c.poll localPeerId (some m) now fresh
      = .start c.id
          (ReceiverProxy.new c.id c.rx startMsg.peerset c.sessionId c.buffered fresh)
          startMsg.peerset startMsg.body c.sessionId ∧
    ((∀ why, started ≠ .error why) ↔ localPeerId ∈ peers ∧ 2 ≤ asU16 peers.length) ∧
    (SafelyStarted localPeerId peers started ↔
      LocalOnceAmongTwo localPeerId peers ∧ 2 ≤ asU16 peers.length) := by
  intro peers started
  have hlocal := localPeerId_of_fromBytes hd
  have hnopanic : (∀ why, started ≠ .error why) ↔
      localPeerId ∈ peers ∧ 2 ≤ asU16 peers.length := by
    have hok := wrapNew_isOk_iff (ρ := ρ) (κ := κ) startMsg.peerset.size c.sessionId protocolId
      startMsg.peerset none
    rw [hlocal] at hok
    rw [← show _ ↔ localPeerId ∈ peers ∧ 2 ≤ asU16 peers.length from hok]
    show (∀ why, started ≠ .error why) ↔ ∃ w, started = .ok w
    cases started with
    | ok w => exact ⟨fun _ => ⟨w, rfl⟩, fun _ why h => by cases h⟩
    | error why => exact ⟨fun h => absurd rfl (h why), fun ⟨w, h⟩ => by cases h⟩
  refine ⟨?_, hnopanic, ?_⟩
  · simp only [Phase2Channel.poll, hm, hs, Phase2Channel.onCoordination, hd, ne_eq,
      not_true_eq_false, if_false]
  · constructor
    · rintro ⟨hpanic, honce⟩
      have hrange := hnopanic.mp hpanic
      cases hstarted : started with
      | ok w => exact ⟨honce w hstarted, hrange.2⟩
      | error why => exact absurd hstarted (hpanic why)
    · rintro ⟨honce, hsize⟩
      have hmem : localPeerId ∈ peers :=
        List.count_pos_iff.mp (by rw [honce.1]; exact Nat.one_pos)
      exact ⟨hnopanic.mpr ⟨hmem, hsize⟩, fun _ _ => honce⟩

end Received

section Runs

/-- A `Phase2Channel` of the second peer. -/
def waitingPhase2 : Phase2Channel Ed25519PeerId Nat where
  id := ⟨"room"⟩
  sessionId := noSessionId
  rx := 0
  buffered := []
  timeout := phase2Timeout

/-- A start message of the session with the given peers. -/
def startWith (peers : List Ed25519PeerId) : StartMsg Ed25519PeerId where
  peerset := { localPeerId := .ofByte 2, peers := peers, parties := [] }
  body := []

/-- Its wire form. -/
def receivedStart (peers : List Ed25519PeerId) : IncomingRequest Ed25519PeerId Nat where
  context :=
    { messageType := .coordination, protocolId := 1, sessionId := noSessionId, messageId := 0 }
  peerId := .ofByte 1
  isBroadcast := true
  peerIndex := 0
  payload := (startWith peers).toBytes
  pendingResponse := 0

/-- What the worker builds for it. -/
def startedWith (peers : List Ed25519PeerId) :
    Except Panic (WrapExecution Ed25519PeerId Nat Nat) :=
  WrapExecution.new (startWith peers).peerset.size noSessionId 1 (startWith peers).peerset none

/-- Two distinct peers with the local one among them start safely. -/
theorem safelyStarted_two :
    SafelyStarted (.ofByte 2) [.ofByte 1, .ofByte 2] (startedWith [.ofByte 1, .ofByte 2]) :=
  (receivedStart_iff waitingPhase2 (.ofByte 2) (receivedStart [.ofByte 1, .ofByte 2])
    (startWith [.ofByte 1, .ofByte 2]) 0 0 1 rfl rfl (by decide +kernel)).2.2.mpr
    ⟨⟨by decide +kernel, by decide +kernel⟩, by decide⟩

/-- Start messages that decode and are not safe: without a peer and
with a stranger only the `unwrap` panics, with the local peer alone the
channel of capacity zero does, and with the local peer twice an
execution is started. -/
theorem not_safelyStarted :
    (∀ peers ∈ [[], [.ofByte 1], [.ofByte 2], [.ofByte 2, .ofByte 2]],
      StartMsg.fromBytes (receivedStart peers).payload (.ofByte 2) = .ok (startWith peers)) ∧
    startedWith [] = .error .localPeerMissing ∧
    startedWith [.ofByte 1] = .error .localPeerMissing ∧
    startedWith [.ofByte 2] = .error .zeroCapacity ∧
    (∃ w, startedWith [.ofByte 2, .ofByte 2] = .ok w) ∧
    ∀ peers ∈ [[], [.ofByte 1], [.ofByte 2], [.ofByte 2, .ofByte 2]],
      ¬ SafelyStarted (.ofByte 2) peers (startedWith peers) := by
  have hempty : startedWith [] = .error .localPeerMissing := rfl
  have hstranger : startedWith [.ofByte 1] = .error .localPeerMissing := by rfl
  have halone : startedWith [.ofByte 2] = .error .zeroCapacity := by rfl
  have htwice : ∃ w, startedWith [.ofByte 2, .ofByte 2] = .ok w :=
    (wrapNew_isOk_iff _ _ _ _ _).mpr ⟨by decide +kernel, by decide⟩
  refine ⟨by decide +kernel, hempty, hstranger, halone, htwice, ?_⟩
  intro peers hpeers
  simp only [List.mem_cons, List.not_mem_nil, or_false] at hpeers
  rcases hpeers with rfl | rfl | rfl | rfl
  · exact fun h => h.1 _ hempty
  · exact fun h => h.1 _ hstranger
  · exact fun h => h.1 _ halone
  · rintro ⟨_, honce⟩
    obtain ⟨w, hw⟩ := htwice
    have hcount : ([.ofByte 2, .ofByte 2] : List Ed25519PeerId).count (.ofByte 2) ≠ 1 := by
      decide +kernel
    exact hcount (honce w hw).1

end Runs

end FrostMpcTss.Proofs
