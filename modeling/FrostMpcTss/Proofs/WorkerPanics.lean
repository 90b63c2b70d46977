import FrostMpcTss.Proofs.AfterCompletion
import FrostMpcTss.Proofs.Channels
import FrostMpcTss.Proofs.EchoBlame
import FrostMpcTss.Proofs.WorkerRooms

/-!
# `FrostMpcTss.Proofs.WorkerPanics`: what makes the worker panic

A panic of a branch ends `Worker::run`. Each branch has a condition on the
state before it and on what it reads, under which it does not panic:

* `phase1Fits`: a `Phase1Channel` without a request has its sender;
* `phase2Fits` and `negotiationFits`: the start message decodes, and the
  session that starts has the local peer and at least two peers;
* `pollFits`: the channels of an execution have room for what the poll puts
  into them;
* `echoFits`: the gadget has an own broadcast in its group, the receivers of
  its acknowledgements, and an open response channel.

`stepFits` puts them together, and `branch_ok_of_fits` says that a branch
that fits does not panic. None of the conditions runs the branch.
-/

set_option autoImplicit false

namespace FrostMpcTss.Proofs

open Lib Network Service
open Service.ProtocolExecution Service.EchoGadget
open Service.NegotiationFuture Service.Room

section Execution

variable {P ρ κ : Type} {s : ProtocolExecution P ρ κ} {echoTx : List (EchoMessage ρ)}

/-- The message at the head of the agent's channel can be sent: its
recipient is in the peerset, or the echo channel has room. -/
def outgoingFits (s : ProtocolExecution P ρ κ) (echoTx : List (EchoMessage ρ)) : Bool :=
  s.fromProtocol.head?.all fun m =>
    match m.recipient with
    | some k => 1 ≤ k && k ≤ s.peerset.peers.length
    | none => s.i + 1 < 2 ^ 16 && echoTx.length ≤ s.peerset.size

/-- The next message of the network, if it is taken, has a sender that
fits a `u16`. A direct one finds its agent running and room in its channel. -/
def incomingFits (s : ProtocolExecution P ρ κ) : Bool :=
  s.fromNetwork.head?.all fun m => !s.accepts m ||
    m.peerIndex + 1 < 2 ^ 16 &&
      (m.isBroadcast || s.i + 1 < 2 ^ 16 && s.agentFuture && s.toProtocol.length < s.n - 1)

/-- A round that the poll forwards finds its agent running, the agent's
channel empty and room in the echo channel behind the agent's own message.
It comes with a broadcast, and the round after it is not complete as well. -/
def roundFits (s : ProtocolExecution P ρ κ) (echoTx : List (EchoMessage ρ)) : Bool :=
  !s.fromNetwork.head?.all s.accepts || !completes s s.nextIncomingBroadcastId ||
    s.agentFuture && s.toProtocol.isEmpty && s.fromNetwork.head?.all (·.isBroadcast) &&
      echoTx.length + broadcasts (s.fromProtocol.take 1) + (s.n - 1) ≤ s.peerset.size + 1 &&
      !completes s (s.nextIncomingBroadcastId + 1)

/-- A poll of the execution finds room for all it moves. -/
def pollFits (s : ProtocolExecution P ρ κ) (echoTx : List (EchoMessage ρ)) : Bool :=
  outgoingFits s echoTx && incomingFits s && roundFits s echoTx

theorem sendable_of_outgoingFits (h : outgoingFits s echoTx = true) : Sendable s echoTx := by
  intro m hm
  rw [outgoingFits, hm, Option.all_some] at h
  cases hto : m.recipient <;> simpa [hto] using h

variable [DecidableEq P]

/-- The first stage puts the agent's broadcast into the echo channel. -/
theorem length_echoTx_takesOutgoing {st : PollState P ρ κ}
    (h : TakesOutgoing { exec := s, echoTx := echoTx, effects := [] } st) :
    st.echoTx.length = echoTx.length + broadcasts (s.fromProtocol.take 1) := by
  cases h with
  | nothing hq =>
      have hq : s.fromProtocol = [] := hq
      rw [hq]
      rfl
  | @direct m rest k peer hq hto _ =>
      have hq : s.fromProtocol = m :: rest := hq
      simp [hq, sentDirect, broadcasts, hto]
  | @broadcast m rest hq hto _ _ _ =>
      have hq : s.fromProtocol = m :: rest := hq
      simp [hq, sentBroadcast, broadcasts, hto]

omit [DecidableEq P] in
/-- The second stage leaves the echo channel alone. -/
theorem echoTx_intake {now : Nat} {st st' : PollState P ρ κ} (h : Intake now st st') :
    st'.echoTx = st.echoTx := by
  have hrestart : ∀ st : PollState P ρ κ, (restartQuietPeriod now st).echoTx = st.echoTx := by
    intro st
    unfold restartQuietPeriod
    split <;> rfl
  cases h with
  | nothing _ => rfl
  | message _ _ htakes =>
      cases htakes with
      | broadcast _ _ => exact hrestart _
      | direct _ _ _ _ _ => exact hrestart _

/-- The second stage has taken an accepted message, if any. -/
theorem accepts_of_intake {now : Nat} {st st' : PollState P ρ κ}
    (hout : TakesOutgoing { exec := s, echoTx := echoTx, effects := [] } st)
    (hin : Intake now st st') : s.fromNetwork.head?.all s.accepts = true := by
  have hqueue : st.exec.fromNetwork = s.fromNetwork := by cases hout <;> rfl
  have hsession : st.exec.sessionId = s.sessionId := by cases hout <;> rfl
  cases hin with
  | nothing hnil =>
      rw [← hqueue, hnil]
      rfl
  | message hhead hacc _ =>
      rw [← hqueue, hhead, Option.all_some]
      simpa only [accepts, hsession] using hacc

/-- With room for the round the third stage succeeds. -/
theorem forwards_of_fits {now : Nat} {st st' : PollState P ρ κ}
    {result : Except Panic (PollState P ρ κ)}
    (hout : TakesOutgoing { exec := s, echoTx := echoTx, effects := [] } st)
    (hin : Intake now st st') (hfits : roundFits s echoTx = true) (hfwd : Forwards st' result) :
    ∃ st'', result = .ok st'' := by
  obtain ⟨new, htaken, hnew⟩ : ∃ new, Taken s new st'.exec ∧
      (s.fromNetwork.head?.all (·.isBroadcast) = true → new = []) := by
    rcases taken_intake hout hin with ⟨htaken, _⟩ | ⟨m, req, hm, hb, _, htaken⟩
    · exact ⟨[], htaken, fun _ => rfl⟩
    · refine ⟨[req], htaken, fun hall => ?_⟩
      rw [hm, Option.all_some, hb] at hall
      cases hall
  by_cases hround : RoundComplete st'.exec
  · have hcomplete := htaken.roundComplete_iff.mp hround
    have hframe := (frame_takesOutgoing now hout).trans (frame_intake hin)
    simp only [roundFits, accepts_of_intake hout hin, hcomplete, Bool.not_true, Bool.false_or,
      Bool.and_eq_true, Bool.not_eq_true', List.isEmpty_iff, decide_eq_true_eq] at hfits
    obtain ⟨⟨⟨⟨hrunning, hempty⟩, hbroadcast⟩, hroom⟩, hnext⟩ := hfits
    have hechoes : st'.echoTx.length = echoTx.length + broadcasts (s.fromProtocol.take 1) := by
      rw [echoTx_intake hin]
      exact length_echoTx_takesOutgoing hout
    have hfree : RoomForRound st' (st'.exec.n - 1) := by
      refine ⟨.inr ?_, .inr (hframe.agentFuture.trans hrunning), .inr ?_⟩
      · rw [hechoes, hframe.peerset, hframe.n]
        exact hroom
      · rw [htaken.toProtocol, hnew hbroadcast, hempty]
        exact Nat.le_of_eq (Nat.zero_add _)
    -- the round after it would not fit, but it is not complete
    have hlast : ¬ RoundComplete (forwardRound st').exec := by
      rw [roundComplete_forwardRound_iff, htaken.pendingIncoming, htaken.nextIncoming, htaken.n]
      exact of_decide_eq_false hnext
    cases hfwd with
    | done hnot => exact absurd hround hnot
    | full _ hfull _ => exact absurd hfree hfull
    | round _ _ hrest => exact ⟨_, forwards_of_incomplete hlast hrest⟩
  · exact ⟨_, forwards_of_incomplete hround hfwd⟩

/-- The second stage takes an accepted message that fits. -/
theorem takeIncoming_of_fits {now : Nat} {st : PollState P ρ κ} {m : IncomingRequest P ρ}
    (hout : TakesOutgoing { exec := s, echoTx := echoTx, effects := [] } st)
    (hhead : st.exec.fromNetwork.head? = some m) (hacc : st.exec.accepts m = true)
    (hfits : incomingFits s = true) : ∃ st', takeIncoming now (withoutHead st) m = .ok st' := by
  have hqueue : st.exec.fromNetwork = s.fromNetwork := by cases hout <;> rfl
  have htoProtocol : st.exec.toProtocol = s.toProtocol := by cases hout <;> rfl
  have hframe := frame_takesOutgoing now hout
  have haccepts : s.accepts m = true := by
    rw [accepts, hframe.sessionId] at hacc
    exact hacc
  simp only [incomingFits, ← hqueue, hhead, Option.all_some, haccepts, Bool.not_true,
    Bool.false_or, Bool.and_eq_true, Bool.or_eq_true, decide_eq_true_eq] at hfits
  obtain ⟨hindex, hdirect⟩ := hfits
  cases hb : m.isBroadcast with
  | true => exact ⟨_, takeIncoming_eq_ok.mpr (.broadcast hb hindex)⟩
  | false =>
      rw [hb, ← htoProtocol, ← hframe.i, ← hframe.n, ← hframe.agentFuture] at hdirect
      obtain ⟨⟨hi, hrunning⟩, hroom⟩ := hdirect.resolve_left Bool.false_ne_true
      have htakes : TakesIncoming now (withoutHead st) m _ := .direct hb hindex hi hrunning hroom
      exact ⟨_, takeIncoming_eq_ok.mpr htakes⟩

omit [DecidableEq P] in
/-- The last stage finds the agent's result when the deadline is set. -/
theorem completeOrPollAgent_ne_panic (now : Nat) (turn : AgentTurn) {st : PollState P ρ κ}
    (hc : Completion st.exec) (why : Panic) : completeOrPollAgent now turn st ≠ .panic why := by
  have hcompletes := completes_completeOrPollAgent now turn st
  intro hpoll
  generalize completeOrPollAgent now turn st = poll at hpoll hcompletes
  cases hcompletes with
  | @reports _ r _ _ _ => cases r <;> cases hpoll
  | missing hdelay hnone =>
      have hboth := hc.completionDelay
      rw [hdelay, hnone] at hboth
      cases hboth
  | waits _ _ => cases hpoll
  | agent _ _ => cases hpoll
  | idle _ _ => cases hpoll

/-- A poll that fits does not panic. -/
theorem poll_ne_panic (now : Nat) (turn : AgentTurn) (hc : Completion s)
    (hfits : pollFits s echoTx = true) (why : Panic) : s.poll echoTx now turn ≠ .panic why := by
  simp only [pollFits, Bool.and_eq_true] at hfits
  obtain ⟨⟨houtgoing, hincoming⟩, hroundFits⟩ := hfits
  have hpolls := polls_poll s echoTx now turn hc.two_le
  generalize s.poll echoTx now turn = poll at hpolls
  rintro rfl
  generalize hpoll : ExecPoll.panic why = poll at hpolls
  cases hpolls with
  | outgoingPanics hout =>
      obtain ⟨st, hst⟩ :=
        (sendable_iff s echoTx [] hc.two_le).mp (sendable_of_outgoingFits houtgoing)
      rw [takeOutgoing_eq_ok.mpr hst] at hout
      cases hout
  | refuses _ _ _ => cases hpoll
  | incomingPanics hout hhead hacc hin =>
      obtain ⟨st', hst'⟩ := takeIncoming_of_fits hout hhead hacc hincoming
      rw [hst'] at hin
      cases hin
  | @forwards st st' result hout hintake hfwd =>
      obtain ⟨st₃, rfl⟩ := forwards_of_fits hout hintake hroundFits hfwd
      have hframe := ((frame_takesOutgoing now hout).trans (frame_intake hintake)).trans
        (frame_forwards now hfwd rfl)
      exact completeOrPollAgent_ne_panic now turn (hc.of_frame hframe) why hpoll.symm

end Execution

section Gadget

variable {P ρ : Type} {g : EchoGadget P ρ} {gone : ρ → Bool}

/-- The next stretch of `proceed_round` does not panic: a group that is
hashed has an own broadcast and the receivers of its acknowledgements, the
response channel is open, and a round that ends can be counted. -/
def echoFits (g : EchoGadget P ρ) (responses : Nat → ResponseRx P) (gone : ρ → Bool) : Bool :=
  match g.round with
  | .collect => true
  | .gather _ group =>
      group.length ≠ g.n || group.any isOutgoing && !(incomingTxs group).any gone
  | .responses _ _ respRx echoHashes =>
      match (responses respRx).queue with
      | [] => !(responses respRx).closed
      | _ :: _ => 0 < g.n && (echoHashes.length + 1 ≠ g.n - 1 || g.r + 1 < 2 ^ 16)

/-- The remote has returned the local hash. -/
def agrees (echoHash : Bytes) : RemoteEcho P → Bool
  | .ok (_, hash) => hash = echoHash
  | .error _ => false

/-- The next stretch of `proceed_round` fails with its channel open: a
sender is in the group twice, or the last echo is there and one of the
echoes is an error or another hash. -/
def echoFails (g : EchoGadget P ρ) (responses : Nat → ResponseRx P) : Bool :=
  match g.round with
  | .collect => false
  | .gather _ group => group.length = g.n && !decide (group.map (·.sender)).Nodup
  | .responses _ echoHash respRx echoHashes =>
      (responses respRx).queue.head?.any fun echo =>
        echoHashes.length + 1 = g.n - 1 && !(echoHashes ++ [echo]).all (agrees echoHash)

theorem allEqual_of_all_agrees {echoHash : Bytes} {echoHashes : List (RemoteEcho P)}
    (h : echoHashes.all (agrees echoHash) = true) : AllEqual echoHash echoHashes := by
  intro e he
  have hagrees := List.all_eq_true.mp h e he
  match e, hagrees with
  | .ok (peer, hash), hagrees => exact ⟨peer, by rw [of_decide_eq_true hagrees]⟩
  | .error _, hagrees => cases hagrees

variable [Blake2s256]

/-- A stretch of `proceed_round` that fits does not panic. -/
theorem step_ne_panic {responses : Nat → ResponseRx P} (rx : List (EchoMessage ρ)) (rxClosed : Bool)
    (h : echoFits g responses gone = true) (why : Panic) :
    g.step rx rxClosed responses gone ≠ .panic why := by
  intro hpanic
  have hsteps := steps_step g rx rxClosed responses gone
  rw [hpanic] at hsteps
  cases hsteps with
  | panic hpanics =>
      cases hpanics with
      | noOwn hround hfull hnone =>
          simp only [echoFits, hround, hfull, ne_eq, not_true_eq_false, decide_false,
            Bool.false_or, Bool.and_eq_true] at h
          obtain ⟨respRx, hlast⟩ := outgoing_of_any h.1
          cases hnone.symm.trans hlast
      | @unacknowledged _ group hround hfull hgone =>
          have hperm : (sortBySender group).Perm group := List.perm_insertionSort _ group
          have hany : (incomingTxs group).any gone = true :=
            (hperm.filterMap _).any_eq.symm.trans hgone
          simp [echoFits, hround, hfull, hany] at h
      | terminated hround hqueue hclosed => simp [echoFits, hround, hqueue, hclosed] at h
      | noParty hround hqueue hzero => simp [echoFits, hround, hqueue, hzero] at h
      | rounds hround hqueue hlast hfull =>
          simp only [echoFits, hround, hqueue, Bool.and_eq_true, Bool.or_eq_true,
            decide_eq_true_eq] at h
          rw [List.length_append, List.length_singleton] at hlast
          omega

/-- The gadget fails with its channel closed, or as `echoFails` says. -/
theorem echoFails_of_failed {rx : List (EchoMessage ρ)} {rxClosed : Bool}
    {responses : Nat → ResponseRx P} {e : Error}
    (h : g.step rx rxClosed responses gone = .failed e) :
    rxClosed = true ∨ echoFails g responses = true := by
  have hsteps := steps_step g rx rxClosed responses gone
  rw [h] at hsteps
  cases hsteps with
  | failed hfails =>
      cases hfails with
      | closed hclosed _ => exact .inl hclosed
      | senderTwice hround hfull htwice =>
          exact .inr (by simp [echoFails, hround, hfull, htwice])
      | echoes hround hqueue hlast hcheck =>
          rw [List.length_append, List.length_singleton] at hlast
          refine .inr ?_
          simp only [echoFails, hround, hqueue, List.head?_cons, Option.any_some, hlast,
            decide_true, Bool.true_and, Bool.not_eq_true', ← Bool.not_eq_true]
          intro hall
          -- echoes that all agree pass the check
          cases hcheck.symm.trans (checkEchoes_eq_none.mpr (allEqual_of_all_agrees hall))

end Gadget

section Worker

variable {P ρ κ : Type}

/-- A channel that looks at its one-shot finds a request or the sender. -/
def phase1Fits (room : Room P ρ κ) (l : Listener P ρ κ) (next : Option (IncomingRequest P ρ)) :
    Bool :=
  l.sent.isSome || room.rpc = some l.channel.request ||
    next.any (·.context.messageType = .coordination)

/-- A session of these peers can start. -/
def sessionFits [DecidableEq P] (peerset : Peerset P) : Bool :=
  peerset.localPeerId ∈ peerset.peers && 2 ≤ asU16 peerset.size

/-- A coordination message of the session does not make the decoder panic,
and the session of its peerset can start. -/
def phase2Fits [DecidableEq P] [PeerIdCodec P] [UnsignedVarint] (c : Phase2Channel P ρ)
    (localPeerId : P) (next : Option (IncomingRequest P ρ)) : Bool :=
  next.all fun m =>
    m.context.messageType = .computation || m.context.sessionId ≠ c.sessionId ||
      match (StartMsg.fromBytes m.payload localPeerId : Outcome Panic IoError (StartMsg P)) with
      | .ok startMsg => sessionFits startMsg.peerset
      | .err _ => true
      | .panic _ => false

/-- The negotiation is for at least one peer, and with the last answer the
session of its peers can start. -/
def negotiationFits [DecidableEq P] [PeerIdCodec P] (c : NegotiationChannel P κ)
    (input : NegotiationInput P) : Bool :=
  0 < c.n && ((okResponse c input).isNone || (collectedPeers c input).length ≠ c.n ||
    sessionFits (Peerset.new (collectedPeers c input) c.localPeerId))

/-- What a session is asked to do does not panic. -/
def wrapFits (wrap : WrapExecution P ρ κ) : WrapLabel P ρ → Bool
  | .pollComputation _ _ => wrap.computation.all fun s => pollFits s wrap.echoRx
  | .pollEcho gone => echoFits wrap.echo wrap.responses gone
  | _ => true

/-- The branch that runs next fits the state it is in. -/
def stepFits [DecidableEq P] [PeerIdCodec P] [UnsignedVarint] (cfg : WorkerConfig P)
    (w : Worker P ρ κ) : WorkerLabel P ρ κ → Bool
  | .pollPhase1 roomId k next _ _ =>
      (w.rooms roomId).coordination[k]?.all fun l => phase1Fits (w.rooms roomId) l next
  | .pollPhase2 next _ =>
      match w.awaited with
      | some (_, .phase2 _ c) => phase2Fits c cfg.localPeerId next
      | _ => true
  | .pollNegotiation input =>
      match w.awaited with
      | some (_, .negotiation _ c) => negotiationFits c input
      | _ => true
  | .pollExecution roomId k l =>
      (w.rooms roomId).executions[k]?.all fun x => wrapFits x.wrap l
  | _ => true

/-- The execution of a session is as `Completion` says, while there is
one. -/
def WellRun (wrap : WrapExecution P ρ κ) : Prop :=
  ∀ s, wrap.computation = some s → Completion s

/-- A listener whose sender is there is not canceled. -/
theorem tryRecv_ne_canceled {room : Room P ρ κ} {l : Listener P ρ κ}
    (h : l.sent.isSome = true ∨ room.rpc = some l.channel.request) :
    room.tryRecv l ≠ .canceled := by
  unfold Room.tryRecv
  rcases h with hsent | hrpc
  · obtain ⟨msg, hmsg⟩ := Option.isSome_iff_exists.mp hsent
    rw [hmsg]
    nofun
  · rw [if_pos hrpc]
    split <;> nofun

/-- Phase 1 does not panic on what fits. -/
theorem pollPhase1_ok_of_fits {room : Room P ρ κ} {l : Listener P ρ κ}
    {next : Option (IncomingRequest P ρ)} (client : ProtocolAgentFactory) (localPeerId : P)
    (fresh k : Nat) (sessionId : SessionId) (now : Nat) (h : phase1Fits room l next = true) :
    ∃ result, room.pollPhase1 client localPeerId fresh k l next sessionId now = .ok result := by
  have hpoll : ∀ why,
      l.channel.poll localPeerId next (room.tryRecv l) sessionId now ≠ .panic why := by
    intro why hpanic
    simp only [phase1Fits, Bool.or_eq_true, decide_eq_true_eq] at h
    rcases h with hthere | hcoordination
    · have hpasses := phase1Passes_poll l.channel localPeerId next (room.tryRecv l) sessionId now
      rw [hpanic] at hpasses
      cases hpasses with
      | panic hcanceled => exact tryRecv_ne_canceled hthere hcanceled
    · -- a proposal returns before the one-shot is looked at
      cases next with
      | none => cases hcoordination
      | some m =>
          have htype := of_decide_eq_true hcoordination
          simp only [Phase1Channel.poll, htype, reduceCtorEq] at hpanic
  unfold Room.pollPhase1
  generalize l.channel.poll localPeerId next (room.tryRecv l) sessionId now = poll at hpoll
  cases poll with
  | pending c answers => exact ⟨_, rfl⟩
  | fromRemote peerId protocolId payload responseTx channel =>
      simp only
      split <;> exact ⟨_, rfl⟩
  | fromLocal roomId n negotiation answers => exact ⟨_, rfl⟩
  | panic why => exact absurd rfl (hpoll why)

variable [DecidableEq P]

/-- A session starts with a peerset that fits. -/
theorem startSession_ok_of_fits {peerset : Peerset P} (room : Room P ρ κ)
    (receiverProxy : ReceiverProxy P ρ) (n : Nat) (sessionId : SessionId) (protocolId : Nat)
    (pendingResponse : Option κ) (h : sessionFits peerset = true) :
    ∃ result, room.startSession receiverProxy
      (WrapExecution.new n sessionId protocolId peerset pendingResponse) = .ok result := by
  simp only [sessionFits, Bool.and_eq_true, decide_eq_true_eq] at h
  obtain ⟨s, hs, _⟩ := new_eq_ok (ρ := ρ) sessionId protocolId peerset pendingResponse h.1 h.2
  unfold WrapExecution.new
  rw [hs]
  exact ⟨_, rfl⟩

/-- Neither half of a session panics on what fits. -/
theorem wrapStep_ne_panicked [Blake2s256] {wrap : WrapExecution P ρ κ} {l : WrapLabel P ρ}
    (hrun : WellRun wrap) (h : wrapFits wrap l = true) (why : Panic)
    (effects : List (Effect P ρ κ)) : wrap.step l ≠ some (.panicked why, effects) := by
  intro hstep
  cases l with
  | deliver m =>
      obtain ⟨s, _, heq⟩ := Option.map_eq_some_iff.mp hstep
      cases heq
  | echoResponse respRx echo => cases hstep
  | closeResponses respRx => cases hstep
  | pollComputation now turn =>
      obtain ⟨s, hs, heq⟩ := Option.map_eq_some_iff.mp hstep
      have hs := (Option.filter_eq_some_iff.mp hs).1
      rw [wrapFits, hs, Option.all_some] at h
      have hpoll := poll_ne_panic now turn (hrun s hs) h
      unfold WrapExecution.pollComputation at heq
      generalize s.poll wrap.echoRx now turn = poll at hpoll heq
      cases poll with
      | pending st => cases heq
      | ready result echoTx effects' =>
          cases result with
          | error e => cases heq
          | ok u =>
              simp only at heq
              split at heq <;> cases heq
      | panic why' => exact absurd rfl (hpoll why')
  | pollEcho gone =>
      simp only [WrapExecution.step] at hstep
      split at hstep
      · cases hstep
      · have hgadget := step_ne_panic wrap.echoRx wrap.computation.isNone h
        unfold WrapExecution.pollEcho at hstep
        generalize wrap.echo.step wrap.echoRx wrap.computation.isNone wrap.responses gone = step
          at hgadget hstep
        cases step with
        | panic why' => exact absurd rfl (hgadget why')
        | finished =>
            simp only at hstep
            split at hstep <;> cases hstep
        | _ => cases hstep

variable [PeerIdCodec P] [UnsignedVarint]

/-- A poll of phase 2 that fits waits, gives up, or starts a session that
can start. -/
inductive Phase2Lands : Phase2Poll P ρ → Prop where
  | pending {c : Phase2Channel P ρ} {answers : Answers ρ} : Phase2Lands (.pending c answers)
  | abort {id : RoomId} {phase1 : Phase1Channel P ρ} {answers : Answers ρ} :
      Phase2Lands (.abort id phase1 answers)
  | start {id : RoomId} {receiverProxy : ReceiverProxy P ρ} {peerset : Peerset P}
      {initBody : Bytes} {sessionId : SessionId} : sessionFits peerset = true →
      Phase2Lands (.start id receiverProxy peerset initBody sessionId)

omit [PeerIdCodec P] [UnsignedVarint] in
theorem phase2Lands_checkTimeout (c : Phase2Channel P ρ) (now request : Nat)
    (answers : Answers ρ) : Phase2Lands (c.checkTimeout now request answers) := by
  unfold Phase2Channel.checkTimeout
  split
  · exact .abort
  · exact .pending

/-- Phase 2 does not panic on what fits, and starts with a peerset that
does. -/
theorem phase2Lands_poll {c : Phase2Channel P ρ} {localPeerId : P}
    {next : Option (IncomingRequest P ρ)} (now fresh : Nat)
    (h : phase2Fits c localPeerId next = true) :
    Phase2Lands (c.poll localPeerId next now fresh) := by
  unfold Phase2Channel.poll
  cases next with
  | none => exact phase2Lands_checkTimeout _ _ _ _
  | some m =>
      cases htype : m.context.messageType with
      | computation =>
          simp only [htype]
          split <;> exact phase2Lands_checkTimeout _ _ _ _
      | coordination =>
          simp only [htype]
          split
          · exact .pending
          · rename_i hsession
            simp only [phase2Fits, Option.all_some, htype, reduceCtorEq, decide_false, hsession,
              Bool.false_or] at h
            unfold Phase2Channel.onCoordination
            cases hbytes : (StartMsg.fromBytes m.payload localPeerId :
                Outcome Panic IoError (StartMsg P)) with
            | ok startMsg =>
                simp only [hbytes] at h
                exact .start h
            | err e => exact .abort
            | panic why =>
                simp only [hbytes, Bool.false_eq_true] at h

theorem pollPhase2_ok_of_fits {c : Phase2Channel P ρ} {localPeerId : P}
    {next : Option (IncomingRequest P ρ)} (client : ProtocolAgentFactory) (room : Room P ρ κ)
    (fresh protocolId now : Nat) (h : phase2Fits c localPeerId next = true) :
    ∃ result, room.pollPhase2 client localPeerId fresh protocolId c next now = .ok result := by
  have hlands := phase2Lands_poll now fresh h
  unfold Room.pollPhase2
  generalize c.poll localPeerId next now fresh = poll at hlands
  cases hlands with
  | pending => exact ⟨_, rfl⟩
  | abort => exact ⟨_, rfl⟩
  | start hfits => exact startSession_ok_of_fits room _ _ _ protocolId none hfits

/-- A negotiation does not panic on what fits. -/
theorem pollNegotiation_ok_of_fits {c : NegotiationChannel P κ} {input : NegotiationInput P}
    (client : ProtocolAgentFactory) (room : Room P ρ κ) (fresh n : Nat)
    (h : negotiationFits c input = true) :
    ∃ result, room.pollNegotiation client fresh n c input = .ok result := by
  simp only [negotiationFits, Bool.and_eq_true, Bool.or_eq_true, decide_eq_true_eq] at h
  obtain ⟨hn, hstarts⟩ := h
  have hsteps := negotiationSteps_poll (ρ := ρ) c input fresh
  unfold Room.pollNegotiation
  generalize (c.poll input fresh : NegotiationPoll P ρ κ) = poll at hsteps
  cases hsteps with
  | starts hlast =>
      rw [← Option.not_isSome, hlast.1] at hstarts
      have hfits := hstarts.resolve_left fun h => h.elim (absurd · (by decide)) (absurd hlast.2)
      exact startSession_ok_of_fits room _ n _ _ _ hfits
  | waits _ _ _ _ => exact ⟨_, rfl⟩
  | proposes _ _ _ _ => exact ⟨_, rfl⟩
  | aborts _ _ => exact ⟨_, rfl⟩
  | panics hzero => omega

/-- A branch that fits does not panic. -/
theorem branch_ok_of_fits [Blake2s256] {cfg : WorkerConfig P} {w : Worker P ρ κ}
    {l : WorkerLabel P ρ κ}
    {roomId : RoomId} {branch : Branch P ρ κ} (hsteps : WorkerSteps cfg w l roomId branch)
    (hrun : ∀ x ∈ (w.rooms roomId).executions, WellRun x.wrap) (h : stepFits cfg w l = true) :
    ∃ result, branch = .ok result := by
  cases hsteps with
  | takeLocal _ => exact ⟨_, rfl⟩
  | pollPhase1 _ hl =>
      rw [stepFits, hl, Option.all_some] at h
      exact pollPhase1_ok_of_fits _ _ _ _ _ _ h
  | pollProxy _ _ => exact ⟨_, rfl⟩
  | pollExecution _ hx _ hbranch =>
      rw [stepFits, hx, Option.all_some] at h
      obtain ⟨⟨state, effects⟩, hstep, rfl⟩ := Option.map_eq_some_iff.mp hbranch
      cases state with
      | running wrap => exact ⟨_, rfl⟩
      | returned result => exact ⟨_, rfl⟩
      | panicked why =>
          exact absurd hstep
            (wrapStep_ne_panicked (hrun _ (List.mem_of_getElem? hx)) h why effects)
  | pollPhase2 hawaited =>
      simp only [stepFits, hawaited] at h
      exact pollPhase2_ok_of_fits _ _ _ _ _ h
  | pollNegotiation hawaited =>
      simp only [stepFits, hawaited] at h
      exact pollNegotiation_ok_of_fits _ _ _ _ h

end Worker

end FrostMpcTss.Proofs
