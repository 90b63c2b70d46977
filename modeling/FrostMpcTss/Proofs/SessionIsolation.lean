import FrostMpcTss.Session.Joiner
import FrostMpcTss.Proofs.AgentLog
import FrostMpcTss.Proofs.RoundDelivery
import FrostMpcTss.Proofs.StartMsgRoundTrip

/-!
# `FrostMpcTss.Proofs.SessionIsolation`: what of a room's traffic reaches a session

A message belongs to a session if it is a computation message of it from
a member. `Isolated` says that the execution of a joiner gets those
messages and no others, each once, in the order in which they arrived,
whether they came before the proposal, before the start or after it.

`isolated` proves it for every run in which no buffer overflows, for at
most `2 ^ 16` members. The proxy numbers a member by its index as a
`u16`, so that with more of them a message gets another member's index.
-/

set_option autoImplicit false

namespace FrostMpcTss.Proofs

open Lib Network Service FrostMpcTss.Session
open Service.ProtocolExecution

variable {now : Nat}

section Sources

variable {P ρ κ : Type} {D : IncomingRequest P ρ → Prop} {trace : List (Effect P ρ κ)}
  {effects : List (Effect P ρ κ)} {s : ProtocolExecution P ρ κ} {echoTx : List (EchoMessage ρ)}
  {st : PollState P ρ κ}

/-- The request carries this message's sender and payload. -/
def Carried (m : IncomingRequest P ρ) (req : AgentRequest) : Prop :=
  req.sender = m.peerIndex + 1 ∧ req.payload = m.payload

/-- Whatever the agent got was a message with this property. -/
def Sourced (D : IncomingRequest P ρ → Prop) (trace : List (Effect P ρ κ)) : Prop :=
  ∀ req ∈ handedIn trace, ∃ m, D m ∧ Carried m req

theorem Sourced.mono {D' : IncomingRequest P ρ → Prop} (hD : ∀ m, D m → D' m)
    (h : Sourced D trace) : Sourced D' trace := by
  intro req hreq
  obtain ⟨m, hm, hcarried⟩ := h req hreq
  exact ⟨m, hD m hm, hcarried⟩

theorem Sourced.append (h : Sourced D trace) (heffects : Sourced D effects) :
    Sourced D (trace ++ effects) := by
  intro req hreq
  rw [handedIn_append] at hreq
  exact (List.mem_append.mp hreq).elim (h req) (heffects req)

/-- Effects that hand nothing in have no source. -/
theorem sourced_of_handedIn_eq_nil (h : handedIn effects = []) : Sourced D effects := by
  intro req hreq
  rw [h] at hreq
  cases hreq

/-- The stages of a poll: what they have handed on, and what they keep
for a later round. -/
structure Sources (D : IncomingRequest P ρ → Prop) (st : PollState P ρ κ) : Prop where
  handed : Sourced D st.effects
  buffered : Buffered D st.exec.pendingIncoming

/-- What the agent sends is not handed in. -/
theorem sources_takesOutgoing [DecidableEq P] (h : Buffered D s.pendingIncoming)
    (hout : TakesOutgoing { exec := s, echoTx := echoTx, effects := [] } st) : Sources D st := by
  cases hout <;> exact ⟨sourced_of_handedIn_eq_nil rfl, h⟩

theorem Sources.restartQuietPeriod (now : Nat) (h : Sources D st) :
    Sources D (restartQuietPeriod now st) := by
  unfold ProtocolExecution.restartQuietPeriod
  split
  · exact ⟨h.handed, h.buffered⟩
  · exact h

/-- A message that is taken from the network comes from the proxy. -/
theorem Sources.intake {st' : PollState P ρ κ} (h : Sources D st) (hintake : Intake now st st')
    (hD : ∀ m, st.exec.fromNetwork.head? = some m → D m) : Sources D st' := by
  cases hintake with
  | nothing _ => exact h
  | @message m st' hhead _ htakes =>
      cases htakes with
      | broadcast hb _ =>
          exact Sources.restartQuietPeriod now
            ⟨h.handed, h.buffered.insert (hD m hhead) hb⟩
      | direct _ _ _ _ _ =>
          refine Sources.restartQuietPeriod now ⟨?_, h.buffered⟩
          have hanswered : Sourced D (st.effects ++ [.respond m.pendingResponse (.ok [])]) :=
            h.handed.append (sourced_of_handedIn_eq_nil rfl)
          refine hanswered.append fun req hreq => ?_
          cases List.mem_singleton.mp hreq
          exact ⟨m, hD m hhead, rfl, rfl⟩

/-- A round is handed in from the buffer. -/
theorem Sources.forwardRound (h : Sources D st) : Sources D (forwardRound st) := by
  refine ⟨h.handed.append fun req hreq => ?_,
    fun key m hm => h.buffered key m (getElem?_of_foldl_erase hm)⟩
  rw [(handedIn_round _ _).1] at hreq
  obtain ⟨r, hr, rfl⟩ := List.mem_map.mp hreq
  obtain ⟨hm, _, hkey⟩ := h.buffered _ _ (mem_readyRound.mp hr)
  exact ⟨r.2, hm, (Prod.mk.inj hkey).1, rfl⟩

/-- A poll that does not return hands on what was buffered, or the head
of the network's queue. -/
theorem sources_pending [DecidableEq P] {turn : AgentTurn} (h : Buffered D s.pendingIncoming)
    (hn : 2 ≤ s.n) (hD : ∀ m, s.fromNetwork.head? = some m → D m)
    (hpoll : s.poll echoTx now turn = .pending st) : Sources D st := by
  cases pends_of_pending hn hpoll with
  | refuses hout _ _ =>
      have hst := sources_takesOutgoing h hout
      exact ⟨hst.handed.append (sourced_of_handedIn_eq_nil rfl), hst.buffered⟩
  | forwards hout hintake hfwd hst =>
      have hintaken := (sources_takesOutgoing h hout).intake hintake fun m hm =>
        hD m (fromNetwork_takesOutgoing hout ▸ hm)
      have hforwarded := forwards_induction (Sources D) hfwd hintaken
        fun _ _ => Sources.forwardRound
      rcases hst with rfl | rfl
      · exact hforwarded
      · unfold ProtocolExecution.pollAgent
        cases turn.result <;> exact ⟨hforwarded.handed, hforwarded.buffered⟩

/-- A poll that returns hands nothing on. -/
theorem sourced_ready [DecidableEq P] {echoTx' : List (EchoMessage ρ)} {turn : AgentTurn}
    {result : Except Error Unit} (h : Buffered D s.pendingIncoming) (hc : Completion s)
    (hpoll : s.poll echoTx now turn = .ready result echoTx' effects) : Sourced D effects := by
  obtain ⟨r, _, st, _, _, _, _, hout, hreport⟩ := ready_cases hc hpoll
  have hst := (sources_takesOutgoing h hout).handed
  rcases (report_effects hreport).2 with ⟨_, rfl⟩ | ⟨tx, _, rfl⟩
  · exact hst
  · exact hst.append (sourced_of_handedIn_eq_nil rfl)

/-- What holds of a session, running or over. -/
structure SessionSources (D : IncomingRequest P ρ → Prop) (t : Session P ρ κ) : Prop where
  trace : Sourced D t.trace
  running : ∀ s echoTx, t.execution = some (s, echoTx) →
    Buffered D s.pendingIncoming ∧ Completion s

theorem SessionSources.mono {D' : IncomingRequest P ρ → Prop} {t : Session P ρ κ}
    (hD : ∀ m, D m → D' m) (h : SessionSources D t) : SessionSources D' t where
  trace := h.trace.mono hD
  running s echoTx hs := (h.running s echoTx hs).imp_left (·.mono hD)

/-- Every step of a session keeps the sources, if the next message of
the network is known when the execution is polled. -/
theorem sessionSources_step [DecidableEq P] [Blake2s256] {t t' : Session P ρ κ}
    {l : WrapLabel P ρ} (ht : SessionSources D t)
    (hD : ∀ now turn s echoTx m, l = .pollComputation now turn →
      t.execution = some (s, echoTx) → s.fromNetwork.head? = some m → D m)
    (h : t.step l = some t') : SessionSources D t' := by
  cases sessionSteps_step h with
  | @pending _ now turn s echoTx st hs hpoll hs' htrace _ =>
      obtain ⟨hbuffered, hc⟩ := ht.running s echoTx hs
      have hst := sources_pending hbuffered hc.two_le
        (fun m => hD now turn s echoTx m rfl hs) hpoll
      refine ⟨?_, fun s' echoTx' hexec => ?_⟩
      · rw [htrace]
        exact ht.trace.append hst.handed
      · rw [hs'] at hexec
        cases hexec
        exact ⟨hst.buffered, (completion_poll hc hpoll).1⟩
  | ready hs hpoll hs' htrace _ =>
      obtain ⟨hbuffered, hc⟩ := ht.running _ _ hs
      refine ⟨?_, fun s' echoTx' hexec => ?_⟩
      · rw [htrace]
        exact ht.trace.append (sourced_ready hbuffered hc hpoll)
      · rw [hs'] at hexec
        cases hexec
  | panics _ _ hstate htrace =>
      refine ⟨htrace ▸ ht.trace, fun s' echoTx' hexec => ?_⟩
      rw [Session.execution, hstate] at hexec
      cases hexec
  | delivers hs hs' htrace _ =>
      obtain ⟨hbuffered, hc⟩ := ht.running _ _ hs
      refine ⟨htrace ▸ ht.trace, fun s' echoTx' hexec => ?_⟩
      rw [hs'] at hexec
      cases hexec
      exact ⟨hbuffered, ⟨hc.two_le, hc.agentFuture, hc.completionDelay⟩⟩
  | keeps _ _ hexec htrace hquiet _ =>
      refine ⟨?_, fun s echoTx' hs => ?_⟩
      · rw [htrace]
        exact ht.trace.append (sourced_of_handedIn_eq_nil (handedIn_of_byExecution hquiet).1)
      · obtain ⟨echoTx, hs⟩ := hexec s echoTx' hs
        exact ht.running s echoTx hs

end Sources

section Accounts

variable {P ρ : Type} {own : IncomingRequest P ρ → Bool}
  {buffered coordination read : List (IncomingRequest P ρ)} {answers : Answers ρ}
  {m : IncomingRequest P ρ}

/-- Every message read that is not the session's own was refused, or it
was coordination, or it is still buffered; and each was once. -/
def Accounted (own : IncomingRequest P ρ → Bool)
    (buffered coordination read : List (IncomingRequest P ρ)) (answers : Answers ρ) : Prop :=
  ∃ refused : List (IncomingRequest P ρ),
    answers = refused.map (fun m => (m.pendingResponse, refuse)) ∧
    (refused ++ coordination ++ buffered.filter (!own ·)).Perm (read.filter (!own ·))

/-- A message read is buffered. -/
theorem Accounted.buffer (h : Accounted own buffered coordination read answers) :
    Accounted own (buffered ++ [m]) coordination (read ++ [m]) answers := by
  obtain ⟨refused, hanswers, hperm⟩ := h
  refine ⟨refused, hanswers, ?_⟩
  rw [List.filter_append, List.filter_append, ← List.append_assoc]
  exact hperm.append_right _

/-- A message of the session's own is handed on. -/
theorem Accounted.pass (hown : own m = true)
    (h : Accounted own buffered coordination read answers) :
    Accounted own buffered coordination (read ++ [m]) answers := by
  obtain ⟨refused, hanswers, hperm⟩ := h
  refine ⟨refused, hanswers, ?_⟩
  rw [List.filter_append]
  simpa [hown] using hperm

/-- A message of the session's own leaves the buffer. -/
theorem Accounted.passBuffered (hown : own m = true)
    (h : Accounted own (m :: buffered) coordination read answers) :
    Accounted own buffered coordination read answers := by
  obtain ⟨refused, hanswers, hperm⟩ := h
  refine ⟨refused, hanswers, ?_⟩
  rw [List.filter_cons, hown] at hperm
  exact hperm

/-- A message read is refused. -/
theorem Accounted.refuse (hown : own m = false)
    (h : Accounted own buffered coordination read answers) :
    Accounted own buffered coordination (read ++ [m])
      (answers ++ [(m.pendingResponse, Network.refuse)]) := by
  obtain ⟨refused, rfl, hperm⟩ := h
  refine ⟨refused ++ [m], by rw [List.map_append, List.map_singleton], ?_⟩
  have hread : (read ++ [m]).filter (!own ·) = read.filter (!own ·) ++ [m] := by
    simp [hown]
  rw [hread]
  refine List.Perm.trans ?_ (hperm.append_right [m])
  rw [List.append_assoc, List.append_assoc, List.append_assoc, List.append_assoc]
  refine List.Perm.append_left refused ?_
  rw [← List.append_assoc coordination]
  exact List.perm_append_comm

/-- A buffered message is refused. -/
theorem Accounted.refuseBuffered (hown : own m = false)
    (h : Accounted own (m :: buffered) coordination read answers) :
    Accounted own buffered coordination read
      (answers ++ [(m.pendingResponse, Network.refuse)]) := by
  obtain ⟨refused, rfl, hperm⟩ := h
  refine ⟨refused ++ [m], by rw [List.map_append, List.map_singleton], ?_⟩
  refine List.Perm.trans ?_ hperm
  rw [List.filter_cons, hown, List.append_assoc refused, List.append_assoc refused,
    List.append_assoc refused]
  refine List.Perm.append_left refused ?_
  exact (List.perm_middle).symm

/-- A message read is the proposal or the start message. -/
theorem Accounted.coordinate (hown : own m = false)
    (h : Accounted own buffered coordination read answers) :
    Accounted own buffered (coordination ++ [m]) (read ++ [m]) answers := by
  obtain ⟨refused, hanswers, hperm⟩ := h
  refine ⟨refused, hanswers, ?_⟩
  have hread : (read ++ [m]).filter (!own ·) = read.filter (!own ·) ++ [m] := by
    simp [hown]
  rw [hread]
  refine List.Perm.trans ?_ (hperm.append_right [m])
  rw [List.append_assoc, List.append_assoc, List.append_assoc, List.append_assoc]
  refine List.Perm.append_left refused (List.Perm.append_left coordination ?_)
  exact List.perm_append_comm

/-- The messages of the session's own are all still in the buffer, and
the others are accounted for. -/
structure Held (own : IncomingRequest P ρ → Bool)
    (buffered coordination read : List (IncomingRequest P ρ)) (answers : Answers ρ) : Prop where
  kept : buffered.filter own = read.filter own
  others : Accounted own buffered coordination read answers

/-- A message that is buffered is held. -/
theorem Held.buffer (h : Held own buffered coordination read answers) :
    Held own (buffered ++ [m]) coordination (read ++ [m]) answers := by
  refine ⟨?_, h.others.buffer⟩
  rw [List.filter_append, List.filter_append, h.kept]

theorem filter_concat_of_not (hown : own m = false) :
    (read ++ [m]).filter own = read.filter own := by
  rw [List.filter_append, List.filter_singleton, hown]
  exact List.append_nil _

/-- A message that is refused is answered. -/
theorem Held.refuse (hown : own m = false)
    (h : Held own buffered coordination read answers) :
    Held own buffered coordination (read ++ [m])
      (answers ++ [(m.pendingResponse, Network.refuse)]) :=
  ⟨h.kept.trans (filter_concat_of_not hown).symm, h.others.refuse hown⟩

theorem Held.coordinate (hown : own m = false)
    (h : Held own buffered coordination read answers) :
    Held own buffered (coordination ++ [m]) (read ++ [m]) answers :=
  ⟨h.kept.trans (filter_concat_of_not hown).symm, h.others.coordinate hown⟩

end Accounts

variable {sessionId : SessionId} {fresh : Nat}

section Polls

variable {P ρ κ : Type} {localPeerId : P} {c : Phase2Channel P ρ}

/-- The next message, if it is to be buffered, finds room. -/
def findsRoom (buffers : IncomingRequest P ρ → Bool) (buffered : List (IncomingRequest P ρ))
    (next : Option (IncomingRequest P ρ)) : Bool :=
  next.all fun m => !buffers m || buffered.length < maxEarlyComputationMessages

/-- With room in the buffer no early message is answered. -/
theorem bufferEarlyComputation_of_findsRoom {buffers : IncomingRequest P ρ → Bool}
    {buffered : List (IncomingRequest P ρ)} {m : IncomingRequest P ρ} (hm : buffers m = true)
    (h : findsRoom buffers buffered (some m) = true) :
    bufferEarlyComputation buffered m = (buffered ++ [m], []) := by
  rw [findsRoom, Option.all_some, hm, Bool.not_true, Bool.false_or, decide_eq_true_eq] at h
  rw [bufferEarlyComputation, if_neg (Nat.not_le.mpr h)]

def isComputation (m : IncomingRequest P ρ) : Bool := m.context.messageType = .computation

/-- A poll that goes on has changed nothing. -/
theorem pollRequest_pending {c c' : Phase1Channel P ρ} {request : TryRecv (LocalRpcMsg κ)}
    {answers answers' : Answers ρ}
    (h : c.pollRequest localPeerId request sessionId now answers = .pending c' answers') :
    c' = c ∧ answers' = answers := by
  cases request with
  | empty =>
      cases h
      exact ⟨rfl, rfl⟩
  | value _ => cases h
  | canceled => cases h

theorem pollRequest_ne_fromRemote {c : Phase1Channel P ρ} {peerId : P}
    {request : TryRecv (LocalRpcMsg κ)} {protocolId : Nat} {answers : Answers ρ} {payload : Bytes}
    {responseTx : ρ} {channel : Phase2Channel P ρ} :
    c.pollRequest localPeerId request sessionId now answers
      ≠ .fromRemote peerId protocolId payload responseTx channel := by
  intro h
  cases request <;> cases h

/-- Phase 1 keeps what it reads. -/
theorem phase1_pending {c c' : Phase1Channel P ρ} {next : Option (IncomingRequest P ρ)}
    {request : TryRecv (LocalRpcMsg κ)} {answers : Answers ρ}
    (hroom : findsRoom isComputation c.buffered next = true)
    (h : c.poll localPeerId next request sessionId now = .pending c' answers) :
    c'.buffered = c.buffered ++ next.toList ∧ answers = [] := by
  unfold Phase1Channel.poll at h
  cases next with
  | none =>
      obtain ⟨rfl, rfl⟩ := pollRequest_pending h
      exact ⟨(List.append_nil _).symm, rfl⟩
  | some m =>
      cases htype : m.context.messageType with
      | coordination =>
          simp only [htype] at h
          cases h
      | computation =>
          have hm : isComputation m = true := decide_eq_true htype
          simp only [htype, bufferEarlyComputation_of_findsRoom hm hroom] at h
          obtain ⟨rfl, rfl⟩ := pollRequest_pending h
          exact ⟨rfl, rfl⟩

/-- A proposal opens phase 2 of its session with the same buffer. -/
theorem phase1_fromRemote {c : Phase1Channel P ρ} {peerId : P} {next : Option (IncomingRequest P ρ)}
    {request : TryRecv (LocalRpcMsg κ)} {protocolId : Nat} {payload : Bytes} {responseTx : ρ}
    {channel : Phase2Channel P ρ} (h : c.poll localPeerId next request sessionId now
      = .fromRemote peerId protocolId payload responseTx channel) :
    ∃ m, next = some m ∧ m.context.messageType = .coordination ∧
      m.context.sessionId = channel.sessionId ∧ channel.buffered = c.buffered := by
  unfold Phase1Channel.poll at h
  cases next with
  | none => exact absurd h pollRequest_ne_fromRemote
  | some m =>
      cases htype : m.context.messageType with
      | coordination =>
          simp only [htype] at h
          cases h
          exact ⟨m, rfl, htype, rfl, rfl⟩
      | computation =>
          simp only [htype] at h
          exact absurd h pollRequest_ne_fromRemote

/-- A timer that has not run out changes nothing. -/
theorem checkTimeout_pending {c' : Phase2Channel P ρ} {answers answers' : Answers ρ}
    (h : c.checkTimeout now fresh answers = .pending c' answers') :
    c' = c ∧ answers' = answers := by
  unfold Phase2Channel.checkTimeout at h
  split at h
  · cases h
  · cases h
    exact ⟨rfl, rfl⟩

theorem checkTimeout_ne_start {answers : Answers ρ} {roomId : RoomId} {proxy : ReceiverProxy P ρ}
    {peerset : Peerset P} {body : Bytes} :
    c.checkTimeout now fresh answers ≠ .start roomId proxy peerset body sessionId := by
  intro h
  unfold Phase2Channel.checkTimeout at h
  split at h <;> cases h

theorem onCoordination_ne_pending [PeerIdCodec P] [UnsignedVarint] {c' : Phase2Channel P ρ}
    {payload : Bytes} {answers : Answers ρ} :
    c.onCoordination localPeerId payload fresh ≠ .pending c' answers := by
  intro h
  unfold Phase2Channel.onCoordination at h
  split at h <;> cases h

/-- Phase 2 keeps the computation messages of its session and refuses
the rest. -/
inductive Phase2Reads (c c' : Phase2Channel P ρ) :
    Option (IncomingRequest P ρ) → Answers ρ → Prop where
  | nothing : c'.buffered = c.buffered → Phase2Reads c c' none []
  | buffers {m : IncomingRequest P ρ} : c'.buffered = c.buffered ++ [m] →
      Phase2Reads c c' (some m) []
  | refuses {m : IncomingRequest P ρ} :
      ReceiverProxy.shouldForwardMessage m c.sessionId = false → c'.buffered = c.buffered →
      Phase2Reads c c' (some m) [(m.pendingResponse, refuse)]

/-- What a poll of phase 2 that goes on has read: nothing, a message that it
buffers, or one that it refuses. -/
theorem phase2_pending [PeerIdCodec P] [UnsignedVarint] {c' : Phase2Channel P ρ}
    {next : Option (IncomingRequest P ρ)} {answers : Answers ρ}
    (hroom : findsRoom (ReceiverProxy.shouldForwardMessage · c.sessionId) c.buffered next = true)
    (h : c.poll localPeerId next now fresh = .pending c' answers) :
    c'.sessionId = c.sessionId ∧ Phase2Reads c c' next answers := by
  unfold Phase2Channel.poll at h
  cases next with
  | none =>
      obtain ⟨rfl, rfl⟩ := checkTimeout_pending h
      exact ⟨rfl, .nothing rfl⟩
  | some m =>
      cases htype : m.context.messageType with
      | coordination =>
          simp only [htype] at h
          split at h
          · cases h
            refine ⟨rfl, .refuses ?_ rfl⟩
            simp [ReceiverProxy.shouldForwardMessage, htype]
          · exact absurd h onCoordination_ne_pending
      | computation =>
          simp only [htype] at h
          split at h
          · rename_i hsession
            have hm : ReceiverProxy.shouldForwardMessage m c.sessionId = true := by
              simp [ReceiverProxy.shouldForwardMessage, htype, hsession]
            rw [bufferEarlyComputation_of_findsRoom hm hroom] at h
            obtain ⟨rfl, rfl⟩ := checkTimeout_pending h
            exact ⟨rfl, .buffers rfl⟩
          · rename_i hsession
            obtain ⟨rfl, rfl⟩ := checkTimeout_pending h
            refine ⟨rfl, .refuses ?_ rfl⟩
            simp [ReceiverProxy.shouldForwardMessage, hsession]

/-- The start message makes a proxy for its members with the buffer. -/
theorem phase2_start [PeerIdCodec P] [UnsignedVarint] {next : Option (IncomingRequest P ρ)}
    {roomId : RoomId} {proxy : ReceiverProxy P ρ} {peerset : Peerset P} {body : Bytes}
    (h : c.poll localPeerId next now fresh = .start roomId proxy peerset body sessionId) :
    ∃ m, next = some m ∧ m.context.messageType = .coordination ∧
      m.context.sessionId = c.sessionId ∧ sessionId = c.sessionId ∧
      proxy.sessionId = c.sessionId ∧ proxy.peerset = peerset ∧
      proxy.buffered = c.buffered := by
  unfold Phase2Channel.poll at h
  cases next with
  | none => exact absurd h checkTimeout_ne_start
  | some m =>
      cases htype : m.context.messageType with
      | coordination =>
          simp only [htype] at h
          split at h
          · cases h
          · rename_i hsession
            unfold Phase2Channel.onCoordination at h
            split at h
            · cases h
              exact ⟨m, rfl, htype, Decidable.not_not.mp hsession, rfl, rfl, rfl, rfl⟩
            · cases h
            · cases h
      | computation =>
          simp only [htype] at h
          split at h <;> exact absurd h checkTimeout_ne_start

end Polls

section Proxy

variable {P ρ : Type} [DecidableEq P] {m : IncomingRequest P ρ}

/-- A computation message of the session, from a member. -/
def belongs (sessionId : SessionId) (peerset : Peerset P) (m : IncomingRequest P ρ) : Bool :=
  ReceiverProxy.shouldForwardMessage m sessionId && decide (m.peerId ∈ peerset.peers)

/-- The message with its sender's position among the members. -/
def withIndex (index : Nat → Nat) (peerset : Peerset P) (m : IncomingRequest P ρ) :
    IncomingRequest P ρ :=
  { m with peerIndex := index (peerset.peers.idxOf m.peerId) }

/-- A message that is not forwarded does not belong to the session. -/
theorem belongs_eq_false (peerset : Peerset P)
    (h : ReceiverProxy.shouldForwardMessage m sessionId = false) :
    belongs sessionId peerset m = false := by
  rw [belongs, h, Bool.false_and]

/-- A coordination message belongs to no session. -/
theorem not_belongs_of_coordination (h : m.context.messageType = .coordination)
    (sessionId : SessionId) (peerset : Peerset P) : belongs sessionId peerset m = false :=
  belongs_eq_false peerset (by simp [ReceiverProxy.shouldForwardMessage, h])

/-- In a channel with room the proxy sends what belongs to the session,
with the truncated index, and refuses the rest. -/
theorem forwardOrReject_of_room {peerset : Peerset P} {queued : Nat}
    (hroom : queued < proxyBuffer + 1) :
    ReceiverProxy.forwardOrReject m sessionId peerset queued
      = if belongs sessionId peerset m then .sent (withIndex asU16 peerset m) else .refused := by
  unfold ReceiverProxy.forwardOrReject
  cases hforward : ReceiverProxy.shouldForwardMessage m sessionId with
  | false =>
      rw [belongs_eq_false peerset hforward]
      rfl
  | true =>
      by_cases hmem : m.peerId ∈ peerset.peers
      · have hbelongs : belongs sessionId peerset m = true := by
          rw [belongs, hforward, decide_eq_true hmem]
          rfl
        rw [if_pos rfl, hbelongs, indexOf_eq_some_of_mem hmem]
        exact if_pos hroom
      · have hbelongs : belongs sessionId peerset m = false := by
          rw [belongs, decide_eq_false hmem, Bool.and_false]
        rw [if_pos rfl, hbelongs, indexOf_eq_none_of_not_mem hmem]
        rfl

/-- What a poll of the proxy does: `took` says whether the message comes
from the receiver or from the buffer. -/
inductive ProxyReads (p p' : ReceiverProxy P ρ) (next : Option (IncomingRequest P ρ)) :
    Bool → List (IncomingRequest P ρ) → Answers ρ → Prop where
  | nothing : p'.buffered = p.buffered → ProxyReads p p' next false [] []
  | forwardsBuffered {m : IncomingRequest P ρ} : p.buffered = m :: p'.buffered →
      belongs p.sessionId p.peerset m = true →
      ProxyReads p p' next false [withIndex asU16 p.peerset m] []
  | refusesBuffered {m : IncomingRequest P ρ} : p.buffered = m :: p'.buffered →
      belongs p.sessionId p.peerset m = false →
      ProxyReads p p' next false [] [(m.pendingResponse, refuse)]
  | forwards {m : IncomingRequest P ρ} : next = some m → p.buffered = [] → p'.buffered = [] →
      belongs p.sessionId p.peerset m = true →
      ProxyReads p p' next true [withIndex asU16 p.peerset m] []
  | refuses {m : IncomingRequest P ρ} : next = some m → p.buffered = [] → p'.buffered = [] →
      belongs p.sessionId p.peerset m = false →
      ProxyReads p p' next true [] [(m.pendingResponse, refuse)]

/-- What a poll of the proxy that goes on has read, and what it has fed to
the session. -/
theorem proxy_pending {p p' : ReceiverProxy P ρ} {closed tookNext : Bool}
    {queued request : Nat} {next : Option (IncomingRequest P ρ)}
    {feed : List (IncomingRequest P ρ)} {answers : Answers ρ}
    (hroom : queued < proxyBuffer + 1)
    (h : p.poll closed queued next request = .pending p' tookNext feed answers) :
    p'.sessionId = p.sessionId ∧ p'.peerset = p.peerset ∧
      ProxyReads p p' next tookNext feed answers := by
  unfold ReceiverProxy.poll at h
  cases closed with
  | true => cases h
  | false =>
      simp only [Bool.false_eq_true, if_false, forwardOrReject_of_room hroom] at h
      cases hbuffered : p.buffered with
      | cons m rest =>
          simp only [hbuffered] at h
          cases hm : belongs p.sessionId p.peerset m with
          | true =>
              rw [hm] at h
              cases h
              exact ⟨rfl, rfl, .forwardsBuffered hbuffered hm⟩
          | false =>
              rw [hm] at h
              cases h
              exact ⟨rfl, rfl, .refusesBuffered hbuffered hm⟩
      | nil =>
          simp only [hbuffered] at h
          cases next with
          | none =>
              cases h
              exact ⟨rfl, rfl, .nothing rfl⟩
          | some m =>
              simp only at h
              cases hm : belongs p.sessionId p.peerset m with
              | true =>
                  rw [hm] at h
                  cases h
                  exact ⟨rfl, rfl, .forwards rfl hbuffered hbuffered hm⟩
              | false =>
                  rw [hm] at h
                  cases h
                  exact ⟨rfl, rfl, .refuses rfl hbuffered hbuffered hm⟩

end Proxy

section Run

variable {P ρ κ : Type} [DecidableEq P] {t : Joiner P ρ κ} {localPeerId : P}
  {proxy : ReceiverProxy P ρ} {s : ProtocolExecution P ρ κ} {echoTx : List (EchoMessage ρ)}

/-- The session of the joiner gets its own messages, in the order in
which they were read, and nothing else. -/
structure Isolated (index : Nat → Nat) (t : Joiner P ρ κ) (proxy : ReceiverProxy P ρ)
    (session : Session P ρ κ) : Prop where
  /-- What the execution has accepted, what is in the proxy's channel and
  what is still in its buffer. -/
  inbound : ∀ s echoTx, session.execution = some (s, echoTx) →
    t.accepted ++ s.fromNetwork
      ++ (proxy.buffered.filter (belongs proxy.sessionId proxy.peerset)).map
        (withIndex index proxy.peerset)
      = (t.read.filter (belongs proxy.sessionId proxy.peerset)).map
        (withIndex index proxy.peerset)
  accepted : t.accepted <+:
    (t.read.filter (belongs proxy.sessionId proxy.peerset)).map (withIndex index proxy.peerset)
  others : Accounted (belongs proxy.sessionId proxy.peerset) proxy.buffered t.coordination
    t.read t.answers
  coordination : ∃ proposal startMsg, t.coordination = [proposal, startMsg] ∧
    ∀ m ∈ [proposal, startMsg],
      m.context.messageType = .coordination ∧ m.context.sessionId = proxy.sessionId
  agent : Sourced (· ∈ t.accepted) session.trace

/-- No buffer overflows: neither those of the two phases nor the proxy's
channel. -/
def hasRoom (t : Joiner P ρ κ) : JoinerLabel P ρ κ → Bool
  | .pollPhase1 next _ _ _ _ =>
      match t.stage with
      | .phase1 c => findsRoom isComputation c.buffered next
      | _ => true
  | .pollPhase2 next _ _ =>
      match t.stage with
      | .phase2 _ c =>
          findsRoom (ReceiverProxy.shouldForwardMessage · c.sessionId) c.buffered next
      | _ => true
  | .pollProxy _ _ =>
      match t.stage with
      | .started _ session => (Joiner.queue session).length < proxyBuffer + 1
      | _ => true
  | .session _ => true

/-- What holds of a joiner in each stage. -/
inductive JoinerLedger (t : Joiner P ρ κ) : Prop where
  | phase1 {c : Phase1Channel P ρ} : t.stage = .phase1 c → t.accepted = [] →
      t.coordination = [] →
      (∀ sessionId peerset, Held (belongs sessionId peerset) c.buffered t.coordination t.read
        t.answers) → JoinerLedger t
  | phase2 {protocolId : Nat} {c : Phase2Channel P ρ} (proposal : IncomingRequest P ρ) :
      t.stage = .phase2 protocolId c → t.accepted = [] → t.coordination = [proposal] →
      proposal.context.messageType = .coordination →
      proposal.context.sessionId = c.sessionId →
      (∀ peerset, Held (belongs c.sessionId peerset) c.buffered t.coordination t.read
        t.answers) → JoinerLedger t
  | started {proxy : ReceiverProxy P ρ} {session : Session P ρ κ} :
      t.stage = .started proxy session → Isolated asU16 t proxy session →
      SessionSources (· ∈ t.accepted) session →
      (∀ s echoTx, session.execution = some (s, echoTx) → s.sessionId = proxy.sessionId) →
      JoinerLedger t
  | left : t.stage = .left → JoinerLedger t

/-- Nothing has been read at the start. -/
theorem joinerLedger_start (roomId : RoomId) (roomRx request : Nat) :
    JoinerLedger (Joiner.start roomId roomRx request : Joiner P ρ κ) :=
  .phase1 rfl rfl rfl fun _ _ => ⟨rfl, [], rfl, List.Perm.refl _⟩

/-- A poll of phase 1 keeps the ledger: what it reads is buffered, refused
or the proposal. -/
theorem joinerLedger_pollPhase1 [PeerIdCodec P] {c : Phase1Channel P ρ}
    {next : Option (IncomingRequest P ρ)} {request : TryRecv (LocalRpcMsg κ)} (makesAgent : Bool)
    (hroom : findsRoom isComputation c.buffered next = true) (haccepted : t.accepted = [])
    (hcoordination : t.coordination = [])
    (hheld : ∀ sessionId peerset, Held (belongs sessionId peerset) c.buffered t.coordination
      t.read t.answers) :
    JoinerLedger (t.afterPhase1 next makesAgent
      (c.poll localPeerId next request sessionId now)) := by
  cases hpoll : c.poll localPeerId next request sessionId now with
  | pending c' answers =>
      obtain ⟨hbuffered, rfl⟩ := phase1_pending hroom hpoll
      refine .phase1 rfl haccepted hcoordination fun sessionId peerset => ?_
      rw [hbuffered]
      show Held _ _ _ (t.read ++ next.toList) (t.answers ++ [])
      rw [List.append_nil]
      cases next with
      | none =>
          rw [Option.toList_none, List.append_nil, List.append_nil]
          exact hheld sessionId peerset
      | some m => exact (hheld sessionId peerset).buffer
  | fromRemote peerId protocolId payload responseTx channel =>
      obtain ⟨m, rfl, htype, hsession, hbuffered⟩ := phase1_fromRemote hpoll
      cases makesAgent with
      | false => exact .left rfl
      | true =>
          refine .phase2 m rfl haccepted ?_ htype hsession fun peerset => ?_
          · show t.coordination ++ [m] = [m]
            rw [hcoordination]
            rfl
          · rw [hbuffered]
            exact (hheld _ peerset).coordinate (not_belongs_of_coordination htype _ peerset)
  | fromLocal _ _ _ _ => exact .left rfl
  | panic _ => exact .left rfl

/-- The session of a new proxy has taken nothing yet. -/
theorem joinerLedger_startSession (proxy : ReceiverProxy P ρ) (protocolId : Nat)
    (proposal startMsg : IncomingRequest P ρ) (hstage : t.stage = .started proxy
      (Joiner.startSession proxy.sessionId protocolId proxy.peerset)) (haccepted : t.accepted = [])
    (hcoordination : t.coordination = [proposal, startMsg]) (htype : ∀ m ∈ [proposal, startMsg],
      m.context.messageType = .coordination ∧ m.context.sessionId = proxy.sessionId)
    (hheld : Held (belongs proxy.sessionId proxy.peerset) proxy.buffered t.coordination t.read
      t.answers) : JoinerLedger t := by
  have hnew : ∀ s echoTx,
      (Joiner.startSession proxy.sessionId protocolId proxy.peerset
        : Session P ρ κ).execution = some (s, echoTx) →
      ProtocolExecution.new proxy.sessionId protocolId proxy.peerset none = .ok s := by
    refine fun s echoTx => new_of_execution (n := proxy.peerset.size) fun w hw => ?_
    unfold Joiner.startSession at hw
    simp only at hw
    split at hw
    · rename_i hnew
      cases hw
      exact hnew
    · cases hw
  refine .started hstage ⟨fun s echoTx hs => ?_, ?_, hheld.others, ?_, nofun⟩
    ⟨nofun, fun s echoTx hs => ?_⟩ fun s echoTx hs => ?_
  · obtain ⟨_, _, hisNew⟩ := isNew_of_new_eq_ok (hnew s echoTx hs)
    rw [haccepted, hisNew.fromNetwork_eq, hheld.kept]
    rfl
  · rw [haccepted]
    exact List.nil_prefix
  · exact ⟨proposal, startMsg, hcoordination, htype⟩
  · obtain ⟨_, _, hisNew⟩ := isNew_of_new_eq_ok (hnew s echoTx hs)
    refine ⟨?_, (completion_new (hnew s echoTx hs)).1⟩
    rw [hisNew.pendingIncoming_eq]
    intro key m hm
    rw [Std.TreeMap.getElem?_emptyc] at hm
    cases hm
  · obtain ⟨_, _, hisNew⟩ := isNew_of_new_eq_ok (hnew s echoTx hs)
    exact hisNew.sessionId_eq

/-- A poll of phase 2 keeps the ledger. If the session starts, the proxy has
the messages that phase 2 has buffered. -/
theorem joinerLedger_pollPhase2 [PeerIdCodec P] [UnsignedVarint] {c : Phase2Channel P ρ}
    {next : Option (IncomingRequest P ρ)} {proposal : IncomingRequest P ρ} (protocolId : Nat)
    (hroom : findsRoom (ReceiverProxy.shouldForwardMessage · c.sessionId) c.buffered next = true)
    (haccepted : t.accepted = []) (hcoordination : t.coordination = [proposal])
    (htype : proposal.context.messageType = .coordination)
    (hsession : proposal.context.sessionId = c.sessionId)
    (hheld : ∀ peerset, Held (belongs c.sessionId peerset) c.buffered t.coordination t.read
      t.answers) :
    JoinerLedger (t.afterPhase2 protocolId next (c.poll localPeerId next now fresh)) := by
  cases hpoll : c.poll localPeerId next now fresh with
  | pending c' answers =>
      obtain ⟨hsession', hreads⟩ := phase2_pending hroom hpoll
      refine .phase2 proposal rfl haccepted hcoordination htype (hsession.trans hsession'.symm)
        fun peerset => ?_
      rw [hsession']
      have hheld := hheld peerset
      cases hreads with
      | nothing hbuffered =>
          show Held _ _ _ (t.read ++ []) (t.answers ++ [])
          rw [hbuffered, List.append_nil, List.append_nil]
          exact hheld
      | buffers hbuffered =>
          show Held _ _ _ _ (t.answers ++ [])
          rw [hbuffered, List.append_nil]
          exact hheld.buffer
      | refuses hother hbuffered =>
          rw [hbuffered]
          exact hheld.refuse (belongs_eq_false peerset hother)
  | start roomId proxy peerset body sessionId =>
      -- the proxy starts with what phase 2 has buffered
      obtain ⟨m, rfl, htype', hm, rfl, hproxy, rfl, hbuffered⟩ := phase2_start hpoll
      refine joinerLedger_startSession proxy protocolId proposal m ?_ haccepted ?_ ?_ ?_
      · rw [hproxy]
        rfl
      · show t.coordination ++ [m] = _
        rw [hcoordination]
        rfl
      · rw [hproxy]
        intro m' hm'
        rcases List.mem_pair.mp hm' with rfl | rfl
        · exact ⟨htype, hsession⟩
        · exact ⟨htype', hm⟩
      · rw [hbuffered, hproxy]
        exact (hheld proxy.peerset).coordinate (not_belongs_of_coordination htype' _ _)
  | abort _ _ _ => exact .left rfl
  | panic _ => exact .left rfl

/-- Every message in the channel is one of the session's own that was
read. -/
theorem Isolated.mem_queue {index : Nat → Nat} {session : Session P ρ κ}
    (h : Isolated index t proxy session) (hs : session.execution = some (s, echoTx))
    {m : IncomingRequest P ρ} (hm : m ∈ s.fromNetwork) :
    ∃ m', belongs proxy.sessionId proxy.peerset m' = true ∧
      m = withIndex index proxy.peerset m' := by
  have hmem : m ∈ (t.read.filter (belongs proxy.sessionId proxy.peerset)).map
      (withIndex index proxy.peerset) := by
    rw [← h.inbound s echoTx hs]
    exact List.mem_append_left _ (List.mem_append_right _ hm)
  obtain ⟨m', hm', rfl⟩ := List.mem_map.mp hmem
  exact ⟨m', (List.mem_filter.mp hm').2, rfl⟩

/-- The execution accepts every message that the proxy has fed to it. -/
theorem Isolated.accepts {index : Nat → Nat} {session : Session P ρ κ}
    (h : Isolated index t proxy session) (hs : session.execution = some (s, echoTx))
    (hsession : s.sessionId = proxy.sessionId) : ∀ m ∈ s.fromNetwork, s.accepts m = true := by
  intro m hm
  obtain ⟨m', hbelongs, rfl⟩ := h.mem_queue hs hm
  rw [ProtocolExecution.accepts, hsession, Bool.and_comm]
  exact (Bool.and_eq_true_iff.mp hbelongs).1

omit [DecidableEq P] in
/-- A poll accepts the first message that waits. -/
theorem acceptedBy_of_accepts {session : Session P ρ κ} (now : Nat) (turn : AgentTurn)
    (hs : session.execution = some (s, echoTx)) (hacc : ∀ m ∈ s.fromNetwork, s.accepts m = true) :
    Joiner.acceptedBy session (.pollComputation now turn) = s.fromNetwork.take 1 := by
  rw [Joiner.acceptedBy, hs]
  exact List.filter_eq_self.mpr fun m hm => hacc m (List.mem_of_mem_take hm)

omit [DecidableEq P] in
theorem acceptedBy_eq_nil (session : Session P ρ κ) {l : WrapLabel P ρ}
    (h : ∀ now turn, l ≠ .pollComputation now turn) : Joiner.acceptedBy session l = [] := by
  cases l with
  | pollComputation now turn => exact absurd rfl (h now turn)
  | _ => rfl

/-- A poll of the execution, or of the echo gadget. -/
theorem joinerLedger_session [Blake2s256] {session session' : Session P ρ κ} {l : WrapLabel P ρ}
    (hl : ∀ m, l ≠ .deliver m) (hisolated : Isolated asU16 t proxy session)
    (hsources : SessionSources (· ∈ t.accepted) session)
    (hsession : ∀ s echoTx, session.execution = some (s, echoTx) →
      s.sessionId = proxy.sessionId) (hstep : session.step l = some session') :
    JoinerLedger { t with
      stage := .started proxy session'
      accepted := t.accepted ++ Joiner.acceptedBy session l } := by
  have hgrow : ∀ m, m ∈ t.accepted → m ∈ t.accepted ++ Joiner.acceptedBy session l :=
    fun m hm => List.mem_append_left _ hm
  -- the agent gets what this poll or an earlier one has accepted
  have hsources' : SessionSources (· ∈ t.accepted ++ Joiner.acceptedBy session l) session' := by
    refine sessionSources_step (hsources.mono hgrow) ?_ hstep
    rintro now turn s echoTx m rfl hs hhead
    obtain ⟨rest, hrest⟩ := List.head?_eq_some_iff.mp hhead
    refine List.mem_append_right _ ?_
    rw [acceptedBy_of_accepts now turn hs (hisolated.accepts hs (hsession s echoTx hs)), hrest]
    exact List.mem_cons_self
  -- a poll moves the head of the channel to the accepted messages
  have hmoves : ∀ s echoTx now turn, session.execution = some (s, echoTx) →
      t.accepted ++ Joiner.acceptedBy session (.pollComputation now turn) ++ s.fromNetwork.tail
        ++ (proxy.buffered.filter (belongs proxy.sessionId proxy.peerset)).map
          (withIndex asU16 proxy.peerset)
        = (t.read.filter (belongs proxy.sessionId proxy.peerset)).map
          (withIndex asU16 proxy.peerset) := by
    intro s echoTx now turn hs
    rw [acceptedBy_of_accepts now turn hs (hisolated.accepts hs (hsession s echoTx hs)),
      ← hisolated.inbound s echoTx hs, List.append_assoc t.accepted, ← List.drop_one,
      List.take_append_drop]
  have hagent := hsources'.trace
  cases sessionSteps_step hstep with
  | @pending _ now turn s echoTx st hs hpoll hs' _ _ =>
      have hn := (hsources.running s echoTx hs).2.two_le
      refine .started rfl ⟨fun s' echoTx' hexec => ?_, ?_, hisolated.others,
        hisolated.coordination, hagent⟩ hsources' fun s' echoTx' hexec => ?_
      · rw [hs'] at hexec
        cases hexec
        rw [fromNetwork_of_pending hn hpoll]
        exact hmoves s echoTx now turn hs
      · rw [← hmoves s echoTx now turn hs, List.append_assoc]
        exact List.prefix_append _ _
      · rw [hs'] at hexec
        cases hexec
        exact (sessionId_of_pending hn hpoll).trans (hsession s echoTx hs)
  | @ready _ now turn s echoTx _ _ _ hs _ hs' _ _ =>
      refine .started rfl ⟨fun s' echoTx' hexec => ?_, ?_, hisolated.others,
        hisolated.coordination, hagent⟩ hsources' fun s' echoTx' hexec => ?_
      · rw [hs'] at hexec
        cases hexec
      · rw [← hmoves s echoTx now turn hs, List.append_assoc]
        exact List.prefix_append _ _
      · rw [hs'] at hexec
        cases hexec
  | @panics _ now turn s echoTx _ hs _ hstate _ =>
      have hnone : session'.execution = none := by
        rw [Session.execution, hstate]
      refine .started rfl ⟨fun s' echoTx' hexec => ?_, ?_, hisolated.others,
        hisolated.coordination, hagent⟩ hsources' fun s' echoTx' hexec => ?_
      · rw [hnone] at hexec
        cases hexec
      · rw [← hmoves s echoTx now turn hs, List.append_assoc]
        exact List.prefix_append _ _
      · rw [hnone] at hexec
        cases hexec
  | @delivers _ m _ _ _ _ _ _ => exact absurd rfl (hl m)
  | keeps _ hpoll hexec' _ _ _ =>
      have hnil := acceptedBy_eq_nil session hpoll
      rw [hnil, List.append_nil] at hsources' hagent ⊢
      refine .started rfl ⟨fun s' echoTx' hexec => ?_, hisolated.accepted, hisolated.others,
        hisolated.coordination, hagent⟩ hsources' fun s' echoTx' hexec => ?_
      · obtain ⟨echoTx, hs⟩ := hexec' s' echoTx' hexec
        exact hisolated.inbound s' echoTx hs
      · obtain ⟨echoTx, hs⟩ := hexec' s' echoTx' hexec
        exact hsession s' echoTx hs

/-- What the proxy feeds stands at the end of the execution's queue. -/
theorem session_of_feed [Blake2s256] (feed : List (IncomingRequest P ρ)) :
    ∀ {session session' : Session P ρ κ},
      run Session.step session (feed.map .deliver) = some session' →
      session'.trace = session.trace ∧ ∀ s' echoTx, session'.execution = some (s', echoTx) →
        ∃ s, session.execution = some (s, echoTx) ∧
          s' = { s with fromNetwork := s.fromNetwork ++ feed } := by
  induction feed with
  | nil =>
      intro session session' h
      cases h
      refine ⟨rfl, fun s' echoTx hs => ⟨s', hs, ?_⟩⟩
      rw [List.append_nil]
  | cons m feed ih =>
      intro session session' h
      obtain ⟨session₁, hstep, h⟩ := Option.bind_eq_some_iff.mp h
      obtain ⟨htrace, hexec⟩ := ih h
      cases sessionSteps_step hstep with
      | @delivers _ _ s₀ echoTx₀ hs₀ hs₁ htrace₁ _ =>
          refine ⟨htrace.trans htrace₁, fun s' echoTx hs' => ?_⟩
          obtain ⟨s, hs, rfl⟩ := hexec s' echoTx hs'
          rw [hs₁] at hs
          cases hs
          exact ⟨s₀, hs₀, by rw [List.append_assoc, List.singleton_append]⟩
      | keeps hl _ _ _ _ _ => exact absurd rfl (hl m)

/-- The messages of the session's own, before and after a poll of the
proxy. -/
theorem inbound_of_proxyReads {p p' : ReceiverProxy P ρ} {next : Option (IncomingRequest P ρ)}
    {tookNext : Bool} {feed : List (IncomingRequest P ρ)} {answers : Answers ρ}
    (read : List (IncomingRequest P ρ)) (h : ProxyReads p p' next tookNext feed answers) :
    ∃ rest : List (IncomingRequest P ρ),
      ((read ++ if tookNext then next.toList else []).filter (belongs p.sessionId p.peerset)).map
          (withIndex asU16 p.peerset)
        = (read.filter (belongs p.sessionId p.peerset)).map (withIndex asU16 p.peerset) ++ rest ∧
      feed ++ (p'.buffered.filter (belongs p.sessionId p.peerset)).map (withIndex asU16 p.peerset)
        = (p.buffered.filter (belongs p.sessionId p.peerset)).map (withIndex asU16 p.peerset)
          ++ rest := by
  cases h with
  | nothing hbuffered => exact ⟨[], by simp, by simp [hbuffered]⟩
  | forwardsBuffered hbuffered hm => exact ⟨[], by simp, by simp [hbuffered, hm]⟩
  | refusesBuffered hbuffered hm => exact ⟨[], by simp, by simp [hbuffered, hm]⟩
  | @forwards m hnext hbuffered hbuffered' hm =>
      exact ⟨[withIndex asU16 p.peerset m], by simp [hnext, hm],
        by simp [hbuffered, hbuffered']⟩
  | refuses hnext hbuffered hbuffered' hm =>
      exact ⟨[], by simp [hnext, hm], by simp [hbuffered, hbuffered']⟩

/-- A poll of the proxy keeps the account: a message that it takes is fed,
refused or held. -/
theorem Accounted.proxyReads {p p' : ReceiverProxy P ρ} {next : Option (IncomingRequest P ρ)}
    {tookNext : Bool} {feed read coordination : List (IncomingRequest P ρ)}
    {answers answers' : Answers ρ}
    (hothers : Accounted (belongs p.sessionId p.peerset) p.buffered coordination read answers)
    (h : ProxyReads p p' next tookNext feed answers') :
    Accounted (belongs p.sessionId p.peerset) p'.buffered coordination
      (read ++ if tookNext then next.toList else []) (answers ++ answers') := by
  cases h with
  | nothing hbuffered =>
      rw [hbuffered, List.append_nil]
      simpa using hothers
  | forwardsBuffered hbuffered hm =>
      rw [hbuffered] at hothers
      simpa using hothers.passBuffered hm
  | refusesBuffered hbuffered hm =>
      rw [hbuffered] at hothers
      simpa using hothers.refuseBuffered hm
  | forwards hnext hbuffered hbuffered' hm =>
      rw [hbuffered] at hothers
      rw [hbuffered', hnext, List.append_nil]
      exact hothers.pass hm
  | refuses hnext hbuffered hbuffered' hm =>
      rw [hbuffered] at hothers
      rw [hbuffered', hnext]
      exact hothers.refuse hm

/-- A poll of the proxy. -/
theorem joinerLedger_pollProxy [Blake2s256] {t' : Joiner P ρ κ} {session : Session P ρ κ}
    {next : Option (IncomingRequest P ρ)} {closed : Bool} {queued request : Nat}
    (hroom : queued < proxyBuffer + 1) (hisolated : Isolated asU16 t proxy session)
    (hsources : SessionSources (· ∈ t.accepted) session)
    (hsession : ∀ s echoTx, session.execution = some (s, echoTx) →
      s.sessionId = proxy.sessionId)
    (h : t.afterProxy session next (proxy.poll closed queued next request) = some t') :
    JoinerLedger t' := by
  cases hpoll : proxy.poll closed queued next request with
  | ready _ _ =>
      rw [hpoll] at h
      cases h
      exact .left rfl
  | pending proxy' tookNext feed answers =>
      rw [hpoll] at h
      obtain ⟨session', hfeed, rfl⟩ := Option.map_eq_some_iff.mp h
      obtain ⟨hid, hpeerset, hreads⟩ := proxy_pending hroom hpoll
      obtain ⟨htrace, hexec⟩ := session_of_feed feed hfeed
      -- what is fed goes behind what waits, ahead of what is held
      obtain ⟨rest, hread, hbuffer⟩ := inbound_of_proxyReads t.read hreads
      refine .started rfl ⟨?_, ?_, ?_, ?_, ?_⟩ ⟨?_, ?_⟩ ?_
      · intro s' echoTx hs'
        obtain ⟨s, hs, rfl⟩ := hexec s' echoTx hs'
        rw [hid, hpeerset]
        show t.accepted ++ (s.fromNetwork ++ feed) ++ _ = _
        rw [hread, ← hisolated.inbound s echoTx hs, List.append_assoc, List.append_assoc,
          hbuffer, List.append_assoc, List.append_assoc]
      · rw [hid, hpeerset]
        show t.accepted <+: _
        rw [hread]
        exact hisolated.accepted.trans (List.prefix_append _ _)
      · rw [hid, hpeerset]
        exact hisolated.others.proxyReads hreads
      · rw [hid]
        exact hisolated.coordination
      · rw [htrace]
        exact hisolated.agent
      · rw [htrace]
        exact hsources.trace
      · intro s' echoTx hs'
        obtain ⟨s, hs, rfl⟩ := hexec s' echoTx hs'
        obtain ⟨hbuffered, hc⟩ := hsources.running s echoTx hs
        exact ⟨hbuffered, ⟨hc.two_le, hc.agentFuture, hc.completionDelay⟩⟩
      · intro s' echoTx hs'
        obtain ⟨s, hs, rfl⟩ := hexec s' echoTx hs'
        exact (hsession s echoTx hs).trans hid.symm

/-- Every step of a joining party keeps the ledger. -/
theorem joinerLedger_step [Blake2s256] [PeerIdCodec P] [UnsignedVarint] {t' : Joiner P ρ κ}
    {l : JoinerLabel P ρ κ} (ht : JoinerLedger t) (hroom : hasRoom t l = true)
    (h : t.step localPeerId l = some t') : JoinerLedger t' := by
  cases l with
  | pollPhase1 next request sessionId now makesAgent =>
      cases ht with
      | phase1 hstage haccepted hcoordination hheld =>
          simp only [hasRoom, hstage] at hroom
          simp only [Joiner.step, hstage, Option.some.injEq] at h
          rw [← h]
          exact joinerLedger_pollPhase1 makesAgent hroom haccepted hcoordination hheld
      | phase2 _ hstage _ _ _ _ _ => simp [Joiner.step, hstage] at h
      | started hstage _ _ _ => simp [Joiner.step, hstage] at h
      | left hstage => simp [Joiner.step, hstage] at h
  | pollPhase2 next now fresh =>
      cases ht with
      | phase2 proposal hstage haccepted hcoordination htype hsession hheld =>
          simp only [hasRoom, hstage] at hroom
          simp only [Joiner.step, hstage, Option.some.injEq] at h
          rw [← h]
          exact joinerLedger_pollPhase2 _ hroom haccepted hcoordination htype hsession hheld
      | phase1 hstage _ _ _ => simp [Joiner.step, hstage] at h
      | started hstage _ _ _ => simp [Joiner.step, hstage] at h
      | left hstage => simp [Joiner.step, hstage] at h
  | pollProxy next request =>
      cases ht with
      | started hstage hisolated hsources hsession =>
          simp only [hasRoom, hstage, decide_eq_true_eq] at hroom
          simp only [Joiner.step, hstage] at h
          exact joinerLedger_pollProxy hroom hisolated hsources hsession h
      | phase1 hstage _ _ _ => simp [Joiner.step, hstage] at h
      | phase2 _ hstage _ _ _ _ _ => simp [Joiner.step, hstage] at h
      | left hstage => simp [Joiner.step, hstage] at h
  | session l =>
      have hl : ∀ m, l ≠ .deliver m := by
        rintro m rfl
        cases h
      cases ht with
      | @started proxy session hstage hisolated hsources hsession =>
          -- every label but a delivery is a step of the session
          have hmap : (session.step l).map (fun session' =>
              { t with
                  stage := .started proxy session'
                  accepted := t.accepted ++ Joiner.acceptedBy session l }) = some t' := by
            cases l with
            | deliver m => exact absurd rfl (hl m)
            | _ => simpa only [Joiner.step, hstage] using h
          obtain ⟨session', hstep, rfl⟩ := Option.map_eq_some_iff.mp hmap
          exact joinerLedger_session hl hisolated hsources hsession hstep
      | phase1 hstage _ _ _ => cases l <;> simp [Joiner.step, hstage] at h
      | phase2 _ hstage _ _ _ _ _ => cases l <;> simp [Joiner.step, hstage] at h
      | left hstage => cases l <;> simp [Joiner.step, hstage] at h

/-- With at most `2 ^ 16` members the truncation changes no index. -/
theorem withIndex_asU16 {peerset : Peerset P} (hsize : peerset.size ≤ 2 ^ 16)
    (messages : List (IncomingRequest P ρ)) :
    (messages.filter (belongs sessionId peerset)).map (withIndex asU16 peerset)
      = (messages.filter (belongs sessionId peerset)).map (withIndex id peerset) := by
  refine List.map_congr_left fun m hm => ?_
  have hmem := of_decide_eq_true (Bool.and_eq_true_iff.mp (List.mem_filter.mp hm).2).2
  have hlt : peerset.peers.idxOf m.peerId < peerset.size := List.idxOf_lt_length_of_mem hmem
  rw [withIndex, withIndex, asU16, Nat.mod_eq_of_lt (Nat.lt_of_lt_of_le hlt hsize)]
  rfl

/-- Take a joiner from its `Phase1Channel` on, in any run in which no
buffer overflows. Once it runs a session of at most `2 ^ 16` members,
the session is isolated. -/
theorem isolated [Blake2s256] [PeerIdCodec P] [UnsignedVarint] (localPeerId : P)
    (roomId : RoomId) (roomRx request : Nat) {t : Joiner P ρ κ} {proxy : ReceiverProxy P ρ}
    {session : Session P ρ κ}
    (hreach : Reach (Joiner.step localPeerId) (fun t l => hasRoom t l = true)
      (Joiner.start roomId roomRx request) t)
    (hstage : t.stage = .started proxy session) (hsize : proxy.peerset.size ≤ 2 ^ 16) :
    Isolated id t proxy session := by
  have hledger : JoinerLedger t := hreach.invariant (joinerLedger_start roomId roomRx request)
    fun _ _ _ ht hl hstep => joinerLedger_step ht hl hstep
  cases hledger with
  | started hstage' hisolated _ _ =>
      rw [hstage] at hstage'
      cases hstage'
      refine ⟨fun s echoTx hs => ?_, ?_, hisolated.others, hisolated.coordination,
        hisolated.agent⟩
      · rw [← withIndex_asU16 hsize, ← withIndex_asU16 hsize]
        exact hisolated.inbound s echoTx hs
      · rw [← withIndex_asU16 hsize]
        exact hisolated.accepted
  | phase1 hstage' _ _ _ =>
      rw [hstage] at hstage'
      cases hstage'
  | phase2 _ hstage' _ _ _ _ _ =>
      rw [hstage] at hstage'
      cases hstage'
  | left hstage' =>
      rw [hstage] at hstage'
      cases hstage'

end Run

namespace EarlyTraffic

open scoped IdentityHash

/-- A message of the peer with this byte. The answer handles tell the
messages apart. -/
def message (messageType : MessageType) (sessionId : SessionId) (peer : UInt8) (payload : Bytes)
    (handle : Nat) : IncomingRequest Ed25519PeerId Nat where
  context :=
    { messageType := messageType, protocolId := 1, sessionId := sessionId, messageId := 0 }
  peerId := .ofByte peer
  isBroadcast := true
  peerIndex := 0
  payload := payload
  pendingResponse := handle

def startMsg : StartMsg Ed25519PeerId where
  peerset :=
    { localPeerId := .ofByte 1, peers := [.ofByte 1, .ofByte 2, .ofByte 3], parties := [] }
  body := []

def otherSession : SessionId := Vector.replicate 16 9
/-- Computation messages of two sessions come before the proposal, the
start follows, and then a message of a member and one of a stranger. -/
def labels : List (JoinerLabel Ed25519PeerId Nat Unit) :=
  [.pollPhase1 (some (message .computation noSessionId 3 [30] 0)) .empty noSessionId 0 true,
    .pollPhase1 (some (message .computation otherSession 3 [31] 1)) .empty noSessionId 0 true,
    .pollPhase1 (some (message .coordination noSessionId 1 [] 2)) .empty noSessionId 0 true,
    .pollPhase2 (some (message .coordination noSessionId 1 startMsg.toBytes 3)) 0 0,
    .pollProxy none 0, .pollProxy none 0,
    .pollProxy (some (message .computation noSessionId 1 [10] 4)) 0,
    .pollProxy (some (message .computation noSessionId 4 [40] 5)) 0,
    .session (.pollComputation 0 { received := 0, sent := [], result := none })]

set_option maxRecDepth 4000 in
/-- Both messages of the session reach its execution, the early one
first; the other two are refused. -/
theorem isolated_earlyTraffic :
    ∃ (t : Joiner Ed25519PeerId Nat Unit) (proxy : ReceiverProxy Ed25519PeerId Nat)
      (session : Session Ed25519PeerId Nat Unit),
      runIf (Joiner.step (.ofByte 2)) hasRoom (Joiner.start ⟨"room"⟩ 0 0) labels = some t ∧
      t.stage = .started proxy session ∧
      t.accepted.map (fun m => (m.peerIndex, m.payload)) = [(2, [30])] ∧
      (Joiner.queue session).map (fun m => (m.peerIndex, m.payload)) = [(0, [10])] ∧
      t.answers = [(1, refuse), (5, refuse)] ∧
      Isolated id t proxy session := by
  refine ⟨_, _, _, rfl, rfl, rfl, rfl, rfl, ?_⟩
  exact isolated (.ofByte 2) ⟨"room"⟩ 0 0 (reach_of_runIf labels rfl) rfl (by decide)

end EarlyTraffic

namespace CrowdedStart

open scoped IdentityHash

section AnyCodec

variable {P : Type} [DecidableEq P] [PeerIdCodec P] [UnsignedVarint]

/-- A message of the session. -/
def message (messageType : MessageType) (peerId : P) (payload : Bytes) :
    IncomingRequest P Nat where
  context :=
    { messageType := messageType, protocolId := 1, sessionId := noSessionId, messageId := 0 }
  peerId := peerId
  isBroadcast := true
  peerIndex := 0
  payload := payload
  pendingResponse := 0

/-- The execution of a peerset whose truncated size is two. -/
def execution (p : Peerset P) (fromNetwork : List (IncomingRequest P Nat)) :
    ProtocolExecution P Nat Unit where
  sessionId := noSessionId
  protocolId := 1
  peerset := p
  fromNetwork := fromNetwork
  toProtocol := []
  fromProtocol := []
  agentFuture := true
  agentResult := none
  completionDelay := none
  pendingResponse := none
  nextOutgoingBroadcastId := 0
  nextIncomingBroadcastId := 0
  pendingIncoming := ∅
  i := 0
  n := 2

def running (p : Peerset P) (fromNetwork : List (IncomingRequest P Nat)) :
    Session P Nat Unit where
  state := .running
    { echo := EchoGadget.new p.size
      echoRx := []
      responses := fun _ => { queue := [], closed := false }
      computation := some (execution p fromNetwork)
      echoFinished := false }
  trace := []

omit [PeerIdCodec P] [UnsignedVarint] in
/-- A peerset of two, the local peer first, gives this session. -/
theorem startSession_eq (p : Peerset P) (hlocal : p.indexOf p.localPeerId = some 0)
    (hsize : asU16 p.size = 2) :
    Joiner.startSession noSessionId 1 p = running p [] := by
  rw [Joiner.startSession, WrapExecution.new, ProtocolExecution.new, hlocal, hsize]
  rfl

/-- A joiner with this session, and the two messages that led to it. -/
def joined (p : Peerset P) (sender : P) (payload : Bytes) (live : List (IncomingRequest P Nat))
    (session : Session P Nat Unit) : Joiner P Nat Unit where
  stage := .started (ReceiverProxy.new ⟨"room"⟩ 0 p noSessionId [] 0) session
  read := [message .coordination sender [], message .coordination sender payload] ++ live
  coordination := [message .coordination sender [], message .coordination sender payload]
  accepted := []
  answers := []

/-- Proposal and start. -/
theorem reach_joined (p : Peerset P) (sender : P) (payload : Bytes)
    (hdecode : StartMsg.fromBytes payload p.localPeerId = .ok { peerset := p, body := [] }) :
    Reach (Joiner.step p.localPeerId) (fun t l => hasRoom t l = true)
      (Joiner.start ⟨"room"⟩ 0 0)
      (joined p sender payload [] (Joiner.startSession noSessionId 1 p)) := by
  refine .next (.pollPhase2 (some (message .coordination sender payload)) 0 0)
    (.next (.pollPhase1 (some (message .coordination sender [])) .empty noSessionId 0 true)
      .start rfl rfl) rfl ?_
  show some (Joiner.afterPhase2 _ _ _ (Phase2Channel.onCoordination _ _ payload _)) = _
  rw [Phase2Channel.onCoordination, hdecode]
  rfl

/-- The proxy numbers a member's message. -/
theorem step_joined (p : Peerset P) (sender : P) (payload : Bytes) {i : Nat}
    (hsender : p.indexOf sender = some i) :
    (joined p sender payload [] (running p [])).step p.localPeerId
        (.pollProxy (some (message .computation sender [7])) 0)
      = some (joined p sender payload [message .computation sender [7]]
          (running p [{ message .computation sender [7] with peerIndex := i }])) := by
  have hsent : ReceiverProxy.forwardOrReject (message .computation sender [7]) noSessionId p 0
      = .sent { message .computation sender [7] with peerIndex := i } := by
    unfold ReceiverProxy.forwardOrReject
    rw [show (message .computation sender [7]).peerId = sender from rfl, hsender]
    rfl
  show Joiner.afterProxy _ _ _ (ReceiverProxy.handled _ _ _
    (ReceiverProxy.forwardOrReject (message .computation sender [7]) noSessionId p 0)) = _
  rw [hsent]
  rfl

omit [PeerIdCodec P] [UnsignedVarint] in
/-- In an isolated session that number is the sender's position. -/
theorem index_of_isolated (p : Peerset P) (sender : P) (payload : Bytes) {i : Nat}
    (h : Isolated id
      (joined p sender payload [message .computation sender [7]]
        (running p [{ message .computation sender [7] with peerIndex := i }]))
      (ReceiverProxy.new ⟨"room"⟩ 0 p noSessionId [] 0)
      (running p [{ message .computation sender [7] with peerIndex := i }])) :
    i = p.peers.idxOf sender := by
  obtain ⟨m, _, hm⟩ := Isolated.mem_queue (s := execution p _) h rfl (List.mem_singleton_self _)
  have hsender : sender = m.peerId := congrArg IncomingRequest.peerId hm
  have hindex : i = p.peers.idxOf m.peerId := congrArg IncomingRequest.peerIndex hm
  rw [hsender]
  exact hindex

end AnyCodec

/-- A peer for every number below `2 ^ 24`. -/
def peer (k : Nat) : Ed25519PeerId := ⟨Vector.ofFn fun b => (k / 256 ^ b.val).toUInt8⟩

theorem byte_of_peer_eq {i j : Nat} (h : peer i = peer j) (b : Nat) (hb : b < 32) :
    i / 256 ^ b % 256 = j / 256 ^ b % 256 := by
  have hget := congrArg (fun q : Ed25519PeerId => q.key[b].toNat) h
  simpa only [peer, Vector.getElem_ofFn, Nat.toUInt8_eq, UInt8.toNat_ofNat'] using hget

/-- Peers with different numbers below `2 ^ 24` are different. -/
theorem eq_of_peer_eq {i j : Nat} (hi : i < 2 ^ 24) (hj : j < 2 ^ 24) (h : peer i = peer j) :
    i = j := by
  have h₀ := byte_of_peer_eq h 0 (by decide)
  have h₁ := byte_of_peer_eq h 1 (by decide)
  have h₂ := byte_of_peer_eq h 2 (by decide)
  rw [Nat.pow_zero, Nat.div_one, Nat.div_one] at h₀
  rw [Nat.pow_one] at h₁
  omega

/-- Peers `0` to `n - 1`, of which the first is the local one. -/
def crowd (n : Nat) : Peerset Ed25519PeerId where
  localPeerId := peer 0
  peers := (List.range n).map peer
  parties := []

theorem size_crowd (n : Nat) : (crowd n).size = n := by
  rw [Peerset.size, crowd, List.length_map, List.length_range]

/-- The `k`-th peer of the crowd has index `k`. -/
theorem indexOf_crowd {n k : Nat} (hn : n ≤ 2 ^ 24) (hk : k < n) :
    (crowd n).peers.idxOf (peer k) = k ∧ peer k ∈ (crowd n).peers := by
  have hnodup : (crowd n).peers.Nodup := by
    refine List.Nodup.map_on (fun i hi j hj h => ?_) List.nodup_range
    rw [List.mem_range] at hi hj
    exact eq_of_peer_eq (by omega) (by omega) h
  have hlt : k < (crowd n).peers.length := Nat.lt_of_lt_of_eq hk (size_crowd n).symm
  have hget : (crowd n).peers[k] = peer k := by
    simp only [crowd, List.getElem_map, List.getElem_range]
  have hidx := hnodup.idxOf_getElem k hlt
  rw [hget] at hidx
  exact ⟨hidx, List.mem_map_of_mem (List.mem_range.mpr hk)⟩

/-- A crowd of `n` peers takes at most 76 bytes for each, and 96 more. -/
theorem encodedLength_crowd_le (n : Nat) : (crowd n).encodedLength ≤ 76 * n + 96 := by
  have hpeers : ∀ ps : List Ed25519PeerId,
      (ps.flatMap Peerset.peerIdWrites).flatten.length ≤ 76 * ps.length := by
    intro ps
    induction ps with
    | nil => exact Nat.le_refl 0
    | cons p ps ih =>
        have hp := length_peerIdWrites_le p
        rw [List.flatMap_cons, List.flatten_append, List.length_append, List.length_cons]
        omega
  have hlocal := length_peerIdWrites_le (peer 0)
  have hcrowd := hpeers (crowd n).peers
  have hsize : (crowd n).peers.length = n := size_crowd n
  have hcount := LawfulUnsignedVarint.length_encode_le (crowd n).peers.length.toUInt64
  have hnone := LawfulUnsignedVarint.length_encode_le (crowd n).parties.length.toUInt64
  unfold Peerset.encodedLength Peerset.writes
  rw [List.flatten_append, List.flatten_append, List.length_append, List.length_append,
    List.flatten_cons, List.length_append, List.flatten_cons, List.length_append]
  have hempty : ((crowd n).parties.map UnsignedVarint.encode).flatten.length = 0 := rfl
  have hfirst : (crowd n).localPeerId = peer 0 := rfl
  rw [hfirst]
  omega

/-- The start message with `n` members. -/
def startPayload (n : Nat) : Bytes :=
  UnsignedVarint.encode (crowd n).encodedLength.toUInt64 ++
    ((crowd n).writes.flatten ++ (UnsignedVarint.encode ([] : Bytes).length.toUInt64 ++ []))

/-- The start message of the crowd is read as it was written. -/
theorem fromBytes_startPayload {n : Nat} (hn : n ≤ 2 ^ 24) :
    StartMsg.fromBytes (startPayload n) (crowd n).localPeerId
      = .ok { peerset := crowd n, body := [] } := by
  have hlength := encodedLength_crowd_le n
  have hsize : (crowd n).peers.length = n := size_crowd n
  have hnone : (crowd n).parties.length = 0 := rfl
  exact startMsg_fromBytes_writes (crowd n) (crowd n).localPeerId [] (by omega) (by omega)
    (by omega) (by decide)

/-- Of 65538 members the last one is numbered like the second: its
message waits in the execution's queue under the index `1`. -/
theorem not_isolated_crowdedStart :
    ∃ (t : Joiner Ed25519PeerId Nat Unit) (proxy : ReceiverProxy Ed25519PeerId Nat)
      (session : Session Ed25519PeerId Nat Unit),
      Reach (Joiner.step (peer 0)) (fun t l => hasRoom t l = true) (Joiner.start ⟨"room"⟩ 0 0) t ∧
      t.stage = .started proxy session ∧ session.execution.isSome = true ∧
      ¬ Isolated id t proxy session := by
  obtain ⟨hlocal, hlocalMem⟩ := indexOf_crowd (n := 65538) (k := 0) (by omega) (by omega)
  obtain ⟨hlast, hlastMem⟩ := indexOf_crowd (n := 65538) (k := 65537) (by omega) (by omega)
  have hfirst : (crowd 65538).indexOf (crowd 65538).localPeerId = some 0 := by
    rw [show (crowd 65538).localPeerId = peer 0 from rfl, indexOf_eq_some_of_mem hlocalMem,
      hlocal]
    rfl
  have hsize : asU16 (crowd 65538).size = 2 := by
    rw [size_crowd]
    rfl
  have hjoined := reach_joined (crowd 65538) (peer 65537) (startPayload 65538)
    (fromBytes_startPayload (by omega))
  have hstep := step_joined (crowd 65538) (peer 65537) (startPayload 65538)
    (indexOf_eq_some_of_mem hlastMem)
  rw [startSession_eq _ hfirst hsize] at hjoined
  rw [hlast] at hstep
  refine ⟨_, _, _, hjoined.next _ rfl hstep, rfl, rfl, fun h => ?_⟩
  -- the queued message would carry its sender's position
  have hindex := index_of_isolated _ _ _ h
  rw [hlast] at hindex
  exact absurd hindex (by decide)

end CrowdedStart

end FrostMpcTss.Proofs
