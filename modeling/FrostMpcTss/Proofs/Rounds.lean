import FrostMpcTss.Proofs.Ledger
import FrostMpcTss.Proofs.SessionSteps

/-!
# `FrostMpcTss.Proofs.Rounds`: broadcasts are handed on round by round

What an execution has handed to its agent, and what it has handed to the
echo gadget, are the same rounds one after the other. The round of an id
has as many messages as there are remotes, from different senders and in
their order, and each of them was taken from the network under this
sender and id (`Rounds`). The own broadcasts are numbered one after the
other as well.

`RoundLedger` relates this history to the running execution: it waits
for the round with the next number. Every step of a session keeps it
(`sessionRounds_step`).

`D` stands for what is known of the messages taken from the network.
-/

set_option autoImplicit false

namespace FrostMpcTss.Proofs

open Lib Network Service FrostMpcTss.Session
open Service.ProtocolExecution

variable {P ρ κ : Type} {rounds : List (List (Nat × IncomingRequest P ρ))}
  {D' : IncomingRequest P ρ → Prop} {s : ProtocolExecution P ρ κ}

section Histories

/-- The broadcasts handed to the agent. -/
def broadcastRequestsIn (trace : List (Effect P ρ κ)) : List AgentRequest :=
  trace.filterMap fun
    | .delivered req => if req.recipient.isNone then some req else none
    | _ => none

/-- The broadcasts of the remotes handed to the echo gadget. -/
def remotesIn (trace : List (Effect P ρ κ)) : List (EchoMessage ρ) :=
  (enteredIn trace).filter fun m => !EchoGadget.isOutgoing m

/-- The ids of the own broadcasts. -/
def multicastIds (trace : List (Effect P ρ κ)) : List Nat :=
  trace.filterMap fun
    | .multicast k _ _ => some k
    | _ => none

/-- What the agent gets of some rounds. -/
def requestsOf (rounds : List (List (Nat × IncomingRequest P ρ))) : List AgentRequest :=
  rounds.flatten.map broadcastRequest

/-- What the gadget gets of some rounds, numbered from zero. -/
def echoesOf (rounds : List (List (Nat × IncomingRequest P ρ))) : List (EchoMessage ρ) :=
  rounds.zipIdx.flatMap fun round => round.1.map (incomingEcho round.2)

/-- A complete round of an id. -/
structure CompleteRound (D : IncomingRequest P ρ → Prop) (size k : Nat)
    (round : List (Nat × IncomingRequest P ρ)) : Prop where
  length : round.length = size
  senders : (round.map Prod.fst).Pairwise (· < ·)
  messages : ∀ r ∈ round, D r.2 ∧ r.2.isBroadcast = true ∧
    (r.1, k) = (r.2.peerIndex + 1, r.2.context.messageId)

/-- These rounds are what was handed on. -/
structure Rounds (D : IncomingRequest P ρ → Prop) (size : Nat)
    (rounds : List (List (Nat × IncomingRequest P ρ))) (trace : List (Effect P ρ κ)) :
    Prop where
  agent : broadcastRequestsIn trace = requestsOf rounds
  gadget : remotesIn trace = echoesOf rounds
  complete : ∀ k round, rounds[k]? = some round → CompleteRound D size k round

/-- What the trace shows of the rounds. -/
structure RoundTrace (D : IncomingRequest P ρ → Prop) (size : Nat)
    (trace : List (Effect P ρ κ)) : Prop where
  rounds : ∃ rounds, Rounds D size rounds trace
  sent : ∃ count, multicastIds trace = List.range count

/-- What a running execution holds, against the trace. -/
structure RoundLedger (D : IncomingRequest P ρ → Prop) (size : Nat)
    (trace : List (Effect P ρ κ)) (s : ProtocolExecution P ρ κ) : Prop where
  n_eq : s.n = size + 1
  buffered : Buffered D s.pendingIncoming
  rounds : ∃ rounds, rounds.length = s.nextIncomingBroadcastId ∧ Rounds D size rounds trace
  sent : multicastIds trace = List.range s.nextOutgoingBroadcastId

theorem broadcastRequestsIn_append (trace effects : List (Effect P ρ κ)) :
    broadcastRequestsIn (trace ++ effects)
      = broadcastRequestsIn trace ++ broadcastRequestsIn effects :=
  List.filterMap_append

theorem remotesIn_append (trace effects : List (Effect P ρ κ)) :
    remotesIn (trace ++ effects) = remotesIn trace ++ remotesIn effects := by
  rw [remotesIn, enteredIn_append, List.filter_append]
  rfl

theorem multicastIds_append (trace effects : List (Effect P ρ κ)) :
    multicastIds (trace ++ effects) = multicastIds trace ++ multicastIds effects :=
  List.filterMap_append

/-- One more round is handed on under the next number. -/
theorem echoesOf_concat (rounds : List (List (Nat × IncomingRequest P ρ)))
    (round : List (Nat × IncomingRequest P ρ)) :
    echoesOf (rounds ++ [round]) = echoesOf rounds ++ round.map (incomingEcho rounds.length) := by
  rw [echoesOf, List.zipIdx_append, List.flatMap_append]
  simp [echoesOf]

theorem requestsOf_concat (rounds : List (List (Nat × IncomingRequest P ρ)))
    (round : List (Nat × IncomingRequest P ρ)) :
    requestsOf (rounds ++ [round]) = requestsOf rounds ++ round.map broadcastRequest := by
  simp [requestsOf]

/-- A message of the gadget belongs to the round of its id. -/
theorem mem_echoesOf {m : EchoMessage ρ} :
    m ∈ echoesOf rounds ↔
      ∃ round, rounds[m.messageId]? = some round ∧
        ∃ r ∈ round, m = incomingEcho m.messageId r := by
  unfold echoesOf
  rw [List.mem_flatMap]
  constructor
  · rintro ⟨⟨round, k⟩, hround, hm⟩
    obtain ⟨r, hr, rfl⟩ := List.mem_map.mp hm
    exact ⟨round, List.mem_zipIdx_iff_getElem?.mp hround, r, hr, rfl⟩
  · rintro ⟨round, hround, r, hr, hm⟩
    refine ⟨(round, m.messageId), List.mem_zipIdx_iff_getElem?.mpr hround, ?_⟩
    rw [hm]
    exact List.mem_map_of_mem hr

variable {D : IncomingRequest P ρ → Prop}

theorem CompleteRound.mono {size k : Nat} {round : List (Nat × IncomingRequest P ρ)}
    (hD : ∀ m, D m → D' m) (h : CompleteRound D size k round) : CompleteRound D' size k round where
  length := h.length
  senders := h.senders
  messages r hr := ⟨hD r.2 (h.messages r hr).1, (h.messages r hr).2⟩

variable {trace : List (Effect P ρ κ)}

theorem Rounds.mono {size : Nat} (hD : ∀ m, D m → D' m) (h : Rounds D size rounds trace) :
    Rounds D' size rounds trace where
  agent := h.agent
  gadget := h.gadget
  complete k round hround := (h.complete k round hround).mono hD

/-- No message of a sender and id is handed on twice. -/
theorem Rounds.nodup {size : Nat} (h : Rounds D size rounds trace) :
    ((remotesIn trace).map fun m => (m.messageId, m.sender)).Nodup := by
  rw [h.gadget]
  have hcomplete := h.complete
  clear h
  -- round by round, from the last one back
  induction rounds using List.reverseRecOn with
  | nil => exact List.nodup_nil
  | append_singleton rounds round ih =>
      have hlast : (rounds ++ [round])[rounds.length]? = some round := by
        rw [List.getElem?_append_right (Nat.le_refl _), Nat.sub_self]
        rfl
      have hround := hcomplete rounds.length round hlast
      have hinit : ∀ k round', rounds[k]? = some round' → CompleteRound D size k round' := by
        intro k round' hk
        refine hcomplete k round' ?_
        rw [List.getElem?_append_left (List.getElem?_eq_some_iff.mp hk).1]
        exact hk
      rw [echoesOf_concat, List.map_append, List.nodup_append]
      refine ⟨ih hinit, ?_, ?_⟩
      · rw [List.map_map]
        have hsenders : (round.map Prod.fst).Nodup := hround.senders.imp Nat.ne_of_lt
        have hkeys : round.map ((fun m : EchoMessage ρ => (m.messageId, m.sender)) ∘
            incomingEcho rounds.length)
            = (round.map Prod.fst).map fun sender => (rounds.length, sender) := by
          rw [List.map_map]
          rfl
        rw [hkeys]
        exact hsenders.map fun a b hab => (Prod.mk.inj hab).2
      · -- older rounds have smaller numbers
        rintro key hkey key' hkey' rfl
        obtain ⟨m, hm, rfl⟩ := List.mem_map.mp hkey
        obtain ⟨m', hm', heq⟩ := List.mem_map.mp hkey'
        obtain ⟨r, _, rfl⟩ := List.mem_map.mp hm'
        obtain ⟨round', hround', _⟩ := mem_echoesOf.mp hm
        have hlt := (List.getElem?_eq_some_iff.mp hround').1
        have hid : rounds.length = m.messageId := (Prod.mk.inj heq).1
        omega

theorem RoundTrace.mono {size : Nat} (hD : ∀ m, D m → D' m) (h : RoundTrace D size trace) :
    RoundTrace D' size trace := by
  obtain ⟨⟨rounds, hrounds⟩, hsent⟩ := h
  exact ⟨⟨rounds, hrounds.mono hD⟩, hsent⟩

theorem Buffered.mono {pending : PendingIncoming P ρ} (hD : ∀ m, D m → D' m)
    (h : Buffered D pending) : Buffered D' pending :=
  fun key m hm => ⟨hD m (h key m hm).1, (h key m hm).2⟩

theorem RoundLedger.mono {size : Nat} (hD : ∀ m, D m → D' m) (h : RoundLedger D size trace s) :
    RoundLedger D' size trace s := by
  obtain ⟨rounds, hlength, hrounds⟩ := h.rounds
  exact ⟨h.n_eq, h.buffered.mono hD, ⟨rounds, hlength, hrounds.mono hD⟩, h.sent⟩

theorem RoundLedger.toRoundTrace {size : Nat} (h : RoundLedger D size trace s) :
    RoundTrace D size trace := by
  obtain ⟨rounds, _, hrounds⟩ := h.rounds
  exact ⟨⟨rounds, hrounds⟩, _, h.sent⟩

end Histories

section Stages

variable {D : IncomingRequest P ρ → Prop} {size : Nat} {trace : List (Effect P ρ κ)}
  {effects : List (Effect P ρ κ)} {st : PollState P ρ κ} {now : Nat} {turn : AgentTurn}

/-- Effects that hand no broadcast on, and send none. -/
structure NoBroadcast (effects : List (Effect P ρ κ)) : Prop where
  agent : broadcastRequestsIn effects = []
  gadget : remotesIn effects = []
  sent : multicastIds effects = []

/-- The gadget sends and hands in nothing. -/
theorem noBroadcast_of_byExecution (h : ∀ effect ∈ effects, byExecution effect = false) :
    NoBroadcast effects := by
  have hentered : enteredIn effects = [] := by
    rw [enteredIn, List.filterMap_eq_nil_iff]
    intro effect heffect
    have hfalse := h effect heffect
    cases effect <;> first | rfl | cases hfalse
  refine ⟨?_, by rw [remotesIn, hentered]; rfl, ?_⟩
  · rw [broadcastRequestsIn, List.filterMap_eq_nil_iff]
    intro effect heffect
    have hfalse := h effect heffect
    cases effect <;> first | rfl | cases hfalse
  · rw [multicastIds, List.filterMap_eq_nil_iff]
    intro effect heffect
    have hfalse := h effect heffect
    cases effect <;> first | rfl | cases hfalse

theorem Rounds.append (h : Rounds D size rounds trace) (hno : NoBroadcast effects) :
    Rounds D size rounds (trace ++ effects) where
  agent := by rw [broadcastRequestsIn_append, hno.agent, List.append_nil, h.agent]
  gadget := by rw [remotesIn_append, hno.gadget, List.append_nil, h.gadget]
  complete := h.complete

theorem RoundTrace.append (h : RoundTrace D size trace) (hno : NoBroadcast effects) :
    RoundTrace D size (trace ++ effects) := by
  obtain ⟨⟨rounds, hrounds⟩, count, hcount⟩ := h
  refine ⟨⟨rounds, hrounds.append hno⟩, count, ?_⟩
  rw [multicastIds_append, hno.sent, List.append_nil, hcount]

/-- A state that keeps what the ledger reads. -/
theorem RoundLedger.append {s' : ProtocolExecution P ρ κ} (h : RoundLedger D size trace s)
    (hno : NoBroadcast effects) (hn : s'.n = s.n)
    (hin : s'.nextIncomingBroadcastId = s.nextIncomingBroadcastId)
    (hout : s'.nextOutgoingBroadcastId = s.nextOutgoingBroadcastId)
    (hbuffered : Buffered D s'.pendingIncoming) : RoundLedger D size (trace ++ effects) s' := by
  obtain ⟨rounds, hlength, hrounds⟩ := h.rounds
  refine ⟨hn.trans h.n_eq, hbuffered, ⟨rounds, hlength.trans hin.symm, hrounds.append hno⟩, ?_⟩
  rw [multicastIds_append, hno.sent, List.append_nil, h.sent, hout]

theorem RoundLedger.congr {s' : ProtocolExecution P ρ κ} (h : RoundLedger D size trace s)
    (hn : s'.n = s.n) (hin : s'.nextIncomingBroadcastId = s.nextIncomingBroadcastId)
    (hout : s'.nextOutgoingBroadcastId = s.nextOutgoingBroadcastId)
    (hbuffered : Buffered D s'.pendingIncoming) : RoundLedger D size trace s' := by
  have hsame : RoundLedger D size (trace ++ []) s' :=
    h.append ⟨rfl, rfl, rfl⟩ hn hin hout hbuffered
  rwa [List.append_nil] at hsame

/-- An own broadcast has the next id. -/
theorem RoundLedger.takesOutgoing [DecidableEq P] {st' : PollState P ρ κ}
    (hout : TakesOutgoing st st') (h : RoundLedger D size (trace ++ st.effects) st.exec) :
    RoundLedger D size (trace ++ st'.effects) st'.exec := by
  cases hout with
  | nothing _ => exact h
  | direct _ _ _ =>
      show RoundLedger D size (trace ++ (st.effects ++ _)) _
      rw [← List.append_assoc]
      exact h.append ⟨rfl, rfl, rfl⟩ rfl rfl rfl h.buffered
  | @broadcast m rest _ _ _ _ _ =>
      show RoundLedger D size (trace ++ (st.effects ++ _)) _
      rw [← List.append_assoc]
      obtain ⟨rounds, hlength, hrounds⟩ := h.rounds
      refine ⟨h.n_eq, h.buffered, ⟨rounds, hlength, ?_, ?_, hrounds.complete⟩, ?_⟩
      · rw [broadcastRequestsIn_append, hrounds.agent]
        exact List.append_nil _
      · rw [remotesIn_append, hrounds.gadget]
        exact List.append_nil _
      · rw [multicastIds_append, h.sent]
        exact List.range_succ.symm

theorem RoundLedger.restartQuietPeriod (now : Nat)
    (h : RoundLedger D size (trace ++ st.effects) st.exec) :
    RoundLedger D size (trace ++ (restartQuietPeriod now st).effects)
      (restartQuietPeriod now st).exec := by
  unfold ProtocolExecution.restartQuietPeriod
  split
  · exact h.congr rfl rfl rfl h.buffered
  · exact h

/-- A message of the network. -/
theorem RoundLedger.intake {st' : PollState P ρ κ} (hintake : Intake now st st')
    (hD : ∀ m, st.exec.fromNetwork.head? = some m → D m)
    (h : RoundLedger D size (trace ++ st.effects) st.exec) :
    RoundLedger D size (trace ++ st'.effects) st'.exec := by
  cases hintake with
  | nothing _ => exact h
  | @message m st' hhead _ htakes =>
      cases htakes with
      | broadcast hb _ =>
          refine RoundLedger.restartQuietPeriod now ?_
          exact h.congr rfl rfl rfl (h.buffered.insert (hD m hhead) hb)
      | direct _ _ _ _ _ =>
          refine RoundLedger.restartQuietPeriod now ?_
          show RoundLedger D size (trace ++ ((st.effects ++ _) ++ _)) _
          rw [← List.append_assoc, ← List.append_assoc, List.append_assoc]
          exact h.append ⟨rfl, rfl, rfl⟩ rfl rfl rfl h.buffered

theorem broadcastRequestsIn_round (messageId : Nat) (round : List (Nat × IncomingRequest P ρ)) :
    broadcastRequestsIn (round.flatMap fun r =>
        ([.entered (incomingEcho messageId r), .delivered (broadcastRequest r)] :
          List (Effect P ρ κ)))
      = round.map broadcastRequest := by
  induction round with
  | nil => rfl
  | cons r round ih =>
      rw [List.flatMap_cons, broadcastRequestsIn_append, ih]
      rfl

theorem multicastIds_round (messageId : Nat) (round : List (Nat × IncomingRequest P ρ)) :
    multicastIds (round.flatMap fun r =>
        ([.entered (incomingEcho messageId r), .delivered (broadcastRequest r)] :
          List (Effect P ρ κ))) = [] := by
  induction round with
  | nil => rfl
  | cons r round ih =>
      rw [List.flatMap_cons, multicastIds_append, ih]
      rfl

theorem remotesIn_round (messageId : Nat) (round : List (Nat × IncomingRequest P ρ)) :
    remotesIn (round.flatMap fun r =>
        ([.entered (incomingEcho messageId r), .delivered (broadcastRequest r)] :
          List (Effect P ρ κ)))
      = round.map (incomingEcho messageId) := by
  rw [remotesIn, enteredIn_round, List.filter_eq_self]
  intro m hm
  obtain ⟨r, _, rfl⟩ := List.mem_map.mp hm
  rfl

/-- The ready round, if it is complete. -/
theorem completeRound_readyRound (hn : s.n = size + 1) (hbuffered : Buffered D s.pendingIncoming)
    (hcomplete : RoundComplete s) :
    CompleteRound D size s.nextIncomingBroadcastId (readyRound s) where
  length := by
    have hlength : (readyRound s).length = s.n - 1 := hcomplete
    omega
  senders := by
    rw [map_fst_readyRound]
    exact pairwise_readySenders _ _
  messages r hr := hbuffered _ _ (mem_readyRound.mp hr)

/-- A complete round of the remotes. -/
theorem RoundLedger.forwardRound (hcomplete : RoundComplete st.exec)
    (h : RoundLedger D size (trace ++ st.effects) st.exec) :
    RoundLedger D size (trace ++ (forwardRound st).effects) (forwardRound st).exec := by
  show RoundLedger D size (trace ++ (st.effects ++ _)) _
  rw [← List.append_assoc]
  obtain ⟨rounds, hlength, hrounds⟩ := h.rounds
  refine ⟨h.n_eq, fun key m hm => h.buffered key m (getElem?_of_foldl_erase hm),
    ⟨rounds ++ [readyRound st.exec], ?_, ?_, ?_, ?_⟩, ?_⟩
  · rw [List.length_append, hlength]
    rfl
  · rw [broadcastRequestsIn_append, broadcastRequestsIn_round, hrounds.agent, requestsOf_concat]
  · rw [remotesIn_append, remotesIn_round, hrounds.gadget, echoesOf_concat, hlength]
  · intro k round hround
    by_cases hk : k < rounds.length
    · rw [List.getElem?_append_left hk] at hround
      exact hrounds.complete k round hround
    · rw [List.getElem?_append_right (Nat.not_lt.mp hk), List.getElem?_singleton] at hround
      split at hround
      · cases hround
        have hk : k = st.exec.nextIncomingBroadcastId := by omega
        rw [hk]
        exact completeRound_readyRound h.n_eq h.buffered hcomplete
      · cases hround
  · rw [multicastIds_append, multicastIds_round, List.append_nil]
    exact h.sent

/-- Polling the agent touches no round. -/
theorem RoundLedger.pollAgent (h : RoundLedger D size (trace ++ st.effects) st.exec) :
    RoundLedger D size (trace ++ (pollAgent now turn st).effects)
      (pollAgent now turn st).exec := by
  unfold ProtocolExecution.pollAgent
  cases turn.result <;> exact h.congr rfl rfl rfl h.buffered

/-- A poll that does not return keeps the ledger. -/
theorem RoundLedger.pending [DecidableEq P] {echoTx : List (EchoMessage ρ)}
    (h : RoundLedger D size trace s) (hn : 2 ≤ s.n) (hD : ∀ m, s.fromNetwork.head? = some m → D m)
    (hpoll : s.poll echoTx now turn = .pending st) :
    RoundLedger D size (trace ++ st.effects) st.exec := by
  have hstart : RoundLedger D size
      (trace ++ ({ exec := s, echoTx := echoTx, effects := [] } : PollState P ρ κ).effects) s := by
    rw [List.append_nil]
    exact h
  cases pends_of_pending hn hpoll with
  | refuses hout _ _ =>
      have hst := hstart.takesOutgoing hout
      show RoundLedger D size (trace ++ (_ ++ _)) _
      rw [← List.append_assoc]
      exact hst.append ⟨rfl, rfl, rfl⟩ rfl rfl rfl hst.buffered
  | forwards hout hintake hfwd hst =>
      have hintaken := (hstart.takesOutgoing hout).intake hintake fun m hm =>
        hD m (fromNetwork_takesOutgoing hout ▸ hm)
      have hforwarded := forwards_induction
        (fun st => RoundLedger D size (trace ++ st.effects) st.exec) hfwd hintaken
        fun _ => RoundLedger.forwardRound
      rcases hst with rfl | rfl
      · exact hforwarded
      · exact hforwarded.pollAgent

/-- A poll that returns leaves the trace in order. -/
theorem RoundLedger.ready [DecidableEq P] {echoTx echoTx' : List (EchoMessage ρ)}
    {result : Except Error Unit} (h : RoundLedger D size trace s) (hc : Completion s)
    (hpoll : s.poll echoTx now turn = .ready result echoTx' effects) :
    RoundTrace D size (trace ++ effects) := by
  obtain ⟨r, _, st, _, _, _, _, hout, hreport⟩ := ready_cases hc hpoll
  have hstart : RoundLedger D size
      (trace ++ ({ exec := s, echoTx := echoTx, effects := [] } : PollState P ρ κ).effects) s := by
    rw [List.append_nil]
    exact h
  have hst := (hstart.takesOutgoing hout).toRoundTrace
  rcases (report_effects hreport).2 with ⟨_, rfl⟩ | ⟨tx, _, rfl⟩
  · exact hst
  · rw [← List.append_assoc]
    exact hst.append ⟨rfl, rfl, rfl⟩

end Stages

section Session

variable {D : IncomingRequest P ρ → Prop} {size : Nat}

/-- What holds of a session, running or over. -/
structure SessionRounds (D : IncomingRequest P ρ → Prop) (size : Nat) (t : Session P ρ κ) :
    Prop where
  trace : RoundTrace D size t.trace
  running : ∀ s echoTx, t.execution = some (s, echoTx) →
    RoundLedger D size t.trace s ∧ Completion s

theorem SessionRounds.mono {t : Session P ρ κ} (hD : ∀ m, D m → D' m) (h : SessionRounds D size t) :
    SessionRounds D' size t where
  trace := h.trace.mono hD
  running s echoTx hs := ((h.running s echoTx hs).imp_left (·.mono hD))

/-- A new execution has handed nothing on. -/
theorem roundLedger_new [DecidableEq P] {sessionId : SessionId} {protocolId : Nat}
    {peerset : Peerset P} {pendingResponse : Option κ}
    (h : ProtocolExecution.new sessionId protocolId peerset pendingResponse = .ok s) :
    RoundLedger D (asU16 peerset.size - 1) ([] : List (Effect P ρ κ)) s := by
  obtain ⟨_, hsize, hnew⟩ := isNew_of_new_eq_ok h
  refine ⟨?_, ?_, ⟨[], hnew.nextIncoming_eq.symm, rfl, rfl, nofun⟩, ?_⟩
  · rw [hnew.n_eq]
    omega
  · rw [hnew.pendingIncoming_eq]
    intro key m hm
    rw [Std.TreeMap.getElem?_emptyc] at hm
    cases hm
  · rw [hnew.nextOutgoing_eq]
    rfl

/-- Every step of a session keeps the rounds, if the next message of the
network is known when the execution is polled. -/
theorem sessionRounds_step [DecidableEq P] [Blake2s256] {t t' : Session P ρ κ}
    {l : WrapLabel P ρ} (ht : SessionRounds D size t)
    (hD : ∀ now turn s echoTx m, l = .pollComputation now turn →
      t.execution = some (s, echoTx) → s.fromNetwork.head? = some m → D m)
    (h : t.step l = some t') : SessionRounds D size t' := by
  cases sessionSteps_step h with
  | @pending _ now turn s echoTx st hs hpoll hs' htrace _ =>
      obtain ⟨hledger, hc⟩ := ht.running s echoTx hs
      have hledger' := hledger.pending hc.two_le (fun m => hD now turn s echoTx m rfl hs) hpoll
      rw [← htrace] at hledger'
      refine ⟨hledger'.toRoundTrace, fun s' echoTx' hexec => ?_⟩
      rw [hs'] at hexec
      cases hexec
      exact ⟨hledger', (completion_poll hc hpoll).1⟩
  | ready hs hpoll hs' htrace _ =>
      obtain ⟨hledger, hc⟩ := ht.running _ _ hs
      refine ⟨?_, fun s' echoTx' hexec => ?_⟩
      · rw [htrace]
        exact hledger.ready hc hpoll
      · rw [hs'] at hexec
        cases hexec
  | panics _ _ hstate htrace =>
      refine ⟨htrace ▸ ht.trace, fun s' echoTx' hexec => ?_⟩
      rw [Session.execution, hstate] at hexec
      cases hexec
  | delivers hs hs' htrace _ =>
      obtain ⟨hledger, hc⟩ := ht.running _ _ hs
      refine ⟨htrace ▸ ht.trace, fun s' echoTx' hexec => ?_⟩
      rw [hs'] at hexec
      cases hexec
      rw [htrace]
      exact ⟨hledger.congr rfl rfl rfl hledger.buffered,
        ⟨hc.two_le, hc.agentFuture, hc.completionDelay⟩⟩
  | keeps _ _ hexec htrace hquiet _ =>
      have hno := noBroadcast_of_byExecution hquiet
      refine ⟨?_, fun s echoTx' hs => ?_⟩
      · rw [htrace]
        exact ht.trace.append hno
      · obtain ⟨echoTx, hs⟩ := hexec s echoTx' hs
        obtain ⟨hledger, hc⟩ := ht.running s echoTx hs
        rw [htrace]
        exact ⟨hledger.append hno rfl rfl rfl hledger.buffered, hc⟩

end Session

end FrostMpcTss.Proofs
