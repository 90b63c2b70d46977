import FrostMpcTss.Proofs.AgentLedger

/-!
# `FrostMpcTss.Proofs.AgentLog`: what an agent gets and sends, against the trace

The execution hands requests to its agent in the order in which they
stand in the trace (`handedIn`), and sends the agent's messages in the
order in which the agent has sent them (`directsOut`). The direct
messages among the requests are those that the network has delivered, in
the same order.

`AgentLog` states this of an agent whose state is explained by the
requests it has taken and the messages it has sent (`Explains`), and
`agentLog_step` keeps it along every step of a session of honest
parties.
-/

set_option autoImplicit false

namespace FrostMpcTss.Proofs

open Lib Network Service FrostMpcTss.Session
open Service.ProtocolExecution

section Histories

variable {P ρ κ : Type}

/-- The requests handed to the agent. -/
def handedIn (trace : List (Effect P ρ κ)) : List AgentRequest :=
  trace.filterMap fun
    | .delivered req => some req
    | _ => none

/-- The direct messages sent. -/
def directsOut (trace : List (Effect P ρ κ)) : List (P × Bytes) :=
  trace.filterMap fun
    | .sendDirect peer body => some (peer, body)
    | _ => none

/-- The peer a recipient's number stands for. -/
def peerOf (peers : List P) : Option Nat → Option P
  | some (k + 1) => peers[k]?
  | some 0 => none
  | none => none

/-- The direct messages among the agent's messages, with their peers. -/
def directsOf (peers : List P) (messages : List AgentMessage) : List (P × Bytes) :=
  messages.filterMap fun m => (peerOf peers m.recipient).map fun peer => (peer, m.body)

/-- The direct messages among the agent's requests. -/
def directRequests (reqs : List AgentRequest) : List AgentRequest :=
  reqs.filter (·.recipient.isSome)

/-- The direct messages in the execution's queue, as the agent gets
them. -/
def queuedDirects (s : ProtocolExecution P ρ κ) : List AgentRequest :=
  (s.fromNetwork.filter (!·.isBroadcast)).map (Proofs.directRequest s)

theorem handedIn_append (trace effects : List (Effect P ρ κ)) :
    handedIn (trace ++ effects) = handedIn trace ++ handedIn effects :=
  List.filterMap_append

theorem directsOut_append (trace effects : List (Effect P ρ κ)) :
    directsOut (trace ++ effects) = directsOut trace ++ directsOut effects :=
  List.filterMap_append

theorem directsOf_append (peers : List P) (messages messages' : List AgentMessage) :
    directsOf peers (messages ++ messages')
      = directsOf peers messages ++ directsOf peers messages' :=
  List.filterMap_append

theorem directRequests_append (reqs reqs' : List AgentRequest) :
    directRequests (reqs ++ reqs') = directRequests reqs ++ directRequests reqs' :=
  List.filter_append ..

theorem mem_directsOut {trace : List (Effect P ρ κ)} {peer : P} {body : Bytes} :
    (peer, body) ∈ directsOut trace ↔ .sendDirect peer body ∈ trace := by
  unfold directsOut
  rw [List.mem_filterMap]
  constructor
  · rintro ⟨effect, hmem, heq⟩
    cases effect <;> cases heq
    exact hmem
  · exact fun hmem => ⟨_, hmem, rfl⟩

/-- Effects of others are neither requests nor messages. -/
theorem handedIn_of_byExecution {effects : List (Effect P ρ κ)}
    (h : ∀ effect ∈ effects, byExecution effect = false) :
    handedIn effects = [] ∧ directsOut effects = [] := by
  constructor
  · rw [handedIn, List.filterMap_eq_nil_iff]
    intro effect heffect
    have hquiet := h effect heffect
    cases effect <;> first | rfl | cases hquiet
  · rw [directsOut, List.filterMap_eq_nil_iff]
    intro effect heffect
    have hquiet := h effect heffect
    cases effect <;> first | rfl | cases hquiet

end Histories

section Poll

variable {P ρ κ : Type} {s : ProtocolExecution P ρ κ} {st : PollState P ρ κ}

/-- What a poll has done by the time it reaches the agent: it has sent
the head of the agent's messages, it has put into the agent's channel
what it has handed on, and what it has handed on of the direct messages
was the head of its queue. -/
structure Handles (s : ProtocolExecution P ρ κ) (st : PollState P ρ κ) : Prop where
  sent : directsOut st.effects ++ directsOf s.peerset.peers st.exec.fromProtocol
    = directsOf s.peerset.peers s.fromProtocol
  unsent : st.exec.fromProtocol <:+ s.fromProtocol
  handed : st.exec.toProtocol = s.toProtocol ++ handedIn st.effects
  directs : directRequests (handedIn st.effects) ++ queuedDirects st.exec = queuedDirects s
  index : st.exec.i = s.i

/-- What the agent sends goes out in order. -/
theorem handles_takesOutgoing [DecidableEq P] {echoTx : List (EchoMessage ρ)}
    (h : TakesOutgoing { exec := s, echoTx := echoTx, effects := [] } st) : Handles s st := by
  cases h with
  | nothing _ => exact ⟨rfl, List.suffix_rfl, (List.append_nil _).symm, rfl, rfl⟩
  | @direct m rest k peer hq hto hpeer =>
      have hq : s.fromProtocol = m :: rest := hq
      have hpeer : s.peerset.peers[k]? = some peer := hpeer
      refine ⟨?_, hq ▸ List.suffix_cons .., (List.append_nil _).symm, rfl, rfl⟩
      rw [hq]
      simp [sentDirect, directsOut, directsOf, hto, peerOf, hpeer]
  | @broadcast m rest hq hto _ _ _ =>
      have hq : s.fromProtocol = m :: rest := hq
      refine ⟨?_, hq ▸ List.suffix_cons .., (List.append_nil _).symm, rfl, rfl⟩
      rw [hq]
      simp [sentBroadcast, directsOut, directsOf, hto, peerOf]

theorem Handles.restartQuietPeriod (now : Nat) (h : Handles s st) :
    Handles s (restartQuietPeriod now st) := by
  unfold ProtocolExecution.restartQuietPeriod
  split
  · exact ⟨h.sent, h.unsent, h.handed, h.directs, h.index⟩
  · exact h

/-- A direct message is handed in when it is taken. -/
theorem Handles.intake {now : Nat} {st' : PollState P ρ κ} (h : Handles s st)
    (hintake : Intake now st st') : Handles s st' := by
  cases hintake with
  | nothing _ => exact h
  | @message m st' hhead _ htakes =>
      obtain ⟨rest, hqueue⟩ := List.head?_eq_some_iff.mp hhead
      have hdirects := h.directs
      rw [queuedDirects, hqueue] at hdirects
      cases htakes with
      | broadcast hb _ =>
          refine Handles.restartQuietPeriod now ⟨h.sent, h.unsent, h.handed, ?_, h.index⟩
          show directRequests (handedIn st.effects) ++
            (st.exec.fromNetwork.tail.filter (!·.isBroadcast)).map _ = _
          rw [← hdirects, hqueue]
          simp only [List.tail_cons, List.filter_cons, hb, Bool.not_true, Bool.false_eq_true,
            if_false]
          rfl
      | direct hb _ _ _ _ =>
          have hout : directsOut (forwardedDirect (withoutHead st) m).effects
              = directsOut st.effects := by
            show directsOut (st.effects ++ [_] ++ [_]) = _
            rw [directsOut_append, directsOut_append]
            simp [directsOut]
          have hin : handedIn (forwardedDirect (withoutHead st) m).effects
              = handedIn st.effects ++ [Proofs.directRequest st.exec m] := by
            show handedIn (st.effects ++ [_] ++ [_]) = _
            rw [handedIn_append, handedIn_append]
            simp [handedIn, Proofs.directRequest, withoutHead]
          refine Handles.restartQuietPeriod now ⟨?_, h.unsent, ?_, ?_, h.index⟩
          · rw [hout]
            exact h.sent
          · rw [hin, ← List.append_assoc, ← h.handed]
            rfl
          · rw [hin, directRequests_append, ← hdirects, List.append_assoc]
            congr 1
            simp only [List.filter_cons, hb, Bool.not_false, if_true, List.map_cons]
            show [_] ++ (st.exec.fromNetwork.tail.filter (!·.isBroadcast)).map _ = _
            rw [hqueue]
            rfl

/-- A round hands its broadcasts in and sends nothing. -/
theorem handedIn_round (messageId : Nat) (round : List (Nat × IncomingRequest P ρ)) :
    handedIn (round.flatMap fun r =>
        [(.entered (incomingEcho messageId r) : Effect P ρ κ), .delivered (broadcastRequest r)])
      = round.map broadcastRequest ∧
    directsOut (round.flatMap fun r =>
        [(.entered (incomingEcho messageId r) : Effect P ρ κ), .delivered (broadcastRequest r)])
      = [] := by
  induction round with
  | nil => exact ⟨rfl, rfl⟩
  | cons r round ih =>
      obtain ⟨hin, hout⟩ := ih
      rw [List.flatMap_cons, handedIn_append, directsOut_append, hin, hout]
      exact ⟨rfl, rfl⟩

theorem directRequests_round (round : List (Nat × IncomingRequest P ρ)) :
    directRequests (round.map broadcastRequest) = [] := by
  rw [directRequests, List.filter_eq_nil_iff]
  intro req hreq
  obtain ⟨r, _, rfl⟩ := List.mem_map.mp hreq
  nofun

/-- A round of broadcasts leaves the direct messages alone. -/
theorem Handles.forwardRound (h : Handles s st) : Handles s (forwardRound st) := by
  obtain ⟨hin, hout⟩ := handedIn_round (κ := κ) st.exec.nextIncomingBroadcastId
    (readyRound st.exec)
  have hin' : handedIn (Proofs.forwardRound st).effects
      = handedIn st.effects ++ (readyRound st.exec).map broadcastRequest := by
    show handedIn (st.effects ++ _) = _
    rw [handedIn_append, hin]
  refine ⟨?_, h.unsent, ?_, ?_, h.index⟩
  · show directsOut (st.effects ++ _) ++ _ = _
    rw [directsOut_append, hout, List.append_nil]
    exact h.sent
  · rw [hin', ← List.append_assoc, ← h.handed]
    rfl
  · rw [hin', directRequests_append, directRequests_round, List.append_nil]
    exact h.directs

end Poll

section Party

variable {P ρ κ σ : Type}

/-- The agent's states are explained by the requests it has taken and
the messages it has sent, and its result by the requests. -/
structure Explains (poll : σ → List AgentRequest → List AgentMessage → σ × AgentTurn)
    (H : σ → List AgentRequest → List AgentMessage → Prop)
    (R : List AgentRequest → AgentResult → Prop) : Prop where
  step : ∀ {a taken sent} (incoming : List AgentRequest) (outgoing : List AgentMessage),
    H a taken sent →
    H (poll a incoming outgoing).1
      (taken ++ incoming.take (poll a incoming outgoing).2.received)
      (sent ++ (poll a incoming outgoing).2.sent)
  result : ∀ {a taken sent r} (incoming : List AgentRequest) (outgoing : List AgentMessage),
    H a taken sent → (poll a incoming outgoing).2.result = some r →
    R (taken ++ incoming.take (poll a incoming outgoing).2.received) r

/-- What an agent has taken and sent, as long as its execution runs. -/
structure LiveLog (H : σ → List AgentRequest → List AgentMessage → Prop)
    (R : List AgentRequest → AgentResult → Prop) (peers : List P) (senders : List Nat)
    (trace : List (Effect P ρ κ)) (a : σ) (s : ProtocolExecution P ρ κ) : Prop where
  members : s.peerset.peers = peers
  explained : ∃ taken sent, H a taken sent ∧ taken ++ s.toProtocol = handedIn trace ∧
    s.fromProtocol <:+ sent ∧
    directsOut trace ++ directsOf peers s.fromProtocol = directsOf peers sent
  result : ∀ r, s.agentResult = some r → ∃ taken, taken <+: handedIn trace ∧ R taken r
  arrived : (directRequests (handedIn trace) ++ queuedDirects s).map (·.sender) = senders

/-- The same whether it runs or not. `D` is what is known of the direct
messages handed to the agent, and `senders` are the numbers of their
senders. -/
structure PartyLog (D : AgentRequest → Prop)
    (H : σ → List AgentRequest → List AgentMessage → Prop)
    (R : List AgentRequest → AgentResult → Prop) (peers : List P) (senders : List Nat)
    (t : Session P ρ κ) (a : σ) : Prop where
  explained : ∃ taken sent, H a taken sent ∧ taken <+: handedIn t.trace ∧
    directsOut t.trace <+: directsOf peers sent
  requests : ∀ req ∈ handedIn t.trace, req.recipient.isSome = true → D req
  arrived : (directRequests (handedIn t.trace)).map (·.sender) <+: senders
  live : ∀ s echoTx, t.execution = some (s, echoTx) → LiveLog H R peers senders t.trace a s

variable {D : AgentRequest → Prop} {H : σ → List AgentRequest → List AgentMessage → Prop}
  {R : List AgentRequest → AgentResult → Prop} {peers : List P} {senders : List Nat}
  {t t' : Session P ρ κ} {a a' : σ} {s : ProtocolExecution P ρ κ}
  {echoTx : List (EchoMessage ρ)}

theorem PartyLog.mono {D' : AgentRequest → Prop} (h : PartyLog D H R peers senders t a)
    (hD : ∀ req, D req → D' req) : PartyLog D' H R peers senders t a :=
  { h with requests := fun req hreq hsome => hD req (h.requests req hreq hsome) }

/-- A running party's log, from what holds while it runs. -/
theorem partyLog_of_live (hexec : t.execution = some (s, echoTx))
    (h : LiveLog H R peers senders t.trace a s)
    (hrequests : ∀ req ∈ handedIn t.trace, req.recipient.isSome = true → D req) :
    PartyLog D H R peers senders t a where
  explained := by
    obtain ⟨taken, sent, hH, htaken, _, hsent⟩ := h.explained
    exact ⟨taken, sent, hH, ⟨_, htaken⟩, ⟨_, hsent⟩⟩
  requests := hrequests
  arrived := by
    rw [← h.arrived, List.map_append]
    exact List.prefix_append ..
  live := by
    intro s' echoTx' hexec'
    cases hexec.symm.trans hexec'
    exact h

/-- A session that is over keeps its log. -/
theorem PartyLog.over (h : PartyLog D H R peers senders t a) (htrace : t'.trace = t.trace)
    (hexec : t'.execution = none) : PartyLog D H R peers senders t' a where
  explained := htrace ▸ h.explained
  requests := htrace ▸ h.requests
  arrived := htrace ▸ h.arrived
  live := by
    intro s echoTx hsome
    rw [hexec] at hsome
    cases hsome

/-- Effects of others change nothing. -/
theorem PartyLog.keeps {effects : List (Effect P ρ κ)} (h : PartyLog D H R peers senders t a)
    (hexec : ∀ s echoTx', t'.execution = some (s, echoTx') →
      ∃ echoTx, t.execution = some (s, echoTx))
    (htrace : t'.trace = t.trace ++ effects)
    (hquiet : ∀ effect ∈ effects, byExecution effect = false) :
    PartyLog D H R peers senders t' a := by
  obtain ⟨hin, hout⟩ := handedIn_of_byExecution hquiet
  have hin : handedIn t'.trace = handedIn t.trace := by
    rw [htrace, handedIn_append, hin, List.append_nil]
  have hout : directsOut t'.trace = directsOut t.trace := by
    rw [htrace, directsOut_append, hout, List.append_nil]
  refine ⟨?_, ?_, ?_, ?_⟩
  · rw [hin, hout]
    exact h.explained
  · rw [hin]
    exact h.requests
  · rw [hin]
    exact h.arrived
  · intro s echoTx' hs
    obtain ⟨echoTx, hs⟩ := hexec s echoTx' hs
    obtain ⟨hpeers, hexplained, hresult, harrived⟩ := h.live s echoTx hs
    rw [← hin] at hexplained hresult harrived
    rw [← hout] at hexplained
    exact ⟨hpeers, hexplained, hresult, harrived⟩

/-- A message is put into the queue. -/
theorem PartyLog.delivers {m : IncomingRequest P ρ} {sender : Nat}
    (h : PartyLog D H R peers senders t a) (hexec : t.execution = some (s, echoTx))
    (hexec' : t'.execution = some ({ s with fromNetwork := s.fromNetwork ++ [m] }, echoTx))
    (htrace : t'.trace = t.trace) (hsender : m.peerIndex + 1 = sender) :
    PartyLog D H R peers (senders ++ if m.isBroadcast then [] else [sender]) t' a := by
  obtain ⟨hpeers, hexplained, hresult, harrived⟩ := h.live s echoTx hexec
  rw [← htrace] at hexplained hresult harrived
  refine partyLog_of_live hexec' ⟨hpeers, hexplained, hresult, ?_⟩ (htrace ▸ h.requests)
  have hqueued : queuedDirects { s with fromNetwork := s.fromNetwork ++ [m] }
      = queuedDirects s ++ if m.isBroadcast then [] else [Proofs.directRequest s m] := by
    show ((s.fromNetwork ++ [m]).filter (!·.isBroadcast)).map (Proofs.directRequest s) = _
    rw [List.filter_append, List.map_append]
    cases hb : m.isBroadcast <;> simp [hb, queuedDirects]
  rw [hqueued, ← List.append_assoc, List.map_append, harrived]
  cases m.isBroadcast with
  | true => rfl
  | false =>
      show senders ++ [m.peerIndex + 1] = _
      rw [hsender]
      rfl

variable [DecidableEq P] {poll : σ → List AgentRequest → List AgentMessage → σ × AgentTurn}
  {now : Nat} {turn : AgentTurn} {st : PollState P ρ κ}

/-- The agent's part of a poll that does not return. -/
inductive AgentPart (poll : σ → List AgentRequest → List AgentMessage → σ × AgentTurn)
    (s : ProtocolExecution P ρ κ) (st : PollState P ρ κ) (a : σ) : σ → AgentTurn → Prop where
  | agent : s.agentResult = none →
      AgentPart poll s st a (poll a st.exec.toProtocol st.exec.fromProtocol).1
        (poll a st.exec.toProtocol st.exec.fromProtocol).2
  | idle : AgentPart poll s st a a idleTurn

omit [DecidableEq P] in
theorem pollAgent_idleTurn (now : Nat) (st : PollState P ρ κ) :
    pollAgent now idleTurn st = st := by
  show ({ st with exec := { st.exec with fromProtocol := st.exec.fromProtocol ++ [] } } :
    PollState P ρ κ) = st
  rw [List.append_nil]

omit [DecidableEq P] in
theorem effects_pollAgent (now : Nat) (turn : AgentTurn) (st : PollState P ρ κ) :
    (pollAgent now turn st).effects = st.effects := by
  unfold pollAgent
  cases turn.result <;> rfl

/-- A poll that does not return goes through its stages and then polls the
agent. What every stage keeps holds when the agent is reached. -/
theorem pending_agentPart (I : PollState P ρ κ → Prop) (hc : Completion s)
    (hacc : ∀ m ∈ s.fromNetwork, s.accepts m = true)
    (hturn : TakesTurn poll s echoTx now a a' turn)
    (hpoll : s.poll echoTx now turn = .pending st)
    (outgoing : ∀ st, TakesOutgoing { exec := s, echoTx := echoTx, effects := [] } st → I st)
    (intake : ∀ st st', I st → Intake now st st' → I st')
    (round : ∀ st, I st → I (forwardRound st)) :
    ∃ st₁, I st₁ ∧ Frame now { exec := s, echoTx := echoTx, effects := [] } st₁ ∧
      st = pollAgent now turn st₁ ∧ AgentPart poll s st₁ a a' turn := by
  have hreaches : ∀ {st₁ st₂ st₃},
      TakesOutgoing { exec := s, echoTx := echoTx, effects := [] } st₁ →
      Intake now st₁ st₂ → Forwards st₂ (.ok st₃) → I st₃ := by
    intro st₁ st₂ st₃ hout hintake hfwd
    exact forwards_induction I hfwd (intake _ _ (outgoing _ hout) hintake) fun st _ => round st
  cases hrun : s.agentFuture with
  | true =>
      obtain ⟨result, hstages, hresult⟩ := poll_running echoTx now hc hrun hacc
      have hview := agentView_of_running hrun hacc (hresult idleTurn)
      rw [hresult turn] at hpoll
      cases result with
      | error why => cases hpoll
      | ok st₁ =>
          cases hpoll
          obtain ⟨rfl, rfl⟩ := hturn.eq_of_view hview
          have hnone : s.agentResult = none := by
            have hfuture := hc.agentFuture
            rw [hrun] at hfuture
            exact Option.isNone_iff_eq_none.mp hfuture.symm
          refine ⟨st₁, ?_, frame_stages hstages, rfl, .agent hnone⟩
          cases hstages with
          | forwards hout hintake hfwd => exact hreaches hout hintake hfwd
  | false =>
      -- the agent is gone, and its turn is empty
      have hidle : a' = a ∧ turn = idleTurn := by
        cases hturn with
        | idle _ => exact ⟨rfl, rfl⟩
        | agent hview =>
            unfold agentView at hview
            rw [hrun] at hview
            cases hview
      obtain ⟨rfl, rfl⟩ := hidle
      cases pends_of_pending hc.two_le hpoll with
      | refuses hout hhead hrefused =>
          rw [accepts_head hacc hout hhead] at hrefused
          cases hrefused
      | @forwards st₁ st₂ st₃ _ hout hintake hfwd hst =>
          refine ⟨st₃, hreaches hout hintake hfwd, ?_, ?_, .idle⟩
          · exact ((frame_takesOutgoing now hout).trans (frame_intake hintake)).trans
              (frame_forwards now hfwd rfl)
          · rw [pollAgent_idleTurn] at hst ⊢
            exact hst.elim id id

/-- A poll that does not return keeps the log. -/
theorem LiveLog.pending (hexplains : Explains poll H R) {trace : List (Effect P ρ κ)}
    (h : LiveLog H R peers senders trace a s) (hc : Completion s)
    (hacc : ∀ m ∈ s.fromNetwork, s.accepts m = true)
    (hturn : TakesTurn poll s echoTx now a a' turn)
    (hpoll : s.poll echoTx now turn = .pending st) :
    LiveLog H R peers senders (trace ++ st.effects) a' st.exec ∧
      ∀ req ∈ directRequests (handedIn st.effects), req ∈ queuedDirects s := by
  obtain ⟨st₁, hhandles, hframe, rfl, hpart⟩ := pending_agentPart (Handles s) hc hacc hturn hpoll
    (fun _ => handles_takesOutgoing) (fun _ _ => Handles.intake) fun _ => Handles.forwardRound
  have hpeerset := hframe.peerset
  have hresult := hframe.agentResult
  have heffects := effects_pollAgent now turn st₁
  obtain ⟨hmembers, ⟨taken, sent, hH, htaken, hunsent, hsent⟩, hres, harrived⟩ := h
  have hqueued : queuedDirects (pollAgent now turn st₁).exec = queuedDirects st₁.exec := by
    unfold ProtocolExecution.pollAgent
    cases turn.result <;> rfl
  -- what the agent finds is what it has not taken, and what is new
  have hfinds : taken ++ st₁.exec.toProtocol = handedIn (trace ++ st₁.effects) := by
    rw [hhandles.handed, ← List.append_assoc, htaken, handedIn_append]
  have hleft : directsOut (trace ++ st₁.effects) ++ directsOf peers st₁.exec.fromProtocol
      = directsOf peers sent := by
    rw [directsOut_append, List.append_assoc, ← hmembers, hhandles.sent, hmembers, hsent]
  have hfrom : ∀ req ∈ directRequests (handedIn st₁.effects), req ∈ queuedDirects s := by
    intro req hreq
    rw [← hhandles.directs]
    exact List.mem_append_left _ hreq
  rw [heffects]
  refine ⟨⟨?_, ?_, ?_, ?_⟩, hfrom⟩
  · rw [← hmembers, ← hpeerset]
    unfold ProtocolExecution.pollAgent
    cases turn.result <;> rfl
  · cases hpart with
    | idle =>
        rw [pollAgent_idleTurn]
        exact ⟨taken, sent, hH, hfinds, hhandles.unsent.trans hunsent, hleft⟩
    | agent _ =>
        have happend : ∀ turn : AgentTurn, (pollAgent now turn st₁).exec.fromProtocol
            = st₁.exec.fromProtocol ++ turn.sent := by
          intro turn
          unfold ProtocolExecution.pollAgent
          cases turn.result <;> rfl
        refine ⟨_, _, hexplains.step st₁.exec.toProtocol st₁.exec.fromProtocol hH, ?_, ?_, ?_⟩
        · have hdrop : ∀ turn : AgentTurn, (pollAgent now turn st₁).exec.toProtocol
              = st₁.exec.toProtocol.drop turn.received := by
            intro turn
            unfold ProtocolExecution.pollAgent
            cases turn.result <;> rfl
          rw [hdrop, List.append_assoc, List.take_append_drop, hfinds]
        · rw [happend]
          exact (List.suffix_append_self_iff ..).mpr (hhandles.unsent.trans hunsent)
        · rw [happend, directsOf_append, ← List.append_assoc, hleft, directsOf_append]
  · intro r hr
    have hold : s.agentResult = some r →
        ∃ taken, taken <+: handedIn (trace ++ st₁.effects) ∧ R taken r := by
      intro hr
      obtain ⟨taken, hinitial, hR⟩ := hres r hr
      rw [handedIn_append]
      exact ⟨taken, hinitial.trans (List.prefix_append ..), hR⟩
    cases hpart with
    | idle =>
        rw [pollAgent_idleTurn, hresult] at hr
        exact hold hr
    | agent hnone =>
        generalize hpolled : poll a st₁.exec.toProtocol st₁.exec.fromProtocol = polled at hr
        unfold ProtocolExecution.pollAgent at hr
        cases hturn : polled.2.result with
        | none =>
            rw [hturn] at hr
            exact hold (hresult.symm.trans hr)
        | some r' =>
            rw [hturn] at hr
            cases hr
            refine ⟨_, ?_, hexplains.result st₁.exec.toProtocol st₁.exec.fromProtocol hH
              (by rw [hpolled]; exact hturn)⟩
            rw [← hfinds]
            exact List.prefix_append_right_inj _ |>.mpr (List.take_prefix ..)
  · rw [hqueued, handedIn_append, directRequests_append, List.append_assoc, hhandles.directs,
      harrived]

/-- A poll that does not go on does not poll the agent. -/
theorem TakesTurn.eq_of_stops (h : TakesTurn poll s echoTx now a a' turn) (hc : Completion s)
    (hacc : ∀ m ∈ s.fromNetwork, s.accepts m = true)
    (hstops : ∀ st, s.poll echoTx now turn ≠ .pending st) : a' = a := by
  cases h with
  | idle _ => rfl
  | agent hview =>
      cases hrun : s.agentFuture with
      | false =>
          unfold agentView at hview
          rw [hrun] at hview
          cases hview
      | true =>
          obtain ⟨result, _, hresult⟩ := poll_running echoTx now hc hrun hacc
          rw [agentView_of_running hrun hacc (hresult idleTurn)] at hview
          cases result with
          | error why => cases hview
          | ok st => exact absurd (hresult _) (hstops _)

/-- A poll keeps the log. -/
theorem PartyLog.polls (hexplains : Explains poll H R) (h : PartyLog D H R peers senders t a)
    (hexec : t.execution = some (s, echoTx)) (hc : Completion s)
    (hacc : ∀ m ∈ s.fromNetwork, s.accepts m = true)
    (hturn : TakesTurn poll s echoTx now a a' turn)
    (hsteps : SessionSteps t (.pollComputation now turn) t')
    (hD : ∀ req ∈ queuedDirects s, D req) : PartyLog D H R peers senders t' a' := by
  have hlive := h.live s echoTx hexec
  cases hsteps with
  | pending hexec₁ hpoll hexec' htrace _ =>
      cases hexec.symm.trans hexec₁
      obtain ⟨hlive', hfrom⟩ := hlive.pending hexplains hc hacc hturn hpoll
      rw [← htrace] at hlive'
      refine partyLog_of_live hexec' hlive' fun req hreq hsome => ?_
      rw [htrace, handedIn_append] at hreq
      rcases List.mem_append.mp hreq with hreq | hreq
      · exact h.requests req hreq hsome
      · exact hD req (hfrom req (List.mem_filter.mpr ⟨hreq, hsome⟩))
  | @ready _ _ _ _ _ _ _ effects hexec₁ hpoll hexec' htrace _ =>
      cases hexec.symm.trans hexec₁
      obtain rfl := hturn.eq_of_stops hc hacc (by rw [hpoll]; nofun)
      obtain ⟨r, _, st, _, _, _, _, hout, hreport⟩ := ready_cases hc hpoll
      -- the report comes after the head of the agent's messages
      have heffects : handedIn effects = handedIn st.effects ∧
          directsOut effects = directsOut st.effects := by
        rcases (report_effects hreport).2 with ⟨_, rfl⟩ | ⟨tx, _, rfl⟩
        · exact ⟨rfl, rfl⟩
        · rw [handedIn_append, directsOut_append]
          exact ⟨List.append_nil _, List.append_nil _⟩
      have hhandles := handles_takesOutgoing hout
      have hnone : handedIn st.effects = [] := by
        have hhanded := hhandles.handed
        rw [(taken_takesOutgoing hout).2.2.1] at hhanded
        exact List.self_eq_append_right.mp hhanded
      have hin : handedIn t'.trace = handedIn t.trace := by
        rw [htrace, handedIn_append, heffects.1, hnone, List.append_nil]
      refine ⟨?_, ?_, ?_, ?_⟩
      · obtain ⟨taken, sent, hH, htaken, _, hsent⟩ := hlive.explained
        refine ⟨taken, sent, hH, ?_, ?_⟩
        · rw [hin]
          exact ⟨_, htaken⟩
        · refine ⟨directsOf peers st.exec.fromProtocol, ?_⟩
          rw [htrace, directsOut_append, heffects.2, List.append_assoc, ← hlive.members,
            hhandles.sent, hlive.members, hsent]
      · rw [hin]
        exact h.requests
      · rw [hin]
        exact h.arrived
      · intro s' echoTx' hsome
        rw [hexec'] at hsome
        cases hsome
  | panics hexec₁ hpoll hstate htrace =>
      cases hexec.symm.trans hexec₁
      obtain rfl := hturn.eq_of_stops hc hacc (by rw [hpoll]; nofun)
      refine h.over htrace ?_
      unfold Session.execution
      rw [hstate]
  | keeps _ hpoll _ _ _ _ => exact absurd rfl (hpoll now turn)

end Party

section Net

variable {P κ σ : Type} {n : Nat}

/-- A direct message as the agent of `j` should get it: addressed to `j`,
and sent to it by the party it names. -/
def DirectFrom (cfg : Config P κ n) (t : Net P κ n) (j : Fin n) (req : AgentRequest) : Prop :=
  req.recipient = some (asU16 j + 1) ∧ ∃ i, i ≠ j ∧ req.sender = asU16 i + 1 ∧
    .sendDirect (cfg.peers j) req.payload ∈ (t.sessions i).trace

/-- The numbers of those whose direct messages the network has delivered
to a party, in this order. -/
def sendersTo (delivered : List (Delivery n)) (j : Fin n) : List Nat :=
  (delivered.filter fun d => d.recipient = j && d.messageId = none).map fun d =>
    asU16 d.sender + 1

/-- The logs of all parties. -/
def AgentLog (cfg : Config P κ n)
    (H : Fin n → σ → List AgentRequest → List AgentMessage → Prop)
    (R : Fin n → List AgentRequest → AgentResult → Prop) (t : AgentNet P κ σ n) : Prop :=
  ∀ j, PartyLog (DirectFrom cfg t.net j) (H j) (R j) (List.ofFn cfg.peers)
    (sendersTo t.delivered j) (t.net.sessions j) (t.agents j)

/-- What was sent stays sent. -/
theorem DirectFrom.mono {cfg : Config P κ n} {t t' : Net P κ n} {j : Fin n}
    {req : AgentRequest} (hgrows : Grows t t') (h : DirectFrom cfg t j req) :
    DirectFrom cfg t' j req := by
  obtain ⟨hrecipient, i, hne, hsender, hsent⟩ := h
  exact ⟨hrecipient, i, hne, hsender, hgrows i _ hsent⟩

/-- A delivery adds its sender if it is a direct message to `j`. -/
theorem sendersTo_append (delivered : List (Delivery n)) (d : Delivery n) (j : Fin n) :
    sendersTo (delivered ++ [d]) j
      = sendersTo delivered j ++
        if d.recipient = j ∧ d.messageId = none then [asU16 d.sender + 1] else [] := by
  unfold sendersTo
  rw [List.filter_append, List.map_append]
  by_cases h : d.recipient = j ∧ d.messageId = none
  · simp [h]
  · rw [if_neg h, List.filter_cons, if_neg (by simpa using h)]
    rfl

variable {cfg : Config P κ n} {agents : Agents σ n}
  {H : Fin n → σ → List AgentRequest → List AgentMessage → Prop}
  {R : Fin n → List AgentRequest → AgentResult → Prop} {t t' : AgentNet P κ σ n}

/-- One party goes on, and the logs of the others stay. -/
theorem AgentLog.update {j : Fin n} {session : Session P (Handle n) κ}
    (h : AgentLog cfg H R t) (hgrows : Grows t.net t'.net)
    (hsessions : t'.net.sessions = Function.update t.net.sessions j session)
    (hagents : ∀ j', j' ≠ j → t'.agents j' = t.agents j')
    (hsenders : ∀ j', j' ≠ j → sendersTo t'.delivered j' = sendersTo t.delivered j')
    (hparty : PartyLog (DirectFrom cfg t.net j) (H j) (R j) (List.ofFn cfg.peers)
      (sendersTo t'.delivered j) session (t'.agents j)) :
    AgentLog cfg H R t' := by
  intro j'
  by_cases hj' : j' = j
  · subst hj'
    rw [hsessions, Function.update_self]
    exact hparty.mono fun _ => .mono hgrows
  · rw [hsessions, Function.update_of_ne hj', hagents j' hj', hsenders j' hj']
    exact (h j').mono fun _ => .mono hgrows

variable [DecidableEq P] [Blake2s256] {l : AgentLabel n} {limit : Nat} {direct : Bool}
  {I : Fin n → Nat → σ → Channels → Prop}

/-- A step of a session of honest parties keeps the logs. -/
theorem agentLog_step (hexplains : ∀ j, Explains (agents.poll j) (H j) (R j))
    (hhonest : ∀ j, cfg.honest j = true) (hl : AgentLedger cfg limit direct I t)
    (h : AgentLog cfg H R t) (hnext : t.step cfg agents l = some t') :
    AgentLog cfg H R t' := by
  obtain ⟨_, hsteps⟩ := agentSteps_step hhonest hnext
  cases hsteps with
  | @polls j now s echoTx a turn session hs hturn hstep =>
      obtain ⟨hexec, hc⟩ := hl.net.execution (hhonest j) hs
      refine h.update (grows_update _ hstep) rfl (fun j' hj' => Function.update_of_ne hj' ..)
        (fun _ _ => rfl) ?_
      show PartyLog _ _ _ _ _ _ (Function.update t.agents j a j)
      rw [Function.update_self]
      refine (h j).polls (hexplains j) hs hc (hl.party j s echoTx hs).accepted hturn
        (sessionSteps_step hstep) fun req hreq => ?_
      -- the queue holds what the net has delivered
      obtain ⟨m, hm, rfl⟩ := List.mem_map.mp hreq
      obtain ⟨hm, hb⟩ := List.mem_filter.mp hm
      have hb : m.isBroadcast = false := by simpa using hb
      obtain ⟨i, hne, hindex, _, hdirect⟩ := hexec.queued m hm
      refine ⟨?_, i, hne, ?_, (hdirect hb).2 (hhonest i)⟩
      · show some (s.i + 1) = _
        rw [hexec.index]
      · show m.peerIndex + 1 = _
        rw [hindex]
  | @delivers _ d m session hstep _ _ hbroadcast hindex _ _ =>
      cases sessionSteps_step hstep with
      | keeps hdeliver _ _ _ _ _ => exact absurd rfl (hdeliver m)
      | delivers hexec hexec' htrace _ =>
          refine h.update (grows_update _ hstep) rfl (fun _ _ => rfl) ?_ ?_
          · intro j' hj'
            show sendersTo (t.delivered ++ [d]) j' = _
            rw [sendersTo_append, if_neg fun hboth => hj' hboth.1.symm, List.append_nil]
          · have hsenders : sendersTo (t.delivered ++ [d]) d.recipient
                = sendersTo t.delivered d.recipient ++
                  if m.isBroadcast then [] else [asU16 d.sender + 1] := by
              rw [sendersTo_append, ← hbroadcast]
              cases d.messageId <;> simp
            show PartyLog _ _ _ _ (sendersTo (t.delivered ++ [d]) d.recipient) _ _
            rw [hsenders]
            exact (h d.recipient).delivers hexec hexec' htrace (by rw [hindex])
  | @keeps _ l' j session answered hstep hdeliver hpoll =>
      refine h.update (grows_update _ hstep) rfl (fun _ _ => rfl) (fun _ _ => rfl) ?_
      cases sessionSteps_step hstep with
      | pending _ _ _ _ _ => exact absurd rfl (hpoll _ _)
      | ready _ _ _ _ _ => exact absurd rfl (hpoll _ _)
      | panics _ _ _ _ => exact absurd rfl (hpoll _ _)
      | delivers _ _ _ _ => exact absurd rfl (hdeliver _)
      | keeps _ _ hexec htrace hquiet _ => exact (h j).keeps hexec htrace hquiet

end Net

end FrostMpcTss.Proofs
