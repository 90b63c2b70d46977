import FrostMpcTss.Proofs.AgentLog
import FrostMpcTss.Proofs.NoFalseAlarm
import FrostMpcTss.Proofs.VerifiedAnswer

/-!
# `FrostMpcTss.Proofs.Conversation`: agents that keep to their parts

In a session of honest parties every agent hears what the others have
said, and what it says depends on what it has heard. `Part` is one
agent's part in such a conversation: the requests it may be handed, the
broadcasts it makes one after the other, its direct messages, and its
results. `Plays` is what the agent owes: as long as it hears what its
part has, it says what its part has.

`conversation_of_reach` closes the circle. If agents that are handed
what the others' traces have said hear their parts, then all of them
keep to their parts in every reachable state. A message stands in a
trace only some polls after its agent has sent it, so the induction is
on the steps of the session: what the traces have at a step was sent by
the agents before it.
-/

set_option autoImplicit false

namespace FrostMpcTss.Proofs

open Lib Network Service FrostMpcTss.Session
open Service.ProtocolExecution

section Histories

variable {P ρ κ : Type}

/-- The bodies of the own broadcasts. -/
def bodiesOut (trace : List (Effect P ρ κ)) : List Bytes :=
  trace.filterMap fun
    | .multicast _ body _ => some body
    | _ => none

/-- The bodies of the broadcasts among the agent's messages. -/
def bodiesOf (messages : List AgentMessage) : List Bytes :=
  messages.filterMap fun m => if m.recipient.isNone then some m.body else none

theorem bodiesOut_append (trace effects : List (Effect P ρ κ)) :
    bodiesOut (trace ++ effects) = bodiesOut trace ++ bodiesOut effects :=
  List.filterMap_append

theorem bodiesOf_append (messages messages' : List AgentMessage) :
    bodiesOf (messages ++ messages') = bodiesOf messages ++ bodiesOf messages' :=
  List.filterMap_append

/-- Effects of the gadget send nothing to the network. -/
theorem bodiesOut_of_byExecution {effects : List (Effect P ρ κ)}
    (h : ∀ effect ∈ effects, byExecution effect = false) : bodiesOut effects = [] := by
  rw [bodiesOut, List.filterMap_eq_nil_iff]
  intro effect heffect
  have hquiet := h effect heffect
  cases effect <;> first | rfl | cases hquiet

/-- With ids that count up, the body of an id stands at its place. -/
theorem getElem?_bodiesOut {trace : List (Effect P ρ κ)} {count k : Nat} {body : Bytes}
    {peers : List P} (hids : multicastIds trace = List.range count)
    (hmem : .multicast k body peers ∈ trace) : (bodiesOut trace)[k]? = some body := by
  let pairs : List (Nat × Bytes) := trace.filterMap fun
    | .multicast id body _ => some (id, body)
    | _ => none
  have hfst : pairs.map Prod.fst = multicastIds trace := by
    rw [List.map_filterMap]
    exact List.filterMap_congr fun effect _ => by cases effect <;> rfl
  have hsnd : pairs.map Prod.snd = bodiesOut trace := by
    rw [List.map_filterMap]
    exact List.filterMap_congr fun effect _ => by cases effect <;> rfl
  have hpair : (k, body) ∈ pairs := List.mem_filterMap.mpr ⟨_, hmem, rfl⟩
  obtain ⟨i, hi⟩ := List.mem_iff_getElem?.mp hpair
  have hk : (multicastIds trace)[i]? = some k := by
    rw [← hfst, List.getElem?_map, hi]
    rfl
  rw [hids] at hk
  obtain ⟨_, hk⟩ := List.getElem?_eq_some_iff.mp hk
  obtain rfl : i = k := by rwa [List.getElem_range] at hk
  rw [← hsnd, List.getElem?_map, hi]
  rfl

end Histories

section Poll

variable {P ρ κ σ : Type} [DecidableEq P] {s : ProtocolExecution P ρ κ}
  {echoTx : List (EchoMessage ρ)} {now : Nat}

/-- What a poll has done when it reaches the agent, with the broadcasts. -/
structure ReachesAgent (s : ProtocolExecution P ρ κ) (st : PollState P ρ κ) : Prop
    extends Handles s st where
  bodies : bodiesOut st.effects ++ bodiesOf st.exec.fromProtocol = bodiesOf s.fromProtocol
  queue : st.exec.fromNetwork <:+ s.fromNetwork

/-- Sending changes nothing that the agent gets. -/
theorem reachesAgent_takesOutgoing {st : PollState P ρ κ}
    (h : TakesOutgoing { exec := s, echoTx := echoTx, effects := [] } st) :
    ReachesAgent s st := by
  refine { handles_takesOutgoing h with bodies := ?_, queue := ?_ }
  · cases h with
    | nothing _ => rfl
    | @direct m rest k peer hq hto _ =>
        have hq : s.fromProtocol = m :: rest := hq
        rw [hq]
        simp [sentDirect, bodiesOut, bodiesOf, hto]
    | @broadcast m rest hq hto _ _ _ =>
        have hq : s.fromProtocol = m :: rest := hq
        rw [hq]
        simp [sentBroadcast, bodiesOut, bodiesOf, hto]
  · rw [fromNetwork_takesOutgoing h]

omit [DecidableEq P] in
/-- A message for this party goes to its agent, and others do not. -/
theorem ReachesAgent.intake {st st' : PollState P ρ κ} (h : ReachesAgent s st)
    (hintake : Intake now st st') : ReachesAgent s st' := by
  refine { h.toHandles.intake hintake with bodies := ?_, queue := ?_ }
  · cases hintake with
    | nothing _ => exact h.bodies
    | @message m _ _ _ htakes =>
        cases htakes with
        | broadcast _ _ =>
            unfold restartQuietPeriod
            split <;> exact h.bodies
        | direct _ _ _ _ =>
            have hout : bodiesOut (forwardedDirect (withoutHead st) m).effects
                = bodiesOut st.effects := by
              show bodiesOut (st.effects ++ [_] ++ [_]) = _
              rw [bodiesOut_append, bodiesOut_append]
              simp [bodiesOut]
            unfold restartQuietPeriod
            split <;> (rw [← h.bodies, ← hout]; rfl)
  · cases hintake with
    | nothing _ => exact h.queue
    | message _ _ htakes =>
        have htail : st.exec.fromNetwork.tail <:+ s.fromNetwork :=
          (List.tail_suffix _).trans h.queue
        cases htakes with
        | broadcast _ _ =>
            unfold restartQuietPeriod
            split <;> exact htail
        | direct _ _ _ _ =>
            unfold restartQuietPeriod
            split <;> exact htail

omit [DecidableEq P] in
theorem bodiesOut_round (messageId : Nat) (round : List (Nat × IncomingRequest P ρ)) :
    bodiesOut (round.flatMap fun r =>
        [(.entered (incomingEcho messageId r) : Effect P ρ κ), .delivered (broadcastRequest r)])
      = [] := by
  induction round with
  | nil => rfl
  | cons r round ih =>
      rw [List.flatMap_cons, bodiesOut_append, ih]
      rfl

omit [DecidableEq P] in
theorem ReachesAgent.forwardRound {st : PollState P ρ κ} (h : ReachesAgent s st) :
    ReachesAgent s (forwardRound st) := by
  refine { h.toHandles.forwardRound with bodies := ?_, queue := h.queue }
  show bodiesOut (st.effects ++ _) ++ _ = _
  rw [bodiesOut_append, bodiesOut_round, List.append_nil]
  exact h.bodies

variable {poll : σ → List AgentRequest → List AgentMessage → σ × AgentTurn} {a a' : σ}
  {turn : AgentTurn} {st : PollState P ρ κ}

/-- A poll that does not return goes through its stages and then polls
the agent. -/
theorem reachesAgent_pending (hc : Completion s) (hacc : ∀ m ∈ s.fromNetwork, s.accepts m = true)
    (hturn : TakesTurn poll s echoTx now a a' turn)
    (hpoll : s.poll echoTx now turn = .pending st) :
    ∃ st₁, ReachesAgent s st₁ ∧ Frame now { exec := s, echoTx := echoTx, effects := [] } st₁ ∧
      st = pollAgent now turn st₁ ∧ AgentPart poll s st₁ a a' turn :=
  pending_agentPart (ReachesAgent s) hc hacc hturn hpoll (fun _ => reachesAgent_takesOutgoing)
    (fun _ _ => ReachesAgent.intake) fun _ => ReachesAgent.forwardRound

end Poll

section Party

variable {P ρ κ σ : Type}

/-- An agent's part: what it may be handed, its broadcasts in their
order, its direct messages, its states after the requests it has taken
and the messages it has sent, and its results. -/
structure Part (P σ : Type) where
  heard : List AgentRequest → Prop
  script : List Bytes
  letters : P × Bytes → Prop
  explained : σ → List AgentRequest → List AgentMessage → Prop
  returns : AgentResult → Prop

/-- The messages are those of the part. -/
structure Part.Says (part : Part P σ) (peers : List P) (sent : List AgentMessage) : Prop where
  bodies : bodiesOf sent <+: part.script
  directs : ∀ d ∈ directsOf peers sent, part.letters d

/-- What the agent does in a poll belongs to its part, if what it finds
does. -/
def Plays (poll : σ → List AgentRequest → List AgentMessage → σ × AgentTurn) (peers : List P)
    (part : Part P σ) : Prop :=
  ∀ {a taken sent} (incoming : List AgentRequest) (outgoing : List AgentMessage),
    part.explained a taken sent → part.heard (taken ++ incoming) →
    part.Says peers (sent ++ (poll a incoming outgoing).2.sent) ∧
      ((poll a incoming outgoing).2.result = none →
        part.explained (poll a incoming outgoing).1
          (taken ++ incoming.take (poll a incoming outgoing).2.received)
          (sent ++ (poll a incoming outgoing).2.sent)) ∧
      ∀ r, (poll a incoming outgoing).2.result = some r → part.returns r

/-- What a trace shows of the party's messages is in its part. -/
structure Part.Said (part : Part P σ) (trace : List (Effect P ρ κ)) : Prop where
  bodies : bodiesOut trace <+: part.script
  directs : ∀ d ∈ directsOut trace, part.letters d

/-- A running party. -/
structure LivePart (part : Part P σ) (peers : List P) (sessionId : SessionId)
    (trace : List (Effect P ρ κ)) (a : σ) (s : ProtocolExecution P ρ κ) : Prop where
  members : s.peerset.peers = peers
  session : s.sessionId = sessionId
  accepted : ∀ m ∈ s.fromNetwork, s.accepts m = true
  talks : ∃ taken sent, taken ++ s.toProtocol = handedIn trace ∧
    bodiesOut trace ++ bodiesOf s.fromProtocol = bodiesOf sent ∧
    directsOut trace ++ directsOf peers s.fromProtocol = directsOf peers sent ∧
    part.Says peers sent ∧ (s.agentResult = none → part.explained a taken sent)
  result : ∀ r, s.agentResult = some r → part.returns r

/-- A party keeps to its part, running or not. `D` is what is known of
the direct messages handed to its agent. -/
structure InPart (D : AgentRequest → Prop) (part : Part P σ) (peers : List P)
    (sessionId : SessionId) (t : Session P ρ κ) (a : σ) : Prop where
  said : part.Said t.trace
  requests : ∀ req ∈ handedIn t.trace, req.recipient.isSome = true → D req
  answers : ∀ e ∈ answersIn t.trace, part.returns e.2
  live : ∀ s echoTx, t.execution = some (s, echoTx) →
    LivePart part peers sessionId t.trace a s

variable {D : AgentRequest → Prop} {part : Part P σ} {peers : List P} {sessionId : SessionId}
  {t t' : Session P ρ κ} {a a' : σ} {s : ProtocolExecution P ρ κ} {echoTx : List (EchoMessage ρ)}

/-- The stages before the agent say nothing that is not in the part. -/
theorem LivePart.said_reachesAgent {trace : List (Effect P ρ κ)} {st : PollState P ρ κ}
    (h : LivePart part peers sessionId trace a s) (hreaches : ReachesAgent s st) :
    part.Said (trace ++ st.effects) := by
  obtain ⟨taken, sent, _, hbodies, hdirects, hspeaks, _⟩ := h.talks
  refine ⟨?_, fun d hd => hspeaks.directs d ?_⟩
  · refine List.IsPrefix.trans ?_ hspeaks.bodies
    rw [← hbodies, ← hreaches.bodies, bodiesOut_append, ← List.append_assoc]
    exact List.prefix_append ..
  · rw [← hdirects, ← h.members, ← hreaches.sent, h.members, ← List.append_assoc,
      ← directsOut_append]
    exact List.mem_append_left _ hd

/-- A step that leaves the execution alone keeps the party in its part. -/
theorem InPart.keeps {effects : List (Effect P ρ κ)} (h : InPart D part peers sessionId t a)
    (hexec : ∀ s echoTx', t'.execution = some (s, echoTx') →
      ∃ echoTx, t.execution = some (s, echoTx))
    (htrace : t'.trace = t.trace ++ effects)
    (hquiet : ∀ effect ∈ effects, byExecution effect = false) (hanswers : answersIn effects = []) :
    InPart D part peers sessionId t' a := by
  obtain ⟨hin, hdirects⟩ := handedIn_of_byExecution hquiet
  have hin : handedIn t'.trace = handedIn t.trace := by
    rw [htrace, handedIn_append, hin, List.append_nil]
  have hdirects : directsOut t'.trace = directsOut t.trace := by
    rw [htrace, directsOut_append, hdirects, List.append_nil]
  have hbodies : bodiesOut t'.trace = bodiesOut t.trace := by
    rw [htrace, bodiesOut_append, bodiesOut_of_byExecution hquiet, List.append_nil]
  refine ⟨⟨hbodies ▸ h.said.bodies, hdirects ▸ h.said.directs⟩, hin ▸ h.requests, ?_,
    fun s echoTx' hs => ?_⟩
  · rw [htrace, answersIn_append, hanswers, List.append_nil]
    exact h.answers
  · obtain ⟨echoTx, hs⟩ := hexec s echoTx' hs
    have hlive := h.live s echoTx hs
    refine { hlive with talks := ?_ }
    rw [hin, hbodies, hdirects]
    exact hlive.talks

/-- A message is put into the queue. -/
theorem InPart.delivers {m : IncomingRequest P ρ} (h : InPart D part peers sessionId t a)
    (hexec : t.execution = some (s, echoTx))
    (hexec' : t'.execution = some ({ s with fromNetwork := s.fromNetwork ++ [m] }, echoTx))
    (htrace : t'.trace = t.trace)
    (hm : m.context.sessionId = sessionId ∧ m.context.messageType = .computation) :
    InPart D part peers sessionId t' a := by
  refine ⟨htrace ▸ h.said, htrace ▸ h.requests, htrace ▸ h.answers, fun s' echoTx' hs' => ?_⟩
  cases hexec'.symm.trans hs'
  have hlive := h.live s echoTx hexec
  refine ⟨hlive.members, hlive.session, fun m' hm' => ?_, htrace ▸ hlive.talks, hlive.result⟩
  rcases List.mem_append.mp hm' with hm' | hm'
  · exact hlive.accepted m' hm'
  · obtain rfl := List.mem_singleton.mp hm'
    show (decide (m'.context.sessionId = s.sessionId) && decide _) = true
    rw [decide_eq_true (hm.1.trans hlive.session.symm), decide_eq_true hm.2]
    rfl

variable [DecidableEq P] {poll : σ → List AgentRequest → List AgentMessage → σ × AgentTurn}
  {now : Nat} {turn : AgentTurn} {st : PollState P ρ κ}

/-- A poll that does not return keeps the party in its part. -/
theorem LivePart.pending {trace : List (Effect P ρ κ)} (hplays : Plays poll peers part)
    (h : LivePart part peers sessionId trace a s) (hc : Completion s)
    (hturn : TakesTurn poll s echoTx now a a' turn)
    (hpoll : s.poll echoTx now turn = .pending st)
    (hheard : part.heard (handedIn (trace ++ st.effects))) :
    LivePart part peers sessionId (trace ++ st.effects) a' st.exec := by
  obtain ⟨st₁, hreaches, hframe, rfl, hpart⟩ := reachesAgent_pending hc h.accepted hturn hpoll
  obtain ⟨taken, sent, htaken, hbodies, hdirects, hspeaks, hexplained⟩ := h.talks
  have hmembers : st₁.exec.peerset.peers = peers := by rw [hframe.peerset, h.members]
  have haccepted : ∀ m ∈ st₁.exec.fromNetwork, st₁.exec.accepts m = true := by
    intro m hm
    have haccepts := h.accepted m (hreaches.queue.subset hm)
    unfold accepts at haccepts ⊢
    rwa [hframe.sessionId]
  -- what the agent finds, and what it has sent so far
  have hfinds : taken ++ st₁.exec.toProtocol = handedIn (trace ++ st₁.effects) := by
    rw [hreaches.handed, ← List.append_assoc, htaken, handedIn_append]
  have hbodies₁ : bodiesOut (trace ++ st₁.effects) ++ bodiesOf st₁.exec.fromProtocol
      = bodiesOf sent := by
    rw [bodiesOut_append, List.append_assoc, hreaches.bodies, hbodies]
  have hdirects₁ : directsOut (trace ++ st₁.effects) ++ directsOf peers st₁.exec.fromProtocol
      = directsOf peers sent := by
    rw [directsOut_append, List.append_assoc, ← h.members, hreaches.sent, h.members, hdirects]
  cases hpart with
  | idle =>
      rw [pollAgent_idleTurn]
      refine ⟨hmembers, hframe.sessionId.trans h.session, haccepted, ?_, ?_⟩
      · refine ⟨taken, sent, hfinds, hbodies₁, hdirects₁, hspeaks, fun hnone => hexplained ?_⟩
        rw [← hnone, hframe.agentResult]
      · intro r hr
        exact h.result r (hframe.agentResult.symm.trans hr)
  | agent hnone =>
      rw [effects_pollAgent] at hheard ⊢
      rw [← hfinds] at hheard
      obtain ⟨hspeaks', hgoes, hreturns⟩ :=
        hplays st₁.exec.toProtocol st₁.exec.fromProtocol (hexplained hnone) hheard
      generalize poll a st₁.exec.toProtocol st₁.exec.fromProtocol = polled at *
      obtain ⟨a', turn⟩ := polled
      have hexec : (pollAgent now turn st₁).exec.toProtocol
            = st₁.exec.toProtocol.drop turn.received ∧
          (pollAgent now turn st₁).exec.fromProtocol = st₁.exec.fromProtocol ++ turn.sent ∧
          (pollAgent now turn st₁).exec.peerset = st₁.exec.peerset ∧
          (pollAgent now turn st₁).exec.agentResult = turn.result.or st₁.exec.agentResult := by
        unfold pollAgent
        cases turn.result <;> exact ⟨rfl, rfl, rfl, rfl⟩
      obtain ⟨hto, hfrom, hpeerset, hresult⟩ := hexec
      have hresult : (pollAgent now turn st₁).exec.agentResult = turn.result := by
        rw [hresult, hframe.agentResult]
        show turn.result.or s.agentResult = _
        rw [hnone, Option.or_none]
      obtain ⟨_, hsession, hqueue, _⟩ := pollAgent_keeps now turn st₁
      refine ⟨hpeerset ▸ hmembers, (hsession.trans hframe.sessionId).trans h.session, ?_, ?_, ?_⟩
      · intro m hm
        rw [hqueue] at hm
        have haccepts := haccepted m hm
        unfold accepts at haccepts ⊢
        rwa [hsession]
      · refine ⟨_, _, ?_, ?_, ?_, hspeaks', fun hr => hgoes (hresult.symm.trans hr)⟩
        · rw [hto, List.append_assoc, List.take_append_drop, hfinds]
        · rw [hfrom, bodiesOf_append, ← List.append_assoc, hbodies₁, bodiesOf_append]
        · rw [hfrom, directsOf_append, ← List.append_assoc, hdirects₁, directsOf_append]
      · intro r hr
        exact hreturns r (hresult.symm.trans hr)

/-- The effects of a poll that does not panic, up to the answer at its
end, are those of a state that reaches the agent. -/
theorem effects_polls (hlive : LivePart part peers sessionId t.trace a s)
    (hexec : t.execution = some (s, echoTx)) (hc : Completion s)
    (hturn : TakesTurn poll s echoTx now a a' turn)
    (hsteps : SessionSteps t (.pollComputation now turn) t') :
    t'.trace = t.trace ∨ ∃ st answer, ReachesAgent s st ∧
      t'.trace = t.trace ++ (st.effects ++ answer) ∧
      ∀ effect ∈ answer, byExecution effect = false := by
  cases hsteps with
  | pending hexec₁ hpoll _ htrace _ =>
      cases hexec.symm.trans hexec₁
      obtain ⟨st₁, hreaches, _, rfl, _⟩ := reachesAgent_pending hc hlive.accepted hturn hpoll
      rw [effects_pollAgent] at htrace
      exact .inr ⟨st₁, [], hreaches, by rw [htrace, List.append_nil], nofun⟩
  | @ready _ _ _ _ _ _ _ effects hexec₁ hpoll _ htrace _ =>
      cases hexec.symm.trans hexec₁
      obtain ⟨r, _, st, _, _, _, _, hout, hreport⟩ := ready_cases hc hpoll
      have hreaches := reachesAgent_takesOutgoing hout
      rcases (report_effects hreport).2 with ⟨_, rfl⟩ | ⟨tx, _, rfl⟩
      · exact .inr ⟨st, [], hreaches, by rw [htrace, List.append_nil], nofun⟩
      · refine .inr ⟨st, _, hreaches, htrace, fun effect heffect => ?_⟩
        rw [List.mem_singleton.mp heffect]
        rfl
  | panics _ _ _ htrace => exact .inl htrace
  | keeps _ hpoll _ _ _ _ => exact absurd rfl (hpoll now turn)

/-- What a poll adds to the trace is in the part, and the direct messages
it hands on were in the queue. -/
theorem InPart.said_polls (h : InPart D part peers sessionId t a)
    (hexec : t.execution = some (s, echoTx)) (hc : Completion s)
    (hturn : TakesTurn poll s echoTx now a a' turn)
    (hsteps : SessionSteps t (.pollComputation now turn) t')
    (hD : ∀ req ∈ queuedDirects s, D req) :
    part.Said t'.trace ∧ ∀ req ∈ handedIn t'.trace, req.recipient.isSome = true → D req := by
  have hlive := h.live s echoTx hexec
  rcases effects_polls hlive hexec hc hturn hsteps with
    htrace | ⟨st, answer, hreaches, htrace, hquiet⟩
  · rw [htrace]
    exact ⟨h.said, h.requests⟩
  · have hsaid := hlive.said_reachesAgent hreaches
    obtain ⟨hin, hout⟩ := handedIn_of_byExecution hquiet
    rw [htrace, ← List.append_assoc]
    refine ⟨⟨?_, ?_⟩, fun req hreq hsome => ?_⟩
    · rw [bodiesOut_append, bodiesOut_of_byExecution hquiet, List.append_nil]
      exact hsaid.bodies
    · rw [directsOut_append, hout, List.append_nil]
      exact hsaid.directs
    · rw [handedIn_append, hin, List.append_nil, handedIn_append] at hreq
      rcases List.mem_append.mp hreq with hreq | hreq
      · exact h.requests req hreq hsome
      · refine hD req ?_
        rw [← hreaches.directs]
        exact List.mem_append_left _ (List.mem_filter.mpr ⟨hreq, hsome⟩)

/-- A poll keeps the party in its part, if what its agent hears is in it. -/
theorem InPart.polls (hplays : Plays poll peers part) (h : InPart D part peers sessionId t a)
    (hexec : t.execution = some (s, echoTx)) (hc : Completion s)
    (hturn : TakesTurn poll s echoTx now a a' turn)
    (hsteps : SessionSteps t (.pollComputation now turn) t')
    (hD : ∀ req ∈ queuedDirects s, D req) (hheard : part.heard (handedIn t'.trace)) :
    InPart D part peers sessionId t' a' := by
  obtain ⟨hsaid, hrequests⟩ := h.said_polls hexec hc hturn hsteps hD
  have hlive := h.live s echoTx hexec
  cases hsteps with
  | pending hexec₁ hpoll hexec' htrace _ =>
      cases hexec.symm.trans hexec₁
      rw [htrace] at hheard
      refine ⟨hsaid, hrequests, ?_, fun s' echoTx' hs' => ?_⟩
      · rw [htrace, answersIn_append, (logged_pending hc.two_le hpoll).2, List.append_nil]
        exact h.answers
      · cases hexec'.symm.trans hs'
        rw [htrace]
        exact hlive.pending hplays hc hturn hpoll hheard
  | @ready _ _ _ _ _ _ _ effects hexec₁ hpoll hexec' htrace _ =>
      cases hexec.symm.trans hexec₁
      obtain ⟨r, _, st, hr, _, _, _, hout, hreport⟩ := ready_cases hc hpoll
      refine ⟨hsaid, hrequests, fun e he => ?_, fun s' echoTx' hs' => ?_⟩
      · -- the answer is the agent's result
        rw [htrace, answersIn_append] at he
        rcases List.mem_append.mp he with he | he
        · exact h.answers e he
        · have hnone : answersIn st.effects = [] := (frame_takesOutgoing now hout).answers
          rcases (report_effects hreport).2 with ⟨_, rfl⟩ | ⟨tx, _, rfl⟩
          · rw [hnone] at he
            cases he
          · rw [answersIn_append, hnone] at he
            obtain rfl := List.mem_singleton.mp he
            exact hlive.result r hr
      · rw [hexec'] at hs'
        cases hs'
  | panics _ _ hstate htrace =>
      refine ⟨hsaid, hrequests, htrace ▸ h.answers, fun s' echoTx' hs' => ?_⟩
      unfold Session.execution at hs'
      rw [hstate] at hs'
      cases hs'
  | keeps _ hpoll _ _ _ _ => exact absurd rfl (hpoll now turn)

end Party

section Net

variable {P κ σ : Type} {n : Nat} {cfg : Config P κ n} {agents : Agents σ n}
  {parts : Fin n → Part P σ} {t t' : AgentNet P κ σ n} {l : AgentLabel n} {j : Fin n}

/-- The number under which a party's messages reach the others' agents. -/
def numberOf (i : Fin n) : Nat := asU16 i + 1

/-- A direct message for `j` as another party's part has it. -/
def IsLetter (cfg : Config P κ n) (parts : Fin n → Part P σ) (j : Fin n) (req : AgentRequest) :
    Prop :=
  ∃ i, i ≠ j ∧ req.sender = numberOf i ∧ req.recipient = some (numberOf j) ∧
    (parts i).letters (cfg.peers j, req.payload)

/-- All parties keep to their parts. -/
def Conversation (cfg : Config P κ n) (parts : Fin n → Part P σ) (t : AgentNet P κ σ n) : Prop :=
  ∀ j, InPart (IsLetter cfg parts j) (parts j) (List.ofFn cfg.peers) cfg.sessionId
    (t.net.sessions j) (t.agents j)

/-- The traces show nothing but what is in the parts. -/
structure AllSaid (cfg : Config P κ n) (parts : Fin n → Part P σ) (t : Net P κ n) : Prop where
  said : ∀ i, (parts i).Said (t.sessions i).trace
  letters : ∀ j, ∀ req ∈ handedIn (t.sessions j).trace, req.recipient.isSome = true →
    IsLetter cfg parts j req

/-- The agents have been handed what is in their parts. -/
def AllHeard (parts : Fin n → Part P σ) (t : Net P κ n) : Prop :=
  ∀ j, (parts j).heard (handedIn (t.sessions j).trace)

/-- One party goes on, and the others stay where they are. -/
theorem Conversation.update {session : Session P (Handle n) κ} (h : Conversation cfg parts t)
    (hsessions : t'.net.sessions = Function.update t.net.sessions j session)
    (hagents : ∀ j', j' ≠ j → t'.agents j' = t.agents j')
    (hparty : InPart (IsLetter cfg parts j) (parts j) (List.ofFn cfg.peers) cfg.sessionId session
      (t'.agents j)) : Conversation cfg parts t' := by
  intro j'
  by_cases hj' : j' = j
  · subst hj'
    rw [hsessions, Function.update_self]
    exact hparty
  · rw [hsessions, Function.update_of_ne hj', hagents j' hj']
    exact h j'

/-- One party has said more, and the others what they had said. -/
theorem AllSaid.update {t' : Net P κ n} {session : Session P (Handle n) κ}
    (h : Conversation cfg parts t)
    (hsessions : t'.sessions = Function.update t.net.sessions j session)
    (hsaid : (parts j).Said session.trace)
    (hletters : ∀ req ∈ handedIn session.trace, req.recipient.isSome = true →
      IsLetter cfg parts j req) : AllSaid cfg parts t' := by
  constructor
  · intro i
    by_cases hi : i = j
    · subst hi
      rw [hsessions, Function.update_self]
      exact hsaid
    · rw [hsessions, Function.update_of_ne hi]
      exact (h i).said
  · intro i
    by_cases hi : i = j
    · subst hi
      rw [hsessions, Function.update_self]
      exact hletters
    · rw [hsessions, Function.update_of_ne hi]
      exact (h i).requests

variable [DecidableEq P] [Blake2s256]

/-- Only a poll answers the RPC caller. -/
theorem answersIn_of_step {ρ : Type} {t t' : Session P ρ κ} {l : WrapLabel P ρ}
    {effects : List (Effect P ρ κ)} (h : t.step l = some t')
    (hpoll : ∀ now turn, l ≠ .pollComputation now turn) (htrace : t'.trace = t.trace ++ effects) :
    answersIn effects = [] := by
  obtain ⟨w, state, effects', _, hstep, rfl⟩ := Session.step_eq_some.mp h
  obtain rfl : effects' = effects := List.append_cancel_left htrace
  cases l with
  | deliver m =>
      obtain ⟨_, _, heq⟩ := Option.map_eq_some_iff.mp hstep
      cases heq
      rfl
  | echoResponse respRx echo =>
      cases hstep
      rfl
  | closeResponses respRx =>
      cases hstep
      rfl
  | pollComputation now turn => exact absurd rfl (hpoll now turn)
  | pollEcho gone =>
      obtain ⟨_, hstep⟩ := Option.ite_none_left_eq_some.mp hstep
      exact answersIn_pollEcho hstep

omit [DecidableEq P] in
/-- The direct messages in a party's queue are letters of the others. -/
theorem Conversation.queued (hhonest : ∀ j, cfg.honest j = true) (hl : NetLedger cfg t.net)
    (h : Conversation cfg parts t) {s : ProtocolExecution P (Handle n) κ}
    {echoTx : List (EchoMessage (Handle n))}
    (hs : (t.net.sessions j).execution = some (s, echoTx)) :
    ∀ req ∈ queuedDirects s, IsLetter cfg parts j req := by
  obtain ⟨hexec, _⟩ := hl.execution (hhonest j) hs
  intro req hreq
  obtain ⟨m, hm, rfl⟩ := List.mem_map.mp hreq
  obtain ⟨hm, hb⟩ := List.mem_filter.mp hm
  have hb : m.isBroadcast = false := by simpa using hb
  obtain ⟨i, hne, hindex, _, hdirect⟩ := hexec.queued m hm
  refine ⟨i, hne, ?_, ?_, (h i).said.directs _ (mem_directsOut.mpr ((hdirect hb).2 (hhonest i)))⟩
  · show m.peerIndex + 1 = _
    rw [hindex]
    rfl
  · show some (s.i + 1) = _
    rw [hexec.index]
    rfl

/-- A step keeps the parties in their parts, if agents that are handed
what was said hear their parts. -/
theorem conversation_step (hplays : ∀ j, Plays (agents.poll j) (List.ofFn cfg.peers) (parts j))
    (hhonest : ∀ j, cfg.honest j = true) (hl : NetLedger cfg t.net)
    (h : Conversation cfg parts t) (hnext : t.step cfg agents l = some t')
    (hheard : AllSaid cfg parts t'.net → AllHeard parts t'.net) : Conversation cfg parts t' := by
  obtain ⟨_, hsteps⟩ := agentSteps_step hhonest hnext
  cases hsteps with
  | @polls j now s echoTx a turn session hs hturn hstep =>
      obtain ⟨_, hc⟩ := hl.execution (hhonest j) hs
      -- first what the traces show, then what the agent makes of it
      have hqueued := h.queued hhonest hl hs
      obtain ⟨hsaid, hletters⟩ :=
        (h j).said_polls hs hc hturn (sessionSteps_step hstep) hqueued
      have hheard := hheard (AllSaid.update h rfl hsaid hletters) j
      simp only [Function.update_self] at hheard
      refine h.update rfl (fun j' hj' => Function.update_of_ne hj' ..) ?_
      simp only [Function.update_self]
      exact (h j).polls (hplays j) hs hc hturn (sessionSteps_step hstep) hqueued hheard
  | @delivers _ d m session hstep _ _ _ _ hcontext _ =>
      cases sessionSteps_step hstep with
      | keeps hdeliver _ _ _ _ _ => exact absurd rfl (hdeliver m)
      | delivers hexec hexec' htrace _ =>
          exact h.update rfl (fun _ _ => rfl)
            ((h d.recipient).delivers hexec hexec' htrace hcontext)
  | @keeps _ l' j session answered hstep hdeliver hpoll =>
      refine h.update rfl (fun _ _ => rfl) ?_
      cases sessionSteps_step hstep with
      | pending _ _ _ _ _ => exact absurd rfl (hpoll _ _)
      | ready _ _ _ _ _ => exact absurd rfl (hpoll _ _)
      | panics _ _ _ _ => exact absurd rfl (hpoll _ _)
      | delivers _ _ _ _ => exact absurd rfl (hdeliver _)
      | keeps _ _ hexec htrace hquiet _ =>
          exact (h j).keeps hexec htrace hquiet (answersIn_of_step hstep hpoll htrace)

omit [Blake2s256] in
/-- All parties have just started. -/
theorem conversation_start (hstart : ∀ j, (parts j).explained (agents.start j) [] []) :
    Conversation cfg parts (AgentNet.start cfg agents) := by
  intro j
  refine ⟨⟨List.nil_prefix, nofun⟩, nofun, nofun, fun s echoTx hs => ?_⟩
  have hs : (cfg.startSession j).execution = some (s, echoTx) := hs
  obtain ⟨_, _, hnew⟩ :=
    isNew_of_new_eq_ok (new_of_execution (fun w => new_of_startSession) hs)
  refine ⟨by rw [hnew.peerset_eq]; rfl, hnew.sessionId_eq, ?_, ?_, ?_⟩
  · rw [hnew.fromNetwork_eq]
    nofun
  · rw [hnew.toProtocol_eq, hnew.fromProtocol_eq]
    exact ⟨[], [], rfl, rfl, rfl, ⟨List.nil_prefix, nofun⟩, fun _ => hstart j⟩
  · rw [hnew.agentResult_eq]
    nofun

/-- In every reachable state the parties keep to their parts, if agents
that are handed what was said hear their parts. -/
theorem conversation_of_reach (hplays : ∀ j, Plays (agents.poll j) (List.ofFn cfg.peers) (parts j))
    (hstart : ∀ j, (parts j).explained (agents.start j) [] [])
    (hhonest : ∀ j, cfg.honest j = true)
    (hheard : ∀ t, Reach (AgentNet.step cfg agents) Always (AgentNet.start cfg agents) t →
      NetRounds cfg t.net → AllSaid cfg parts t.net → AllHeard parts t.net)
    (h : Reach (AgentNet.step cfg agents) Always (AgentNet.start cfg agents) t) :
    Conversation cfg parts t := by
  have hall : Reach (AgentNet.step cfg agents) Always (AgentNet.start cfg agents) t ∧
      NetLedger cfg t.net ∧ NetRounds cfg t.net ∧ Conversation cfg parts t := by
    refine h.invariant
      (I := fun t => Reach (AgentNet.step cfg agents) Always (AgentNet.start cfg agents) t ∧
        NetLedger cfg t.net ∧ NetRounds cfg t.net ∧ Conversation cfg parts t)
      ⟨.start, netLedger_start cfg, netRounds_start cfg, conversation_start hstart⟩ ?_
    rintro t l t' ⟨hreach, hl, hr, hconversation⟩ hguard hnext
    obtain ⟨⟨_, hnet⟩, _⟩ := agentSteps_step hhonest hnext
    have hreach' := hreach.next l hguard hnext
    have hr' := netRounds_step hl hr hnet
    exact ⟨hreach', netLedger_step hl hnet, hr',
      conversation_step hplays hhonest hl hconversation hnext (hheard t' hreach' hr')⟩
  exact hall.2.2.2

/-- The agent of party `j` has returned `r`: its execution still has the
result, or the RPC caller got it. -/
def Returned (t : AgentNet P κ σ n) (j : Fin n) (r : AgentResult) : Prop :=
  (∃ s echoTx, (t.net.sessions j).execution = some (s, echoTx) ∧ s.agentResult = some r) ∨
    ∃ tx, (tx, r) ∈ answersIn (t.net.sessions j).trace

omit [DecidableEq P] [Blake2s256] in
/-- What an agent returns is a result that its part allows. -/
theorem Conversation.returns (h : Conversation cfg parts t) {r : AgentResult}
    (hr : Returned t j r) :
    (parts j).returns r := by
  rcases hr with ⟨s, echoTx, hs, hr⟩ | ⟨tx, hr⟩
  · exact ((h j).live s echoTx hs).result r hr
  · exact (h j).answers _ hr

/-- The result that the execution of party `j` has. -/
def storedResult (t : AgentNet P κ σ n) (j : Fin n) : Option AgentResult :=
  (t.net.sessions j).execution.bind fun e => e.1.agentResult

omit [DecidableEq P] [Blake2s256] in
theorem returned_of_storedResult {r : AgentResult} (h : storedResult t j = some r) :
    Returned t j r := by
  obtain ⟨⟨s, echoTx⟩, hs, hr⟩ := Option.bind_eq_some_iff.mp h
  exact .inl ⟨s, echoTx, hs, hr⟩

end Net

/-! ### What the agents hear of the broadcasts -/

section Rounds

/-- Different members of a list come first in some order of it. -/
theorem exists_perm_of_subset {α : Type} {l l' : List α} (hnodup : l.Nodup) (hsubset : l ⊆ l') :
    ∃ order, order.Perm l' ∧ l <+: order := by
  obtain ⟨l₁, hperm, hsublist⟩ := List.subperm_of_subset hnodup hsubset
  obtain ⟨rest, hrest⟩ := hsublist.exists_perm_append
  exact ⟨l ++ rest, (hperm.symm.append_right rest).trans hrest.symm, List.prefix_append ..⟩

variable {P κ σ : Type} {n : Nat}

/-- The other parties, in their order. -/
def othersOf (j : Fin n) : List (Fin n) := (List.finRange n).filter (· ≠ j)

/-- A round of broadcasts as the agent of `j` gets it. -/
def heardRound (parts : Fin n → Part P σ) (j : Fin n) (k : Nat) : List AgentRequest :=
  (othersOf j).map fun i =>
    { sender := numberOf i, recipient := none, payload := ((parts i).script[k]?).getD [] }

theorem mem_othersOf {i j : Fin n} : i ∈ othersOf j ↔ i ≠ j := by
  simp [othersOf]

theorem length_othersOf (j : Fin n) : (othersOf j).length = n - 1 := by
  have herase : (List.finRange n).erase j = othersOf j := by
    rw [(List.nodup_finRange n).erase_eq_filter]
    exact List.filter_congr fun i _ => by simp [bne, Bool.beq_eq_decide_eq]
  rw [← herase, List.length_erase_of_mem (List.mem_finRange j), List.length_finRange]

theorem numberOf_eq (hsmall : n < 2 ^ 16) (i : Fin n) : numberOf i = i + 1 :=
  congrArg Nat.succ (Nat.mod_eq_of_lt (i.isLt.trans hsmall))

theorem numberOf_inj (hsmall : n < 2 ^ 16) {i i' : Fin n} (h : numberOf i = numberOf i') :
    i = i' := by
  rw [numberOf_eq hsmall, numberOf_eq hsmall] at h
  exact Fin.ext (Nat.succ.inj h)

/-- The others' numbers go up. -/
theorem sorted_numbers (hsmall : n < 2 ^ 16) (j : Fin n) :
    ((othersOf j).map numberOf).Pairwise (· < ·) := by
  rw [List.pairwise_map]
  refine ((List.pairwise_lt_finRange n).filter _).imp fun {i i'} hlt => ?_
  rw [numberOf_eq hsmall, numberOf_eq hsmall]
  exact Nat.succ_lt_succ hlt

/-- Requests with the others' numbers are different. -/
theorem nodup_map_othersOf (hsmall : n < 2 ^ 16) (j : Fin n) {request : Fin n → AgentRequest}
    (hsender : ∀ i, (request i).sender = numberOf i) : ((othersOf j).map request).Nodup := by
  refine List.Nodup.of_map (·.sender) ?_
  have hmap : ((othersOf j).map request).map (·.sender) = (othersOf j).map numberOf := by
    rw [List.map_map]
    exact List.map_congr_left fun i _ => hsender i
  rw [hmap]
  exact (sorted_numbers hsmall j).imp Nat.ne_of_lt

variable {cfg : Config P κ n} {parts : Fin n → Part P σ} {t : Net P κ n} {j : Fin n}

/-- A complete round has the next broadcast of every other party. -/
theorem map_broadcastRequest_eq {k : Nat} {round : List (Nat × IncomingRequest P (Handle n))}
    (hsmall : n < 2 ^ 16) (hhonest : ∀ j, cfg.honest j = true) (hr : NetRounds cfg t)
    (hsaid : AllSaid cfg parts t) (hround : CompleteRound (Known cfg t j) (asU16 n - 1) k round) :
    round.map broadcastRequest = heardRound parts j k ∧
      ∀ i, i ≠ j → k < (parts i).script.length := by
  -- each message of the round is the broadcast of one of the others
  have hfrom : ∀ r ∈ round, ∃ i, i ≠ j ∧ r.1 = numberOf i ∧
      (parts i).script[k]? = some r.2.payload := by
    intro r hmem
    obtain ⟨⟨i, hne, hindex, hbroadcast, _⟩, hb, hkey⟩ := hround.messages r hmem
    obtain ⟨hsender, rfl⟩ := Prod.mk.inj hkey
    obtain ⟨peers, hsent⟩ := (hbroadcast hb).2 (hhonest i)
    obtain ⟨count, hids⟩ := (hr i (hhonest i)).trace.sent
    have hbody := getElem?_bodiesOut hids hsent
    obtain ⟨rest, hscript⟩ := (hsaid.said i).bodies
    refine ⟨i, hne, by rw [hsender, hindex]; rfl, ?_⟩
    rw [← hscript, List.getElem?_append_left (List.getElem?_eq_some_iff.mp hbody).1, hbody]
  -- as many different senders as there are others, so all of them
  have hsenders : round.map Prod.fst = (othersOf j).map numberOf := by
    have hsorted := sorted_numbers hsmall j
    have hsubset : round.map Prod.fst ⊆ (othersOf j).map numberOf := by
      intro sender hsender
      obtain ⟨r, hmem, rfl⟩ := List.mem_map.mp hsender
      obtain ⟨i, hne, hnumber, _⟩ := hfrom r hmem
      exact List.mem_map.mpr ⟨i, mem_othersOf.mpr hne, hnumber.symm⟩
    have hperm : (round.map Prod.fst).Perm ((othersOf j).map numberOf) := by
      refine (List.subperm_of_subset (hround.senders.imp Nat.ne_of_lt) hsubset).perm_of_length_le ?_
      rw [List.length_map, List.length_map, length_othersOf, hround.length]
      show n - 1 ≤ n % 2 ^ 16 - 1
      rw [Nat.mod_eq_of_lt hsmall]
    exact hperm.eq_of_pairwise (fun _ _ _ _ h h' => absurd h' (Nat.lt_asymm h)) hround.senders
      hsorted
  constructor
  · refine List.ext_getElem? fun index => ?_
    have hindex := congrArg (·[index]?) hsenders
    simp only [List.getElem?_map] at hindex
    rw [heardRound, List.getElem?_map, List.getElem?_map]
    cases hr : round[index]? with
    | none =>
        rw [hr] at hindex
        cases ho : (othersOf j)[index]? with
        | none => rfl
        | some i => rw [ho] at hindex; cases hindex
    | some r =>
        rw [hr] at hindex
        cases ho : (othersOf j)[index]? with
        | none => rw [ho] at hindex; cases hindex
        | some i =>
            rw [ho] at hindex
            have hindex : r.1 = numberOf i := Option.some.inj hindex
            obtain ⟨i', _, hi', hscript⟩ := hfrom r (List.mem_of_getElem? hr)
            obtain rfl := numberOf_inj hsmall (hindex.symm.trans hi')
            simp only [Option.map_some, hscript, Option.getD_some, ← hindex]
            rfl
  · intro i hne
    have hmem : numberOf i ∈ round.map Prod.fst := by
      rw [hsenders]
      exact List.mem_map.mpr ⟨i, mem_othersOf.mpr hne, rfl⟩
    obtain ⟨r, hmem, heq⟩ := List.mem_map.mp hmem
    obtain ⟨i', _, hi', hscript⟩ := hfrom r hmem
    obtain rfl := numberOf_inj hsmall (heq.symm.trans hi')
    exact (List.getElem?_eq_some_iff.mp hscript).1

/-- The broadcasts handed to an agent are the first rounds of the
others' scripts. -/
theorem broadcasts_heard (hsmall : n < 2 ^ 16) (hhonest : ∀ j, cfg.honest j = true)
    (hr : NetRounds cfg t) (hsaid : AllSaid cfg parts t) (j : Fin n) :
    ∃ count, (∀ i, i ≠ j → count ≤ (parts i).script.length) ∧
      (handedIn (t.sessions j).trace).filter (·.recipient.isNone)
        = (List.range count).flatMap (heardRound parts j) := by
  obtain ⟨rounds, hrounds⟩ := (hr j (hhonest j)).trace.rounds
  have hround : ∀ k round, rounds[k]? = some round →
      round.map broadcastRequest = heardRound parts j k ∧
        ∀ i, i ≠ j → k < (parts i).script.length := fun k round hk =>
    map_broadcastRequest_eq hsmall hhonest hr hsaid (hrounds.complete k round hk)
  refine ⟨rounds.length, fun i hne => ?_, ?_⟩
  · by_contra hshort
    have hlt : (parts i).script.length < rounds.length := Nat.lt_of_not_le hshort
    exact Nat.lt_irrefl _ ((hround _ _ (List.getElem?_eq_getElem hlt)).2 i hne)
  · have hbroadcasts : (handedIn (t.sessions j).trace).filter (·.recipient.isNone)
        = broadcastRequestsIn (t.sessions j).trace := by
      rw [handedIn, broadcastRequestsIn, List.filter_filterMap]
      refine List.filterMap_congr fun effect _ => ?_
      cases effect <;> simp [Option.filter]
    have hmap : rounds.map (·.map broadcastRequest)
        = (List.range rounds.length).map (heardRound parts j) := by
      refine List.ext_getElem? fun k => ?_
      rw [List.getElem?_map, List.getElem?_map]
      cases hk : rounds[k]? with
      | none =>
          have hle := List.getElem?_eq_none_iff.mp hk
          rw [List.getElem?_eq_none (by rwa [List.length_range])]
          rfl
      | some round =>
          rw [List.getElem?_range (List.getElem?_eq_some_iff.mp hk).1]
          exact congrArg some (hround k round hk).1
    rw [hbroadcasts, hrounds.agent, requestsOf, List.map_flatten, hmap, List.flatMap_def]

end Rounds

end FrostMpcTss.Proofs
