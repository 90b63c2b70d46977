import FrostMpcTss.Proofs.AgentSpec

/-!
# `FrostMpcTss.Proofs.PartyLedger`: a party with its agent

`PartyLedger` is what holds of an execution whose agent keeps its
contract. A poll keeps it (`PartyLedger.pending`) and never finds the
agent's channel full (`PartyLedger.poll_ne_full`), and the agent's
outgoing channel has room for its turn (`PartyLedger.roomFor`).

What a single party cannot know is a hypothesis: when a round completes,
the other parties have sent it (`Completable`).
-/

set_option autoImplicit false

namespace FrostMpcTss.Proofs

open Lib Network Service FrostMpcTss.Session
open Service.ProtocolExecution

section Finished

variable {P ρ κ : Type} [DecidableEq P]

/-- The channel can be found full only by a running agent's execution. -/
theorem agentFuture_of_full {s : ProtocolExecution P ρ κ} {echoTx : List (EchoMessage ρ)}
    {now : Nat} {turn : AgentTurn} (hc : Completion s)
    (h : s.poll echoTx now turn = .panic .applicationChannelFull) : s.agentFuture = true := by
  have hpolls := polls_poll s echoTx now turn hc.two_le
  generalize s.poll echoTx now turn = poll at hpolls h
  cases hpolls with
  | outgoingPanics hout =>
      cases h
      exact absurd hout (takeOutgoing_ne_full _)
  | refuses _ _ _ => cases h
  | incomingPanics hout _ _ hin =>
      cases h
      obtain ⟨hopen, _⟩ := takeIncoming_eq_full hin
      rw [← (frame_takesOutgoing now hout).agentFuture]
      exact hopen
  | @forwards st₁ st₂ result hout hintake hfwd =>
      have hframe := (frame_takesOutgoing now hout).trans (frame_intake hintake)
      cases hgone : s.agentFuture with
      | true => rfl
      | false =>
          have hgone₂ : st₂.exec.agentFuture = false := hframe.agentFuture.trans hgone
          have hn₂ : 2 ≤ st₂.exec.n := by
            rw [hframe.n]
            exact hc.two_le
          cases hfwd with
          | done hround =>
              have hcompletes := completes_completeOrPollAgent now turn st₂
              simp only [finish] at h
              generalize completeOrPollAgent now turn st₂ = poll at hcompletes h
              cases hcompletes with
              | @reports _ r _ _ _ => cases r <;> cases h
              | missing _ _ => cases h
              | waits _ _ => cases h
              | agent _ _ => cases h
              | idle _ _ => cases h
          | full _ _ hfull =>
              cases h
              rw [(hfull rfl).1] at hgone₂
              cases hgone₂
          -- without the agent there is no room for a round
          | round hround hroom hrest =>
              rcases forwards_of_finished hn₂ hgone₂ (.round hround hroom hrest)
                with ⟨hnot, _⟩ | ⟨_, why, heq⟩
              · exact absurd hround hnot
              · rcases hroom.isOpen with hzero | hopen
                · omega
                · rw [hgone₂] at hopen
                  cases hopen

/-- A poll after the agent has returned takes one message on each side. -/
theorem pending_of_finished {s : ProtocolExecution P ρ κ} {echoTx : List (EchoMessage ρ)}
    {now : Nat} {turn : AgentTurn} {st : PollState P ρ κ} (hc : Completion s)
    (hgone : s.agentFuture = false) (hacc : ∀ m ∈ s.fromNetwork, s.accepts m = true)
    (h : s.poll echoTx now turn = .pending st) :
    (∃ new, Taken s new st.exec) ∧ ¬ RoundComplete st.exec ∧ st.exec.agentFuture = false ∧
      st.exec.sessionId = s.sessionId := by
  have hpolls := polls_poll s echoTx now turn hc.two_le
  generalize s.poll echoTx now turn = poll at hpolls h
  cases hpolls with
  | outgoingPanics _ => cases h
  | incomingPanics _ _ _ _ => cases h
  | refuses hout hhead hrefused =>
      rw [accepts_head hacc hout hhead] at hrefused
      cases hrefused
  | @forwards st₁ st₂ result hout hintake hfwd =>
      have hframe := (frame_takesOutgoing now hout).trans (frame_intake hintake)
      have hgone₂ : st₂.exec.agentFuture = false := hframe.agentFuture.trans hgone
      have hn₂ : 2 ≤ st₂.exec.n := by
        rw [hframe.n]
        exact hc.two_le
      -- the agent is gone: a complete round would have panicked
      rcases forwards_of_finished hn₂ hgone₂ hfwd with ⟨hround, rfl⟩ | ⟨_, _, rfl⟩
      · have hsame : st = st₂ := by
          have hcompletes := completes_completeOrPollAgent now turn st₂
          simp only [finish] at h
          generalize completeOrPollAgent now turn st₂ = poll at hcompletes h
          cases hcompletes with
          | @reports _ r _ _ _ => cases r <;> cases h
          | missing _ _ => cases h
          | waits _ _ => cases h; rfl
          | agent _ hopen =>
              rw [hgone₂] at hopen
              cases hopen
          | idle _ _ => cases h; rfl
        subst hsame
        refine ⟨?_, hround, hgone₂, hframe.sessionId⟩
        rcases taken_intake hout hintake with ⟨htaken, _⟩ | ⟨_, req, _, _, _, htaken⟩
        · exact ⟨_, htaken⟩
        · exact ⟨_, htaken⟩
      · cases h

end Finished

section View

variable {P ρ κ : Type} [DecidableEq P]

omit [DecidableEq P] in
theorem head?_all_accepts {s : ProtocolExecution P ρ κ}
    (hacc : ∀ m ∈ s.fromNetwork, s.accepts m = true) :
    s.fromNetwork.head?.all s.accepts = true := by
  cases hq : s.fromNetwork with
  | nil => rfl
  | cons m rest => exact hacc m (by rw [hq]; exact List.mem_cons_self)

omit [DecidableEq P] in
/-- What the stages before the agent leave in its channels. -/
def leftFor : Except Panic (PollState P ρ κ) → Option (List AgentRequest × List AgentMessage)
  | .error _ => none
  | .ok st => some (st.exec.toProtocol, st.exec.fromProtocol)

/-- The agent is polled with what the channels hold after the message is
taken. -/
theorem agentView_of_running {s : ProtocolExecution P ρ κ} {echoTx : List (EchoMessage ρ)}
    {now : Nat} {result : Except Panic (PollState P ρ κ)} (hrun : s.agentFuture = true)
    (hacc : ∀ m ∈ s.fromNetwork, s.accepts m = true)
    (hpoll : s.poll echoTx now idleTurn = toAgent now idleTurn result) :
    agentView s echoTx now = leftFor result := by
  unfold agentView
  rw [hrun, head?_all_accepts hacc, hpoll]
  cases result with
  | error why => rfl
  | ok st =>
      show some (st.exec.toProtocol.drop 0, st.exec.fromProtocol ++ []) = _
      rw [List.drop_zero, List.append_nil]
      rfl

omit [DecidableEq P] in
theorem channels_pollAgent (now : Nat) (turn : AgentTurn) (st : PollState P ρ κ) :
    channels (pollAgent now turn st).exec = (channels st.exec).apply turn := by
  unfold pollAgent
  cases turn.result <;> rfl

omit [DecidableEq P] in
/-- What the agent's turn leaves alone. -/
theorem pollAgent_keeps (now : Nat) (turn : AgentTurn) (st : PollState P ρ κ) :
    (pollAgent now turn st).exec.n = st.exec.n ∧
      (pollAgent now turn st).exec.sessionId = st.exec.sessionId ∧
      (pollAgent now turn st).exec.fromNetwork = st.exec.fromNetwork ∧
      (pollAgent now turn st).exec.nextIncomingBroadcastId = st.exec.nextIncomingBroadcastId ∧
      (RoundComplete (pollAgent now turn st).exec ↔ RoundComplete st.exec) ∧
      ((pollAgent now turn st).exec.agentFuture = true → turn.result = none) := by
  unfold pollAgent
  cases hresult : turn.result with
  | none => exact ⟨rfl, rfl, rfl, rfl, Iff.rfl, fun _ => rfl⟩
  | some result => exact ⟨rfl, rfl, rfl, rfl, Iff.rfl, nofun⟩

/-- The agent's part of a poll: its turn on what it finds, or none if
the poll does not reach it. -/
inductive TakesTurn {σ : Type}
    (poll : σ → List AgentRequest → List AgentMessage → σ × AgentTurn)
    (s : ProtocolExecution P ρ κ) (echoTx : List (EchoMessage ρ)) (now : Nat) (a : σ) :
    σ → AgentTurn → Prop where
  | agent {incoming : List AgentRequest} {outgoing : List AgentMessage} :
      agentView s echoTx now = some (incoming, outgoing) →
      TakesTurn poll s echoTx now a (poll a incoming outgoing).1 (poll a incoming outgoing).2
  | idle : agentView s echoTx now = none → TakesTurn poll s echoTx now a a idleTurn

end View

section Party

variable {P ρ κ σ : Type}

/-- What holds of an execution and its agent. `others` says that every
other party has sent its first broadcast, and `d` is the number of
direct messages delivered so far. -/
structure PartyLedger (n limit : Nat) (direct : Bool) (I : Nat → σ → Channels → Prop)
    (sessionId : SessionId) (others : Prop) (d : Nat) (a : σ) (s : ProtocolExecution P ρ κ) :
    Prop where
  size : s.n = n
  session : s.sessionId = sessionId
  accepted : ∀ m ∈ s.fromNetwork, s.accepts m = true
  incomplete : ¬ RoundComplete s
  nextIncoming_le : s.nextIncomingBroadcastId ≤ limit
  received : 1 ≤ s.nextIncomingBroadcastId → others
  outgoing : Outgoing n limit direct (channels s)
  running : s.agentFuture = true → I d a (channels s)

/-- The round that completes is one that the other parties could send. -/
structure Completable (limit : Nat) (others : Prop) (s : ProtocolExecution P ρ κ) : Prop where
  lt_limit : s.nextIncomingBroadcastId < limit
  own : 1 ≤ s.nextIncomingBroadcastId → 1 ≤ s.nextOutgoingBroadcastId
  others : others

variable {n limit d : Nat} {direct : Bool} {I : Nat → σ → Channels → Prop}
  {sessionId : SessionId} {others : Prop} {a : σ} {s : ProtocolExecution P ρ κ}

theorem PartyLedger.mono {others' : Prop} (hothers : others → others')
    (h : PartyLedger n limit direct I sessionId others d a s) :
    PartyLedger n limit direct I sessionId others' d a s :=
  { h with received := fun hle => hothers (h.received hle) }

/-- A message is delivered. -/
theorem PartyLedger.deliver {poll : σ → List AgentRequest → List AgentMessage → σ × AgentTurn}
    (hspec : AgentSpec n limit direct poll I) {m : IncomingRequest P ρ}
    (haccepts : m.context.sessionId = sessionId ∧ m.context.messageType = .computation)
    (hdirect : m.isBroadcast = false → direct = true)
    (h : PartyLedger n limit direct I sessionId others d a s) :
    PartyLedger n limit direct I sessionId others (d + if m.isBroadcast then 0 else 1) a
      { s with fromNetwork := s.fromNetwork ++ [m] } where
  size := h.size
  session := h.session
  accepted := by
    intro m' hm'
    rcases List.mem_append.mp hm' with hm' | hm'
    · exact h.accepted m' hm'
    · rw [List.mem_singleton.mp hm']
      show (decide (m.context.sessionId = s.sessionId) && decide _) = true
      rw [h.session, haccepts.1, haccepts.2]
      simp
  incomplete := h.incomplete
  nextIncoming_le := h.nextIncoming_le
  received := h.received
  outgoing := ⟨h.outgoing.fits, h.outgoing.le_limit, h.outgoing.after_first, h.outgoing.direct⟩
  running := by
    intro hrun
    have hdirects : channels { s with fromNetwork := s.fromNetwork ++ [m] }
        = { channels s with directs := (channels s).directs + if m.isBroadcast then 0 else 1 } := by
      have hcount : [m].countP (!·.isBroadcast) = if m.isBroadcast then 0 else 1 := by
        cases hb : m.isBroadcast <;> simp [hb]
      show Channels.mk _ _ _ _ _ = Channels.mk _ _ _ _ _
      rw [List.countP_append, hcount]
      rfl
    rw [hdirects]
    cases hb : m.isBroadcast with
    | true => exact h.running hrun
    | false => exact hspec.deliver (hdirect hb) (h.running hrun)

variable [DecidableEq P]
  {poll : σ → List AgentRequest → List AgentMessage → σ × AgentTurn}
  {echoTx : List (EchoMessage ρ)} {now : Nat} {turn : AgentTurn} {a' : σ}

/-- A poll that reaches the agent. -/
theorem PartyLedger.polled (hspec : AgentSpec n limit direct poll I)
    (h : PartyLedger n limit direct I sessionId others d a s) (hone : releasesTwo s = false)
    (hround : completes s s.nextIncomingBroadcastId = true → Completable limit others s)
    (hrun : s.agentFuture = true) {st : PollState P ρ κ} (hstages : Stages s echoTx now (.ok st)) :
    Polled n limit direct (I d) (channels st.exec)
        (poll a st.exec.toProtocol st.exec.fromProtocol) ∧
      st.exec.nextIncomingBroadcastId ≤ limit ∧
      (1 ≤ st.exec.nextIncomingBroadcastId → others) := by
  obtain ⟨hadv, _, hcompletes, _⟩ := stages_ok h.incomplete hone hstages
  rw [h.size] at hadv
  obtain ⟨_, _, hmono, _⟩ := hadv.takeOutgoing
  have hmono : s.nextIncomingBroadcastId ≤ st.exec.nextIncomingBroadcastId := hmono
  have hin : st.exec.nextIncomingBroadcastId ≤ s.nextIncomingBroadcastId + 1 :=
    hadv.nextIncoming_le
  -- the id stays, or a round completed that the others could send
  rcases Nat.eq_or_lt_of_le hmono with heq | hlt
  · have hlimit : st.exec.nextIncomingBroadcastId ≤ limit := heq ▸ h.nextIncoming_le
    exact ⟨hspec.step (h.running hrun) hadv hlimit, hlimit, heq ▸ h.received⟩
  · have hcan := hround (hcompletes hlt)
    have hlimit : st.exec.nextIncomingBroadcastId ≤ limit := Nat.le_trans hin hcan.lt_limit
    exact ⟨hspec.step (h.running hrun) hadv hlimit, hlimit, fun _ => hcan.others⟩

/-- The turn is the one that the agent takes on what it sees. -/
theorem TakesTurn.eq_of_view {incoming : List AgentRequest} {outgoing : List AgentMessage}
    (h : TakesTurn poll s echoTx now a a' turn)
    (hview : agentView s echoTx now = some (incoming, outgoing)) :
    a' = (poll a incoming outgoing).1 ∧ turn = (poll a incoming outgoing).2 := by
  cases h with
  | agent hsome =>
      cases hview.symm.trans hsome
      exact ⟨rfl, rfl⟩
  | idle hnone => cases hview.symm.trans hnone

/-- A poll keeps the ledger. -/
theorem PartyLedger.pending (hspec : AgentSpec n limit direct poll I)
    (h : PartyLedger n limit direct I sessionId others d a s) (hc : Completion s)
    (hone : releasesTwo s = false)
    (hround : completes s s.nextIncomingBroadcastId = true → Completable limit others s)
    (hturn : TakesTurn poll s echoTx now a a' turn) {st : PollState P ρ κ}
    (hpoll : s.poll echoTx now turn = .pending st) :
    PartyLedger n limit direct I sessionId others d a' st.exec := by
  cases hrun : s.agentFuture with
  | false =>
      -- the agent has returned: what it left is still sent
      obtain ⟨⟨new, htaken⟩, hincomplete, hgone, hsession⟩ :=
        pending_of_finished hc hrun h.accepted hpoll
      have htaken' := h.outgoing.takeOutgoing
      refine ⟨htaken.n.trans h.size, hsession.trans h.session, ?_, hincomplete, ?_, ?_, ?_, ?_⟩
      · intro m hm
        rw [htaken.fromNetwork] at hm
        unfold accepts
        rw [hsession]
        exact h.accepted m (List.mem_of_mem_tail hm)
      · rw [htaken.nextIncoming]
        exact h.nextIncoming_le
      · rw [htaken.nextIncoming]
        exact h.received
      · have hfrom : (channels st.exec).fromProtocol = (channels s).takeOutgoing.fromProtocol :=
          htaken.fromProtocol
        have hnext : (channels st.exec).nextOutgoing = (channels s).takeOutgoing.nextOutgoing :=
          htaken.nextOutgoing
        have hin : (channels st.exec).nextIncoming = (channels s).takeOutgoing.nextIncoming :=
          htaken.nextIncoming
        refine ⟨?_, ?_, ?_, ?_⟩
        · rw [hfrom]
          exact htaken'.fits
        · rw [hfrom, hnext]
          exact htaken'.le_limit
        · rw [hfrom, hnext, hin]
          exact htaken'.after_first
        · rw [hfrom]
          exact htaken'.direct
      · rw [hgone]
        nofun
  | true =>
      -- the stages before the agent do not depend on its turn
      obtain ⟨result, hstages, hresult⟩ := poll_running echoTx now hc hrun h.accepted
      have hview := agentView_of_running hrun h.accepted (hresult idleTurn)
      rw [hresult turn] at hpoll
      cases result with
      | error why => cases hpoll
      | ok st₁ =>
          cases hpoll
          obtain ⟨hadv, hincomplete, _, hnet⟩ := stages_ok h.incomplete hone hstages
          obtain ⟨hpolled, hlimit, hothers⟩ := h.polled hspec hone hround hrun hstages
          have hframe := frame_stages hstages
          obtain ⟨rfl, rfl⟩ := hturn.eq_of_view hview
          generalize poll a st₁.exec.toProtocol st₁.exec.fromProtocol = polled at hpolled ⊢
          obtain ⟨hn, hsession, hqueue, hnext, hcomplete, hgoesOn⟩ :=
            pollAgent_keeps now polled.2 st₁
          have hsession : (pollAgent now polled.2 st₁).exec.sessionId = s.sessionId :=
            hsession.trans hframe.sessionId
          refine ⟨hn.trans (hframe.n.trans h.size), hsession.trans h.session, ?_,
            fun hround => hincomplete (hcomplete.mp hround), ?_, ?_, ?_, ?_⟩
          · intro m hm
            rw [hqueue, hnet] at hm
            unfold accepts
            rw [hsession]
            exact h.accepted m (List.mem_of_mem_tail hm)
          · rw [hnext]
            exact hlimit
          · rw [hnext]
            exact hothers
          · rw [channels_pollAgent]
            exact hpolled.outgoing
          · rw [channels_pollAgent]
            exact fun hopen => hpolled.goesOn (hgoesOn hopen)

/-- A poll never finds the agent's channel full. -/
theorem PartyLedger.poll_ne_full (hspec : AgentSpec n limit direct poll I)
    (h : PartyLedger n limit direct I sessionId others d a s) (hd : d ≤ n - 1)
    (hc : Completion s) (hone : releasesTwo s = false)
    (hround : completes s s.nextIncomingBroadcastId = true → Completable limit others s) :
    s.poll echoTx now turn ≠ .panic .applicationChannelFull := by
  intro hfull
  have hrun := agentFuture_of_full hc hfull
  obtain ⟨result, hstages, hresult⟩ := poll_running echoTx now hc hrun h.accepted
  rw [hresult turn] at hfull
  cases result with
  | ok st => cases hfull
  | error why =>
      cases hfull
      rcases stages_full h.incomplete hone hstages with ⟨hpos, hlength⟩ | ⟨hcompletes, hne⟩
      · have hroom := hspec.room (h.running hrun) hd hpos
        rw [h.size] at hlength
        exact absurd hlength (Nat.not_le.mpr hroom)
      · have hcan := hround hcompletes
        exact hne (hspec.empty (h.running hrun) hcan.lt_limit hcan.own)

/-- The agent's outgoing channel has room for its turn. -/
theorem PartyLedger.roomFor (hspec : AgentSpec n limit direct poll I)
    (h : PartyLedger n limit direct I sessionId others d a s) (hc : Completion s)
    (hone : releasesTwo s = false)
    (hround : completes s s.nextIncomingBroadcastId = true → Completable limit others s)
    (hturn : TakesTurn poll s echoTx now a a' turn) :
    WrapExecution.roomFor s turn = true := by
  refine decide_eq_true ?_
  rw [h.size]
  have hidle : s.fromProtocol.tail.length ≤ n - 1 := by
    rw [List.length_tail]
    exact Nat.le_trans (Nat.sub_le _ _) h.outgoing.fits
  cases hturn with
  | idle _ => exact hidle
  | @agent incoming outgoing hsome =>
      have hrun : s.agentFuture = true := by
        unfold agentView at hsome
        split at hsome
        · rename_i hcond
          exact (Bool.and_eq_true_iff.mp hcond).1
        · cases hsome
      obtain ⟨result, hstages, hresult⟩ := poll_running echoTx now hc hrun h.accepted
      have hview := agentView_of_running hrun h.accepted (hresult idleTurn)
      rw [hview] at hsome
      cases result with
      | error why => cases hsome
      | ok st =>
          cases hsome
          obtain ⟨hadv, _⟩ := stages_ok h.incomplete hone hstages
          have hfrom : st.exec.fromProtocol = s.fromProtocol.tail := hadv.takeOutgoing.1
          have hfits := (h.polled hspec hone hround hrun hstages).1.outgoing.fits
          have hfits : (st.exec.fromProtocol ++ _).length ≤ n - 1 := hfits
          rw [List.length_append] at hfits
          rw [← hfrom]
          exact hfits

end Party

end FrostMpcTss.Proofs
