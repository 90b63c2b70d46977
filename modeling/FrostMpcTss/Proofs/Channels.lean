import FrostMpcTss.Proofs.Execution
import FrostMpcTss.Session.AgentNet

/-!
# `FrostMpcTss.Proofs.Channels`: the channels between execution and agent

`Channels` is what matters of an execution for the room in its channels.
`Advances` says what a poll can do to them before the agent is polled:
one own message is taken, and a direct message, a complete round or
nothing is added for the agent.

A poll goes on to the agent with the channels advanced (`stages_ok`), or
it panics on a full channel for one of two reasons (`stages_full`). Both
hold as long as the poll does not release two rounds (`releasesTwo`):
the message it takes completes a round, and the round after it is
complete already.
-/

set_option autoImplicit false

namespace FrostMpcTss.Proofs

open Lib Network Service FrostMpcTss.Session
open Service.ProtocolExecution

/-- The channels of an agent, the counters of the broadcasts, and how
many direct messages wait in the network's channel. -/
structure Channels where
  toProtocol : List AgentRequest
  fromProtocol : List AgentMessage
  nextOutgoing : Nat
  nextIncoming : Nat
  directs : Nat

/-- How many of the messages are broadcasts. -/
def broadcasts (messages : List AgentMessage) : Nat :=
  messages.countP (·.recipient.isNone)

/-- One message of the agent is taken. -/
def Channels.takeOutgoing (c : Channels) : Channels :=
  { c with
      fromProtocol := c.fromProtocol.tail
      nextOutgoing := c.nextOutgoing + broadcasts (c.fromProtocol.take 1) }

/-- The turn of the agent is applied. -/
def Channels.apply (c : Channels) (turn : AgentTurn) : Channels :=
  { c with
      toProtocol := c.toProtocol.drop turn.received
      fromProtocol := c.fromProtocol ++ turn.sent }

/-- What a poll does to the channels before the agent is polled. -/
inductive Advances (n : Nat) (c : Channels) : Channels → Prop where
  | quiet : Advances n c c.takeOutgoing
  | direct {req : AgentRequest} : 0 < c.directs → req.recipient.isSome = true →
      Advances n c
        { c.takeOutgoing with
            toProtocol := c.toProtocol ++ [req]
            directs := c.directs - 1 }
  | round {reqs : List AgentRequest} : reqs.length = n - 1 →
      (∀ req ∈ reqs, req.recipient = none) →
      Advances n c
        { c.takeOutgoing with
            toProtocol := c.toProtocol ++ reqs
            nextIncoming := c.nextIncoming + 1 }

section Stages

variable {P ρ κ : Type} {now : Nat} {st : PollState P ρ κ} {s : ProtocolExecution P ρ κ}
  {echoTx : List (EchoMessage ρ)} {m : IncomingRequest P ρ}

/-- The channels of an execution. -/
def channels (s : ProtocolExecution P ρ κ) : Channels where
  toProtocol := s.toProtocol
  fromProtocol := s.fromProtocol
  nextOutgoing := s.nextOutgoingBroadcastId
  nextIncoming := s.nextIncomingBroadcastId
  directs := s.fromNetwork.countP (!·.isBroadcast)

/-- The buffer once the next message of the network has been taken. -/
def bufferAfterHead (s : ProtocolExecution P ρ κ) : PendingIncoming P ρ :=
  match s.fromNetwork with
  | [] => s.pendingIncoming
  | m :: _ =>
      if m.isBroadcast then
        s.pendingIncoming.insert (m.peerIndex + 1, m.context.messageId) m
      else s.pendingIncoming

/-- With the next message of the network the round of this id is
complete. -/
def completes (s : ProtocolExecution P ρ κ) (messageId : Nat) : Bool :=
  (readySenders (bufferAfterHead s) messageId).length = s.n - 1

/-- With the next message of the network both the current round and the
one after it are complete, so that the poll forwards them at once. -/
def releasesTwo (s : ProtocolExecution P ρ κ) : Bool :=
  completes s s.nextIncomingBroadcastId && completes s (s.nextIncomingBroadcastId + 1)

/-- The stages of a poll before the agent. -/
inductive Stages [DecidableEq P] (s : ProtocolExecution P ρ κ) (echoTx : List (EchoMessage ρ))
    (now : Nat) : Except Panic (PollState P ρ κ) → Prop where
  | outgoing {why : Panic} :
      takeOutgoing { exec := s, echoTx := echoTx, effects := [] } = .error why →
      Stages s echoTx now (.error why)
  | incoming {st : PollState P ρ κ} {m : IncomingRequest P ρ} {why : Panic} :
      TakesOutgoing { exec := s, echoTx := echoTx, effects := [] } st →
      st.exec.fromNetwork.head? = some m →
      takeIncoming now (withoutHead st) m = .error why → Stages s echoTx now (.error why)
  | forwards {st st' : PollState P ρ κ} {result : Except Panic (PollState P ρ κ)} :
      TakesOutgoing { exec := s, echoTx := echoTx, effects := [] } st → Intake now st st' →
      Forwards st' result → Stages s echoTx now result

/-- The poll once the stages before the agent are through. -/
def toAgent (now : Nat) (turn : AgentTurn) : Except Panic (PollState P ρ κ) → ExecPoll P ρ κ
  | .error why => .panic why
  | .ok st => .pending (pollAgent now turn st)

/-- The last stage with a running agent. -/
theorem finish_running {turn : AgentTurn} {st' : PollState P ρ κ}
    {result : Except Panic (PollState P ρ κ)} (hrun : st.exec.agentFuture = true)
    (hresult : st.exec.agentResult = none) (hdelay : st.exec.completionDelay = none)
    (hframe : Frame now st st') (hfwd : Forwards st' result) :
    finish now turn result = toAgent now turn result := by
  cases result with
  | error why => rfl
  | ok st₃ =>
      have hframe' := hframe.trans (frame_forwards now hfwd rfl)
      have hdelay' : st₃.exec.completionDelay = none := by
        rcases hframe'.completionDelay with heq | ⟨hsome, _⟩
        · rw [heq, hdelay]
        · rw [hresult] at hsome
          cases hsome
      show completeOrPollAgent now turn st₃ = _
      simp only [completeOrPollAgent, hdelay', hframe'.agentFuture, hrun, if_true, toAgent]

/-- The stages before the agent do not depend on its turn. -/
theorem poll_running [DecidableEq P] (echoTx : List (EchoMessage ρ)) (now : Nat) (hc : Completion s)
    (hrun : s.agentFuture = true) (hacc : ∀ m ∈ s.fromNetwork, s.accepts m = true) :
    ∃ result, Stages s echoTx now result ∧
      ∀ turn, s.poll echoTx now turn = toAgent now turn result := by
  have hresult : s.agentResult = none := by
    have h := hc.agentFuture
    rw [hrun] at h
    exact Option.isNone_iff_eq_none.mp h.symm
  -- while the agent runs there is no result and no quiet period
  have hdelay : s.completionDelay = none := by
    have h := hc.completionDelay
    rw [hresult] at h
    exact Option.isNone_iff_eq_none.mp (by rw [← Option.not_isSome, h]; rfl)
  unfold ProtocolExecution.poll
  cases hout : ProtocolExecution.takeOutgoing { exec := s, echoTx := echoTx, effects := [] } with
  | error why => exact ⟨.error why, .outgoing hout, fun _ => rfl⟩
  | ok st =>
      have htakes := takeOutgoing_eq_ok.mp hout
      have hframe := frame_takesOutgoing now htakes
      have hn : 2 ≤ st.exec.n := by
        rw [hframe.n]
        exact hc.two_le
      show ∃ result, _ ∧ ∀ turn, pollNetwork now turn st = _
      cases hq : st.exec.fromNetwork with
      | nil =>
          have hfwd := forwards_forwardBufferedMessages st hn
          refine ⟨_, .forwards htakes (.nothing hq) hfwd, fun turn => ?_⟩
          simp only [pollNetwork, hq]
          exact finish_running hrun hresult hdelay hframe hfwd
      | cons m rest =>
          have hsame : st.exec.fromNetwork = s.fromNetwork := by cases htakes <;> rfl
          have haccepts : st.exec.accepts m = true := by
            have h := hacc m (by rw [← hsame, hq]; exact List.mem_cons_self)
            unfold accepts at h ⊢
            rw [hframe.sessionId]
            exact h
          have hhead : st.exec.fromNetwork.head? = some m := by rw [hq]; rfl
          cases hin : takeIncoming now (withoutHead st) m with
          | error why =>
              refine ⟨.error why, .incoming htakes hhead hin, fun turn => ?_⟩
              simp only [pollNetwork, hq, haccepts, if_true, hin]
              rfl
          | ok st' =>
              have htakesIn := takeIncoming_eq_ok.mp hin
              have hframeIn := frame_takesIncoming htakesIn
              have hn' : 2 ≤ st'.exec.n := by
                rw [hframeIn.n]
                exact hn
              have hintake : Intake now st st' := .message hhead haccepts htakesIn
              have hfwd := forwards_forwardBufferedMessages st' hn'
              refine ⟨_, .forwards htakes hintake hfwd, fun turn => ?_⟩
              simp only [pollNetwork, hq, haccepts, if_true, hin, Except.ok_bind]
              exact finish_running hrun hresult hdelay (hframe.trans (frame_intake hintake)) hfwd

/-- The stages before the agent leave the session's data alone. -/
theorem frame_stages [DecidableEq P] (h : Stages s echoTx now (.ok st)) :
    Frame now { exec := s, echoTx := echoTx, effects := [] } st := by
  generalize hresult : (Except.ok st : Except Panic (PollState P ρ κ)) = result at h
  cases h with
  | outgoing _ => cases hresult
  | incoming _ _ _ => cases hresult
  | forwards hout hin hfwd =>
      exact ((frame_takesOutgoing now hout).trans (frame_intake hin)).trans
        (frame_forwards now hfwd hresult.symm)

/-- The first stage never finds the agent's channel full. -/
theorem takeOutgoing_ne_full [DecidableEq P] (st : PollState P ρ κ) :
    ProtocolExecution.takeOutgoing st ≠ .error .applicationChannelFull := by
  have hpred : ∀ a, predUnsigned a ≠ .error .applicationChannelFull := by
    intro a
    unfold predUnsigned
    split <;> nofun
  have hsucc : ∀ a, succU16 a ≠ .error .applicationChannelFull := by
    intro a
    unfold succU16
    split <;> nofun
  have hindex : ∀ (p : Peerset P) k, p.index k ≠ .error .applicationChannelFull := by
    intro p k
    unfold Peerset.index
    split <;> nofun
  have hecho : ∀ (st : PollState P ρ κ) m, echoTrySend st m ≠ .error .applicationChannelFull := by
    intro st m
    unfold echoTrySend
    split <;> nofun
  intro h
  unfold ProtocolExecution.takeOutgoing at h
  split at h
  · cases h
  · unfold sendOutgoing at h
    split at h
    · rcases Except.bind_eq_error.mp h with h | ⟨_, _, h⟩
      · exact hpred _ h
      · rcases Except.bind_eq_error.mp h with h | ⟨_, _, h⟩
        · exact hindex _ _ h
        · cases h
    · rcases Except.bind_eq_error.mp h with h | ⟨_, _, h⟩
      · exact hpred _ h
      · rcases Except.bind_eq_error.mp h with h | ⟨_, _, h⟩
        · exact hsucc _ h
        · exact hecho _ _ h

/-- The second stage finds it full only with a direct message. -/
theorem takeIncoming_eq_full (h : takeIncoming now st m = .error .applicationChannelFull) :
    st.exec.agentFuture = true ∧ m.isBroadcast = false ∧
      st.exec.n - 1 ≤ st.exec.toProtocol.length := by
  have hsucc : ∀ a, succU16 a ≠ .error .applicationChannelFull := by
    intro a
    unfold succU16
    split <;> nofun
  unfold takeIncoming at h
  cases hb : m.isBroadcast with
  | true =>
      rw [hb] at h
      rcases Except.bind_eq_error.mp h with h | ⟨_, _, h⟩
      · rcases Except.bind_eq_error.mp h with h | ⟨_, _, h⟩
        · exact absurd h (hsucc _)
        · cases h
      · cases h
  | false =>
      rw [hb] at h
      rcases Except.bind_eq_error.mp h with h | ⟨_, _, h⟩
      · rcases Except.bind_eq_error.mp h with h | ⟨_, _, h⟩
        · exact absurd h (hsucc _)
        · rcases Except.bind_eq_error.mp h with h | ⟨_, _, h⟩
          · exact absurd h (hsucc _)
          · rcases protocolTrySend_eq_error.mp h with ⟨_, hwhy⟩ | ⟨hopen, hfull, _⟩
            · cases hwhy
            · exact ⟨hopen, rfl, hfull⟩
      · cases h

/-- Nothing is forwarded before a round is complete. -/
theorem forwards_of_incomplete {result : Except Panic (PollState P ρ κ)}
    (h : ¬ RoundComplete st.exec) (hfwd : Forwards st result) : result = .ok st := by
  cases hfwd with
  | done _ => rfl
  | full hround _ _ => exact absurd hround h
  | round hround _ _ => exact absurd hround h

/-- One complete round, and the next one not. -/
theorem forwards_of_complete {result : Except Panic (PollState P ρ κ)} (h : RoundComplete st.exec)
    (hnext : ¬ RoundComplete (forwardRound st).exec) (hfwd : Forwards st result) :
    result = .ok (forwardRound st) ∨
      ∃ why, result = .error why ∧
        (why = .applicationChannelFull → st.exec.toProtocol ≠ []) := by
  cases hfwd with
  | done hround => exact absurd h hround
  | full _ _ hfull => exact .inr ⟨_, rfl, fun hwhy => (hfull hwhy).2⟩
  | round _ _ hrest => exact .inl (forwards_of_incomplete hnext hrest)

/-- Erasing one id leaves the senders of another. -/
theorem length_readySenders_foldl_erase {messageId messageId' : Nat} (hne : messageId' ≠ messageId)
    (round : List (Nat × IncomingRequest P ρ)) (pending : PendingIncoming P ρ) :
    (readySenders (round.foldl (fun pending r => pending.erase (r.1, messageId)) pending)
      messageId').length = (readySenders pending messageId').length := by
  refine (List.perm_ext_iff_of_nodup (nodup_readySenders _ _) (nodup_readySenders _ _)).mpr
    (fun sender => ?_) |>.length_eq
  rw [mem_readySenders, mem_readySenders, mem_foldl_erase hne]

theorem roundComplete_iff :
    RoundComplete s ↔
      (readySenders s.pendingIncoming s.nextIncomingBroadcastId).length = s.n - 1 := by
  unfold RoundComplete
  rw [length_readyRound]

/-- After a round the next one may be complete as well. -/
theorem roundComplete_forwardRound_iff :
    RoundComplete (forwardRound st).exec ↔
      (readySenders st.exec.pendingIncoming (st.exec.nextIncomingBroadcastId + 1)).length
        = st.exec.n - 1 := by
  rw [roundComplete_iff]
  show (readySenders (List.foldl _ st.exec.pendingIncoming _)
    (st.exec.nextIncomingBroadcastId + 1)).length = _ ↔ _
  rw [length_readySenders_foldl_erase (Nat.succ_ne_self _)]
  exact Iff.rfl

/-- The execution between the first two stages and the forwarding. -/
structure Taken (s : ProtocolExecution P ρ κ) (new : List AgentRequest)
    (s' : ProtocolExecution P ρ κ) : Prop where
  fromProtocol : s'.fromProtocol = s.fromProtocol.tail
  nextOutgoing : s'.nextOutgoingBroadcastId
    = s.nextOutgoingBroadcastId + broadcasts (s.fromProtocol.take 1)
  toProtocol : s'.toProtocol = s.toProtocol ++ new
  nextIncoming : s'.nextIncomingBroadcastId = s.nextIncomingBroadcastId
  pendingIncoming : s'.pendingIncoming = bufferAfterHead s
  fromNetwork : s'.fromNetwork = s.fromNetwork.tail
  n : s'.n = s.n

/-- Sending leaves the queues towards the agent alone. -/
theorem taken_takesOutgoing [DecidableEq P]
    (h : TakesOutgoing { exec := s, echoTx := echoTx, effects := [] } st) :
    st.exec.fromProtocol = s.fromProtocol.tail ∧
      st.exec.nextOutgoingBroadcastId
        = s.nextOutgoingBroadcastId + broadcasts (s.fromProtocol.take 1) ∧
      st.exec.toProtocol = s.toProtocol ∧
      st.exec.nextIncomingBroadcastId = s.nextIncomingBroadcastId ∧
      st.exec.pendingIncoming = s.pendingIncoming ∧
      st.exec.fromNetwork = s.fromNetwork ∧ st.exec.n = s.n := by
  cases h with
  | nothing hq =>
      have hq : s.fromProtocol = [] := hq
      refine ⟨?_, ?_, rfl, rfl, rfl, rfl, rfl⟩
      · show s.fromProtocol = _
        rw [hq]
        rfl
      · rw [hq]
        rfl
  | @direct m rest k peer hq hto _ =>
      have hq : s.fromProtocol = m :: rest := hq
      rw [hq]
      refine ⟨rfl, ?_, rfl, rfl, rfl, rfl, rfl⟩
      simp [sentDirect, broadcasts, hto]
  | @broadcast m rest hq hto _ _ _ =>
      have hq : s.fromProtocol = m :: rest := hq
      rw [hq]
      refine ⟨rfl, ?_, rfl, rfl, rfl, rfl, rfl⟩
      simp [sentBroadcast, broadcasts, hto]

/-- The first two stages: nothing new for the agent, or a direct
message. -/
theorem taken_intake [DecidableEq P] {st' : PollState P ρ κ}
    (hout : TakesOutgoing { exec := s, echoTx := echoTx, effects := [] } st)
    (hin : Intake now st st') :
    Taken s [] st'.exec ∧ (∀ m, s.fromNetwork.head? = some m → m.isBroadcast = true) ∨
      ∃ m req, s.fromNetwork.head? = some m ∧ m.isBroadcast = false ∧
        req.recipient.isSome = true ∧ Taken s [req] st'.exec := by
  obtain ⟨hfrom, hnext, hto, hinc, hpend, hnet, hn⟩ := taken_takesOutgoing hout
  have hrestart : ∀ st : PollState P ρ κ,
      (restartQuietPeriod now st).exec.fromProtocol = st.exec.fromProtocol ∧
      (restartQuietPeriod now st).exec.nextOutgoingBroadcastId
        = st.exec.nextOutgoingBroadcastId ∧
      (restartQuietPeriod now st).exec.toProtocol = st.exec.toProtocol ∧
      (restartQuietPeriod now st).exec.nextIncomingBroadcastId
        = st.exec.nextIncomingBroadcastId ∧
      (restartQuietPeriod now st).exec.pendingIncoming = st.exec.pendingIncoming ∧
      (restartQuietPeriod now st).exec.fromNetwork = st.exec.fromNetwork ∧
      (restartQuietPeriod now st).exec.n = st.exec.n := by
    intro st
    unfold restartQuietPeriod
    split <;> exact ⟨rfl, rfl, rfl, rfl, rfl, rfl, rfl⟩
  cases hin with
  | nothing hnil =>
      rw [hnet] at hnil
      refine .inl ⟨⟨hfrom, hnext, ?_, hinc, ?_, ?_, hn⟩, ?_⟩
      · rw [hto, List.append_nil]
      · rw [hpend, bufferAfterHead, hnil]
      · rw [hnet, hnil]
        rfl
      · rw [hnil]
        nofun
  | @message m st' hhead _ htakes =>
      rw [hnet] at hhead
      obtain ⟨rest, hqueue⟩ : ∃ rest, s.fromNetwork = m :: rest := by
        cases hs : s.fromNetwork with
        | nil =>
            rw [hs] at hhead
            cases hhead
        | cons m' rest =>
            rw [hs] at hhead
            cases hhead
            exact ⟨rest, rfl⟩
      cases htakes with
      -- a broadcast is buffered, and the agent gets nothing yet
      | broadcast hb _ =>
          obtain ⟨h₁, h₂, h₃, h₄, h₅, h₆, h₇⟩ := hrestart (bufferedBroadcast (withoutHead st) m)
          refine .inl ⟨⟨h₁.trans hfrom, h₂.trans hnext, ?_, h₄.trans hinc, ?_, ?_, h₇.trans hn⟩,
            ?_⟩
          · rw [h₃, List.append_nil]
            exact hto
          · rw [h₅, bufferAfterHead, hqueue]
            simp only [hb, if_true]
            show st.exec.pendingIncoming.insert _ m = _
            rw [hpend]
          · rw [h₆]
            show st.exec.fromNetwork.tail = _
            rw [hnet]
          · rw [hhead]
            rintro m' ⟨⟩
            exact hb
      -- a direct message goes straight to the agent
      | direct hb _ _ _ _ =>
          obtain ⟨h₁, h₂, h₃, h₄, h₅, h₆, h₇⟩ := hrestart (forwardedDirect (withoutHead st) m)
          refine .inr ⟨m, directRequest st.exec m, hhead, hb, rfl, ⟨h₁.trans hfrom,
            h₂.trans hnext, ?_, h₄.trans hinc, ?_, ?_, h₇.trans hn⟩⟩
          · rw [h₃]
            show st.exec.toProtocol ++ _ = _
            rw [hto]
            rfl
          · rw [h₅, bufferAfterHead, hqueue]
            simp only [hb, Bool.false_eq_true, if_false]
            exact hpend
          · rw [h₆]
            show st.exec.fromNetwork.tail = _
            rw [hnet]

theorem countP_directs_tail {queue : List (IncomingRequest P ρ)}
    (h : ∀ m, queue.head? = some m → m.isBroadcast = true) :
    queue.tail.countP (!·.isBroadcast) = queue.countP (!·.isBroadcast) := by
  cases queue with
  | nil => rfl
  | cons m rest =>
      rw [List.tail_cons, List.countP_cons_of_neg]
      simp [h m rfl]

theorem countP_directs_pos {queue : List (IncomingRequest P ρ)} (hm : queue.head? = some m)
    (hb : m.isBroadcast = false) :
    queue.countP (!·.isBroadcast) = queue.tail.countP (!·.isBroadcast) + 1 := by
  cases queue with
  | nil => cases hm
  | cons m' rest =>
      cases hm
      rw [List.tail_cons, List.countP_cons_of_pos]
      simp [hb]

/-- The round that is complete after the first two stages. -/
theorem Taken.roundComplete_iff {s' : ProtocolExecution P ρ κ} {new : List AgentRequest}
    (h : Taken s new s') : RoundComplete s' ↔ completes s s.nextIncomingBroadcastId = true := by
  rw [Proofs.roundComplete_iff, h.pendingIncoming, h.nextIncoming, h.n]
  exact decide_eq_true_iff.symm

/-- A direct message completes no round. -/
theorem completes_of_direct (hm : s.fromNetwork.head? = some m) (hb : m.isBroadcast = false)
    (hincomplete : ¬ RoundComplete s) : completes s s.nextIncomingBroadcastId = false := by
  rw [roundComplete_iff] at hincomplete
  refine decide_eq_false ?_
  cases hq : s.fromNetwork with
  | nil =>
      rw [hq] at hm
      cases hm
  | cons m' rest =>
      rw [hq] at hm
      cases hm
      simp only [bufferAfterHead, hq, hb, Bool.false_eq_true, if_false]
      exact hincomplete

/-- The message of another party was a direct one, so the round is as it was. -/
theorem Taken.not_roundComplete {s' : ProtocolExecution P ρ κ} {new : List AgentRequest}
    (h : Taken s new s') (hm : s.fromNetwork.head? = some m) (hb : m.isBroadcast = false)
    (hincomplete : ¬ RoundComplete s) : ¬ RoundComplete s' := by
  rw [h.roundComplete_iff, completes_of_direct hm hb hincomplete]
  exact Bool.false_ne_true

/-- The round behind the one that is released. -/
theorem Taken.roundComplete_forwardRound_iff {new : List AgentRequest} (h : Taken s new st.exec) :
    RoundComplete (forwardRound st).exec ↔ completes s (s.nextIncomingBroadcastId + 1) = true := by
  rw [Proofs.roundComplete_forwardRound_iff, h.pendingIncoming, h.nextIncoming, h.n]
  exact decide_eq_true_iff.symm

/-- One message does not complete two rounds. -/
theorem Taken.not_roundComplete_forwardRound {new : List AgentRequest} (h : Taken s new st.exec)
    (hone : releasesTwo s = false) (hcompletes : completes s s.nextIncomingBroadcastId = true) :
    ¬ RoundComplete (forwardRound st).exec := by
  rw [h.roundComplete_forwardRound_iff]
  intro hnext
  rw [releasesTwo, hcompletes, hnext] at hone
  cases hone

/-- The channels before the forwarding. -/
theorem Taken.channels_eq {s' : ProtocolExecution P ρ κ} {new : List AgentRequest}
    (h : Taken s new s') :
    channels s' = { (channels s).takeOutgoing with
      toProtocol := s.toProtocol ++ new
      directs := s.fromNetwork.tail.countP (!·.isBroadcast) } := by
  unfold channels
  rw [h.toProtocol, h.fromProtocol, h.nextOutgoing, h.nextIncoming, h.fromNetwork]
  rfl

/-- A poll that goes on to the agent. -/
theorem stages_ok [DecidableEq P] (hincomplete : ¬ RoundComplete s) (hone : releasesTwo s = false)
    (h : Stages s echoTx now (.ok st)) :
    Advances s.n (channels s) (channels st.exec) ∧ ¬ RoundComplete st.exec ∧
      (s.nextIncomingBroadcastId < st.exec.nextIncomingBroadcastId →
        completes s s.nextIncomingBroadcastId = true) ∧
      st.exec.fromNetwork = s.fromNetwork.tail := by
  generalize hresult : (Except.ok st : Except Panic (PollState P ρ κ)) = result at h
  cases h with
  | outgoing _ => cases hresult
  | incoming _ _ _ => cases hresult
  | @forwards st₁ st₂ result hout hin hfwd =>
      subst hresult
      rcases taken_intake hout hin with ⟨htaken, hbroadcast⟩ | ⟨m, req, hm, hb, hreq, htaken⟩
      · have hchannels := htaken.channels_eq
        rw [countP_directs_tail hbroadcast, List.append_nil] at hchannels
        by_cases hcomplete : RoundComplete st₂.exec
        · -- the message completed the round, and the next one is not complete
          have hcompletes := htaken.roundComplete_iff.mp hcomplete
          have hnext := htaken.not_roundComplete_forwardRound hone hcompletes
          rcases forwards_of_complete hcomplete hnext hfwd with heq | ⟨_, heq, _⟩
          · cases heq
            refine ⟨?_, hnext, fun _ => hcompletes, htaken.fromNetwork⟩
            show Advances s.n (channels s)
              { channels st₂.exec with
                  toProtocol := (channels st₂.exec).toProtocol
                    ++ (readyRound st₂.exec).map broadcastRequest
                  nextIncoming := (channels st₂.exec).nextIncoming + 1 }
            rw [hchannels]
            refine .round ?_ ?_
            · rw [List.length_map, ← htaken.n]
              exact hcomplete
            · intro req hreq
              obtain ⟨r, _, rfl⟩ := List.mem_map.mp hreq
              rfl
          · cases heq
        · cases forwards_of_incomplete hcomplete hfwd
          refine ⟨?_, hcomplete, fun hlt => ?_, htaken.fromNetwork⟩
          · rw [hchannels]
            exact .quiet
          · rw [htaken.nextIncoming] at hlt
            exact absurd hlt (Nat.lt_irrefl _)
      · have hincomplete₂ := htaken.not_roundComplete hm hb hincomplete
        cases forwards_of_incomplete hincomplete₂ hfwd
        have hpos := countP_directs_pos hm hb
        refine ⟨?_, hincomplete₂, fun hlt => ?_, htaken.fromNetwork⟩
        · have hdirects : s.fromNetwork.tail.countP (!·.isBroadcast)
              = (channels s).directs - 1 := by
            show _ = s.fromNetwork.countP _ - 1
            omega
          rw [htaken.channels_eq, hdirects]
          refine .direct ?_ hreq
          show 0 < s.fromNetwork.countP _
          omega
        · rw [htaken.nextIncoming] at hlt
          exact absurd hlt (Nat.lt_irrefl _)

/-- A poll that finds the agent's channel full. -/
theorem stages_full [DecidableEq P] (hincomplete : ¬ RoundComplete s) (hone : releasesTwo s = false)
    (h : Stages s echoTx now (.error .applicationChannelFull)) :
    (0 < (channels s).directs ∧ s.n - 1 ≤ s.toProtocol.length) ∨
      (completes s s.nextIncomingBroadcastId = true ∧ s.toProtocol ≠ []) := by
  generalize hresult : (Except.error .applicationChannelFull :
    Except Panic (PollState P ρ κ)) = result at h
  cases h with
  | outgoing hout =>
      cases hresult
      exact absurd hout (takeOutgoing_ne_full _)
  | @incoming st m why hout hhead hin =>
      cases hresult
      obtain ⟨_, _, hto, _, _, hnet, hn⟩ := taken_takesOutgoing hout
      obtain ⟨_, hb, hfull⟩ := takeIncoming_eq_full hin
      rw [hnet] at hhead
      have hpos := countP_directs_pos hhead hb
      refine .inl ⟨?_, ?_⟩
      · show 0 < s.fromNetwork.countP _
        omega
      · rw [← hto, ← hn]
        exact hfull
  | @forwards st₁ st₂ result hout hin hfwd =>
      subst hresult
      rcases taken_intake hout hin with ⟨htaken, _⟩ | ⟨m, req, hm, hb, _, htaken⟩
      · by_cases hcomplete : RoundComplete st₂.exec
        · have hcompletes := htaken.roundComplete_iff.mp hcomplete
          refine .inr ⟨hcompletes, ?_⟩
          have hnext := htaken.not_roundComplete_forwardRound hone hcompletes
          rcases forwards_of_complete hcomplete hnext hfwd with heq | ⟨why, heq, hfull⟩
          · cases heq
          · cases heq
            have hne := hfull rfl
            rw [htaken.toProtocol, List.append_nil] at hne
            exact hne
        · cases forwards_of_incomplete hcomplete hfwd
      · cases forwards_of_incomplete (htaken.not_roundComplete hm hb hincomplete) hfwd

/-- A poll that releases two rounds panics: the second does not fit
behind the first. -/
theorem stages_error_of_releasesTwo [DecidableEq P] {result : Except Panic (PollState P ρ κ)}
    (hn : 2 ≤ s.n) (hincomplete : ¬ RoundComplete s) (htwo : releasesTwo s = true)
    (h : Stages s echoTx now result) : ∃ why, result = .error why := by
  obtain ⟨hfirst, hsecond⟩ := Bool.and_eq_true_iff.mp htwo
  cases h with
  | outgoing _ => exact ⟨_, rfl⟩
  | incoming _ _ _ => exact ⟨_, rfl⟩
  | @forwards st₁ st₂ _ hout hin hfwd =>
      rcases taken_intake hout hin with ⟨htaken, _⟩ | ⟨m, req, hm, hb, _, _⟩
      · have hcomplete := htaken.roundComplete_iff.mpr hfirst
        have hnext := htaken.roundComplete_forwardRound_iff.mpr hsecond
        cases hfwd with
        | done hround => exact absurd hcomplete hround
        | full _ _ _ => exact ⟨_, rfl⟩
        | round _ _ hrest =>
            cases hrest with
            | done hround => exact absurd hnext hround
            | full _ _ _ => exact ⟨_, rfl⟩
            | round _ hroom _ =>
                -- the first round alone fills the channel
                have hlength : st₂.exec.n - 1 = 0 ∨ (st₂.exec.toProtocol
                    ++ (readyRound st₂.exec).map broadcastRequest).length
                      + (st₂.exec.n - 1) ≤ st₂.exec.n - 1 := hroom.agent
                have hround : (readyRound st₂.exec).length = st₂.exec.n - 1 := hcomplete
                have hsize := htaken.n
                rw [List.length_append, List.length_map, hround] at hlength
                omega
      · rw [completes_of_direct hm hb hincomplete] at hfirst
        cases hfirst

end Stages

end FrostMpcTss.Proofs
