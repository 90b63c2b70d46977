import FrostMpcTss.Lib.Transition
import FrostMpcTss.Proofs.Execution
import FrostMpcTss.Service.Codecs

/-!
# `FrostMpcTss.Proofs.AfterCompletion`: messages for a finished agent

When the agent returns, its receiver is gone, and every `try_send`
into `to_protocol` fails from then on. The execution goes on taking
messages for the quiet period. `execStep` is the execution among its
channels: messages arrive, the echo gadget takes messages away, and
the execution is polled.

`poll_finished` says what a poll does once the agent has finished. It
panics if and only if it forwards something: a direct message, or the
last missing broadcast of the round under the current id. (Or if a
message the agent left behind cannot be sent.) All other polls keep
the agent's result, and the first quiet one past the deadline reports
it. `completion_iff` is the statement over whole runs.
-/

set_option autoImplicit false

namespace FrostMpcTss.Proofs

open Lib Network Service
open Service.ProtocolExecution

/-- An execution among its channels. -/
inductive ExecState (P ρ κ : Type) where
  | running (s : ProtocolExecution P ρ κ) (echoTx : List (EchoMessage ρ))
  | returned (result : Except Error Unit) (effects : List (Effect P ρ κ))
  | panicked (why : Panic)

/-- What happens to an execution: a message arrives, the gadget takes
a message, or it is polled. -/
inductive ExecLabel (P ρ : Type) where
  | deliver (m : IncomingRequest P ρ)
  | takeEcho
  | poll (now : Nat) (turn : AgentTurn)

section

variable {P ρ κ : Type} {s : ProtocolExecution P ρ κ} {echoTx : List (EchoMessage ρ)}
  {r : AgentResult}

/-- One step of an execution. -/
def execStep [DecidableEq P] : ExecState P ρ κ → ExecLabel P ρ → Option (ExecState P ρ κ)
  | .running s echoTx, .deliver m =>
      some (.running { s with fromNetwork := s.fromNetwork ++ [m] } echoTx)
  | .running _ [], .takeEcho => none
  | .running s (_ :: rest), .takeEcho => some (.running s rest)
  | .running s echoTx, .poll now turn =>
      match s.poll echoTx now turn with
      | .pending st => some (.running st.exec st.echoTx)
      | .ready result _ effects => some (.returned result effects)
      | .panic why => some (.panicked why)
  | .returned _ _, _ => none
  | .panicked _, _ => none

/-- The message the agent left at the head of its channel can be sent. -/
def Sendable (s : ProtocolExecution P ρ κ) (echoTx : List (EchoMessage ρ)) : Prop :=
  ∀ m, s.fromProtocol.head? = some m →
    match m.recipient with
    | some k => 1 ≤ k ∧ k ≤ s.peerset.peers.length
    | none => s.i + 1 < 2 ^ 16 ∧ echoTx.length ≤ s.peerset.size

/-- The execution with a broadcast in its buffer. -/
def buffering (s : ProtocolExecution P ρ κ) (m : IncomingRequest P ρ) :
    ProtocolExecution P ρ κ :=
  { s with
      pendingIncoming :=
        s.pendingIncoming.insert (m.peerIndex + 1, m.context.messageId) m }

/-- The message at the head of the network's queue is of another
session, or a broadcast that does not complete the current round. -/
def Unforwarded (s : ProtocolExecution P ρ κ) : Prop :=
  match s.fromNetwork.head? with
  | none => ¬ RoundComplete s
  | some m => s.accepts m = true →
      m.isBroadcast = true ∧ m.peerIndex + 1 < 2 ^ 16 ∧ ¬ RoundComplete (buffering s m)

/-- A poll that forwards nothing. -/
def HarmlessPoll (s : ProtocolExecution P ρ κ) (echoTx : List (EchoMessage ρ)) : Prop :=
  Sendable s echoTx ∧ Unforwarded s

/-- What the execution returns for the agent's result. -/
def reported : AgentResult → Except Error Unit
  | .ok _ => .ok ()
  | .error e => .error (.internalError e)

/-- The agent's result `r` is still there, or has been reported
exactly: as the execution's own result, and once to the RPC caller if
there is one. -/
def Handled (r : AgentResult) (pendingResponse : Option κ) : ExecState P ρ κ → Prop
  | .running s _ => s.agentResult = some r ∧ s.agentFuture = false
  | .returned result effects =>
      result = reported r ∧ answersIn effects = pendingResponse.toList.map fun tx => (tx, r)
  | .panicked _ => False

/-- `Sendable` says when the outgoing half of a poll succeeds. -/
theorem sendable_iff [DecidableEq P] (s : ProtocolExecution P ρ κ)
    (echoTx : List (EchoMessage ρ)) (effects : List (Effect P ρ κ)) (hn : 2 ≤ s.n) :
    Sendable s echoTx ↔
      ∃ st, TakesOutgoing { exec := s, echoTx := echoTx, effects := effects } st := by
  unfold Sendable
  cases hq : s.fromProtocol with
  | nil => exact ⟨fun _ => ⟨_, .nothing hq⟩, fun _ m hm => by cases hm⟩
  | cons m rest =>
      constructor
      · intro h
        have hm := h m rfl
        cases hto : m.recipient with
        | some k =>
            rw [hto] at hm
            have hk : k - 1 < s.peerset.peers.length := by omega
            have hto' : m.recipient = some (k - 1 + 1) := by
              rw [hto, Nat.sub_add_cancel hm.1]
            exact ⟨_, .direct hq hto' (List.getElem?_eq_getElem hk)⟩
        | none =>
            rw [hto] at hm
            exact ⟨_, .broadcast hq hto (Nat.lt_of_lt_of_le Nat.two_pos hn) hm.1
              (Nat.lt_succ_of_le hm.2)⟩
      · rintro ⟨st, h⟩ m' hm'
        cases hm'
        rcases h with h | ⟨hq', hto, hpeer⟩ | ⟨hq', hto, _, hi, hecho⟩
        · rw [hq] at h
          cases h
        · rw [hq] at hq'
          cases hq'
          rw [hto]
          have hlt := (List.getElem?_eq_some_iff.mp hpeer).1
          exact ⟨Nat.succ_pos _, hlt⟩
        · rw [hq] at hq'
          cases hq'
          rw [hto]
          exact ⟨hi, Nat.le_of_lt_succ hecho⟩

/-- The first stage leaves the network's queue and the buffer alone. -/
theorem unforwarded_takesOutgoing [DecidableEq P] {st st' : PollState P ρ κ}
    (h : TakesOutgoing st st') : Unforwarded st'.exec ↔ Unforwarded st.exec := by
  cases h with
  | nothing _ => exact Iff.rfl
  | direct _ _ _ => exact Iff.rfl
  | broadcast _ _ _ _ _ => exact Iff.rfl

/-- With the agent gone, the intake completes the round exactly if its
message would have to be forwarded. -/
theorem unforwarded_iff_of_intake {now : Nat} {st st' : PollState P ρ κ}
    (hgone : st.exec.agentFuture = false) (h : Intake now st st') :
    Unforwarded st.exec ↔ ¬ RoundComplete st'.exec := by
  unfold Unforwarded
  cases h with
  | nothing hnil =>
      rw [hnil]
      exact Iff.rfl
  | @message m st' hhead hacc htakes =>
      rw [hhead]
      cases htakes with
      | broadcast hb hindex =>
          have hsame : RoundComplete
              (restartQuietPeriod now (bufferedBroadcast (withoutHead st) m)).exec ↔
              RoundComplete (buffering st.exec m) := by
            unfold restartQuietPeriod
            split <;> exact Iff.rfl
          rw [hsame]
          exact ⟨fun h => (h hacc).2.2, fun h _ => ⟨hb, hindex, h⟩⟩
      | direct _ _ _ hopen _ =>
          have hopen' : st.exec.agentFuture = true := hopen
          rw [hgone] at hopen'
          cases hopen'

/-- The report is the only answer. -/
theorem answersIn_report (st : PollState P ρ κ) (r : AgentResult)
    (h : answersIn st.effects = []) :
    ∃ effects, report st r = .ready (reported r) st.echoTx effects ∧
      answersIn effects = st.exec.pendingResponse.toList.map fun tx => (tx, r) := by
  unfold report
  cases st.exec.pendingResponse with
  | none =>
      cases r with
      | ok _ => exact ⟨st.effects, rfl, h⟩
      | error _ => exact ⟨st.effects, rfl, h⟩
  | some tx =>
      have hlast : answersIn (st.effects ++ [.answered tx r]) = [(tx, r)] := by
        rw [answersIn_append, h]
        rfl
      cases r with
      | ok _ => exact ⟨_, rfl, hlast⟩
      | error _ => exact ⟨_, rfl, hlast⟩

/-- What a poll of a finished execution may leave behind. -/
inductive KeepsResult (s : ProtocolExecution P ρ κ) (now : Nat) (r : AgentResult) :
    ExecPoll P ρ κ → Prop where
  | pending {st : PollState P ρ κ} : st.exec.agentResult = some r → Completion st.exec →
      st.exec.pendingResponse = s.pendingResponse →
      (s.fromNetwork = [] → ∀ deadline, s.completionDelay = some deadline → now < deadline) →
      KeepsResult s now r (.pending st)
  | ready {echoTx : List (EchoMessage ρ)} {effects : List (Effect P ρ κ)} :
      answersIn effects = s.pendingResponse.toList.map (fun tx => (tx, r)) →
      KeepsResult s now r (.ready (reported r) echoTx effects)

/-- A poll after completion panics exactly if it is not harmless, and
otherwise keeps the agent's result or reports it. -/
theorem poll_finished [DecidableEq P] (now : Nat) (turn : AgentTurn) (hc : Completion s)
    (hr : s.agentResult = some r) :
    (HarmlessPoll s echoTx ∧ KeepsResult s now r (s.poll echoTx now turn)) ∨
    (¬ HarmlessPoll s echoTx ∧ ∃ why, s.poll echoTx now turn = .panic why) := by
  have hgone : s.agentFuture = false := by rw [hc.agentFuture, hr]; rfl
  have hpolls := polls_poll s echoTx now turn hc.two_le
  generalize s.poll echoTx now turn = result at hpolls
  cases hpolls with
  | outgoingPanics hout =>
      refine .inr ⟨fun h => ?_, _, rfl⟩
      obtain ⟨st, hst⟩ := (sendable_iff s echoTx [] hc.two_le).mp h.1
      rw [takeOutgoing_eq_ok.mpr hst] at hout
      cases hout
  | @refuses st m hout hhead hacc =>
      have hframe := frame_takesOutgoing now hout
      have hunf : Unforwarded st.exec := by
        unfold Unforwarded
        rw [hhead]
        intro hacc'
        rw [hacc] at hacc'
        cases hacc'
      refine .inl ⟨⟨(sendable_iff s echoTx [] hc.two_le).mpr ⟨st, hout⟩,
        (unforwarded_takesOutgoing hout).mp hunf⟩, ?_⟩
      have hc' : Completion st.exec := hc.of_frame hframe
      refine .pending (hframe.agentResult.trans hr)
        ⟨hc'.two_le, hc'.agentFuture, hc'.completionDelay⟩ hframe.pendingResponse fun hnil => ?_
      -- a refused message was in the queue
      have hqueue : st.exec.fromNetwork = s.fromNetwork := by cases hout <;> rfl
      rw [hqueue, hnil] at hhead
      cases hhead
  | @incomingPanics st m why hout hhead hacc hin =>
      refine .inr ⟨fun h => ?_, _, rfl⟩
      have hunf := (unforwarded_takesOutgoing hout).mpr h.2
      unfold Unforwarded at hunf
      rw [hhead] at hunf
      obtain ⟨hb, hindex, _⟩ := hunf hacc
      rw [takeIncoming_eq_ok.mpr (.broadcast hb hindex)] at hin
      cases hin
  | @forwards st st' result hout hintake hfwd =>
      have hframe := frame_takesOutgoing now hout
      have hframe' := hframe.trans (frame_intake hintake)
      have hc' : Completion st'.exec := hc.of_frame hframe'
      have hr' : st'.exec.agentResult = some r := hframe'.agentResult.trans hr
      have hsend := (sendable_iff s echoTx [] hc.two_le).mpr ⟨st, hout⟩
      have hqueue : st.exec.fromNetwork = s.fromNetwork := by cases hout <;> rfl
      have hgone' : st'.exec.agentFuture = false := hframe'.agentFuture.trans hgone
      have hround := (unforwarded_takesOutgoing hout).symm.trans
        (unforwarded_iff_of_intake (hframe.agentFuture.trans hgone) hintake)
      rcases forwards_of_finished hc'.two_le hgone' hfwd with ⟨hnot, rfl⟩ | ⟨hyes, why, rfl⟩
      · refine .inl ⟨⟨hsend, hround.mpr hnot⟩, ?_⟩
        have hcompletes := completes_completeOrPollAgent now turn st'
        show KeepsResult s now r (completeOrPollAgent now turn st')
        have hdelay : st'.exec.completionDelay.isSome = true := by
          rw [hc'.completionDelay, hr']
          rfl
        generalize completeOrPollAgent now turn st' = result at hcompletes
        cases hcompletes with
        | reports _ _ hr'' =>
            obtain rfl : r = _ := Option.some.inj (hr'.symm.trans hr'')
            obtain ⟨effects, hreport, heffects⟩ := answersIn_report st' r hframe'.answers
            rw [hreport]
            refine .ready ?_
            rw [heffects, hframe'.pendingResponse]
        | missing _ hnone =>
            rw [hr'] at hnone
            cases hnone
        | waits hd hearly =>
            refine .pending hr' hc' hframe'.pendingResponse fun hnil deadline hd' => ?_
            -- without a message the deadline is the one from before
            cases hintake with
            | nothing _ =>
                have hsame : st.exec.completionDelay = s.completionDelay := by
                  cases hout <;> rfl
                obtain rfl : deadline = _ := Option.some.inj
                  (hd'.symm.trans (hsame.symm.trans hd))
                exact hearly
            | message hhead _ _ =>
                rw [hqueue, hnil] at hhead
                cases hhead
        | agent hnone _ =>
            rw [hnone] at hdelay
            cases hdelay
        | idle hnone _ =>
            rw [hnone] at hdelay
            cases hdelay
      · exact .inr ⟨fun h => hround.mp h.2 hyes, why, rfl⟩

/-- Every step keeps the agent, its result and the deadline together. -/
theorem completion_execStep [DecidableEq P] {s' : ProtocolExecution P ρ κ}
    {echoTx' : List (EchoMessage ρ)} {l : ExecLabel P ρ} (hc : Completion s)
    (h : execStep (.running s echoTx) l = some (.running s' echoTx')) :
    Completion s' ∧ s'.pendingResponse = s.pendingResponse := by
  cases l with
  | deliver m =>
      cases h
      exact ⟨⟨hc.two_le, hc.agentFuture, hc.completionDelay⟩, rfl⟩
  | takeEcho =>
      cases echoTx with
      | nil => cases h
      | cons _ rest =>
          cases h
          exact ⟨hc, rfl⟩
  | poll now turn =>
      simp only [execStep] at h
      cases hpoll : s.poll echoTx now turn with
      | pending st =>
          rw [hpoll] at h
          cases h
          exact completion_poll hc hpoll
      | ready _ _ _ =>
          rw [hpoll] at h
          cases h
      | panic _ =>
          rw [hpoll] at h
          cases h

/-- What holds of the running states: the agent, its result and the
deadline belong together, and the RPC caller is the one of the start. -/
def Consistent (pendingResponse : Option κ) : ExecState P ρ κ → Prop
  | .running s _ => Completion s ∧ s.pendingResponse = pendingResponse
  | _ => True

/-- In every run a completed execution still has its result. -/
theorem consistent_of_reach [DecidableEq P] {sessionId : SessionId} {protocolId : Nat}
    {peerset : Peerset P} {pendingResponse : Option κ} {s₀ : ProtocolExecution P ρ κ}
    (hnew : ProtocolExecution.new sessionId protocolId peerset pendingResponse = .ok s₀)
    {t : ExecState P ρ κ} (h : Reach execStep Always (.running s₀ []) t) :
    Consistent pendingResponse t := by
  refine h.invariant (completion_new hnew) ?_
  intro t l t' ih _ hstep
  cases t with
  | running s echoTx =>
      cases t' with
      | running s' echoTx' =>
          have hkept := completion_execStep ih.1 hstep
          exact ⟨hkept.1, hkept.2.trans ih.2⟩
      | returned _ _ => trivial
      | panicked _ => trivial
  | returned _ _ => cases l <;> cases hstep
  | panicked _ => cases l <;> cases hstep

/-- One step of a finished execution: a poll that forwards something
panics, and every other step handles what comes. -/
theorem execStep_finished [DecidableEq P] {l : ExecLabel P ρ} {t : ExecState P ρ κ}
    (hc : Completion s) (hr : s.agentResult = some r)
    (h : execStep (.running s echoTx) l = some t) :
    ((∀ now turn, l = .poll now turn → HarmlessPoll s echoTx) ∧
      Handled r s.pendingResponse t) ∨
    ((∃ now turn, l = .poll now turn) ∧ ¬ HarmlessPoll s echoTx ∧ ∃ why, t = .panicked why) := by
  have hgone : s.agentFuture = false := by rw [hc.agentFuture, hr]; rfl
  cases l with
  | deliver m =>
      cases h
      exact .inl ⟨nofun, hr, hgone⟩
  | takeEcho =>
      cases echoTx with
      | nil => cases h
      | cons _ rest =>
          cases h
          exact .inl ⟨nofun, hr, hgone⟩
  | poll now turn =>
      simp only [execStep] at h
      rcases poll_finished now turn hc hr with ⟨hharmless, hkeeps⟩ | ⟨hnot, why, hpanic⟩
      · refine .inl ⟨fun _ _ _ => hharmless, ?_⟩
        generalize s.poll echoTx now turn = result at hkeeps h
        cases hkeeps with
        | pending hr' hc' _ _ =>
            cases h
            exact ⟨hr', by rw [hc'.agentFuture, hr']; rfl⟩
        | ready hanswers =>
            cases h
            exact ⟨rfl, hanswers⟩
      · rw [hpanic] at h
        cases h
        exact .inr ⟨⟨now, turn, rfl⟩, hnot, why, rfl⟩

/-- A poll always leads somewhere. -/
theorem execStep_poll_isSome [DecidableEq P] (s : ProtocolExecution P ρ κ)
    (echoTx : List (EchoMessage ρ)) (now : Nat) (turn : AgentTurn) :
    ∃ t, execStep (.running s echoTx) (.poll now turn) = some t := by
  simp only [execStep]
  cases s.poll echoTx now turn with
  | pending st => exact ⟨_, rfl⟩
  | ready result _ effects => exact ⟨_, rfl⟩
  | panic why => exact ⟨_, rfl⟩

/-- As long as the execution runs, it has the agent's result. -/
theorem agentResult_of_run [DecidableEq P] {pendingResponse : Option κ}
    {s' : ProtocolExecution P ρ κ} {echoTx' : List (EchoMessage ρ)}
    (hall : ∀ taken t, run execStep (.running s echoTx) taken = some t →
      Consistent pendingResponse t) (hdone : s.agentResult = some r) (ls : List (ExecLabel P ρ))
    (hrun : run execStep (.running s echoTx) ls = some (.running s' echoTx')) :
    s'.agentResult = some r := by
  induction ls using List.reverseRecOn generalizing s' echoTx' with
  | nil =>
      cases hrun
      exact hdone
  | append_singleton ls l ih =>
      rw [run_concat] at hrun
      obtain ⟨t, ht, hstep⟩ := Option.bind_eq_some_iff.mp hrun
      cases t with
      | running s₁ echoTx₁ =>
          have hc := hall ls _ ht
          rcases execStep_finished hc.1 (ih ht) hstep with ⟨_, hhandled⟩ | ⟨_, _, why, hwhy⟩
          · exact hhandled.1
          · cases hwhy
      | returned _ _ => cases l <;> cases hstep
      | panicked _ => cases l <;> cases hstep

/-- Messages after completion, over whole runs. Start from a reachable
state in which the agent has finished with result `r`, and let the
steps `ls` follow. No step panics and every report is exactly `r` if
and only if every poll among them is harmless in the state it finds.
And a state reached this way ends, by its next quiet poll past the
deadline, with exactly the agent's result. -/
theorem completion_iff [DecidableEq P] {sessionId : SessionId} {protocolId : Nat}
    {peerset : Peerset P} {pendingResponse : Option κ} {s₀ s : ProtocolExecution P ρ κ}
    {echoTx : List (EchoMessage ρ)} {r : AgentResult}
    (hnew : ProtocolExecution.new sessionId protocolId peerset pendingResponse = .ok s₀)
    (hreach : Reach execStep Always (.running s₀ []) (.running s echoTx))
    (hdone : s.agentResult = some r) (ls : List (ExecLabel P ρ)) :
    ((∀ taken t, taken <+: ls → run execStep (.running s echoTx) taken = some t →
        Handled r pendingResponse t) ↔
      ∀ taken now turn s' echoTx', taken ++ [.poll now turn] <+: ls →
        run execStep (.running s echoTx) taken = some (.running s' echoTx') →
        HarmlessPoll s' echoTx') ∧
    (∀ s' echoTx', run execStep (.running s echoTx) ls = some (.running s' echoTx') →
      HarmlessPoll s' echoTx' → s'.fromNetwork = [] →
      ∃ deadline, s'.completionDelay = some deadline ∧ ∀ now turn, deadline ≤ now →
        ∃ effects, execStep (.running s' echoTx') (.poll now turn)
            = some (.returned (reported r) effects) ∧
          answersIn effects = pendingResponse.toList.map fun tx => (tx, r)) := by
  have hall : ∀ taken t, run execStep (.running s echoTx) taken = some t →
      Consistent pendingResponse t :=
    fun taken t hrun => consistent_of_reach hnew (hreach.run taken hrun)
  refine ⟨⟨?_, ?_⟩, ?_⟩
  · intro h taken now turn s' echoTx' hpre hrun
    have hc := hall taken _ hrun
    have hr' := agentResult_of_run hall hdone taken hrun
    obtain ⟨t, ht⟩ := execStep_poll_isSome s' echoTx' now turn
    have hhandled := h _ t hpre (by rw [run_concat, hrun]; exact ht)
    rcases execStep_finished hc.1 hr' ht with ⟨hharmless, _⟩ | ⟨_, _, why, rfl⟩
    · exact hharmless now turn rfl
    · exact hhandled.elim
  · intro h taken
    -- the induction is on the steps taken, from the last one backwards
    induction taken using List.reverseRecOn with
    | nil =>
        intro t _ hrun
        cases hrun
        have hc := hall [] _ rfl
        exact ⟨hdone, by rw [hc.1.agentFuture, hdone]; rfl⟩
    | append_singleton taken l ih =>
        intro t hpre hrun
        rw [run_concat] at hrun
        obtain ⟨t₁, ht₁, hstep⟩ := Option.bind_eq_some_iff.mp hrun
        cases t₁ with
        | running s₁ echoTx₁ =>
            have hc := hall taken _ ht₁
            have hr₁ := agentResult_of_run hall hdone taken ht₁
            rcases execStep_finished hc.1 hr₁ hstep with
              ⟨_, hhandled⟩ | ⟨⟨now, turn, rfl⟩, hnot, _⟩
            · rw [hc.2] at hhandled
              exact hhandled
            · exact absurd (h taken now turn s₁ echoTx₁ hpre ht₁) hnot
        | returned _ _ => cases l <;> cases hstep
        | panicked _ => cases l <;> cases hstep
  · intro s' echoTx' hrun hharmless hnil
    have hc := hall ls _ hrun
    have hr' := agentResult_of_run hall hdone ls hrun
    obtain ⟨deadline, hd⟩ := Option.isSome_iff_exists.mp
      (hc.1.completionDelay.trans (by rw [hr']; rfl))
    refine ⟨deadline, hd, fun now turn hlate => ?_⟩
    rcases poll_finished now turn hc.1 hr' with ⟨_, hkeeps⟩ | ⟨hnot, _⟩
    · simp only [execStep]
      generalize s'.poll echoTx' now turn = result at hkeeps
      cases hkeeps with
      | pending _ _ _ hearly => exact absurd (hearly hnil deadline hd) (Nat.not_lt.mpr hlate)
      | ready hanswers => exact ⟨_, rfl, by rw [hanswers, hc.2]⟩
    · exact absurd hharmless hnot

end

section Runs

/-- A peerset of the first so many peers, seen by the first. -/
def firstPeers (size : UInt8) : Peerset Ed25519PeerId where
  localPeerId := .ofByte 1
  peers := (List.range size.toNat).map fun i => .ofByte (i + 1).toUInt8
  parties := (List.range size.toNat).map Nat.toUInt64

/-- A new execution over it. -/
def newExecution (size : UInt8) : ProtocolExecution Ed25519PeerId Nat Nat where
  sessionId := noSessionId
  protocolId := 1
  peerset := firstPeers size
  fromNetwork := []
  toProtocol := []
  fromProtocol := []
  agentFuture := true
  agentResult := none
  completionDelay := none
  pendingResponse := some 0
  nextOutgoingBroadcastId := 0
  nextIncomingBroadcastId := 0
  pendingIncoming := ∅
  i := 0
  n := size.toNat

/-- The agent returns an error when it is first polled, as `KeySign`
does when the wallet has no key share on this node. -/
def failsAtOnce : AgentTurn where
  received := 0
  sent := []
  result := some (.error "missing key share")

/-- The execution after that poll, at time zero. -/
def failedExecution (size : UInt8) : ProtocolExecution Ed25519PeerId Nat Nat :=
  { newExecution size with
      agentFuture := false
      agentResult := some (.error "missing key share")
      completionDelay := some 500 }

/-- The second peer's first broadcast. -/
def firstBroadcast : IncomingRequest Ed25519PeerId Nat where
  context :=
    { messageType := .computation, protocolId := 1, sessionId := noSessionId, messageId := 0 }
  peerId := .ofByte 2
  isBroadcast := true
  peerIndex := 1
  payload := [1]
  pendingResponse := 0

/-- Of three parties, the second one's broadcast arrives after the agent
has failed. It completes no round, so it is harmless, and after another
quiet period the execution reports the agent's error. -/
theorem completion_failedExecution :
    ∃ s echoTx effects, run execStep (.running (failedExecution 3) [])
        [.deliver firstBroadcast, .poll 1 failsAtOnce] = some (.running s echoTx) ∧
      execStep (.running s echoTx) (.poll 501 failsAtOnce)
        = some (.returned (.error (.internalError "missing key share")) effects) ∧
      answersIn effects = [(0, .error "missing key share")] := by
  have hnew : ProtocolExecution.new noSessionId 1 (firstPeers 3) (some 0)
      = .ok (newExecution 3) := rfl
  have hreach : Reach execStep Always (.running (newExecution 3) [])
      (.running (failedExecution 3) []) := reach_of_run [.poll 0 failsAtOnce] rfl
  have hcompletion := (completion_iff hnew hreach rfl
    [.deliver firstBroadcast, .poll 1 failsAtOnce]).2 _ _ rfl
  obtain ⟨deadline, hd, hreport⟩ :=
    hcompletion ⟨nofun, show ¬ (readyRound _).length = 2 by decide⟩ rfl
  cases hd
  obtain ⟨effects, hstep, hanswers⟩ := hreport 501 failsAtOnce (Nat.le_refl _)
  exact ⟨_, _, effects, rfl, hstep, hanswers⟩

/-- The other peer's first broadcast arrives after the agent has
failed. It completes the first round of two parties, the forwarding
finds the agent's channel closed, and the poll panics; nothing is sent
to the RPC caller. -/
theorem not_handled_firstBroadcast :
    ProtocolExecution.new noSessionId 1 (firstPeers 2) (some 0) = .ok (newExecution 2) ∧
    Reach execStep Always (.running (newExecution 2) []) (.running (failedExecution 2) []) ∧
    run execStep (.running (failedExecution 2) [])
        [.deliver firstBroadcast, .poll 1 failsAtOnce]
      = some (.panicked .applicationChannelClosed) ∧
    ¬ ∀ taken t, taken <+: [.deliver firstBroadcast, .poll 1 failsAtOnce] →
        run execStep (.running (failedExecution 2) []) taken = some t →
        Handled (.error "missing key share") (some 0) t := by
  have hpanic : run execStep (.running (failedExecution 2) [])
      [.deliver firstBroadcast, .poll 1 failsAtOnce]
      = some (.panicked .applicationChannelClosed) := rfl
  exact ⟨rfl, reach_of_run [.poll 0 failsAtOnce] rfl, hpanic,
    fun h => h _ _ List.prefix_rfl hpanic⟩

end Runs

end FrostMpcTss.Proofs
