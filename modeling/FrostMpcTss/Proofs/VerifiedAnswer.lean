import FrostMpcTss.Lib.Transition
import FrostMpcTss.Proofs.GadgetLedger
import FrostMpcTss.Service.Codecs

/-!
# `FrostMpcTss.Proofs.VerifiedAnswer`: answers and echo rounds

The execution answers the RPC caller when its quiet period is over.
The echo gadget is not asked, so the answer may leave while a round is
still being gathered or while its echoes are still on their way.

The gadget loses no message (`GadgetLedger`): one that entered its
channel is in the channel, in the gadget's map, in the group being
gathered, or in a hashed group, and a hashed group is verified or its
echoes are being read. If every poll that answers with a result finds
the gadget idle, only verified groups are left at that moment, and
`answeredVerified_of_idle` concludes that every message that had
entered was verified.
-/

set_option autoImplicit false

namespace FrostMpcTss.Proofs

open Lib Network Service
open Service.ProtocolExecution

section

variable {P ρ κ : Type} [Blake2s256] {w : WrapExecution P ρ κ} {s : ProtocolExecution P ρ κ}
  {n : Nat} {trace effects : List (Effect P ρ κ)}

/-- The round of the message has been verified: its group was hashed,
`n - 1` remote echoes came in, and all equal the local hash. -/
def RoundVerified (n : Nat) (trace : List (Effect P ρ κ)) (m : EchoMessage ρ) : Prop :=
  ∃ group echoHashes, m ∈ group ∧
    .hashed m.messageId group (Blake2s256.digest (payloads group)) ∈ trace ∧
    .verified m.messageId (Blake2s256.digest (payloads group)) echoHashes ∈ trace ∧
    echoHashes.length + 1 = n ∧ AllEqual (Blake2s256.digest (payloads group)) echoHashes

/-- No unverified result has left: whenever `Ok` was sent to the RPC
caller, every message that had entered the gadget was verified. -/
def AnsweredVerified (n : Nat) (trace : List (Effect P ρ κ)) : Prop :=
  ∀ before after tx result, trace = before ++ .answered tx (.ok result) :: after →
    ∀ m, .entered m ∈ before → RoundVerified n before m

/-- A poll at time `now` answers the RPC caller with `Ok`. -/
def answersOk (s : ProtocolExecution P ρ κ) (now : Nat) : Bool :=
  match s.fromNetwork, s.pendingResponse, s.agentResult, s.completionDelay with
  | [], some _, some (.ok _), some deadline => deadline ≤ now
  | _, _, _, _ => false

/-- The gadget has nothing to do, and the next poll gives it nothing. -/
def idle (w : WrapExecution P ρ κ) (s : ProtocolExecution P ρ κ) : Bool :=
  match w.echoRx, w.echo.msgs, w.echo.round with
  | [], [], .collect => s.fromProtocol.head?.all (·.recipient.isSome)
  | _, _, _ => false

/-- The condition on a step: a poll that answers `Ok` finds the gadget
idle. -/
def answersWhenIdle (t : Session P ρ κ) (l : WrapLabel P ρ) : Bool :=
  match t.state, l with
  | .running w, .pollComputation now _ =>
      w.computation.all fun s => !answersOk s now || idle w s
  | _, _ => true

omit [Blake2s256] in
/-- What `idle` checks. -/
theorem idle_eq_true (h : idle w s = true) :
    w.echoRx = [] ∧ w.echo.msgs = [] ∧ w.echo.round = .collect ∧
      ∀ m, s.fromProtocol.head? = some m → m.recipient ≠ none := by
  unfold idle at h
  split at h
  · rename_i hrx hmsgs hround
    refine ⟨hrx, hmsgs, hround, fun m hm hnone => ?_⟩
    rw [hm, Option.all_some, hnone] at h
    cases h
  · cases h

theorem RoundVerified.append {m : EchoMessage ρ} (h : RoundVerified n trace m)
    (effects : List (Effect P ρ κ)) : RoundVerified n (trace ++ effects) m := by
  obtain ⟨group, echoHashes, hm, hhashed, hverified, hlen, hall⟩ := h
  exact ⟨group, echoHashes, hm, List.mem_append_left _ hhashed,
    List.mem_append_left _ hverified, hlen, hall⟩

/-- Effects without an answer keep the property. -/
theorem AnsweredVerified.append (h : AnsweredVerified n trace) (hnone : answersIn effects = []) :
    AnsweredVerified n (trace ++ effects) := by
  have hnot : ∀ tx result, (.answered tx result : Effect P ρ κ) ∉ effects := by
    intro tx result hmem
    have hin : (tx, result) ∈ answersIn effects := List.mem_filterMap.mpr ⟨_, hmem, rfl⟩
    rw [hnone] at hin
    cases hin
  intro before after tx result heq
  -- the answer lies in the old part of the trace
  rcases List.append_eq_append_iff.mp heq with ⟨rest, rfl, hrest⟩ | ⟨rest, rfl, hrest⟩
  · exact absurd (hrest ▸ List.mem_append_right _ List.mem_cons_self) (hnot tx (.ok result))
  · cases rest with
    | nil =>
        rw [List.nil_append] at hrest
        exact absurd (hrest ▸ List.mem_cons_self) (hnot tx (.ok result))
    | cons effect rest =>
        cases hrest
        exact h before rest tx result rfl

/-- A last answer keeps the property if everything has been verified. -/
theorem AnsweredVerified.concat {tx : κ} {r : AgentResult} (h : AnsweredVerified n trace)
    (hall : ∀ result, r = .ok result → ∀ m, .entered m ∈ trace → RoundVerified n trace m) :
    AnsweredVerified n (trace ++ [.answered tx r]) := by
  intro before after tx' result heq
  rcases List.append_eq_append_iff.mp heq with ⟨rest, rfl, hrest⟩ | ⟨rest, rfl, hrest⟩
  · -- the answer is the last effect
    cases rest with
    | nil =>
        rw [List.nil_append] at hrest
        cases hrest
        rw [List.append_nil]
        exact hall result rfl
    | cons effect rest =>
        have hlen := congrArg List.length hrest
        simp only [List.length_cons, List.length_nil, List.length_append] at hlen
        omega
  · cases rest with
    | nil =>
        rw [List.nil_append] at hrest
        cases hrest
        rw [List.append_nil] at hall
        exact hall result rfl
    | cons effect rest =>
        cases hrest
        exact h before rest tx' result rfl

/-- What holds of a running session. -/
structure Live (n : Nat) (w : WrapExecution P ρ κ) (trace : List (Effect P ρ κ)) : Prop where
  gadget : GadgetLedger n w.echo w.echoRx trace
  completion : ∀ s, w.computation = some s → Completion s

/-- What holds of a session in every run. -/
structure Tracked (n : Nat) (t : Session P ρ κ) : Prop where
  answered : AnsweredVerified n t.trace
  gadget : GadgetTrace n t.trace
  live : ∀ w, t.state = .running w → Live n w t.trace

omit [Blake2s256] in
theorem running_inj {w' : WrapExecution P ρ κ}
    (h : (WrapState.running w : WrapState P ρ κ) = .running w') : w = w' := by
  cases h
  rfl

/-- An idle gadget has verified everything that entered. -/
theorem roundVerified_of_idle (ht : GadgetTrace n trace) (hl : GadgetLedger n w.echo w.echoRx trace)
    (hrx : w.echoRx = []) (hmsgs : w.echo.msgs = []) (hround : w.echo.round = .collect)
    {m : EchoMessage ρ} (hm : .entered m ∈ trace) : RoundVerified n trace m := by
  have hconserved := hl.conserved
  rw [hrx, hmsgs, hround] at hconserved
  have hhashed : m ∈ hashedIn trace := by
    have hmem : m ∈ hashedIn trace ++ [] := hconserved.subset (mem_enteredIn.mpr hm)
    rwa [List.append_nil] at hmem
  obtain ⟨effect, heffect, hin⟩ := List.mem_flatMap.mp hhashed
  cases effect with
  | hashed k group echoHash =>
      have hgroup := ht.hashed k group echoHash heffect
      rcases hl.settled k group echoHash heffect with ⟨echoHashes, hverified⟩ | ⟨_, _, hr⟩
      · obtain ⟨hlen, hall, _⟩ := ht.verified k echoHash echoHashes hverified
        refine ⟨group, echoHashes, hin, ?_⟩
        rw [hgroup.ids m hin, ← hgroup.hash]
        exact ⟨heffect, hverified, hlen, hall⟩
      · rw [hround] at hr
        cases hr
  | _ => cases hin

/-- The gadget answers nobody. -/
theorem answersIn_pollEcho {state : WrapState P ρ κ} {gone : ρ → Bool}
    (h : w.pollEcho gone = some (state, effects)) : answersIn effects = [] := by
  have hacks : ∀ (acks : List ρ) (messageId : Nat) (group : List (EchoMessage ρ))
      (echoHash : Bytes),
      answersIn (acks.map (fun tx => .respond tx (.ok echoHash)) ++
        [.hashed messageId group echoHash] : List (Effect P ρ κ)) = [] := by
    intro acks messageId group echoHash
    induction acks with
    | nil => rfl
    | cons tx acks ih => exact ih
  unfold WrapExecution.pollEcho at h
  cases hstep : w.echo.step w.echoRx w.computation.isNone w.responses gone with
  | pending => rw [hstep] at h; cases h
  | took g rx => rw [hstep] at h; cases h; rfl
  | hashed g messageId group echoHash acks =>
      rw [hstep] at h
      cases h
      exact hacks acks messageId group echoHash
  | echoed g respRx => rw [hstep] at h; cases h; rfl
  | verified g messageId echoHash respRx echoHashes => rw [hstep] at h; cases h; rfl
  | finished =>
      rw [hstep] at h
      simp only at h
      split at h <;> (cases h; rfl)
  | failed e => rw [hstep] at h; cases h; rfl
  | panic why => rw [hstep] at h; cases h; rfl

omit [Blake2s256] in
/-- A first stage that sends no broadcast enters nothing. -/
theorem enteredIn_takesOutgoing [DecidableEq P] {echoTx : List (EchoMessage ρ)}
    {st : PollState P ρ κ} (hnone : ∀ m, s.fromProtocol.head? = some m → m.recipient ≠ none)
    (h : TakesOutgoing { exec := s, echoTx := echoTx, effects := [] } st) :
    enteredIn st.effects = [] := by
  cases h with
  | nothing _ => rfl
  | direct _ _ _ => rfl
  | @broadcast m rest hq hto _ _ _ =>
      have hq : s.fromProtocol = m :: rest := hq
      exact absurd hto (hnone m (by rw [hq]; rfl))

/-- The answer of a poll that returns, seen from the whole trace. -/
theorem answeredVerified_ready [DecidableEq P] {now : Nat} {turn : AgentTurn}
    {result : Except Error Unit} {echoTx : List (EchoMessage ρ)}
    (hanswered : AnsweredVerified n trace) (hgadget : GadgetTrace n trace)
    (hl : GadgetLedger n w.echo w.echoRx trace) (hc : Completion s)
    (hidle : answersOk s now = true → idle w s = true)
    (h : s.poll w.echoRx now turn = .ready result echoTx effects) :
    AnsweredVerified n (trace ++ effects) := by
  obtain ⟨r, deadline, st, hr, hd, hlate, hnil, hout, hreport⟩ := ready_cases hc h
  have hframe := frame_takesOutgoing now hout
  have hbefore : AnsweredVerified n (trace ++ st.effects) :=
    hanswered.append hframe.answers
  rcases (report_effects hreport).2 with ⟨_, rfl⟩ | ⟨tx, htx, rfl⟩
  · exact hbefore
  · rw [← List.append_assoc]
    refine hbefore.concat fun value hvalue m hm => ?_
    subst hvalue
    have hresp : s.pendingResponse.isSome = true := by
      rw [← show st.exec.pendingResponse = s.pendingResponse from hframe.pendingResponse, htx]
      rfl
    have hok : answersOk s now = true := by
      obtain ⟨tx', htx'⟩ := Option.isSome_iff_exists.mp hresp
      simp only [answersOk, hnil, htx', hr, hd]
      exact decide_eq_true hlate
    obtain ⟨hrx, hmsgs, hround, hhead⟩ := idle_eq_true (hidle hok)
    -- nothing entered in this poll, and before it only verified rounds are left
    rcases List.mem_append.mp hm with hm | hm
    · exact (roundVerified_of_idle hgadget hl hrx hmsgs hround hm).append st.effects
    · rw [← mem_enteredIn, enteredIn_takesOutgoing hhead hout] at hm
      cases hm

/-- A poll of the execution keeps everything tracked. -/
theorem tracked_pollComputation [DecidableEq P] {now : Nat} (turn : AgentTurn) {t : Session P ρ κ}
    (ht : Tracked n t) (hlive : Live n w t.trace) (hs : w.computation = some s)
    (hidle : answersOk s now = true → idle w s = true) :
    Tracked n { state := (w.pollComputation s now turn).1,
                trace := t.trace ++ (w.pollComputation s now turn).2 } := by
  have hc := hlive.completion s hs
  unfold WrapExecution.pollComputation
  cases hpoll : s.poll w.echoRx now turn with
  | pending st =>
      obtain ⟨hlogged, hanswers⟩ := logged_pending hc.two_le hpoll
      have hexec := byGadget_pending hc.two_le hpoll
      refine ⟨ht.answered.append hanswers, ht.gadget.append hexec, fun w' hw' => ?_⟩
      rw [← running_inj hw']
      constructor
      · show GadgetLedger n w.echo st.echoTx _
        rw [hlogged]
        exact hlive.gadget.longerChannel hexec
      · rintro s' ⟨⟩
        exact (completion_poll hc hpoll).1
  | ready result echoTx' effects =>
      have hready := answeredVerified_ready ht.answered ht.gadget hlive.gadget hc hidle hpoll
      have hexec := byGadget_ready hc hpoll
      cases result with
      | error e => exact ⟨hready, ht.gadget.append hexec, fun w' hw' => by cases hw'⟩
      | ok u =>
          simp only
          split
          · exact ⟨hready, ht.gadget.append hexec, fun w' hw' => by cases hw'⟩
          · refine ⟨hready, ht.gadget.append hexec, fun w' hw' => ?_⟩
            rw [← running_inj hw']
            refine ⟨?_, nofun⟩
            show GadgetLedger n w.echo echoTx' _
            rw [logged_ready hc hpoll]
            exact hlive.gadget.longerChannel hexec
  | panic why =>
      exact ⟨ht.answered.append rfl, ht.gadget.append nofun, fun w' hw' => by cases hw'⟩

/-- A stretch of the gadget keeps everything tracked. -/
theorem tracked_pollEcho {t : Session P ρ κ} {state : WrapState P ρ κ} (ht : Tracked n t)
    (hlive : Live n w t.trace) {gone : ρ → Bool} (h : w.pollEcho gone = some (state, effects)) :
    Tracked n { state := state, trace := t.trace ++ effects } := by
  obtain ⟨hgadget, hrunning⟩ := gadgetLedger_pollEcho ht.gadget hlive.gadget h
  refine ⟨ht.answered.append (answersIn_pollEcho h), hgadget, fun w' hw' => ?_⟩
  obtain ⟨hledger, hcomp⟩ := hrunning w' hw'
  exact ⟨hledger, fun s hs => hlive.completion s (hcomp.symm.trans hs)⟩

/-- Every step that meets the condition keeps everything tracked. -/
theorem tracked_step [DecidableEq P] {t t' : Session P ρ κ} {l : WrapLabel P ρ} (ht : Tracked n t)
    (hguard : answersWhenIdle t l = true) (h : t.step l = some t') : Tracked n t' := by
  obtain ⟨w, state, effects, hw, hstep, rfl⟩ := Session.step_eq_some.mp h
  have hlive := ht.live w hw
  -- a step of the outside leaves the gadget and its channel alone
  have houtside : ∀ w' : WrapExecution P ρ κ, w'.echo = w.echo → w'.echoRx = w.echoRx →
      (∀ s, w'.computation = some s → Completion s) →
      Tracked n { state := .running w', trace := t.trace ++ [] } := by
    intro w' hecho hrx hc
    rw [List.append_nil]
    refine ⟨ht.answered, ht.gadget, fun w'' hw'' => ?_⟩
    rw [← running_inj hw'']
    refine ⟨?_, hc⟩
    rw [hecho, hrx]
    exact hlive.gadget
  cases l with
  | deliver m =>
      obtain ⟨s, hs, heq⟩ := Option.map_eq_some_iff.mp hstep
      cases heq
      have hc := hlive.completion s hs
      refine houtside _ rfl rfl ?_
      rintro s' ⟨⟩
      exact ⟨hc.two_le, hc.agentFuture, hc.completionDelay⟩
  | echoResponse respRx echo =>
      cases hstep
      exact houtside _ rfl rfl hlive.completion
  | closeResponses respRx =>
      cases hstep
      exact houtside _ rfl rfl hlive.completion
  | pollComputation now turn =>
      obtain ⟨s, hfilter, heq⟩ := Option.map_eq_some_iff.mp hstep
      have hs := (Option.filter_eq_some_iff.mp hfilter).1
      simp only [answersWhenIdle, hw, hs, Option.all_some, Bool.or_eq_true,
        Bool.not_eq_true'] at hguard
      have htracked := tracked_pollComputation turn ht hlive hs fun hok =>
        hguard.resolve_left fun hno => by rw [hok] at hno; cases hno
      rw [heq] at htracked
      exact htracked
  | pollEcho gone =>
      simp only [WrapExecution.step] at hstep
      split at hstep
      · cases hstep
      · exact tracked_pollEcho ht hlive hstep

/-- Take any run of a session in which every poll that answers `Ok`
finds the echo gadget idle. In every state of it, whenever `Ok` went to
the RPC caller, every message that had entered the gadget belonged to a
verified round. -/
theorem answeredVerified_of_idle [DecidableEq P] {n : Nat} {sessionId : SessionId}
    {protocolId : Nat} {peerset : Peerset P} {pendingResponse : Option κ}
    {w₀ : WrapExecution P ρ κ} {t : Session P ρ κ}
    (hnew : WrapExecution.new n sessionId protocolId peerset pendingResponse = .ok w₀)
    (hreach : Reach Session.step (fun t l => answersWhenIdle t l = true)
      { state := .running w₀, trace := [] } t) :
    AnsweredVerified n t.trace := by
  obtain ⟨s₀, hs₀, hw₀⟩ := Except.bind_eq_ok.mp hnew
  have hstart : Tracked n ({ state := .running w₀, trace := [] } : Session P ρ κ) := by
    refine ⟨fun before after tx result heq => absurd heq (by simp), .nil n, fun w hw => ?_⟩
    rw [← running_inj hw]
    cases hw₀
    refine ⟨.new n, ?_⟩
    rintro s ⟨⟩
    exact (completion_new hs₀).1
  exact (hreach.invariant hstart fun _ _ _ ht hguard hstep =>
    tracked_step ht hguard hstep).answered

end

namespace EarlyAnswer

-- the runs below hash with the identity, which is injective
open scoped IdentityHash

/-- Two peers, seen by the first. -/
def peerset : Peerset Ed25519PeerId where
  localPeerId := .ofByte 1
  peers := [.ofByte 1, .ofByte 2]
  parties := [0, 1]

/-- The first peer's session, with an RPC caller waiting. -/
def start : WrapExecution Ed25519PeerId Nat Nat where
  echo := EchoGadget.new 2
  echoRx := []
  responses := fun _ => { queue := [], closed := false }
  computation := some
    { sessionId := noSessionId
      protocolId := 1
      peerset := peerset
      fromNetwork := []
      toProtocol := []
      fromProtocol := []
      agentFuture := true
      agentResult := none
      completionDelay := none
      pendingResponse := some 0
      nextOutgoingBroadcastId := 0
      nextIncomingBroadcastId := 0
      pendingIncoming := ∅
      i := 0
      n := 2 }
  echoFinished := false

/-- The broadcast of the second peer. -/
def remoteBroadcast : IncomingRequest Ed25519PeerId Nat where
  context :=
    { messageType := .computation, protocolId := 1, sessionId := noSessionId, messageId := 0 }
  peerId := .ofByte 2
  isBroadcast := true
  peerIndex := 1
  payload := [6]
  pendingResponse := 7

/-- An agent of one round: it broadcasts, takes the other's broadcast
and returns. The gadget hashes the round and waits for the echo. -/
def oneRound : List (WrapLabel Ed25519PeerId Nat) :=
  [.pollComputation 0 { received := 0, sent := [⟨[5], none⟩], result := none },
    .pollComputation 1 { received := 0, sent := [], result := none },
    .deliver remoteBroadcast,
    .pollComputation 2 { received := 1, sent := [], result := some (.ok [9]) },
    .pollEcho noneGone, .pollEcho noneGone, .pollEcho noneGone, .pollEcho noneGone]

/-- A poll after the quiet period. -/
def quietPoll : WrapLabel Ed25519PeerId Nat :=
  .pollComputation 502 { received := 0, sent := [], result := none }

/-- The two messages of the round, in the gadget's order. -/
def group : List (EchoMessage Nat) :=
  [{ messageId := 0, sender := 1, payload := [5], response := .outgoing 0 },
    { messageId := 0, sender := 2, payload := [6], response := .incoming 7 }]

/-- What the session has done when the quiet period is over. -/
def roundTrace : List (Effect Ed25519PeerId Nat Nat) :=
  [.multicast 0 [5] [.ofByte 2],
    .entered { messageId := 0, sender := 1, payload := [5], response := .outgoing 0 },
    .entered { messageId := 0, sender := 2, payload := [6], response := .incoming 7 },
    .delivered { sender := 2, recipient := none, payload := [6] },
    .respond 7 (.ok [5, 6]), .hashed 0 group [5, 6]]

/-- With the echo in before the answer, the answer is a verified one. -/
theorem answeredVerified_echoFirst :
    ∃ t, runIf Session.step answersWhenIdle { state := .running start, trace := [] }
        (oneRound ++ [.echoResponse 0 (.ok (.ofByte 2, [5, 6])), .pollEcho noneGone, quietPoll])
        = some t ∧
      t.trace = roundTrace ++
        [.verified 0 [5, 6] [.ok (.ofByte 2, [5, 6])], .answered 0 (.ok [9])] ∧
      AnsweredVerified 2 t.trace := by
  refine ⟨_, rfl, rfl, ?_⟩
  have hnew : WrapExecution.new 2 noSessionId 1 peerset (some 0) = .ok start := rfl
  exact answeredVerified_of_idle hnew
    (reach_of_runIf
      (oneRound ++ [.echoResponse 0 (.ok (.ofByte 2, [5, 6])), .pollEcho noneGone, quietPoll]) rfl)

/-- The echo has not come when the quiet period is over. The result is
sent to the RPC caller all the same. -/
theorem not_answeredVerified_noEcho :
    WrapExecution.new 2 noSessionId 1 peerset (some 0) = .ok start ∧
    ∃ t, run Session.step { state := .running start, trace := [] } (oneRound ++ [quietPoll])
        = some t ∧
      t.trace = roundTrace ++ [.answered 0 (.ok [9])] ∧ ¬ AnsweredVerified 2 t.trace := by
  refine ⟨rfl, _, rfl, rfl, fun h => ?_⟩
  obtain ⟨_, _, _, _, hverified, _⟩ := h roundTrace [] 0 [9] rfl
    { messageId := 0, sender := 1, payload := [5], response := .outgoing 0 }
    (List.mem_cons_of_mem _ List.mem_cons_self)
  simp [roundTrace] at hverified

end EarlyAnswer

end FrostMpcTss.Proofs
