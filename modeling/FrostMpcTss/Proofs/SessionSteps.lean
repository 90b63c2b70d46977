import FrostMpcTss.Proofs.GadgetLedger
import FrostMpcTss.Session.AgentNet

/-!
# `FrostMpcTss.Proofs.SessionSteps`: what a step does to the execution

`SessionSteps` says what a step of a session does to its execution and
what it sends: a poll, a message put into its queue, or nothing.
`sendsHead_pending` and `sendsHead_ready` say that a poll sends the head
of the agent's outgoing channel and nothing else.
-/

set_option autoImplicit false

namespace FrostMpcTss.Proofs

open Lib Network Service FrostMpcTss.Session
open Service.ProtocolExecution

variable {P ρ κ : Type} {s : ProtocolExecution P ρ κ} {effects : List (Effect P ρ κ)}
  {echoTx : List (EchoMessage ρ)} {st : PollState P ρ κ} {t : Session P ρ κ}
  {w : WrapExecution P ρ κ}

/-- The effects that send something to the peers. -/
def sendsOut : Effect P ρ κ → Bool
  | .multicast _ _ _ => true
  | .sendDirect _ _ => true
  | _ => false

/-- The effects that are the execution's own: what it sends, and what it
hands to the gadget and to the agent. -/
def byExecution : Effect P ρ κ → Bool
  | .entered _ => true
  | .delivered _ => true
  | effect => sendsOut effect

/-- What was sent is the head of the agent's outgoing channel. -/
structure SendsHead (s : ProtocolExecution P ρ κ) (effects : List (Effect P ρ κ)) : Prop where
  multicast : ∀ k body peers, .multicast k body peers ∈ effects →
    k = s.nextOutgoingBroadcastId ∧ ∃ m ∈ s.fromProtocol, m.recipient = none
  sendDirect : ∀ peer body, .sendDirect peer body ∈ effects →
    ∃ m ∈ s.fromProtocol, m.recipient.isSome = true

theorem SendsHead.append {effects' : List (Effect P ρ κ)} (h : SendsHead s effects)
    (hquiet : ∀ effect ∈ effects', sendsOut effect = false) :
    SendsHead s (effects ++ effects') where
  multicast k body peers hmem := by
    rcases List.mem_append.mp hmem with hmem | hmem
    · exact h.multicast k body peers hmem
    · cases hquiet _ hmem
  sendDirect peer body hmem := by
    rcases List.mem_append.mp hmem with hmem | hmem
    · exact h.sendDirect peer body hmem
    · cases hquiet _ hmem

/-- The first message in the channel is the one that goes out. -/
theorem sendsHead_takesOutgoing [DecidableEq P]
    (h : TakesOutgoing { exec := s, echoTx := echoTx, effects := [] } st) :
    SendsHead s st.effects := by
  cases h with
  | nothing _ => exact ⟨nofun, nofun⟩
  | @direct m rest k peer hq hto _ =>
      have hq : s.fromProtocol = m :: rest := hq
      refine ⟨fun k body peers hmem => ?_, fun peer body _ => ⟨m, ?_, ?_⟩⟩
      · cases List.mem_singleton.mp hmem
      · rw [hq]
        exact List.mem_cons_self
      · rw [hto]
        rfl
  | @broadcast m rest hq hto _ _ _ =>
      have hq : s.fromProtocol = m :: rest := hq
      refine ⟨fun k body peers hmem => ?_, fun peer body hmem => ?_⟩
      · rcases List.mem_cons.mp hmem with hmem | hmem
        · cases hmem
          refine ⟨rfl, m, ?_, hto⟩
          rw [hq]
          exact List.mem_cons_self
        · cases List.mem_singleton.mp hmem
      · rcases List.mem_cons.mp hmem with hmem | hmem
        · cases hmem
        · cases List.mem_singleton.mp hmem

theorem sendsHead_restartQuietPeriod (now : Nat) (h : SendsHead s st.effects) :
    SendsHead s (restartQuietPeriod now st).effects := by
  unfold restartQuietPeriod
  split <;> exact h

/-- A poll that goes on sends at most that one. -/
theorem sendsHead_pending [DecidableEq P] {now : Nat} {turn : AgentTurn} (hn : 2 ≤ s.n)
    (h : s.poll echoTx now turn = .pending st) : SendsHead s st.effects := by
  refine pending_induction (fun st => SendsHead s st.effects) hn h
    (fun _ => sendsHead_takesOutgoing) ?_ ?_ ?_ ?_
  · intro st m _ hst
    refine hst.append fun effect heffect => ?_
    rw [List.mem_singleton.mp heffect]
    rfl
  · intro st st' hintake hst
    cases hintake with
    | nothing _ => exact hst
    | message _ _ htakes =>
        cases htakes with
        | broadcast _ _ => exact sendsHead_restartQuietPeriod now hst
        | direct _ _ _ _ _ =>
            refine sendsHead_restartQuietPeriod now ?_
            refine (hst.append fun effect heffect => ?_).append fun effect heffect => ?_
            · rw [List.mem_singleton.mp heffect]
              rfl
            · rw [List.mem_singleton.mp heffect]
              rfl
  · intro st _ hst
    refine hst.append fun effect heffect => ?_
    obtain ⟨r, _, hr⟩ := List.mem_flatMap.mp heffect
    rcases List.mem_cons.mp hr with rfl | hr
    · rfl
    · rw [List.mem_singleton.mp hr]
      rfl
  · intro st hst
    unfold pollAgent
    cases turn.result <;> exact hst

theorem sendsHead_ready [DecidableEq P] {echoTx' : List (EchoMessage ρ)} {now : Nat}
    {turn : AgentTurn} {result : Except Error Unit} (hc : Completion s)
    (h : s.poll echoTx now turn = .ready result echoTx' effects) : SendsHead s effects := by
  obtain ⟨r, _, st, _, _, _, _, hout, hreport⟩ := ready_cases hc h
  have hst := sendsHead_takesOutgoing hout
  rcases (report_effects hreport).2 with ⟨_, rfl⟩ | ⟨tx, _, rfl⟩
  · exact hst
  · refine hst.append fun effect heffect => ?_
    rw [List.mem_singleton.mp heffect]
    rfl

/-- What a step does to the execution of a session, and what it sends. -/
inductive SessionSteps [DecidableEq P] (t : Session P ρ κ) :
    WrapLabel P ρ → Session P ρ κ → Prop where
  | pending {t' : Session P ρ κ} {now : Nat} {turn : AgentTurn} {s : ProtocolExecution P ρ κ}
      {echoTx : List (EchoMessage ρ)} {st : PollState P ρ κ} :
      t.execution = some (s, echoTx) → s.poll echoTx now turn = .pending st →
      t'.execution = some (st.exec, st.echoTx) → t'.trace = t.trace ++ st.effects →
      (∀ why, t'.state ≠ .panicked why) → SessionSteps t (.pollComputation now turn) t'
  | ready {t' : Session P ρ κ} {now : Nat} {turn : AgentTurn} {s : ProtocolExecution P ρ κ}
      {echoTx echoTx' : List (EchoMessage ρ)} {result : Except Error Unit}
      {effects : List (Effect P ρ κ)} :
      t.execution = some (s, echoTx) → s.poll echoTx now turn = .ready result echoTx' effects →
      t'.execution = none → t'.trace = t.trace ++ effects →
      (∀ why, t'.state ≠ .panicked why) → SessionSteps t (.pollComputation now turn) t'
  | panics {t' : Session P ρ κ} {now : Nat} {turn : AgentTurn} {s : ProtocolExecution P ρ κ}
      {echoTx : List (EchoMessage ρ)} {why : Panic} :
      t.execution = some (s, echoTx) → s.poll echoTx now turn = .panic why →
      t'.state = .panicked why → t'.trace = t.trace →
      SessionSteps t (.pollComputation now turn) t'
  | delivers {t' : Session P ρ κ} {m : IncomingRequest P ρ} {s : ProtocolExecution P ρ κ}
      {echoTx : List (EchoMessage ρ)} :
      t.execution = some (s, echoTx) →
      t'.execution = some ({ s with fromNetwork := s.fromNetwork ++ [m] }, echoTx) →
      t'.trace = t.trace → (∀ why, t'.state ≠ .panicked why) → SessionSteps t (.deliver m) t'
  | keeps {t' : Session P ρ κ} {l : WrapLabel P ρ} {effects : List (Effect P ρ κ)} :
      (∀ m, l ≠ .deliver m) → (∀ now turn, l ≠ .pollComputation now turn) →
      (∀ s echoTx', t'.execution = some (s, echoTx') →
        ∃ echoTx, t.execution = some (s, echoTx)) →
      t'.trace = t.trace ++ effects → (∀ effect ∈ effects, byExecution effect = false) →
      t'.state ≠ .panicked .applicationChannelFull → SessionSteps t l t'

/-- An effect of the execution is older than the effects of others. -/
theorem mem_of_byExecution {trace trace' : List (Effect P ρ κ)} {effect : Effect P ρ κ}
    (htrace : trace' = trace ++ effects) (hquiet : ∀ effect ∈ effects, byExecution effect = false)
    (hown : byExecution effect = true) (hmem : effect ∈ trace') : effect ∈ trace := by
  rw [htrace] at hmem
  refine (List.mem_append.mp hmem).resolve_right fun hmem => ?_
  rw [hquiet effect hmem] at hown
  cases hown

/-- The execution of a running session. -/
theorem execution_running (h : t.state = .running w) :
    t.execution = w.computation.map fun s => (s, w.echoRx) := by
  unfold Session.execution
  rw [h]

/-- A session has an execution while its computation runs. -/
theorem execution_eq_some :
    t.execution = some (s, echoTx) ↔
      ∃ w, t.state = .running w ∧ w.computation = some s ∧ w.echoRx = echoTx := by
  unfold Session.execution
  cases t.state with
  | running w =>
      constructor
      · intro h
        obtain ⟨s', hs', heq⟩ := Option.map_eq_some_iff.mp h
        cases heq
        exact ⟨w, rfl, hs', rfl⟩
      · rintro ⟨w', hw', hs, rfl⟩
        cases hw'
        show w.computation.map _ = _
        rw [hs]
        rfl
  | returned result =>
      constructor
      · intro h
        cases h
      · rintro ⟨w, hw, -⟩
        exact absurd hw (WrapState.returned_ne_running result w)
  | panicked why =>
      constructor
      · intro h
        cases h
      · rintro ⟨w, hw, -⟩
        exact absurd hw (WrapState.panicked_ne_running why w)

/-- A session that has just been started runs a new execution. -/
theorem new_of_execution [DecidableEq P] {n : Nat} {sessionId : SessionId} {protocolId : Nat}
    {peerset : Peerset P} {pendingResponse : Option κ} (hstate : ∀ w, t.state = .running w →
      WrapExecution.new n sessionId protocolId peerset pendingResponse = .ok w)
    (h : t.execution = some (s, echoTx)) :
    ProtocolExecution.new sessionId protocolId peerset pendingResponse = .ok s := by
  obtain ⟨w, hw, hs, _⟩ := execution_eq_some.mp h
  obtain ⟨s₀, hs₀, hw₀⟩ := Except.bind_eq_ok.mp (hstate w hw)
  cases hw₀
  cases hs
  exact hs₀

/-- A poll of the execution. -/
theorem sessionSteps_pollComputation [DecidableEq P] (now : Nat) (turn : AgentTurn)
    (hw : t.state = .running w) (hs : w.computation = some s) :
    SessionSteps t (.pollComputation now turn)
      { state := (w.pollComputation s now turn).1
        trace := t.trace ++ (w.pollComputation s now turn).2 } := by
  have hexec : t.execution = some (s, w.echoRx) := by
    rw [execution_running hw, hs]
    rfl
  unfold WrapExecution.pollComputation
  cases hpoll : s.poll w.echoRx now turn with
  | pending st => exact .pending hexec hpoll rfl rfl nofun
  | panic why => exact .panics hexec hpoll rfl (List.append_nil _)
  | ready result echoTx' effects =>
      cases result with
      | error e => exact .ready hexec hpoll rfl rfl nofun
      | ok u =>
          cases hfinished : w.echoFinished with
          | true =>
              simp only [if_true]
              exact .ready hexec hpoll rfl rfl nofun
          | false =>
              simp only [Bool.false_eq_true, if_false]
              exact .ready hexec hpoll rfl rfl nofun

/-- The gadget leaves the execution alone, and sends nothing. -/
theorem sessionSteps_pollEcho [DecidableEq P] [Blake2s256] {state : WrapState P ρ κ}
    (hw : t.state = .running w) {gone : ρ → Bool} (h : w.pollEcho gone = some (state, effects)) :
    SessionSteps t (.pollEcho gone) { state := state, trace := t.trace ++ effects } := by
  have hsteps := steps_step w.echo w.echoRx w.computation.isNone w.responses gone
  unfold WrapExecution.pollEcho at h
  generalize w.echo.step w.echoRx w.computation.isNone w.responses gone = step at hsteps h
  -- the same execution, beside another gadget
  have hsame : ∀ w' : WrapExecution P ρ κ, w'.computation = w.computation →
      (∀ effect ∈ effects, byExecution effect = false) →
      SessionSteps t (.pollEcho gone) { state := .running w', trace := t.trace ++ effects } := by
    intro w' hcomp hquiet
    refine .keeps nofun nofun ?_ rfl hquiet nofun
    · intro s echoTx' hs
      have hs : (w'.computation.map fun s => (s, w'.echoRx)) = some (s, echoTx') := hs
      rw [hcomp] at hs
      obtain ⟨s', hs', heq⟩ := Option.map_eq_some_iff.mp hs
      cases heq
      refine ⟨w.echoRx, ?_⟩
      rw [execution_running hw, hs']
      rfl
  have hover : ∀ state : WrapState P ρ κ, (∀ w', state ≠ .running w') →
      state ≠ .panicked .applicationChannelFull → effects = [] →
      SessionSteps t (.pollEcho gone) { state := state, trace := t.trace ++ effects } := by
    rintro state hstate hfull rfl
    refine .keeps nofun nofun ?_ rfl nofun hfull
    intro s echoTx' hs
    unfold Session.execution at hs
    cases state with
    | running w' => exact absurd rfl (hstate w')
    | returned result => cases hs
    | panicked why => cases hs
  cases hsteps with
  | pending => cases h
  | failed =>
      cases h
      exact hover _ (WrapState.returned_ne_running _) (fun heq => by cases heq) rfl
  | panic hpanics =>
      cases h
      exact hover _ (WrapState.panicked_ne_running _)
        (fun heq => hpanics.ne_full (WrapState.panicked.inj heq)) rfl
  | finished _ _ hclosed _ =>
      simp only [hclosed, if_true] at h
      cases h
      exact hover _ (WrapState.returned_ne_running _) (fun heq => by cases heq) rfl
  | ready _ _ => cases h; exact hsame _ rfl nofun
  | collects _ _ => cases h; exact hsame _ rfl nofun
  | gathers _ _ _ => cases h; exact hsame _ rfl nofun
  | setsAside _ _ => cases h; exact hsame _ rfl nofun
  | echoed _ _ _ => cases h; exact hsame _ rfl nofun
  | hashed _ _ _ _ =>
      cases h
      refine hsame _ rfl fun effect heffect => ?_
      rcases List.mem_append.mp heffect with heffect | heffect
      · obtain ⟨tx, _, rfl⟩ := List.mem_map.mp heffect
        rfl
      · rw [List.mem_singleton.mp heffect]
        rfl
  | verified _ _ _ _ =>
      cases h
      refine hsame _ rfl fun effect heffect => ?_
      rw [List.mem_singleton.mp heffect]
      rfl

/-- Every step of a session goes one of these ways. -/
theorem sessionSteps_step [DecidableEq P] [Blake2s256] {t' : Session P ρ κ} {l : WrapLabel P ρ}
    (h : t.step l = some t') : SessionSteps t l t' := by
  obtain ⟨w, state, effects, hw, hstep, rfl⟩ := Session.step_eq_some.mp h
  -- the response channels are not the execution's
  have hechoes : ∀ w' : WrapExecution P ρ κ, w'.computation = w.computation →
      w'.echoRx = w.echoRx → ∀ l, (∀ m, l ≠ .deliver m) →
      (∀ now turn, l ≠ .pollComputation now turn) →
      SessionSteps t l { state := .running w', trace := t.trace ++ [] } := by
    intro w' hcomp hrx l hdeliver hpoll
    refine .keeps hdeliver hpoll (fun s echoTx' hs => ⟨echoTx', ?_⟩) rfl nofun nofun
    rw [execution_running hw, ← hcomp, ← hrx]
    exact hs
  cases l with
  | deliver m =>
      obtain ⟨s, hs, heq⟩ := Option.map_eq_some_iff.mp hstep
      cases heq
      have hexec : t.execution = some (s, w.echoRx) := by
        rw [execution_running hw, hs]
        rfl
      exact .delivers hexec rfl (List.append_nil _) nofun
  | echoResponse respRx echo =>
      cases hstep
      exact hechoes (w.pushEcho respRx echo) rfl rfl _ nofun nofun
  | closeResponses respRx =>
      cases hstep
      exact hechoes (w.closeResponses respRx) rfl rfl _ nofun nofun
  | pollComputation now turn =>
      obtain ⟨s, hs, heq⟩ := Option.map_eq_some_iff.mp hstep
      obtain ⟨hs, _⟩ := Option.filter_eq_some_iff.mp hs
      have hpoll := sessionSteps_pollComputation now turn hw hs
      rw [heq] at hpoll
      exact hpoll
  | pollEcho gone =>
      simp only [WrapExecution.step] at hstep
      split at hstep
      · cases hstep
      · exact sessionSteps_pollEcho hw hstep

end FrostMpcTss.Proofs
