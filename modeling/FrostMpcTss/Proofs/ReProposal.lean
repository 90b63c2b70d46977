import FrostMpcTss.Proofs.NegotiationQuorum
import FrostMpcTss.Proofs.SingleProposer
import FrostMpcTss.Session.Proposal

/-!
# `FrostMpcTss.Proofs.ReProposal`: joiners at the start of a session

A peer that has answered a proposal waits in phase 2 for the start
message, and its timer gives it 15 s. `joinersWait_of_start` says that at
the moment of the start every member of the peerset that has answered
within that time is still there.

This is true in the runs in which no peer reads another proposal of the
session in phase 2 (`noReproposal`). A repeated proposal has no payload.
Phase 2 takes it for a start message, fails to decode it and aborts, while
the proposer still counts the peer's first answer.
-/

set_option autoImplicit false

namespace FrostMpcTss.Proofs

open Lib Network Service FrostMpcTss.Session

section Joiners

variable {P ρ κ : Type} {p : ListeningPeer P ρ} {t : Proposal P ρ κ} {c : NegotiationChannel P κ}
  {l : ProposalLabel P ρ κ}

/-- The peer waits for the start message of the session. -/
def InPhase2 (sessionId : SessionId) (p : ListeningPeer P ρ) : Prop :=
  ∃ c, p.stage = .phase2 c ∧ c.sessionId = sessionId

/-- The other members of the peerset have answered, and each that did so
within the time of phase 2 still waits there. -/
def JoinersWait (cfg : ProposalConfig P κ) (peerset : Peerset P) (t : Proposal P ρ κ) : Prop :=
  ∀ x ∈ peerset.peers, x ≠ cfg.localPeerId →
    ∃ a, (t.peers x).answeredAt = some a ∧
      (t.clock < a + phase2Timeout → InPhase2 cfg.sessionId (t.peers x))

/-- No peer in phase 2 of the session reads a proposal of it. -/
def noReproposal (cfg : ProposalConfig P κ) (t : Proposal P ρ κ) : ProposalLabel P ρ κ → Bool
  | .pollPeer x (.proposal _) _ _ _ _ =>
      match (t.peers x).stage with
      | .phase2 c => c.sessionId ≠ cfg.sessionId
      | _ => true
  | _ => true

/-- A peer that has answered in time waits, with the timer it set then. -/
def Waits (cfg : ProposalConfig P κ) (clock : Nat) (p : ListeningPeer P ρ) : Prop :=
  ∀ a, p.answeredAt = some a → clock < a + phase2Timeout →
    ∃ c, p.stage = .phase2 c ∧ c.sessionId = cfg.sessionId ∧ c.timeout = a + phase2Timeout

/-- While the proposer negotiates. -/
structure Proposing (cfg : ProposalConfig P κ) (t : Proposal P ρ κ)
    (c : NegotiationChannel P κ) : Prop where
  waits : ∀ x, Waits cfg t.clock (t.peers x)
  answers : ∀ x ∈ t.answers, (t.peers x).answeredAt.isSome = true
  collected : ∀ x ∈ c.peers, x = cfg.localPeerId ∨ (t.peers x).answeredAt.isSome = true
  startMsg : t.startMsg = none

/-- The proposer negotiates, or the negotiation is over. -/
def ProposalInvariant (cfg : ProposalConfig P κ) (t : Proposal P ρ κ) : Prop :=
  ∀ c, t.proposer = .negotiating c → Proposing cfg t c

/-- A party that waits goes on waiting. -/
theorem Waits.later {cfg : ProposalConfig P κ} {clock clock' : Nat} (h : Waits cfg clock p)
    (hle : clock ≤ clock') : Waits cfg clock' p := by
  intro a ha hlt
  exact h a ha (Nat.lt_of_le_of_lt hle hlt)

/-- A peer outside phase 2 has no answer that is still in time, so it may
go anywhere. -/
theorem waits_of_not_phase2 {cfg : ProposalConfig P κ} {clock : Nat} (h : Waits cfg clock p)
    (hstage : ∀ c, p.stage ≠ .phase2 c) (stage : PeerStage P ρ) :
    Waits cfg clock { p with stage := stage } := by
  intro a ha hlt
  obtain ⟨c, hc, _⟩ := h a ha hlt
  exact absurd hc (hstage c)

/-- The same for a peer in phase 2 of another session, or with an expired
timer. -/
theorem waits_of_phase2 {cfg : ProposalConfig P κ} {clock : Nat} {c : Phase2Channel P ρ}
    (h : Waits cfg clock p) (hstage : p.stage = .phase2 c)
    (hother : c.sessionId ≠ cfg.sessionId ∨ c.timeout ≤ clock) (stage : PeerStage P ρ) :
    Waits cfg clock { p with stage := stage } := by
  intro a ha hlt
  obtain ⟨c', hc', hsession, htimeout⟩ := h a ha hlt
  rw [hstage] at hc'
  cases hc'
  rcases hother with hother | hexpired
  · exact absurd hsession hother
  · omega

/-- Nobody has proposed at the start. -/
theorem proposalInvariant_start (cfg : ProposalConfig P κ) :
    ProposalInvariant cfg (Proposal.start cfg : Proposal P ρ κ) := by
  intro c hc
  cases hc
  exact ⟨nofun, nofun, fun x hx => .inl (List.mem_singleton.mp hx), rfl⟩

variable [DecidableEq P]

/-- A step of one peer that has not answered the session's proposal. -/
theorem Proposing.setStage {cfg : ProposalConfig P κ} (h : Proposing cfg t c) {x : P}
    {stage : PeerStage P ρ} (hwaits : Waits cfg t.clock { t.peers x with stage := stage }) :
    Proposing cfg (t.setStage x stage) c := by
  have hanswered : ∀ y, ((t.setStage x stage).peers y).answeredAt = (t.peers y).answeredAt := by
    intro y
    show (Function.update t.peers x _ y).answeredAt = _
    by_cases hy : y = x
    · rw [hy, Function.update_self]
    · rw [Function.update_of_ne hy]
  refine ⟨fun y => ?_, fun y hy => ?_, fun y hy => ?_, h.startMsg⟩
  · show Waits cfg t.clock (Function.update t.peers x _ y)
    by_cases hy : y = x
    · rw [hy, Function.update_self]
      exact hwaits
    · rw [Function.update_of_ne hy]
      exact h.waits y
  · rw [hanswered]
    exact h.answers y hy
  · rw [hanswered]
    exact h.collected y hy

/-- The answer to a proposal. -/
theorem Proposing.answer {cfg : ProposalConfig P κ} (h : Proposing cfg t c) {x : P} {tx : ρ}
    {channel : Phase2Channel P ρ} (hsession : channel.sessionId = cfg.sessionId)
    (htimeout : channel.timeout = t.clock + phase2Timeout) :
    Proposing cfg (t.answer x channel (.proposal tx)) c := by
  have hanswered : ∀ y, (t.peers y).answeredAt.isSome = true →
      ((t.answer x channel (.proposal tx)).peers y).answeredAt.isSome = true := by
    intro y hsome
    show (Function.update t.peers x _ y).answeredAt.isSome = true
    by_cases hy : y = x
    · rw [hy, Function.update_self]
      rfl
    · rw [Function.update_of_ne hy]
      exact hsome
  refine ⟨fun y => ?_, fun y hy => ?_, fun y hy => (h.collected y hy).imp_right (hanswered y),
    h.startMsg⟩
  · show Waits cfg t.clock (Function.update t.peers x _ y)
    by_cases hy : y = x
    · rw [hy, Function.update_self]
      intro a ha _
      cases ha
      exact ⟨channel, rfl, hsession, htimeout⟩
    · rw [Function.update_of_ne hy]
      exact h.waits y
  · rcases List.mem_append.mp hy with hy | hy
    · exact hanswered y (h.answers y hy)
    · rw [List.mem_singleton.mp hy]
      show (Function.update t.peers x _ x).answeredAt.isSome = true
      rw [Function.update_self]
      rfl

/-- A message that is delivered is removed, and the rest stays. -/
theorem Proposing.remove {cfg : ProposalConfig P κ} (h : Proposing cfg t c) (x : P)
    (message : PeerMessage P ρ) : Proposing cfg (t.remove x message) c := by
  cases message with
  | nothing => exact h
  | other m => exact h
  | proposal tx => exact ⟨h.waits, h.answers, h.collected, h.startMsg⟩
  | start tx =>
      refine ⟨h.waits, h.answers, h.collected, ?_⟩
      show t.startMsg.map _ = none
      rw [h.startMsg]
      rfl

theorem remove_eq (t : Proposal P ρ κ) (x : P) (message : PeerMessage P ρ) :
    (t.remove x message).clock = t.clock ∧ (t.remove x message).peers = t.peers ∧
      (t.remove x message).proposer = t.proposer := by
  cases message <;> exact ⟨rfl, rfl, rfl⟩

/-- A peer in phase 1. -/
theorem proposing_phase1 {cfg : ProposalConfig P κ} (h : Proposing cfg t c) {x : P}
    {message : PeerMessage P ρ} {next : Option (IncomingRequest P ρ)} (c₁ : Phase1Channel P ρ)
    (hnext : t.nextFor cfg x message = some next) (hstage : (t.peers x).stage = .phase1 c₁)
    (request : TryRecv (LocalRpcMsg κ)) (sessionId : SessionId) (makesAgent : Bool) (fresh : Nat) :
    Proposing cfg ((t.remove x message).afterPhase1 x message makesAgent fresh
      (c₁.poll x next request sessionId t.clock)) c := by
  obtain ⟨hclock, hpeers, _⟩ := remove_eq t x message
  have hfree : ∀ stage, Proposing cfg ((t.remove x message).setStage x stage) c := by
    intro stage
    refine (h.remove x message).setStage ?_
    rw [hclock, hpeers]
    exact waits_of_not_phase2 (h.waits x) (fun _ hc => by rw [hstage] at hc; cases hc) stage
  cases hpoll : c₁.poll x next request sessionId t.clock with
  | pending c' answers => exact hfree _
  | fromLocal _ _ _ _ => exact hfree _
  | panic _ => exact hfree _
  | fromRemote peerId protocolId payload responseTx channel =>
      unfold Proposal.afterPhase1
      simp only
      split
      · cases message with
        | nothing => exact hfree _
        | other m => exact hfree _
        | start tx => exact hfree _
        | proposal tx =>
            -- the channel is the one of the proposal
            simp only [Proposal.nextFor] at hnext
            split at hnext
            · cases hnext
              cases hpoll
              refine (h.remove x (.proposal tx)).answer rfl ?_
              rw [hclock]
            · cases hnext
      · exact hfree _

/-- A party's poll leaves the proposer alone. -/
theorem proposer_afterPhase1 (t : Proposal P ρ κ) (x : P) (message : PeerMessage P ρ)
    (makesAgent : Bool) (fresh : Nat) (poll : Phase1Poll P ρ κ) :
    ((t.remove x message).afterPhase1 x message makesAgent fresh poll).proposer = t.proposer := by
  cases poll with
  | fromRemote _ _ _ _ channel =>
      unfold Proposal.afterPhase1
      simp only
      split <;> cases message <;> rfl
  | _ => cases message <;> rfl

theorem proposer_afterPhase2 (t : Proposal P ρ κ) (x : P) (message : PeerMessage P ρ)
    (poll : Phase2Poll P ρ) :
    ((t.remove x message).afterPhase2 x poll).proposer = t.proposer := by
  cases poll <;> cases message <;> rfl

/-- The answers that are left. -/
theorem takeAnswer_eq_some {t₁ : Proposal P ρ κ} {response : ResponsePoll P}
    (h : t.takeAnswer response = some t₁) :
    t₁.clock = t.clock ∧ t₁.peers = t.peers ∧ t₁.startMsg = t.startMsg ∧
      (∀ x ∈ t₁.answers, x ∈ t.answers) ∧ ∀ x, response = .ok x → x ∈ t.answers := by
  cases response with
  | ok x =>
      simp only [Proposal.takeAnswer] at h
      split at h
      · rename_i hmem
        cases h
        refine ⟨rfl, rfl, rfl, fun y hy => List.mem_of_mem_erase hy, ?_⟩
        rintro _ ⟨⟩
        exact hmem
      · cases h
  | failed => cases h; exact ⟨rfl, rfl, rfl, fun _ hx => hx, nofun⟩
  | closed => cases h; exact ⟨rfl, rfl, rfl, fun _ hx => hx, nofun⟩
  | pending => cases h; exact ⟨rfl, rfl, rfl, fun _ hx => hx, nofun⟩

/-- The peers collected in a poll have answered. -/
theorem collectedPeers_answered {cfg : ProposalConfig P κ} (h : Proposing cfg t c)
    (input : NegotiationInput P) (hresponse : ∀ x, input.response = .ok x → x ∈ t.answers) :
    ∀ x ∈ collectedPeers c input,
      x = cfg.localPeerId ∨ (t.peers x).answeredAt.isSome = true := by
  intro x hx
  unfold collectedPeers NegotiationFuture.okResponse at hx
  split at hx
  · rename_i peerId hok
    rcases List.mem_insert_iff.mp hx with rfl | hx
    · split at hok
      · rename_i hok'
        cases hok
        exact .inr (h.answers x (hresponse x hok'))
      · cases hok
    · exact h.collected x hx
  · exact h.collected x hx

variable [PeerIdCodec P] [UnsignedVarint]

/-- Only a poll of the proposer starts the session. -/
theorem pollProposer_of_started {cfg : ProposalConfig P κ} {t' : Proposal P ρ κ}
    {peerset : Peerset P} (hbefore : t.proposer = .negotiating c) (hstep : t.step cfg l = some t')
    (hafter : t'.proposer = .started peerset) :
    ∃ response connected, l = .pollProposer response connected := by
  have hkept : t'.proposer ≠ t.proposer := by
    rw [hbefore, hafter]
    exact nofun
  cases l with
  | pollProposer response connected => exact ⟨response, connected, rfl⟩
  | tick d =>
      cases hstep
      exact absurd rfl hkept
  | pollPeer x message request sessionId makesAgent fresh =>
      obtain ⟨next, _, hstep⟩ := Option.bind_eq_some_iff.mp hstep
      split at hstep
      · cases hstep
        exact absurd (proposer_afterPhase1 t x message makesAgent fresh _) hkept
      · cases hstep
        exact absurd (proposer_afterPhase2 t x message _) hkept
      · cases hstep
  | comeBack x c₁ =>
      simp only [Proposal.step] at hstep
      split at hstep
      · cases hstep
        exact absurd rfl hkept
      · cases hstep

/-- A peer in phase 2 that reads no proposal of its session. -/
theorem proposing_phase2 {cfg : ProposalConfig P κ} (h : Proposing cfg t c) {x : P}
    {message : PeerMessage P ρ} {next : Option (IncomingRequest P ρ)} (c₂ : Phase2Channel P ρ)
    (hnext : t.nextFor cfg x message = some next) (hstage : (t.peers x).stage = .phase2 c₂)
    (hguard : ∀ tx, message = .proposal tx → c₂.sessionId ≠ cfg.sessionId) (fresh : Nat) :
    Proposing cfg ((t.remove x message).afterPhase2 x (c₂.poll x next t.clock fresh)) c := by
  obtain ⟨hclock, hpeers, _⟩ := remove_eq t x message
  have hmoves : ∀ stage, Waits cfg t.clock { t.peers x with stage := stage } →
      Proposing cfg ((t.remove x message).setStage x stage) c := by
    intro stage hwaits
    refine (h.remove x message).setStage ?_
    rw [hclock, hpeers]
    exact hwaits
  rcases Phase2.poll_cases c₂ x { next := next, now := t.clock } fresh with
    ⟨c', answers, hpoll, hsession, htimeout, _⟩ | ⟨v, hpoll, hverdict⟩
  · -- the same session and the same timer
    have hpoll : c₂.poll x next t.clock fresh = .pending c' answers := hpoll
    rw [hpoll]
    refine hmoves _ fun a ha hlt => ?_
    obtain ⟨c'', hc'', hs, ht⟩ := h.waits x a ha hlt
    rw [hstage] at hc''
    cases hc''
    exact ⟨c', rfl, hsession.trans hs, htimeout.trans ht⟩
  · -- the timer is over, or the session is another one
    have hother : c₂.sessionId ≠ cfg.sessionId ∨ c₂.timeout ≤ t.clock := by
      have htimer : ∀ v : Verdict P, Phase2.timer c₂.timeout t.clock = some v →
          c₂.timeout ≤ t.clock := by
        intro v hv
        unfold Phase2.timer at hv
        split at hv
        · assumption
        · cases hv
      cases message with
      | nothing =>
          cases hnext
          exact .inr (htimer v hverdict)
      | proposal tx => exact .inl (hguard tx rfl)
      | start tx =>
          simp only [Proposal.nextFor, h.startMsg] at hnext
          cases hnext
      | other m =>
          simp only [Proposal.nextFor] at hnext
          split at hnext
          · cases hnext
          · rename_i hforeign
            cases hnext
            unfold Phase2.verdict at hverdict
            cases htype : m.context.messageType with
            | computation =>
                simp only [htype] at hverdict
                exact .inr (htimer v hverdict)
            | coordination =>
                simp only [htype] at hverdict
                split at hverdict
                · rename_i hsame
                  refine .inl fun heq => hforeign ?_
                  simp [Proposal.ofSession, htype, hsame, heq]
                · cases hverdict
    have hgoes := fun stage => hmoves stage (waits_of_phase2 (h.waits x) hstage hother stage)
    have hpoll : Phase2.verdictOf (c₂.poll x next t.clock fresh) = some v := hpoll
    cases hresult : c₂.poll x next t.clock fresh with
    | pending c' answers =>
        rw [hresult] at hpoll
        cases hpoll
    | start _ _ _ _ _ => exact hgoes _
    | abort _ phase1 _ => exact hgoes _
    | panic _ => exact hgoes _

/-- A poll of the proposer. -/
theorem proposing_negotiation {cfg : ProposalConfig P κ} {t' : Proposal P ρ κ}
    {response : ResponsePoll P} {connected : Option Nat} (h : Proposing cfg t c)
    (hstep : ((t.takeAnswer response).map fun t =>
      t.afterNegotiation cfg
        (c.poll { now := t.clock, response := response, connected := connected } 0)) = some t') :
    ProposalInvariant cfg t' := by
  obtain ⟨t₁, ht₁, rfl⟩ := Option.map_eq_some_iff.mp hstep
  obtain ⟨hclock, hpeers, hstart, hleft, hmem⟩ := takeAnswer_eq_some ht₁
  have hsteps := negotiationSteps_poll (ρ := ρ) c
    { now := t₁.clock, response := response, connected := connected } 0
  have hanswered := collectedPeers_answered h
    { now := t₁.clock, response := response, connected := connected } hmem
  -- the next state of the negotiation
  have hnext : ∀ (c' : NegotiationChannel P κ) (proposals : List P),
      c'.peers
        = collectedPeers c { now := t₁.clock, response := response, connected := connected } →
      Proposing cfg { t₁ with proposer := .negotiating c', proposals := proposals } c' := by
    intro c' proposals hcollected
    refine ⟨fun x => ?_, fun x hx => ?_, fun x hx => ?_, hstart.trans h.startMsg⟩
    · show Waits cfg t₁.clock (t₁.peers x)
      rw [hclock, hpeers]
      exact h.waits x
    · show (t₁.peers x).answeredAt.isSome = true
      rw [hpeers]
      exact h.answers x (hleft x hx)
    · show _ ∨ (t₁.peers x).answeredAt.isSome = true
      rw [hpeers]
      exact hanswered x (hcollected ▸ hx)
  generalize (c.poll { now := t₁.clock, response := response, connected := connected } 0
    : NegotiationPoll P ρ κ) = poll at hsteps
  intro c' hc'
  cases hsteps with
  | starts _ => cases hc'
  | waits _ _ hcollected _ =>
      cases hc'
      exact hnext _ _ hcollected
  | proposes _ _ hcollected _ =>
      cases hc'
      exact hnext _ _ hcollected
  | aborts _ _ => cases hc'
  | panics _ => cases hc'

/-- The poll that starts the session. -/
theorem joinersWait_step {cfg : ProposalConfig P κ} {t' : Proposal P ρ κ} {peerset : Peerset P}
    (h : Proposing cfg t c) (hbefore : t.proposer = .negotiating c) (hstep : t.step cfg l = some t')
    (hafter : t'.proposer = .started peerset) : JoinersWait cfg peerset t' := by
  obtain ⟨response, connected, rfl⟩ := pollProposer_of_started hbefore hstep hafter
  simp only [Proposal.step, hbefore] at hstep
  obtain ⟨t₁, ht₁, rfl⟩ := Option.map_eq_some_iff.mp hstep
  obtain ⟨hclock, hpeers, _, _, hmem⟩ := takeAnswer_eq_some ht₁
  have hsteps := negotiationSteps_poll (ρ := ρ) c
    { now := t₁.clock, response := response, connected := connected } 0
  have hanswered := collectedPeers_answered h
    { now := t₁.clock, response := response, connected := connected } hmem
  generalize (c.poll { now := t₁.clock, response := response, connected := connected } 0
    : NegotiationPoll P ρ κ) = poll at hsteps hafter
  cases hsteps with
  | waits _ _ _ _ => cases hafter
  | proposes _ _ _ _ => cases hafter
  | aborts _ _ => cases hafter
  | panics _ => cases hafter
  | starts _ =>
      cases hafter
      intro x hx hremote
      have hx := (perm_peers _ _).mem_iff.mp hx
      obtain ⟨a, ha⟩ := Option.isSome_iff_exists.mp ((hanswered x hx).resolve_left hremote)
      show ∃ a, (t₁.peers x).answeredAt = some a ∧ (t₁.clock < _ → InPhase2 _ (t₁.peers x))
      rw [hclock, hpeers]
      refine ⟨a, ha, fun hlt => ?_⟩
      obtain ⟨c', hc', hsession, _⟩ := h.waits x a ha hlt
      exact ⟨c', hc', hsession⟩

/-- Every step meets the invariant. -/
theorem proposalInvariant_step {cfg : ProposalConfig P κ} {t' : Proposal P ρ κ}
    (h : ProposalInvariant cfg t) (hl : noReproposal cfg t l = true)
    (hstep : t.step cfg l = some t') : ProposalInvariant cfg t' := by
  cases l with
  | tick d =>
      cases hstep
      intro c hc
      obtain ⟨hwaits, hanswers, hcollected, hstart⟩ := h c hc
      exact ⟨fun x => (hwaits x).later (Nat.le_add_right _ _), hanswers, hcollected, hstart⟩
  | pollProposer response connected =>
      cases hproposer : t.proposer with
      | started peerset =>
          simp only [Proposal.step, hproposer] at hstep
          cases hstep
      | ended =>
          simp only [Proposal.step, hproposer] at hstep
          cases hstep
      | negotiating c =>
          simp only [Proposal.step, hproposer] at hstep
          exact proposing_negotiation (h c hproposer) hstep
  | pollPeer x message request sessionId makesAgent fresh =>
      obtain ⟨next, hnext, hstep⟩ := Option.bind_eq_some_iff.mp hstep
      intro c hc
      cases hstage : (t.peers x).stage with
      | left =>
          rw [hstage] at hstep
          cases hstep
      | phase1 c₁ =>
          rw [hstage] at hstep
          cases hstep
          rw [proposer_afterPhase1] at hc
          exact proposing_phase1 (h c hc) c₁ hnext hstage request sessionId makesAgent fresh
      | phase2 c₂ =>
          rw [hstage] at hstep
          cases hstep
          rw [proposer_afterPhase2] at hc
          -- a repeated proposal would be read as a start message
          refine proposing_phase2 (h c hc) c₂ hnext hstage ?_ fresh
          rintro tx rfl
          simpa [noReproposal, hstage] using hl
  | comeBack x c₁ =>
      cases hstage : (t.peers x).stage with
      | left =>
          simp only [Proposal.step, hstage] at hstep
          cases hstep
          intro c hc
          -- a party that has left was not in phase 2
          refine (h c hc).setStage (waits_of_not_phase2 ((h c hc).waits x) ?_ _)
          rw [hstage]
          exact nofun
      | phase1 c₁ =>
          simp only [Proposal.step, hstage] at hstep
          cases hstep
      | phase2 c₂ =>
          simp only [Proposal.step, hstage] at hstep
          cases hstep

/-- In every run in which no peer reads a repeated proposal in phase 2: at
the moment the proposer starts the session, the joiners that answered in
time wait for the start message. -/
theorem joinersWait_of_start (cfg : ProposalConfig P κ) {t t' : Proposal P ρ κ}
    {l : ProposalLabel P ρ κ} {c : NegotiationChannel P κ} {peerset : Peerset P}
    (hreach : Reach (Proposal.step cfg) (fun t l => noReproposal cfg t l = true)
      (Proposal.start cfg) t) (hbefore : t.proposer = .negotiating c)
    (hstep : t.step cfg l = some t') (hafter : t'.proposer = .started peerset) :
    JoinersWait cfg peerset t' := by
  have hinv : ProposalInvariant cfg t := hreach.invariant (proposalInvariant_start cfg)
    fun _ _ _ ht hl hstep => proposalInvariant_step ht hl hstep
  exact joinersWait_step (hinv c hbefore) hbefore hstep hafter

end Joiners

namespace SecondProposal

/-- The peer with the byte `1` proposes to two others. -/
def cfg : ProposalConfig Ed25519PeerId Nat where
  roomId := ⟨"room"⟩
  localPeerId := .ofByte 1
  others := [.ofByte 2, .ofByte 3]
  n := 3
  request := []
  protocolId := 1
  sessionId := noSessionId
  pendingResponse := 0

abbrev Label := ProposalLabel Ed25519PeerId Nat Nat

def proposes : Label := .pollProposer .pending (some 2)

def hears (response : ResponsePoll Ed25519PeerId) : Label := .pollProposer response none

/-- A peer reads a proposal. -/
def reads (b : UInt8) : Label := .pollPeer (.ofByte b) (.proposal 0) .empty noSessionId true 0

/-- The proposal reaches both peers. -/
def answered : List Label := [proposes, reads 2, reads 3, hears (.ok (.ofByte 2))]

/-- With the answer of the third peer the session starts, and both peers
wait for it. -/
theorem joinersWait_answered :
    ∃ (t t' : Proposal Ed25519PeerId Nat Nat) (c : NegotiationChannel Ed25519PeerId Nat)
      (peerset : Peerset Ed25519PeerId),
      runIf (Proposal.step cfg) (noReproposal cfg) (Proposal.start cfg) answered = some t ∧
      t.proposer = .negotiating c ∧ t.step cfg (hears (.ok (.ofByte 3))) = some t' ∧
      t'.proposer = .started peerset ∧
      peerset.peers = [.ofByte 1, .ofByte 2, .ofByte 3] ∧ JoinersWait cfg peerset t' := by
  refine ⟨_, _, _, _, rfl, rfl, rfl, rfl, by decide, ?_⟩
  exact joinersWait_of_start cfg (reach_of_runIf answered rfl) rfl
    (l := hears (.ok (.ofByte 3))) rfl rfl

/-- The request to the third peer fails, and the proposal is repeated. The
second peer reads it in phase 2. -/
def repeated : List Label :=
  [proposes, reads 2, hears (.ok (.ofByte 2)), hears .failed, hears .closed, .tick 1000,
    proposes, reads 2, reads 3]

/-- The second peer is back in phase 1, one second after its answer. -/
theorem not_joinersWait_repeated :
    ∃ (t t' : Proposal Ed25519PeerId Nat Nat) (c : NegotiationChannel Ed25519PeerId Nat)
      (peerset : Peerset Ed25519PeerId),
      Reach (Proposal.step cfg) Always (Proposal.start cfg) t ∧
      t.proposer = .negotiating c ∧ t.step cfg (hears (.ok (.ofByte 3))) = some t' ∧
      t'.proposer = .started peerset ∧ .ofByte 2 ∈ peerset.peers ∧
      (t'.peers (.ofByte 2)).answeredAt = some 0 ∧ t'.clock = 1000 ∧
      ¬ JoinersWait cfg peerset t' := by
  refine ⟨_, _, _, _, reach_of_run repeated rfl, rfl, rfl, rfl, by decide, rfl, rfl, ?_⟩
  intro h
  obtain ⟨a, ha, hwaits⟩ := h (.ofByte 2) (by decide) (by decide)
  cases ha
  obtain ⟨c, hc, _⟩ := hwaits (by decide)
  cases hc

end SecondProposal

end FrostMpcTss.Proofs
