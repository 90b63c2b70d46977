import FrostMpcTss.Proofs.KeyGenRoom
import FrostMpcTss.Proofs.KeySignRoom
import FrostMpcTss.Proofs.NegotiationQuorum
import FrostMpcTss.Proofs.NoOverflow
import FrostMpcTss.Session.RpcRequest

/-!
# `FrostMpcTss.Proofs.RpcParameters`: what a client may ask for

The RPC server passes `n` and `t` on without a check. `OnTrack` follows a
request for at least one party, and at most as many as a `u16` counts. A
negotiation starts when another peer has answered, so a session has two
parties at least, and its arithmetic is within `Bounded`. A request that gets
no session is answered with an error.

A key generation for no party panics in the first proposal, and a `sign` with
the largest `t` panics before it is a request (`arithmeticHolds_iff`).
-/

set_option autoImplicit false

namespace FrostMpcTss.Proofs

open Lib Network Service FrostMpcTss.Session
open Tss Rpc
open Service.NegotiationFuture (okResponse)

section Agents

variable {P σ : Type} {allowance : Nat}

/-- A poll of an agent with this allowance: it pays for its broadcasts, and
addresses parties only. -/
structure Pays (budget : σ → Nat) (allowance : Nat) (polled : σ × AgentTurn) : Prop where
  broadcasts_le : budget polled.1 + broadcasts polled.2.sent ≤ allowance
  recipients : ∀ m ∈ polled.2.sent, m.recipient ≠ some 0

/-- An agent with a budget for its broadcasts. -/
structure Frugal (limit : Nat) (agent : RequestAgent P σ) (budget : σ → Nat) : Prop where
  start_le : budget agent.start ≤ limit
  poll : ∀ peerset request a incoming outgoing,
    Pays budget (budget a) (agent.poll peerset request a incoming outgoing)

/-- A turn that sends nothing costs nothing. -/
theorem pays_silent {budget : σ → Nat} {a : σ} {turn : AgentTurn} (ha : budget a ≤ allowance)
    (hsent : turn.sent = []) : Pays budget allowance (a, turn) := by
  refine ⟨?_, ?_⟩
  · show budget a + broadcasts turn.sent ≤ allowance
    rw [hsent]
    exact ha
  · intro m hm
    rw [hsent] at hm
    cases hm

/-- A broadcast costs one. -/
theorem pays_broadcast {budget : σ → Nat} {a : σ} {turn : AgentTurn} {message : AgentMessage}
    (ha : budget a + 1 ≤ allowance) (hsent : turn.sent = [message])
    (hmessage : message.recipient = none) : Pays budget allowance (a, turn) := by
  have hone : broadcasts [message] = 1 := by simp [broadcasts, hmessage]
  refine ⟨?_, ?_⟩
  · show budget a + broadcasts turn.sent ≤ allowance
    rw [hsent, hone]
    exact ha
  · intro m hm
    rw [hsent] at hm
    rw [List.mem_singleton.mp hm, hmessage]
    exact (Option.some_ne_none 0).symm

section Dealer

variable {A B : Type} [Identifiers] [DagCbor] [KeyGen.DkgCodec A B] {p : KeyGen.DkgSession A B}
  {s : KeyGen.Round1 A}

/-- `run_dkg` makes one broadcast, at its start. -/
def dealerBudget : KeyGen.Dkg A B → Nat
  | .start => 1
  | _ => 0

omit [Identifiers] in
theorem recipient_mem_sendRound2 {room : Nat} {todo : List (Nat × B)} {m : AgentMessage}
    (hm : m ∈ (KeyGen.sendRound2 p room todo).1) : ∃ k, m.recipient = some (k + 1) := by
  obtain ⟨package, hmessage⟩ := mem_sendRound2 hm
  have hto := recipient_round2Message hmessage
  have hexpects : KeyGen.expects p package.1 = true := by
    unfold KeyGen.round2Message at hmessage
    split at hmessage
    · cases hmessage
    · rename_i hexpects
      simpa using hexpects
  have hpos : 1 ≤ package.1 := by
    simp only [KeyGen.expects, Bool.and_eq_true, decide_eq_true_eq] at hexpects
    exact hexpects.1
  exact ⟨package.1 - 1, by rw [hto, Nat.sub_add_cancel hpos]⟩

/-- Round 2 has no broadcasts left. -/
theorem pays_runRound2 {acc : KeyGen.Round2 B} {received : Nat} {incoming : List AgentRequest}
    {sent : List AgentMessage} (hsent : broadcasts sent ≤ allowance)
    (hto : ∀ m ∈ sent, m.recipient ≠ some 0) :
    Pays dealerBudget allowance (KeyGen.runRound2 p s acc received incoming sent) := by
  unfold KeyGen.runRound2
  split
  all_goals exact ⟨(Nat.zero_add _).symm ▸ hsent, hto⟩

/-- The messages of round 2 go to one party each. -/
theorem pays_runSending {todo : List (Nat × B)} {room received : Nat} {incoming : List AgentRequest}
    {sent : List AgentMessage} (hsent : broadcasts sent ≤ allowance)
    (hto : ∀ m ∈ sent, m.recipient ≠ some 0) :
    Pays dealerBudget allowance (KeyGen.runSending p s todo room received incoming sent) := by
  have hmessages : ∀ m ∈ (KeyGen.sendRound2 p room todo).1, ∃ k, m.recipient = some (k + 1) :=
    fun m hm => recipient_mem_sendRound2 hm
  unfold KeyGen.runSending
  generalize KeyGen.sendRound2 p room todo = sending at hmessages
  obtain ⟨messages, left⟩ := sending
  -- the packages are direct messages, so they cost nothing
  have hnone : broadcasts messages = 0 := by
    rw [broadcasts, List.countP_eq_zero]
    intro m hm
    obtain ⟨k, hk⟩ := hmessages m hm
    rw [hk]
    exact Bool.false_ne_true
  have hsent' : broadcasts (sent ++ messages) ≤ allowance := by
    rw [broadcasts_append, hnone]
    exact hsent
  have hto' : ∀ m ∈ sent ++ messages, m.recipient ≠ some 0 := by
    intro m hm
    rcases List.mem_append.mp hm with hm | hm
    · exact hto m hm
    · obtain ⟨k, hk⟩ := hmessages m hm
      rw [hk]
      exact fun h => Nat.succ_ne_zero k (Option.some.inj h)
  rcases left with e | _ | ⟨package, left⟩
  · exact ⟨(Nat.zero_add _).symm ▸ hsent', hto'⟩
  · exact pays_runRound2 hsent' hto'
  · exact ⟨(Nat.zero_add _).symm ▸ hsent', hto'⟩

theorem pays_runRound1 {room : Nat} {incoming : List AgentRequest} {sent : List AgentMessage}
    (hsent : broadcasts sent ≤ allowance) (hto : ∀ m ∈ sent, m.recipient ≠ some 0) :
    Pays dealerBudget allowance (KeyGen.runRound1 p s room incoming sent) := by
  unfold KeyGen.runRound1
  split
  · exact ⟨(Nat.zero_add _).symm ▸ hsent, hto⟩
  · exact ⟨(Nat.zero_add _).symm ▸ hsent, hto⟩
  · split
    · exact ⟨(Nat.zero_add _).symm ▸ hsent, hto⟩
    · exact pays_runSending hsent hto

/-- A key generation makes two broadcasts at most. -/
theorem frugal_dealer (material : Peerset P → Bytes → KeyGen.DkgSession A B) :
    Frugal 2 (dealer material) dealerBudget where
  start_le := Nat.le_succ 1
  poll peerset request a incoming outgoing := by
    show Pays _ _ (KeyGen.runDkg _ _ a incoming outgoing)
    cases a with
    | start =>
        rw [KeyGen.runDkg]
        split
        · rename_i package message hsend
          have hmessage := (sendRound1_eq_ok hsend).2.1
          refine pays_runRound1 ?_ ?_
          · simp [broadcasts, hmessage, dealerBudget]
          · intro m hm
            rw [List.mem_singleton.mp hm, hmessage]
            exact (Option.some_ne_none 0).symm
        · exact pays_silent (Nat.zero_le _) rfl
    | round1 s => exact pays_runRound1 (Nat.le_refl _) (List.forall_mem_nil _)
    | sending s todo => exact pays_runSending (Nat.le_refl _) (List.forall_mem_nil _)
    | round2 s acc => exact pays_runRound2 (Nat.le_refl _) (List.forall_mem_nil _)
    | returned => exact pays_silent (Nat.le_refl _) rfl

end Dealer

section Signer

variable {C S : Type} [Identifiers] [DagCbor] [KeySign.SigningCodec C S]

/-- `run_signing` broadcasts its commitments, and then its share. -/
def signerBudget : KeySign.Signing C S → Nat
  | .start => 2
  | .commitmentsSent _ => 1
  | .round1 _ => 1
  | _ => 0

theorem pays_signing_runRound1 (p : KeySign.SigningSession C S) (s : KeySign.Round1 C S)
    (incoming : List AgentRequest) : Pays signerBudget 1 (KeySign.runRound1 p s incoming) := by
  unfold KeySign.runRound1
  split
  · exact pays_silent (Nat.le_refl _) rfl
  · exact pays_silent (Nat.zero_le _) rfl
  · split
    · rename_i share message hshare
      exact pays_broadcast (Nat.le_refl _) rfl (sendShare_eq_ok hshare).1
    · exact pays_silent (Nat.zero_le _) rfl

theorem pays_signing_runRound2 (p : KeySign.SigningSession C S) (s : KeySign.Round2 C S)
    (incoming : List AgentRequest) : Pays signerBudget 0 (KeySign.runRound2 p s incoming) := by
  unfold KeySign.runRound2
  split
  all_goals exact pays_silent (Nat.zero_le _) rfl

/-- So does a signature. -/
theorem frugal_signer (material : Peerset P → Bytes → KeySign.SigningSession C S) :
    Frugal 2 (signer material) signerBudget where
  start_le := Nat.le_refl _
  poll peerset request a incoming outgoing := by
    show Pays _ _ (KeySign.runSigning _ a incoming outgoing)
    cases a with
    | start =>
        rw [KeySign.runSigning]
        split
        · rename_i commitments message hsend
          exact pays_broadcast (Nat.le_refl _) rfl (sendCommitments_eq_ok hsend).2.1
        · exact pays_silent (Nat.zero_le _) rfl
    | commitmentsSent commitments =>
        rw [KeySign.runSigning]
        split
        · exact pays_silent (Nat.le_refl _) rfl
        · split
          · exact pays_signing_runRound1 _ _ _
          · exact pays_silent (Nat.zero_le _) rfl
    | round1 s => exact pays_signing_runRound1 _ s _
    | shareSent s share =>
        rw [KeySign.runSigning]
        split
        · exact pays_silent (Nat.le_refl _) rfl
        · split
          · exact pays_signing_runRound2 _ _ _
          · exact pays_silent (Nat.le_refl _) rfl
    | round2 s => exact pays_signing_runRound2 _ s _
    | returned => exact pays_silent (Nat.le_refl _) rfl

end Signer

end Agents

variable {fresh n : Nat}

section Negotiation

variable {P ρ κ : Type} {c c' : NegotiationChannel P κ} {localPeerId : P}
  {input : NegotiationInput P}

/-- The timer and the counter of a negotiation that goes on. The first
broadcast restarts the timer. -/
inductive TimerStep (c : NegotiationChannel P κ) (now : Nat) (c' : NegotiationChannel P κ) :
    Prop where
  | same : c'.timeout = c.timeout → c'.lastBroadcastTime = c.lastBroadcastTime →
      c'.retryCount = c.retryCount → TimerStep c now c'
  | first : c.lastBroadcastTime = none → c'.timeout = now + broadcastTimeout →
      c'.lastBroadcastTime = some now → c'.retryCount = c.retryCount + 1 → TimerStep c now c'
  | again {lastTime : Nat} : c.lastBroadcastTime = some lastTime →
      lastTime + retryInterval ≤ now → c'.timeout = c.timeout →
      c'.lastBroadcastTime = some now → c'.retryCount = c.retryCount + 1 → TimerStep c now c'

/-- No broadcast has been made, or as many as the time since the first one
allows. -/
def RetriesCounted (c : NegotiationChannel P κ) : Prop :=
  match c.lastBroadcastTime with
  | none => c.retryCount = 0
  | some lastTime => lastTime < c.timeout ∧
      c.timeout + c.retryCount * retryInterval ≤ lastTime + broadcastTimeout + retryInterval

theorem RetriesCounted.le (h : RetriesCounted c) : c.retryCount ≤ 15 := by
  unfold RetriesCounted at h
  split at h
  · omega
  · simp only [retryInterval, broadcastTimeout] at h
    omega

/-- A retry moves the counter and the clock together. -/
theorem RetriesCounted.of_timerStep {now : Nat} (h : RetriesCounted c) (hstep : TimerStep c now c')
    (hnow : now < c'.timeout) : RetriesCounted c' := by
  unfold RetriesCounted at h ⊢
  cases hstep with
  | same htimeout hlast hcount =>
      rw [hlast, hcount, htimeout]
      exact h
  | first hnone htimeout hlast hcount =>
      rw [hnone] at h
      rw [hlast, hcount, h]
      refine ⟨hnow, ?_⟩
      omega
  | again hsome hwaited htimeout hlast hcount =>
      -- the interval has passed since the last broadcast, so one more fits
      rw [hsome] at h
      rw [hlast, hcount, Nat.succ_mul]
      refine ⟨hnow, ?_⟩
      have hcounted := h.2
      omega

/-- The channel a poll leaves, if it goes on. -/
def goesOn : NegotiationPoll P ρ κ → Option (NegotiationChannel P κ)
  | .pending c => some c
  | .proposed c => some c
  | _ => none

theorem goesOn_checkTimeout {now : Nat} {next : NegotiationPoll P ρ κ}
    (h : goesOn (c.checkTimeout now fresh next) = some c') : goesOn next = some c' := by
  unfold NegotiationChannel.checkTimeout at h
  split at h
  · cases h
  · exact h

/-- Two different members make a list of two. -/
theorem two_le_length {α : Type} {l : List α} {a b : α} (ha : a ∈ l) (hb : b ∈ l) (hne : a ≠ b) :
    2 ≤ l.length := by
  match l, ha, hb with
  | [x], ha, hb =>
      rw [List.mem_singleton] at ha hb
      exact absurd (ha.trans hb.symm) hne
  | _ :: _ :: _, _, _ => exact Nat.le_add_left 2 _

/-- The negotiation of a request for `n` parties. -/
structure NegotiatesFor (localPeerId : P) (n : Nat) (c : NegotiationChannel P κ) : Prop where
  parties : c.n = n
  localPeer : c.localPeerId = localPeerId
  mem : localPeerId ∈ c.peers
  retries : RetriesCounted c

variable [DecidableEq P]

/-- The local peer is among those it collects. -/
theorem NegotiatesFor.mem_collectedPeers (h : NegotiatesFor localPeerId n c)
    (input : NegotiationInput P) : localPeerId ∈ collectedPeers c input := by
  unfold collectedPeers
  split
  · exact List.mem_insert_of_mem h.mem
  · exact h.mem

theorem NegotiatesFor.of_same (h : NegotiatesFor localPeerId n c) (hsame : SameNegotiation c c')
    (hpeers : c'.peers = collectedPeers c input) (hretries : RetriesCounted c') :
    NegotiatesFor localPeerId n c' := by
  refine ⟨hsame.n.trans h.parties, hsame.localPeerId.trans h.localPeer, ?_, hretries⟩
  rw [hpeers]
  exact h.mem_collectedPeers input

/-- The last answer is that of another peer, so there are two. -/
theorem NegotiatesFor.two_le (h : NegotiatesFor localPeerId n c)
    (hremote : input.response ≠ .ok localPeerId) (hlast : LastAnswer c input) : 2 ≤ n := by
  obtain ⟨hsome, hlength⟩ := hlast
  obtain ⟨peerId, hpeer⟩ := Option.isSome_iff_exists.mp hsome
  have hne : localPeerId ≠ peerId := by
    rintro rfl
    unfold okResponse at hpeer
    split at hpeer
    · rename_i hresponse
      cases hpeer
      exact hremote hresponse
    · cases hpeer
  have hcollected : collectedPeers c input = c.peers.insert peerId := by rw [collectedPeers, hpeer]
  rw [← h.parties, ← hlength, hcollected]
  exact two_le_length (List.mem_insert_of_mem h.mem) List.mem_insert_self hne

variable [PeerIdCodec P] [UnsignedVarint]

/-- What a poll that goes on does to the timer and the retries. -/
theorem timerStep_poll (h : goesOn (c.poll input fresh : NegotiationPoll P ρ κ) = some c') :
    TimerStep c input.now c' := by
  unfold NegotiationChannel.poll at h
  split at h
  · -- while responses come in, nothing is broadcast
    split at h
    · simp only at h
      split at h
      · cases h
      · cases goesOn_checkTimeout h
        exact .same rfl rfl rfl
    · cases goesOn_checkTimeout h
      exact .same rfl rfl rfl
    · cases goesOn_checkTimeout h
      exact .same rfl rfl rfl
    · cases goesOn_checkTimeout h
      exact .same rfl rfl rfl
  · have htimeout := (awaitConnections_same c input).2.2
    have hlast : (c.awaitConnections input).lastBroadcastTime = c.lastBroadcastTime := by
      unfold NegotiationChannel.awaitConnections
      split <;> rfl
    have hcount : (c.awaitConnections input).retryCount = c.retryCount := by
      unfold NegotiationChannel.awaitConnections
      split <;> rfl
    generalize c.awaitConnections input = waited at h htimeout hlast hcount
    simp only at h
    split at h
    · rename_i hshould
      split at h
      · cases h
      · cases goesOn_checkTimeout h
        unfold NegotiationChannel.shouldBroadcast at hshould
        split at hshould
        · rename_i hnone
          exact .first (hlast.symm.trans hnone) (if_pos hnone) rfl
            (congrArg Nat.succ hcount)
        · rename_i lastTime hsome
          have hne : waited.lastBroadcastTime ≠ none := by
            rw [hsome]
            exact nofun
          simp only [Bool.and_eq_true, decide_eq_true_eq] at hshould
          have hwaited : retryInterval ≤ input.now - lastTime := hshould.1
          refine .again (hlast.symm.trans hsome) ?_ ((if_neg hne).trans htimeout) rfl
            (congrArg Nat.succ hcount)
          rw [retryInterval] at hwaited ⊢
          omega
    · cases goesOn_checkTimeout h
      exact .same htimeout hlast hcount

/-- A poll that goes on has found its timer running. -/
theorem lt_timeout_of_goesOn (h : goesOn (c.poll input fresh : NegotiationPoll P ρ κ) = some c') :
    input.now < c'.timeout := by
  have hsteps := negotiationSteps_poll (ρ := ρ) c input fresh
  generalize (c.poll input fresh : NegotiationPoll P ρ κ) = poll at hsteps h
  cases hsteps with
  | starts _ => cases h
  | waits _ _ _ hlt =>
      cases h
      exact hlt
  | proposes _ _ _ hlt =>
      cases h
      exact hlt
  | aborts _ _ => cases h
  | panics _ => cases h

end Negotiation

section Property

variable {P ρ κ σ : Type}

/-- How many parties the session of a call has. -/
def parties : TssCall → Nat
  | .keygen _ n _ => n
  | .sign _ t _ => t + 1

/-- The panic a request has ended in. -/
def panicOf : RequestStage P ρ κ σ → Option Panic
  | .panicked why => some why
  | .executing _ _ session _ =>
      match session.state with
      | .panicked why => some why
      | _ => none
  | _ => none

/-- The execution of a request, while it runs. -/
def executionOf : RequestStage P ρ κ σ → Option (ProtocolExecution P ρ κ)
  | .executing _ _ session _ => session.execution.map Prod.fst
  | _ => none

/-- The request has got a session. -/
def HasSession (t : RequestStage P ρ κ σ) : Prop :=
  ∃ request proxy session agent, t = .executing request proxy session agent

/-- The call has returned with an error. -/
def HasError (t : RequestStage P ρ κ σ) : Prop := ∃ e, t = .replied (.error e)

/-- Nothing over- or underflows, and no channel without capacity is made:
neither in a checked operation, nor in the `n - 1` of
`forward_buffered_messages` and of `run_dkg`, nor in the count of the
broadcasts, a `u32`. A request that forms no session
is answered with an error; it waits for one until the timer of its
negotiation runs out, and once more if the timer was restarted. The response
channel of the negotiation is a `futures` channel, whose capacity is its
buffer and one for each sender, so it holds a message with a buffer of zero
too. -/
structure ArithmeticHolds [DecidableEq P] [Blake2s256] [PeerIdCodec P] [UnsignedVarint]
    [CborRecord KeygenRequestPayload] [CborRecord SignRequestPayload]
    (cfg : RequestConfig P κ σ) (t : RequestStage P ρ κ σ) : Prop where
  noPanic : ∀ why, panicOf t = some why → isArithmetic why = false
  subtractions : ∀ s, executionOf t = some s → 0 < s.n ∧ 0 < asU16 s.peerset.size
  retries : ∀ n c, t = .negotiating n c → c.retryCount + 1 < 2 ^ 32
  sessions : HasSession t → 2 ≤ parties cfg.call
  replies : ∀ result, t = .replied result → HasError t
  ends : ∀ n c input input' fresh fresh' t₁ t₂, t = .negotiating n c →
    c.timeout ≤ input.now → input.now + broadcastTimeout ≤ input'.now →
    t.step cfg (.pollNegotiation input fresh) = some t₁ →
    t₁.step cfg (.pollNegotiation input' fresh') = some t₂ → HasSession t₂ ∨ HasError t₂

/-- A request for `parties cfg.call` parties on its way. -/
inductive OnTrack (cfg : RequestConfig P κ σ) (limit : Nat) (budget : σ → Nat) :
    RequestStage P ρ κ σ → Prop where
  | called : OnTrack cfg limit budget .called
  | queued {msg : ServicetoWorkerMsg κ} :
      (Room.localRpcMsg cfg.client msg).n = parties cfg.call →
      OnTrack cfg limit budget (.queued msg)
  | dispatched {msg : LocalRpcMsg κ} : msg.n = parties cfg.call →
      OnTrack cfg limit budget (.dispatched msg)
  | negotiating {c : NegotiationChannel P κ} :
      NegotiatesFor cfg.localPeerId (parties cfg.call) c →
      OnTrack cfg limit budget (.negotiating (parties cfg.call) c)
  | executing {request : Bytes} {proxy : Option (ReceiverProxy P ρ)} {session : Session P ρ κ}
      {agent : σ} : 2 ≤ parties cfg.call →
      (∀ p, proxy = some p → p.peerset.size = parties cfg.call) →
      StateBounded limit (budget agent) (parties cfg.call) session.state →
      OnTrack cfg limit budget (.executing request proxy session agent)
  | failed {e : TssError} : OnTrack cfg limit budget (.replied (.error e))

end Property

section Steps

variable {P ρ κ σ : Type} {cfg : RequestConfig P κ σ} {limit : Nat} {budget : σ → Nat}

/-- The call makes a request for its parties. -/
theorem onTrack_call [CborRecord KeygenRequestPayload] [CborRecord SignRequestPayload]
    (hsmall : parties cfg.call < 2 ^ 16) :
    OnTrack cfg limit budget
      (RequestStage.afterCall (cfg.call.send cfg.transportRoom cfg.pendingResponse) :
        RequestStage P ρ κ σ) := by
  cases hcall : cfg.call with
  | keygen room n t =>
      simp only [TssCall.send, Rpc.keygen]
      split
      · exact .failed
      · refine .queued ?_
        rw [hcall]
        rfl
  | sign room t msg =>
      have hsucc : succU16 t = .ok (t + 1) := by
        rw [hcall] at hsmall
        exact if_pos hsmall
      simp only [TssCall.send, Rpc.sign, hsucc]
      split
      · exact .failed
      · refine .queued ?_
        rw [hcall]
        rfl

/-- The channel takes the request, or drops it. -/
theorem onTrack_phase1 {msg : LocalRpcMsg κ} (hmsg : msg.n = parties cfg.call)
    (c : Phase1Channel P ρ) (next : Option (IncomingRequest P ρ)) (sessionId : SessionId)
    (now : Nat) :
    OnTrack cfg limit budget
      (RequestStage.afterPhase1 msg (c.poll cfg.localPeerId next (.value msg) sessionId now)) := by
  have hrequest : ∀ (c : Phase1Channel P ρ) answers,
      OnTrack cfg limit budget
        (RequestStage.afterPhase1 msg
          (c.pollRequest cfg.localPeerId (.value msg) sessionId now answers)) := by
    intro c answers
    show OnTrack cfg limit budget (.negotiating msg.n _)
    rw [hmsg]
    exact .negotiating ⟨rfl, rfl, List.mem_singleton_self _, rfl⟩
  unfold Phase1Channel.poll
  split
  · exact hrequest c []
  · split
    · exact .failed
    · exact hrequest _ _

/-- A poll of the negotiation. -/
theorem onTrack_negotiation [DecidableEq P] [PeerIdCodec P] [UnsignedVarint]
    {c : NegotiationChannel P κ} {input : NegotiationInput P} (fresh : Nat)
    (hpos : 0 < parties cfg.call) (hsmall : parties cfg.call < 2 ^ 16)
    (hagent : Frugal limit cfg.agent budget) (hremote : input.response ≠ .ok cfg.localPeerId)
    (h : NegotiatesFor cfg.localPeerId (parties cfg.call) c) :
    OnTrack cfg limit budget
      (RequestStage.afterNegotiation cfg (parties cfg.call) (c.poll input fresh) :
        RequestStage P ρ κ σ) := by
  have hsteps := negotiationSteps_poll (ρ := ρ) c input fresh
  have hretries : ∀ c', goesOn (c.poll input fresh : NegotiationPoll P ρ κ) = some c' →
      RetriesCounted c' := fun c' hgoesOn =>
    h.retries.of_timerStep (timerStep_poll hgoesOn) (lt_timeout_of_goesOn hgoesOn)
  generalize (c.poll input fresh : NegotiationPoll P ρ κ) = poll at hsteps hretries ⊢
  cases hsteps with
  | starts hlast =>
      -- the last answer is a remote's, so the session has two parties
      have htwo := h.two_le hremote hlast
      have hlength : (collectedPeers c input).length = parties cfg.call := hlast.2.trans h.parties
      have hperm := perm_peers (collectedPeers c input) c.localPeerId
      have hsize : (Peerset.new (collectedPeers c input) c.localPeerId).size = parties cfg.call :=
        hperm.length_eq.trans hlength
      have hlocal : c.localPeerId ∈ (Peerset.new (collectedPeers c input) c.localPeerId).peers := by
        rw [hperm.mem_iff, h.localPeer]
        exact h.mem_collectedPeers input
      obtain ⟨w, hw, hbounded⟩ := bounded_new (ρ := ρ) c.sessionId c.protocolId
        (Peerset.new (collectedPeers c input) c.localPeerId) (some c.pendingResponse) hlocal hsize
        htwo hsmall hagent.start_le
      simp only [NegotiationChannel.start, RequestStage.afterNegotiation, hw]
      refine .executing htwo ?_ hbounded
      rintro _ ⟨⟩
      exact hsize
  | waits _ hsame hpeers _ => exact .negotiating (h.of_same hsame hpeers (hretries _ rfl))
  | proposes _ hsame hpeers _ => exact .negotiating (h.of_same hsame hpeers (hretries _ rfl))
  | aborts _ _ => exact .failed
  | panics hzero =>
      -- only a request for no party has no `n - 1`
      rw [h.parties] at hzero
      omega

section Session

variable [DecidableEq P]

theorem indexOf_lt {p : Peerset P} {peerId : P} {i : Nat} (hsmall : p.size < 2 ^ 16)
    (h : p.indexOf peerId = some i) : i + 1 < 2 ^ 16 := by
  obtain ⟨k, hk, rfl⟩ := Option.map_eq_some_iff.mp h
  have hlt : k < p.size := (List.findIdx?_eq_some_iff_getElem.mp hk).1
  rw [asU16, Nat.mod_eq_of_lt (Nat.lt_trans hlt hsmall)]
  exact Nat.lt_of_le_of_lt hlt hsmall

/-- The proxy writes the sender's position into what it hands on. -/
theorem peerIndex_handled {p p' q : ReceiverProxy P ρ} {tookNext tookNext' : Bool}
    {m : IncomingRequest P ρ} {queued : Nat} {feed : List (IncomingRequest P ρ)}
    {answers : Answers ρ} (hsmall : p.peerset.size < 2 ^ 16) (hq : q.peerset = p.peerset)
    (h : ReceiverProxy.handled q tookNext m
      (ReceiverProxy.forwardOrReject m p.sessionId p.peerset queued)
        = .pending p' tookNext' feed answers) :
    p'.peerset = p.peerset ∧ ∀ m ∈ feed, m.peerIndex + 1 < 2 ^ 16 := by
  unfold ReceiverProxy.forwardOrReject at h
  split at h
  · split at h
    · rename_i i hindex
      split at h
      · cases h
        refine ⟨hq, fun m' hm' => ?_⟩
        rw [List.mem_singleton.mp hm']
        exact indexOf_lt hsmall hindex
      · cases h
        exact ⟨hq, List.forall_mem_nil _⟩
    · cases h
      exact ⟨hq, List.forall_mem_nil _⟩
  · cases h
    exact ⟨hq, List.forall_mem_nil _⟩

/-- The proxy hands on indices that fit into 16 bits. -/
theorem peerIndex_poll {p p' : ReceiverProxy P ρ} {closed tookNext : Bool}
    {queued request : Nat} {next : Option (IncomingRequest P ρ)}
    {feed : List (IncomingRequest P ρ)} {answers : Answers ρ} (hsmall : p.peerset.size < 2 ^ 16)
    (h : p.poll closed queued next request = .pending p' tookNext feed answers) :
    p'.peerset = p.peerset ∧ ∀ m ∈ feed, m.peerIndex + 1 < 2 ^ 16 := by
  unfold ReceiverProxy.poll at h
  split at h
  · cases h
  · split at h
    · refine peerIndex_handled hsmall ?_ h
      rfl
    · split at h
      · exact peerIndex_handled hsmall rfl h
      · cases h
        exact ⟨rfl, List.forall_mem_nil _⟩

variable [Blake2s256] {request : Bytes} {proxy : Option (ReceiverProxy P ρ)}
  {session : Session P ρ κ} {agent : σ} {t t' : RequestStage P ρ κ σ}

/-- The proxy delivers, or ends. -/
theorem onTrack_proxy {p : ReceiverProxy P ρ} {closed : Bool} {queued name : Nat}
    {next : Option (IncomingRequest P ρ)} (hsmall : parties cfg.call < 2 ^ 16)
    (h : OnTrack cfg limit budget (.executing request (some p) session agent))
    (hstep : RequestStage.afterProxy request session agent (p.poll closed queued next name)
      = some t') : OnTrack cfg limit budget t' := by
  cases h with
  | executing htwo hproxy hbounded =>
      have hsize := hproxy p rfl
      cases hpoll : p.poll closed queued next name with
      | ready roomId phase1 =>
          rw [hpoll] at hstep
          cases hstep
          exact .executing htwo nofun hbounded
      | pending p' tookNext feed answers =>
          rw [hpoll] at hstep
          obtain ⟨hpeerset, hfeed⟩ := peerIndex_poll (hsize ▸ hsmall) hpoll
          obtain ⟨session', hrun, rfl⟩ := Option.map_eq_some_iff.mp hstep
          refine .executing htwo ?_ (stateBounded_deliver hfeed hbounded hrun)
          rintro _ ⟨⟩
          rw [hpeerset]
          exact hsize

/-- The execution and its agent are polled. -/
theorem onTrack_execution {now : Nat} (hagent : Frugal limit cfg.agent budget)
    (h : OnTrack cfg limit budget (.executing request proxy session agent))
    (hstep : RequestStage.pollExecution cfg request proxy session agent now = some t') :
    OnTrack cfg limit budget t' := by
  cases h with
  | executing htwo hproxy hbounded =>
      unfold RequestStage.pollExecution at hstep
      cases hexecution : session.execution with
      | none =>
          rw [hexecution] at hstep
          cases hstep
      | some execution =>
          obtain ⟨s, echoTx⟩ := execution
          simp only [hexecution] at hstep
          cases hview : agentView s echoTx now with
          | some view =>
              simp only [hview] at hstep
              have hpays := hagent.poll s.peerset request agent view.1 view.2
              obtain ⟨session', hpoll, rfl⟩ := Option.map_eq_some_iff.mp hstep
              exact .executing htwo hproxy
                (stateBounded_poll hbounded hpays.recipients hpays.broadcasts_le hpoll)
          | none =>
              simp only [hview] at hstep
              obtain ⟨session', hpoll, rfl⟩ := Option.map_eq_some_iff.mp hstep
              have hidle : ∀ m ∈ idleTurn.sent, m.recipient ≠ some 0 :=
                fun m hm => absurd hm List.not_mem_nil
              exact .executing htwo hproxy
                (stateBounded_poll hbounded hidle (Nat.le_refl _) hpoll)

/-- Something else happens to the session. -/
theorem onTrack_stepSession (l : WrapLabel P ρ) (hlimit : limit < 2 ^ 16)
    (h : OnTrack cfg limit budget t) (hdeliver : ∀ m, l ≠ .deliver m)
    (hpoll : ∀ now turn, l ≠ .pollComputation now turn) (hstep : t.stepSession l = some t') :
    OnTrack cfg limit budget t' := by
  unfold RequestStage.stepSession at hstep
  split at hstep
  · cases h with
    | executing htwo hproxy hbounded =>
        obtain ⟨session', hsession, rfl⟩ := Option.map_eq_some_iff.mp hstep
        exact .executing htwo hproxy
          (stateBounded_quiet (by omega) hlimit hbounded hdeliver hpoll hsession)
  · cases hstep

variable [PeerIdCodec P] [UnsignedVarint] [CborRecord KeygenRequestPayload]
  [CborRecord SignRequestPayload]

/-- Every step of the request keeps it on track. -/
theorem onTrack_step {l : RequestLabel P ρ} (hpos : 0 < parties cfg.call)
    (hsmall : parties cfg.call < 2 ^ 16) (hlimit : limit < 2 ^ 16)
    (hagent : Frugal limit cfg.agent budget) (h : OnTrack cfg limit budget t)
    (hstep : t.step cfg l = some t') : OnTrack cfg limit budget t' := by
  cases l with
  | call =>
      cases h with
      | called =>
          cases hstep
          exact onTrack_call hsmall
      | _ => cases hstep
  | dispatch =>
      cases h with
      | queued hmsg =>
          cases hstep
          exact .dispatched hmsg
      | _ => cases hstep
  | cancel =>
      cases h with
      | queued _ =>
          cases hstep
          exact .failed
      | _ => cases hstep
  | lose =>
      cases h with
      | queued _ =>
          cases hstep
          exact .failed
      | _ => cases hstep
  | pollPhase1 c next sessionId now =>
      cases h with
      | dispatched hmsg =>
          cases hstep
          exact onTrack_phase1 hmsg c next sessionId now
      | _ => cases hstep
  | pollNegotiation input fresh =>
      cases h with
      | negotiating hc =>
          simp only [RequestStage.step] at hstep
          split at hstep
          · cases hstep
          · rename_i hremote
            cases hstep
            exact onTrack_negotiation fresh hpos hsmall hagent hremote hc
      | _ => cases hstep
  | pollProxy next name =>
      cases h with
      | @executing _ proxy _ _ htwo hproxy hbounded =>
          cases proxy with
          | none => cases hstep
          | some p => exact onTrack_proxy hsmall (.executing htwo hproxy hbounded) hstep
      | _ => cases hstep
  | pollExecution now =>
      cases h with
      | executing htwo hproxy hbounded =>
          exact onTrack_execution hagent (.executing htwo hproxy hbounded) hstep
      | _ => cases hstep
  | pollEcho gone => exact onTrack_stepSession (.pollEcho gone) hlimit h nofun nofun hstep
  | echoResponse respRx echo =>
      exact onTrack_stepSession (.echoResponse respRx echo) hlimit h nofun nofun hstep
  | closeResponses respRx =>
      exact onTrack_stepSession (.closeResponses respRx) hlimit h nofun nofun hstep

end Session

end Steps

section Ends

variable {P ρ κ σ : Type}

/-- The execution of a session within the bounds is within them. -/
theorem boundedExecution_of_session {limit budget : Nat} {session : Session P ρ κ}
    {s : ProtocolExecution P ρ κ} {echoTx : List (EchoMessage ρ)}
    (h : StateBounded limit budget n session.state)
    (hexecution : session.execution = some (s, echoTx)) :
    ∃ held, BoundedExecution limit budget n held s := by
  unfold Session.execution at hexecution
  split at hexecution
  · rename_i w hstate
    rw [hstate] at h
    obtain ⟨_, hcomputation, ⟨⟩⟩ := Option.map_eq_some_iff.mp hexecution
    exact ⟨_, h.execution s hcomputation⟩
  · cases hexecution

variable [DecidableEq P]

/-- What the worker can make of a poll of the negotiation. -/
theorem afterNegotiation_cases (cfg : RequestConfig P κ σ) (n : Nat)
    (poll : NegotiationPoll P ρ κ) :
    (∃ c, goesOn poll = some c ∧ RequestStage.afterNegotiation cfg n poll = .negotiating n c) ∨
      HasSession (RequestStage.afterNegotiation cfg n poll) ∨
      HasError (RequestStage.afterNegotiation cfg n poll) ∨
      ∃ why, RequestStage.afterNegotiation cfg n poll = .panicked why := by
  cases poll with
  | pending c => exact .inl ⟨c, rfl, rfl⟩
  | proposed c => exact .inl ⟨c, rfl, rfl⟩
  | start protocolId pendingResponse receiverProxy peerset request sessionId peers startMsg =>
      simp only [RequestStage.afterNegotiation]
      split
      · exact .inr (.inl ⟨_, _, _, _, rfl⟩)
      · exact .inr (.inr (.inr ⟨_, rfl⟩))
  | abort _ _ _ => exact .inr (.inr (.inl ⟨_, rfl⟩))
  | panic why => exact .inr (.inr (.inr ⟨why, rfl⟩))

variable [PeerIdCodec P] [UnsignedVarint]

/-- A poll goes on past its timer only by restarting it, and there is one
first broadcast. -/
theorem goesOn_eq_none_of_late {c c₁ : NegotiationChannel P κ} {input input' : NegotiationInput P}
    (fresh' : Nat) (hlate : c.timeout ≤ input.now)
    (hlate' : input.now + broadcastTimeout ≤ input'.now)
    (h : goesOn (c.poll input fresh : NegotiationPoll P ρ κ) = some c₁) :
    goesOn (c₁.poll input' fresh' : NegotiationPoll P ρ κ) = none := by
  -- the poll was late and went on, so it was the one that restarted the timer
  have hlt := lt_timeout_of_goesOn h
  have hfirst : c₁.timeout = input.now + broadcastTimeout ∧
      c₁.lastBroadcastTime = some input.now := by
    cases timerStep_poll h with
    | same htimeout _ _ => omega
    | first _ htimeout hlast _ => exact ⟨htimeout, hlast⟩
    | again _ _ htimeout _ _ => omega
  cases hagain : goesOn (c₁.poll input' fresh' : NegotiationPoll P ρ κ) with
  | none => rfl
  | some c₂ =>
      have hlt' := lt_timeout_of_goesOn hagain
      cases timerStep_poll hagain with
      | same htimeout _ _ => omega
      | first hnone _ _ _ =>
          rw [hfirst.2] at hnone
          cases hnone
      | again _ _ htimeout _ _ => omega

variable [Blake2s256] [CborRecord KeygenRequestPayload] [CborRecord SignRequestPayload]
  {cfg : RequestConfig P κ σ} {limit : Nat} {budget : σ → Nat} {t t' : RequestStage P ρ κ σ}

/-- Only a negotiation is polled as one. -/
theorem negotiating_of_step {input : NegotiationInput P}
    (h : t.step cfg (.pollNegotiation input fresh) = some t') :
    ∃ n c, t = .negotiating n c ∧
      t' = RequestStage.afterNegotiation cfg n (c.poll input fresh) := by
  simp only [RequestStage.step] at h
  split at h
  · rename_i n c
    split at h
    · cases h
    · cases h
      exact ⟨n, c, rfl, rfl⟩
  · cases h

/-- A request that still negotiates when its timer and the restarted one have
run out gets its session or its error. -/
theorem OnTrack.ends {c : NegotiationChannel P κ} {input input' : NegotiationInput P} {fresh' : Nat}
    (ht' : OnTrack cfg limit budget t') (hlate : c.timeout ≤ input.now)
    (hlate' : input.now + broadcastTimeout ≤ input'.now)
    (hstep : (RequestStage.negotiating n c).step cfg (.pollNegotiation input fresh) = some t)
    (hstep' : t.step cfg (.pollNegotiation input' fresh') = some t') :
    HasSession t' ∨ HasError t' := by
  obtain ⟨_, _, ⟨⟩, ht⟩ := negotiating_of_step hstep
  obtain ⟨n₁, c₁, rfl, rfl⟩ := negotiating_of_step hstep'
  have hgoesOn : goesOn (c.poll input fresh : NegotiationPoll P ρ κ) = some c₁ := by
    rcases afterNegotiation_cases cfg n (c.poll input fresh : NegotiationPoll P ρ κ) with
      ⟨c', hgoesOn, heq⟩ | ⟨_, _, _, _, heq⟩ | ⟨_, heq⟩ | ⟨_, heq⟩ <;> cases ht.trans heq
    exact hgoesOn
  have hends := goesOn_eq_none_of_late fresh' hlate hlate' hgoesOn
  rcases afterNegotiation_cases cfg n₁ (c₁.poll input' fresh' : NegotiationPoll P ρ κ) with
    ⟨c', hagain, _⟩ | hsession | herror | ⟨_, heq⟩
  · rw [hends] at hagain
    cases hagain
  · exact .inl hsession
  · exact .inr herror
  · rw [heq] at ht'
    cases ht'

/-- What holds on the way of such a request. -/
theorem OnTrack.arithmeticHolds (hpos : 0 < parties cfg.call)
    (hsmall : parties cfg.call < 2 ^ 16) (hlimit : limit < 2 ^ 16)
    (hagent : Frugal limit cfg.agent budget) (h : OnTrack cfg limit budget t) :
    ArithmeticHolds cfg t where
  noPanic why hwhy := by
    cases h with
    | @executing _ _ session _ _ _ hbounded =>
        simp only [panicOf] at hwhy
        split at hwhy
        · rename_i heq
          cases hwhy
          rwa [heq] at hbounded
        · cases hwhy
    | _ => cases hwhy
  subtractions s hs := by
    cases h with
    | @executing _ _ session _ htwo _ hbounded =>
        obtain ⟨⟨_, echoTx⟩, hexecution, rfl⟩ := Option.map_eq_some_iff.mp hs
        obtain ⟨held, hexec⟩ := boundedExecution_of_session hbounded hexecution
        rw [hexec.parties, hexec.peerset]
        exact ⟨hpos, hpos⟩
    | _ => cases hs
  retries n c ht := by
    rw [ht] at h
    cases h with
    | negotiating hc =>
        have hle := hc.retries.le
        omega
  sessions hsession := by
    obtain ⟨_, _, _, _, rfl⟩ := hsession
    cases h with
    | executing htwo _ _ => exact htwo
  replies result hresult := by
    rw [hresult] at h ⊢
    cases h with
    | failed => exact ⟨_, rfl⟩
  ends n c input input' fresh fresh' t₁ t₂ ht hlate hlate' hstep hstep' := by
    have ht₁ := onTrack_step hpos hsmall hlimit hagent h hstep
    have ht₂ := onTrack_step hpos hsmall hlimit hagent ht₁ hstep'
    rw [ht] at hstep
    exact ht₂.ends hlate hlate' hstep hstep'

/-- No arithmetic fails in any state of any run. -/
theorem arithmeticHolds_of_reach (hpos : 0 < parties cfg.call)
    (hsmall : parties cfg.call < 2 ^ 16) (hlimit : limit < 2 ^ 16)
    (hagent : Frugal limit cfg.agent budget)
    (h : Reach (RequestStage.step cfg) Always .called t) : ArithmeticHolds cfg t := by
  have htrack : OnTrack cfg limit budget t :=
    h.invariant .called fun _ _ _ ht _ hstep => onTrack_step hpos hsmall hlimit hagent ht hstep
  exact htrack.arithmeticHolds hpos hsmall hlimit hagent

end Ends

section Fails

variable {P ρ κ σ : Type} [DecidableEq P] [Blake2s256] [PeerIdCodec P] [UnsignedVarint]
  [CborRecord KeygenRequestPayload] [CborRecord SignRequestPayload]
  {cfg : RequestConfig P κ σ} {room : String} {t : Nat} {msg : Bytes}

/-- A key generation without parties gets as far as its first proposal. -/
theorem panicked_of_noParties
    (hencode : ∀ record : KeygenRequestPayload, ∃ bytes, CborRecord.toVec record = .ok bytes)
    (hcall : cfg.call = .keygen room 0 t) :
    Reach (RequestStage.step cfg) Always .called
      (.panicked .subtractOverflow : RequestStage P ρ κ σ) := by
  obtain ⟨payload, hpayload⟩ := hencode { walletId := normalizeWalletId room, threshold := t }
  have hsend : cfg.call.send cfg.transportRoom cfg.pendingResponse
      = .ok (.keyGen t 0 cfg.transportRoom payload cfg.pendingResponse) := by
    simp only [hcall, TssCall.send, Rpc.keygen, encodeKeygenPayload, hpayload, mapErr]
  refine reach_of_run [.call, .dispatch,
    .pollPhase1 (Phase1Channel.new cfg.transportRoom 0 0) none noSessionId 0,
    .pollNegotiation { now := 0, response := .pending, connected := none } 0] ?_
  simp only [run, RequestStage.step, hsend]
  rfl

/-- The number of parties of this call is not a `u16`. -/
theorem panicked_of_maxThreshold
    (hencode : ∀ record : SignRequestPayload, ∃ bytes, CborRecord.toVec record = .ok bytes)
    (hcall : cfg.call = .sign room 65535 msg) :
    Reach (RequestStage.step cfg) Always .called
      (.panicked .addOverflow : RequestStage P ρ κ σ) := by
  obtain ⟨payload, hpayload⟩ := hencode { walletId := normalizeWalletId room, message := msg }
  have hsend : cfg.call.send cfg.transportRoom cfg.pendingResponse = .panic .addOverflow := by
    simp only [hcall, TssCall.send, Rpc.sign, encodeSignPayload, hpayload, mapErr]
    rfl
  refine reach_of_run [.call] ?_
  simp only [run, RequestStage.step, hsend]
  rfl

theorem not_arithmeticHolds_of_panicked {why : Panic} (hwhy : isArithmetic why = true) :
    ¬ ArithmeticHolds cfg (.panicked why : RequestStage P ρ κ σ) := by
  intro h
  rw [h.noPanic why rfl] at hwhy
  cases hwhy

variable {A B C S : Type} [Identifiers] [DagCbor] [KeyGen.DkgCodec A B]
  [KeySign.SigningCodec C S]

/-- Every run of a `keygen` keeps its arithmetic within bounds if and only if
it is for at least one party, and every run of a `sign` if and only if its `t`
is not the largest `u16`. The payloads of both calls have an encoding. -/
theorem arithmeticHolds_iff
    (hkeygen : ∀ record : KeygenRequestPayload, ∃ bytes, CborRecord.toVec record = .ok bytes)
    (hsign : ∀ record : SignRequestPayload, ∃ bytes, CborRecord.toVec record = .ok bytes) :
    (∀ (cfg : RequestConfig P κ (KeyGen.Dkg A B))
        (material : Peerset P → Bytes → KeyGen.DkgSession A B) (room : String) (n t : Nat),
      cfg.agent = dealer material → cfg.call = .keygen room n t → n < 2 ^ 16 →
      ((∀ stage : RequestStage P ρ κ (KeyGen.Dkg A B),
          Reach (RequestStage.step cfg) Always .called stage → ArithmeticHolds cfg stage) ↔
        n ≠ 0)) ∧
    (∀ (cfg : RequestConfig P κ (KeySign.Signing C S))
        (material : Peerset P → Bytes → KeySign.SigningSession C S) (room : String) (t : Nat)
        (msg : Bytes),
      cfg.agent = signer material → cfg.call = .sign room t msg → t < 2 ^ 16 →
      ((∀ stage : RequestStage P ρ κ (KeySign.Signing C S),
          Reach (RequestStage.step cfg) Always .called stage → ArithmeticHolds cfg stage) ↔
        t ≠ 65535)) := by
  refine ⟨fun cfg material room n t hagent hcall hsmall => ⟨?_, fun hn stage hreach => ?_⟩,
    fun cfg material room t msg hagent hcall hsmall => ⟨?_, fun ht stage hreach => ?_⟩⟩
  · rintro hall rfl
    exact not_arithmeticHolds_of_panicked rfl (hall _ (panicked_of_noParties hkeygen hcall))
  · have hparties : parties cfg.call = n := by
      rw [hcall]
      rfl
    have hfrugal : Frugal 2 cfg.agent dealerBudget := hagent ▸ frugal_dealer material
    exact arithmeticHolds_of_reach (hparties ▸ Nat.pos_of_ne_zero hn) (hparties ▸ hsmall)
      (by decide) hfrugal hreach
  · rintro hall rfl
    exact not_arithmeticHolds_of_panicked rfl (hall _ (panicked_of_maxThreshold hsign hcall))
  · have hparties : parties cfg.call = t + 1 := by
      rw [hcall]
      rfl
    have hfrugal : Frugal 2 cfg.agent signerBudget := hagent ▸ frugal_signer material
    exact arithmeticHolds_of_reach (hparties ▸ Nat.succ_pos t) (hparties ▸ by omega)
      (by decide) hfrugal hreach

end Fails

namespace TwoCalls

open scoped IdentityHash PlainAgent

local instance : CborRecord KeygenRequestPayload where
  toVec record := .ok [UInt8.ofNat record.threshold]
  fromSlice _ := .error "write only"

local instance : CborRecord SignRequestPayload where
  toVec record := .ok record.message
  fromSlice _ := .error "write only"

local instance : KeyGen.DkgCodec Unit Unit where
  serializeRound1 _ := .ok []
  deserializeRound1 _ := .ok ()
  serializeRound2 _ := .ok []
  deserializeRound2 _ := .ok ()

local instance : KeySign.SigningCodec Unit Unit where
  serializeCommitments _ := .ok []
  deserializeCommitments _ := .ok ()
  serializeShare _ := []
  deserializeShare _ := .ok ()

/-- An agent that has only its broadcast to make. -/
def dkg (_ : Peerset Ed25519PeerId) (_ : Bytes) : KeyGen.DkgSession Unit Unit where
  identifier := 1
  threshold := 2
  maxSigners := 2
  prepare := .ok ()
  part1 := .ok ()
  part2 _ := .error "part2"
  part3 _ _ := .error "part3"
  save := .ok

def signing (_ : Peerset Ed25519PeerId) (_ : Bytes) : KeySign.SigningSession Unit Unit where
  identifier := 1
  participants := [1, 2]
  prepare := .ok ()
  commit := .ok ()
  sign _ := .error "sign"
  finish _ _ := .error "finish"

/-- The request of a call on the first of two nodes. -/
def request {σ : Type} (call : TssCall) (agent : RequestAgent Ed25519PeerId σ) :
    RequestConfig Ed25519PeerId Unit σ where
  localPeerId := .ofByte 1
  transportRoom := ⟨"room"⟩
  client := { make := fun _ => true, keygen := 1, keysign := 2 }
  call := call
  pendingResponse := ()
  agent := agent

/-- The request is taken, proposed to the other node and accepted by it; the
execution is polled. -/
def labels : List (RequestLabel Ed25519PeerId Nat) :=
  [.call, .dispatch, .pollPhase1 (Phase1Channel.new ⟨"room"⟩ 0 0) none noSessionId 0,
    .pollNegotiation { now := 0, response := .pending, connected := some 1 } 1,
    .pollNegotiation { now := 1, response := .ok (.ofByte 2), connected := none } 2,
    .pollExecution 1]

set_option maxRecDepth 4000 in
/-- Both calls get their session of two. -/
theorem arithmeticHolds_iff_pair :
    (∃ stage, run (RequestStage.step (request (.keygen "wallet" 2 2) (dealer dkg))) .called labels
        = some stage ∧ HasSession stage ∧
      ArithmeticHolds (request (.keygen "wallet" 2 2) (dealer dkg)) stage) ∧
    (∃ stage, run (RequestStage.step (request (.sign "wallet" 1 [7]) (signer signing))) .called
        labels = some stage ∧ HasSession stage ∧
      ArithmeticHolds (request (.sign "wallet" 1 [7]) (signer signing)) stage) := by
  have hiff := arithmeticHolds_iff (P := Ed25519PeerId) (ρ := Nat) (κ := Unit) (A := Unit)
    (B := Unit) (C := Unit) (S := Unit) (fun _ => ⟨_, rfl⟩) (fun _ => ⟨_, rfl⟩)
  refine ⟨⟨_, rfl, ⟨_, _, _, _, rfl⟩, ?_⟩, ⟨_, rfl, ⟨_, _, _, _, rfl⟩, ?_⟩⟩
  · exact (hiff.1 _ dkg "wallet" 2 2 rfl rfl (by decide)).mpr (by decide) _
      (reach_of_run labels rfl)
  · exact (hiff.2 _ signing "wallet" 1 [7] rfl rfl (by decide)).mpr (by decide) _
      (reach_of_run labels rfl)

/-- No party at all, and one party more than a `u16` counts. -/
theorem arithmetic_fails :
    (run (RequestStage.step (request (.keygen "wallet" 0 2) (dealer dkg))) .called
        (labels.take 4) = some (.panicked .subtractOverflow) ∧
      ¬ ArithmeticHolds (request (.keygen "wallet" 0 2) (dealer dkg))
        (.panicked .subtractOverflow : RequestStage _ Nat _ _)) ∧
    (run (RequestStage.step (request (.sign "wallet" 65535 [7]) (signer signing))) .called
        (labels.take 1) = some (.panicked .addOverflow) ∧
      ¬ ArithmeticHolds (request (.sign "wallet" 65535 [7]) (signer signing))
        (.panicked .addOverflow : RequestStage _ Nat _ _)) :=
  ⟨⟨rfl, not_arithmeticHolds_of_panicked rfl⟩, ⟨rfl, not_arithmeticHolds_of_panicked rfl⟩⟩

end TwoCalls

end FrostMpcTss.Proofs
