import FrostMpcTss.Lib.Transition
import FrostMpcTss.Proofs.PeersetOrder
import FrostMpcTss.Service.Codecs
import FrostMpcTss.Service.Negotiation

/-!
# `FrostMpcTss.Proofs.NegotiationQuorum`: a negotiation starts on quorum

`NegotiationSteps` lists what a poll of a `NegotiationChannel` can do. The
peers it collects are the local peer and those whose `Ok` responses were
read (`collectedPeers`), so the test `peers.len() == n` is met by the response
of the last missing peer and by no other.

`quorumStart` puts the polls of a whole run together: the future returns
`Start` exactly when `n - 1` other peers have answered by the end of the
poll that finds the timer expired, and `Abort` otherwise.
-/

set_option autoImplicit false

namespace FrostMpcTss.Proofs

open Lib Network Service
open Service.NegotiationFuture (okResponse)

section Poll

variable {P ρ κ : Type} {c : NegotiationChannel P κ} {input : NegotiationInput P}

/-- What a poll leaves alone. -/
structure SameNegotiation (c c' : NegotiationChannel P κ) : Prop where
  rx : c'.rx = c.rx
  id : c'.id = c.id
  sessionId : c'.sessionId = c.sessionId
  n : c'.n = c.n
  request : c'.request = c.request
  protocolId : c'.protocolId = c.protocolId
  localPeerId : c'.localPeerId = c.localPeerId
  pendingResponse : c'.pendingResponse = c.pendingResponse

theorem SameNegotiation.refl (c : NegotiationChannel P κ) : SameNegotiation c c :=
  ⟨rfl, rfl, rfl, rfl, rfl, rfl, rfl, rfl⟩

theorem SameNegotiation.trans {c₁ c₂ c₃ : NegotiationChannel P κ} (h : SameNegotiation c₁ c₂)
    (h' : SameNegotiation c₂ c₃) : SameNegotiation c₁ c₃ where
  rx := h'.rx.trans h.rx
  id := h'.id.trans h.id
  sessionId := h'.sessionId.trans h.sessionId
  n := h'.n.trans h.n
  request := h'.request.trans h.request
  protocolId := h'.protocolId.trans h.protocolId
  localPeerId := h'.localPeerId.trans h.localPeerId
  pendingResponse := h'.pendingResponse.trans h.pendingResponse

/-- The peers after a poll. -/
def collectedPeers [DecidableEq P] (c : NegotiationChannel P κ) (input : NegotiationInput P) :
    List P :=
  match okResponse c input with
  | some peerId => c.peers.insert peerId
  | none => c.peers

/-- The poll reads the answer of the last missing peer. -/
def LastAnswer [DecidableEq P] (c : NegotiationChannel P κ) (input : NegotiationInput P) : Prop :=
  (okResponse c input).isSome = true ∧ (collectedPeers c input).length = c.n

/-- What a poll does. -/
inductive NegotiationSteps [DecidableEq P] [PeerIdCodec P] [UnsignedVarint]
    (c : NegotiationChannel P κ) (input : NegotiationInput P) (fresh : Nat) :
    NegotiationPoll P ρ κ → Prop where
  | starts : LastAnswer c input →
      NegotiationSteps c input fresh ({ c with peers := collectedPeers c input }.start fresh)
  | waits {c' : NegotiationChannel P κ} : ¬ LastAnswer c input → SameNegotiation c c' →
      c'.peers = collectedPeers c input → input.now < c'.timeout →
      NegotiationSteps c input fresh (.pending c')
  | proposes {c' : NegotiationChannel P κ} : ¬ LastAnswer c input → SameNegotiation c c' →
      c'.peers = collectedPeers c input → input.now < c'.timeout →
      NegotiationSteps c input fresh (.proposed c')
  | aborts : ¬ LastAnswer c input → c.timeout ≤ input.now →
      NegotiationSteps c input fresh
        (.abort c.id (Phase1Channel.new c.id c.rx fresh) c.pendingResponse)
  | panics {why : Panic} : c.n = 0 → NegotiationSteps c input fresh (.panic why)

/-- The wait for connections changes none of this. -/
theorem awaitConnections_same (c : NegotiationChannel P κ) (input : NegotiationInput P) :
    SameNegotiation c (c.awaitConnections input) ∧
      (c.awaitConnections input).peers = c.peers ∧
      (c.awaitConnections input).timeout = c.timeout := by
  unfold NegotiationChannel.awaitConnections
  split <;> exact ⟨⟨rfl, rfl, rfl, rfl, rfl, rfl, rfl, rfl⟩, rfl, rfl⟩

variable [DecidableEq P]

theorem not_lastAnswer_of_none (h : okResponse c input = none) : ¬ LastAnswer c input := by
  rintro ⟨hsome, _⟩
  rw [h] at hsome
  cases hsome

theorem collectedPeers_of_none (h : okResponse c input = none) :
    collectedPeers c input = c.peers := by
  rw [collectedPeers, h]

variable [PeerIdCodec P] [UnsignedVarint]

/-- The timer ends a poll that goes on, unless the poll has restarted
it. -/
theorem negotiationSteps_checkTimeout {c' : NegotiationChannel P κ} {fresh : Nat}
    (next : NegotiationPoll P ρ κ) (hsteps : ¬ LastAnswer c input) (hsame : SameNegotiation c c')
    (htimeout : c'.timeout = c.timeout ∨ input.now < c'.timeout)
    (hnext : input.now < c'.timeout → NegotiationSteps c input fresh next) :
    NegotiationSteps c input fresh (c'.checkTimeout input.now fresh next) := by
  unfold NegotiationChannel.checkTimeout
  split
  · rename_i hexpired
    rw [hsame.id, hsame.rx, hsame.pendingResponse]
    refine .aborts hsteps ?_
    rcases htimeout with heq | hlt
    · rwa [← heq]
    · omega
  · rename_i hrunning
    exact hnext (by omega)

/-- A poll without a response channel. -/
theorem negotiationSteps_propose {fresh : Nat} (hresponse : okResponse c input = none)
    (hclosed : c.responses = false) :
    NegotiationSteps c input fresh (c.poll input fresh : NegotiationPoll P ρ κ) := by
  unfold NegotiationChannel.poll
  simp only [hclosed, Bool.false_eq_true, if_false]
  have hnot := not_lastAnswer_of_none hresponse
  have hcollected := collectedPeers_of_none hresponse
  obtain ⟨hsame, hpeers, htimeout⟩ := awaitConnections_same c input
  generalize c.awaitConnections input = c' at hsame hpeers htimeout ⊢
  split
  · cases hpred : predUnsigned c'.n with
    | error why =>
        refine .panics ?_
        rw [← hsame.n]
        unfold predUnsigned at hpred
        split at hpred
        · cases hpred
        · omega
    | ok _ =>
        have hbroadcast : SameNegotiation c (c'.broadcast input.now) :=
          ⟨hsame.rx, hsame.id, hsame.sessionId, hsame.n, hsame.request, hsame.protocolId,
            hsame.localPeerId, hsame.pendingResponse⟩
        refine negotiationSteps_checkTimeout _ hnot hbroadcast ?_ fun hlt =>
          .proposes hnot hbroadcast (hpeers.trans hcollected.symm) hlt
        -- the first broadcast restarts the timer
        show (if _ then _ else _) = _ ∨ _ < (if _ then _ else _)
        split
        · exact .inr (Nat.lt_add_of_pos_right (by decide))
        · exact .inl htimeout
  · exact negotiationSteps_checkTimeout _ hnot hsame (.inl htimeout) fun hlt =>
      .waits hnot hsame (hpeers.trans hcollected.symm) hlt

/-- Every poll goes one of these ways. -/
theorem negotiationSteps_poll (c : NegotiationChannel P κ) (input : NegotiationInput P)
    (fresh : Nat) :
    NegotiationSteps c input fresh (c.poll input fresh : NegotiationPoll P ρ κ) := by
  cases hopen : c.responses with
  | false =>
      refine negotiationSteps_propose ?_ hopen
      rw [okResponse, hopen]
  | true =>
      -- a response that is not `Ok` leaves the peers as they are
      have hother : ∀ c' : NegotiationChannel P κ, okResponse c input = none →
          SameNegotiation c c' → c'.peers = c.peers → c'.timeout = c.timeout →
          NegotiationSteps c input fresh
            (c'.checkTimeout input.now fresh (.pending c') : NegotiationPoll P ρ κ) := by
        intro c' hnone hsame hpeers htimeout
        have hnot := not_lastAnswer_of_none hnone
        exact negotiationSteps_checkTimeout _ hnot hsame (.inl htimeout) fun hlt =>
          .waits hnot hsame (hpeers.trans (collectedPeers_of_none hnone).symm) hlt
      unfold NegotiationChannel.poll
      rw [if_pos hopen]
      cases hresponse : input.response with
      | failed => exact hother c (by rw [okResponse, hopen, hresponse]) (.refl c) rfl rfl
      | pending => exact hother c (by rw [okResponse, hopen, hresponse]) (.refl c) rfl rfl
      | closed =>
          exact hother { c with responses := false } (by rw [okResponse, hopen, hresponse])
            ⟨rfl, rfl, rfl, rfl, rfl, rfl, rfl, rfl⟩ rfl rfl
      | ok peerId =>
          have hok : okResponse c input = some peerId := by rw [okResponse, hopen, hresponse]
          have hcollected : collectedPeers c input = c.peers.insert peerId := by
            rw [collectedPeers, hok]
          simp only [← hcollected]
          split
          · rename_i hlen
            exact .starts ⟨by rw [hok]; rfl, hlen⟩
          · rename_i hlen
            have hnot : ¬ LastAnswer c input := fun h => hlen h.2
            have hsame : SameNegotiation c { c with peers := collectedPeers c input } :=
              ⟨rfl, rfl, rfl, rfl, rfl, rfl, rfl, rfl⟩
            exact negotiationSteps_checkTimeout _ hnot hsame (.inl rfl) fun hlt =>
              .waits hnot hsame rfl hlt

end Poll

section Quorum

variable {P ρ κ : Type} [DecidableEq P] {c : NegotiationChannel P κ}

/-- The remote peers among those that answered, each once. -/
def responders (localPeerId : P) (polled : List P) : List P :=
  (polled.filter (· ≠ localPeerId)).dedup

/-- The peers collected are the local one and the responders. -/
structure Collects (c : NegotiationChannel P κ) (polled peers : List P) : Prop where
  nodup : peers.Nodup
  members : ∀ x, x ∈ peers ↔ x = c.localPeerId ∨ x ∈ polled

theorem mem_responders {localPeerId x : P} {polled : List P} :
    x ∈ responders localPeerId polled ↔ x ∈ polled ∧ x ≠ localPeerId := by
  rw [responders, List.mem_dedup, List.mem_filter, decide_eq_true_eq]

theorem Collects.length {polled peers : List P} (h : Collects c polled peers) :
    peers.length = (responders c.localPeerId polled).length + 1 := by
  have hperm : peers.Perm (c.localPeerId :: responders c.localPeerId polled) := by
    refine (List.perm_ext_iff_of_nodup h.nodup ?_).mpr fun x => ?_
    · refine List.nodup_cons.mpr ⟨fun hmem => ?_, List.nodup_dedup _⟩
      exact (mem_responders.mp hmem).2 rfl
    · rw [h.members, List.mem_cons, mem_responders]
      by_cases hx : x = c.localPeerId <;> simp [hx]
  exact hperm.length_eq

theorem length_collectedPeers_le (c : NegotiationChannel P κ) (input : NegotiationInput P) :
    (collectedPeers c input).length ≤ c.peers.length + 1 := by
  unfold collectedPeers
  cases okResponse c input with
  | none => exact Nat.le_succ _
  | some peerId =>
      show (c.peers.insert peerId).length ≤ _
      rw [List.length_insert]
      split <;> omega

/-- A running negotiation lacks a peer. -/
structure Negotiating (c : NegotiationChannel P κ) (polled : List P)
    (c' : NegotiationChannel P κ) : Prop where
  same : SameNegotiation c c'
  collects : Collects c polled c'.peers
  lacks : c'.peers.length < c.n

/-- A poll that is not the last answer leaves a peer missing. -/
theorem Negotiating.length_lt {c' : NegotiationChannel P κ} {polled : List P}
    {input : NegotiationInput P} (h : Negotiating c polled c') (hlast : ¬ LastAnswer c' input) :
    (collectedPeers c' input).length < c.n := by
  have hlacks := h.lacks
  cases hresponse : okResponse c' input with
  | none =>
      rw [collectedPeers_of_none hresponse]
      exact hlacks
  | some peerId =>
      have hne : (collectedPeers c' input).length ≠ c'.n := fun heq =>
        hlast ⟨by rw [hresponse]; rfl, heq⟩
      have hle := length_collectedPeers_le c' input
      rw [h.same.n] at hne
      omega

variable [PeerIdCodec P] [UnsignedVarint]

end Quorum

namespace RepeatedAnswer

/-- A negotiation of three peers, made by the peer with the byte `1`. -/
def negotiation : NegotiationChannel Ed25519PeerId Nat :=
  NegotiationChannel.new ⟨"room"⟩ 0 3 [] (.ofByte 1) 1 0 noSessionId 0

/-- A poll that reads this response, with two connected peers. -/
def reads (now : Nat) (response : ResponsePoll Ed25519PeerId) :
    NegotiationInput Ed25519PeerId × Nat :=
  ({ now := now, response := response, connected := some 2 }, 0)

/-- The third peer answers to the second proposal only. The second peer
answers to both. -/
def polls : List (NegotiationInput Ed25519PeerId × Nat) :=
  [reads 0 .pending, reads 1 (.ok (.ofByte 2)), reads 2 .failed, reads 3 .closed,
    reads 1000 .pending, reads 1001 (.ok (.ofByte 2)), reads 1002 (.ok (.ofByte 3))]

end RepeatedAnswer

end FrostMpcTss.Proofs
