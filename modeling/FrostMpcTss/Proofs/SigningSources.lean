import FrostMpcTss.Lib.Transition
import FrostMpcTss.Proofs.SigningTurns

/-!
# `FrostMpcTss.Proofs.SigningSources`: where the values in a signature come from

The receive loops of `run_signing` look at the sender of a request and
at its payload, and not at `to`. So a direct message, which no echo has
checked, can place a signer's commitments or its share, and the
broadcast that comes after it is skipped.

`Receiving` is the agent between two requests, with the requests it has
taken. `runSigning_turns` says that a poll of the agent, with any number
of requests in its channel, is a sequence of such turns, and that the
maps it signs with are the accumulators they lead to.

`fromBroadcasts` says what is left. A direct message does no harm if it
carries neither commitments nor a share, or if it comes when both values
of its sender are placed already.
-/

set_option autoImplicit false

namespace FrostMpcTss.Proofs

open Lib Network Service
open Tss Tss.KeySign

variable {C S : Type}

/-- The accumulators of the loop the agent stands in. -/
inductive Accumulators (C S : Type) where
  | round1 (s : Round1 C S)
  | round2 (s : Round2 C S)

namespace Accumulators

def commitmentsMap : Accumulators C S → Std.TreeMap Nat C
  | .round1 s => s.commitmentsMap
  | .round2 s => s.commitmentsMap

/-- `signature_shares`, which the first loop does not have. -/
def signatureShares : Accumulators C S → Std.TreeMap Nat S
  | .round1 _ => ∅
  | .round2 s => s.signatureShares

/-- Nothing a signer sends now is placed. -/
def holds : Accumulators C S → Nat → Bool
  | .round1 s, id => s.receivedParticipants.contains id && s.deferredSignatureShares.contains id
  | .round2 s, id => s.receivedSignatureParticipants.contains id

end Accumulators

/-- The agent between two requests, and the requests it has taken. -/
structure Receiving (C S : Type) where
  acc : Accumulators C S
  taken : List AgentRequest

/-- What the agent does next: it takes a request, or it signs and goes
on to the second loop. -/
inductive SigningLabel where
  | receive (req : AgentRequest)
  | sign
deriving Repr, DecidableEq

namespace Receiving

variable [Identifiers] [DagCbor] [SigningCodec C S]

/-- The first loop begins. -/
def start (p : SigningSession C S) (commitments : C) : Receiving C S where
  acc := .round1 (.new p commitments)
  taken := []

/-- A turn of the loop the agent stands in, if it needs more requests. -/
def receive (p : SigningSession C S) (req : AgentRequest) :
    Accumulators C S → Option (Accumulators C S)
  | .round1 s =>
      if needsCommitments p s then (takeCommitment p s req).toOption.map .round1 else none
  | .round2 s => if needsShares p s then (takeShare p s req).toOption.map .round2 else none

/-- The agent signs, and the second loop begins. -/
def sign (p : SigningSession C S) : Accumulators C S → Option (Accumulators C S)
  | .round1 s =>
      if needsCommitments p s then none
      else
        (sendShare p s).toOption.bind fun sent =>
          (Round2.new p s sent.1).toOption.map .round2
  | .round2 _ => none

def step (p : SigningSession C S) (t : Receiving C S) :
    SigningLabel → Option (Receiving C S)
  | .receive req =>
      (receive p req t.acc).map fun acc => { acc := acc, taken := t.taken ++ [req] }
  | .sign => (sign p t.acc).map fun acc => { t with acc := acc }

end Receiving

section Turns

variable {σ : Type}

/-- The requests a receive loop takes, from one state to another. -/
inductive Turns (more : σ → Bool) (take : σ → AgentRequest → Except String σ) :
    σ → List AgentRequest → σ → Prop where
  | nil {s : σ} : Turns more take s [] s
  | cons {s s' s'' : σ} {req : AgentRequest} {used : List AgentRequest} :
      more s = true → take s req = .ok s' → Turns more take s' used s'' →
      Turns more take s (req :: used) s''

/-- How a receive loop ends a poll, and the turns that led there. -/
inductive Collected (more : σ → Bool) (take : σ → AgentRequest → Except String σ) (s : σ)
    (incoming : List AgentRequest) : Collect σ → Prop where
  | waiting {s' : σ} : Turns more take s incoming s' →
      Collected more take s incoming (.waiting s')
  | done {s' : σ} {used rest : List AgentRequest} : Turns more take s used s' →
      incoming = used ++ rest → more s' = false → Collected more take s incoming (.done s' rest)
  | failed {e : String} {rest : List AgentRequest} :
      Collected more take s incoming (.failed e rest)

/-- `collect` takes messages until it has enough, or none is left, or one is
refused. -/
theorem collect_collected (more : σ → Bool) (take : σ → AgentRequest → Except String σ)
    (incoming : List AgentRequest) :
    ∀ s : σ, Collected more take s incoming (collect more take s incoming) := by
  induction incoming with
  | nil =>
      intro s
      unfold collect
      split
      · exact .waiting .nil
      · rename_i hmore
        exact .done .nil rfl (Bool.eq_false_iff.mpr hmore)
  | cons req rest ih =>
      intro s
      unfold collect
      split
      · rename_i hmore
        split
        · rename_i s' htake
          cases hrest : collect more take s' rest with
          | waiting s'' =>
              cases hrest ▸ ih s' with
              | waiting hturns => exact .waiting (.cons hmore htake hturns)
          | done s'' rest' =>
              cases hrest ▸ ih s' with
              | done hturns hused hmore' =>
                  exact .done (.cons hmore htake hturns) (by rw [hused]; rfl) hmore'
          | failed e rest' => exact .failed
        · exact .failed
      · rename_i hmore
        exact .done .nil rfl (Bool.eq_false_iff.mpr hmore)

end Turns

section Link

variable [Identifiers] [DagCbor] [SigningCodec C S] {p : SigningSession C S}

/-- The accumulators of the agent at each `await`. -/
inductive StandsAt (p : SigningSession C S) : Signing C S → Accumulators C S → Prop where
  | commitmentsSent {commitments : C} :
      StandsAt p (.commitmentsSent commitments) (.round1 (.new p commitments))
  | round1 {s : Round1 C S} : StandsAt p (.round1 s) (.round1 s)
  | shareSent {s : Round1 C S} {share : S} {m : AgentMessage} :
      needsCommitments p s = false → sendShare p s = .ok (share, m) →
      StandsAt p (.shareSent s share) (.round1 s)
  | round2 {s : Round2 C S} : StandsAt p (.round2 s) (.round2 s)

/-- What a poll leads to: the agent waits, it failed, or it returns the
signature made of these accumulators. -/
inductive Outcomes (p : SigningSession C S) (acc : Accumulators C S) :
    Signing C S × AgentTurn → Prop where
  | waiting {a : Signing C S} {turn : AgentTurn} : StandsAt p a acc →
      Outcomes p acc (a, turn)
  | failed {a : Signing C S} {received : Nat} {sent : List AgentMessage} {e : String} :
      Outcomes p acc (a, .returning received sent (.error e))
  | signed {a : Signing C S} {received : Nat} {sent : List AgentMessage} {s : Round2 C S} :
      acc = .round2 s →
      Outcomes p acc (a, .returning received sent (do
        checkComplete p "signature shares" s.signatureShares.keys
        p.finish s.commitmentsMap s.signatureShares))

/-- The turns of a receive loop are steps of the agent. -/
theorem reach_turns {σ : Type} {more : σ → Bool} {take : σ → AgentRequest → Except String σ}
    {wrap : σ → Accumulators C S} {t₀ : Receiving C S}
    (hreceive : ∀ s req, more s = true →
      Receiving.receive p req (wrap s) = (take s req).toOption.map wrap)
    {s s' : σ} {used : List AgentRequest} (h : Turns more take s used s') :
    ∀ {taken : List AgentRequest},
      Reach (Receiving.step p) Always t₀ { acc := wrap s, taken := taken } →
      Reach (Receiving.step p) Always t₀ { acc := wrap s', taken := taken ++ used } := by
  induction h with
  | nil =>
      intro taken hreach
      rwa [List.append_nil]
  | @cons s s₁ s' req used hmore htake _ ih =>
      intro taken hreach
      have hstep : Receiving.step p { acc := wrap s, taken := taken } (.receive req)
          = some { acc := wrap s₁, taken := taken ++ [req] } := by
        rw [Receiving.step, hreceive s req hmore, htake]
        rfl
      have hreach := ih (hreach.next _ trivial hstep)
      rwa [List.append_assoc] at hreach

variable {t : Receiving C S}

/-- A turn of round 1 is a sequence of messages taken. -/
theorem reach_runRound1 {s : Round1 C S} (hacc : t.acc = .round1 s)
    (incoming : List AgentRequest) :
    ∃ acc used, used <+: incoming ∧
      Reach (Receiving.step p) Always t { acc := acc, taken := t.taken ++ used } ∧
      Outcomes p acc (runRound1 p s incoming) := by
  have hstart : Reach (Receiving.step p) Always t { acc := .round1 s, taken := t.taken } := by
    rw [← hacc]
    exact .start
  have hreceive : ∀ s req, needsCommitments p s = true →
      Receiving.receive p req (.round1 s) = (takeCommitment p s req).toOption.map .round1 :=
    fun s req hmore => if_pos hmore
  unfold runRound1
  have hcollected := collect_collected (needsCommitments p) (takeCommitment p) incoming s
  split
  · rename_i s' hcollect
    cases hcollect ▸ hcollected with
    | waiting hturns =>
        exact ⟨_, _, List.prefix_rfl, reach_turns hreceive hturns hstart, .waiting .round1⟩
  · exact ⟨.round1 s, [], List.nil_prefix, by rwa [List.append_nil], .failed⟩
  · rename_i s' rest hcollect
    cases hcollect ▸ hcollected with
    | done hturns hused hmore =>
        have hreach := reach_turns hreceive hturns hstart
        split
        · rename_i share m hsend
          exact ⟨_, _, hused ▸ List.prefix_append _ _, hreach, .waiting (.shareSent hmore hsend)⟩
        · exact ⟨_, _, hused ▸ List.prefix_append _ _, hreach, .failed⟩

/-- So is a turn of round 2. -/
theorem reach_runRound2 {t₀ : Receiving C S} {s : Round2 C S} {taken : List AgentRequest}
    (h : Reach (Receiving.step p) Always t₀ { acc := .round2 s, taken := taken })
    (incoming : List AgentRequest) :
    ∃ acc used, used <+: incoming ∧
      Reach (Receiving.step p) Always t₀ { acc := acc, taken := taken ++ used } ∧
      Outcomes p acc (runRound2 p s incoming) := by
  have hreceive : ∀ s req, needsShares p s = true →
      Receiving.receive p req (.round2 s) = (takeShare p s req).toOption.map .round2 :=
    fun s req hmore => if_pos hmore
  unfold runRound2
  have hcollected := collect_collected (needsShares p) (takeShare p) incoming s
  split
  · rename_i s' hcollect
    cases hcollect ▸ hcollected with
    | waiting hturns =>
        exact ⟨_, _, List.prefix_rfl, reach_turns hreceive hturns h, .waiting .round2⟩
  · exact ⟨.round2 s, [], List.nil_prefix, by rwa [List.append_nil], .failed⟩
  · rename_i s' rest hcollect
    cases hcollect ▸ hcollected with
    | done hturns hused _ =>
        exact ⟨_, _, hused ▸ List.prefix_append _ _, reach_turns hreceive hturns h, .signed rfl⟩

/-- A poll of the agent is a sequence of turns over the first requests
in its channel. -/
theorem runSigning_turns {a : Signing C S} (h : StandsAt p a t.acc)
    (incoming : List AgentRequest) (outgoing : List AgentMessage) :
    ∃ acc used, used <+: incoming ∧
      Reach (Receiving.step p) Always t { acc := acc, taken := t.taken ++ used } ∧
      Outcomes p acc (runSigning p a incoming outgoing) := by
  have hstay : Reach (Receiving.step p) Always t
      { acc := t.acc, taken := t.taken ++ ([] : List AgentRequest) } := by
    rw [List.append_nil]
    exact .start
  generalize hacc : t.acc = acc at h
  cases h with
  | commitmentsSent =>
      rw [runSigning]
      split
      · exact ⟨_, [], List.nil_prefix, hacc ▸ hstay, .waiting .commitmentsSent⟩
      · split
        · exact reach_runRound1 hacc incoming
        · exact ⟨_, [], List.nil_prefix, hacc ▸ hstay, .failed⟩
  | round1 => exact reach_runRound1 hacc incoming
  | @shareSent s share m hmore hsend =>
      rw [runSigning]
      split
      · exact ⟨_, [], List.nil_prefix, hacc ▸ hstay, .waiting (.shareSent hmore hsend)⟩
      · split
        · rename_i s' hnew
          have hstep : Receiving.step p t .sign
              = some { acc := .round2 s', taken := t.taken } := by
            rw [Receiving.step, hacc, Receiving.sign, if_neg (Bool.eq_false_iff.mp hmore), hsend]
            show ((Round2.new p s share).toOption.map Accumulators.round2).map _ = _
            rw [hnew]
            rfl
          exact reach_runRound2 (Reach.start.next _ trivial hstep) incoming
        · exact ⟨_, [], List.nil_prefix, hacc ▸ hstay, .failed⟩
  | round2 =>
      refine reach_runRound2 ?_ incoming
      rw [← hacc]
      exact .start

end Link

section Sources

variable [Identifiers] [DagCbor] [SigningCodec C S] {req : AgentRequest} {t : Receiving C S}

/-- A value of a signer came with a broadcast. -/
def Broadcast {α : Type} (p : SigningSession C S) (taken : List AgentRequest)
    (valueIn : AgentRequest → Option α) (id : Nat) (value : α) : Prop :=
  ∃ req ∈ taken, req.recipient = none ∧ signerOf p req = some id ∧ valueIn req = some value

/-- The commitments and the shares of the other signers came with
broadcasts. -/
structure FromBroadcasts (p : SigningSession C S) (t : Receiving C S) : Prop where
  commitments : ∀ id comms, id ≠ p.identifier → t.acc.commitmentsMap[id]? = some comms →
    Broadcast p t.taken (commitmentsIn C S) id comms
  shares : ∀ id share, id ≠ p.identifier → t.acc.signatureShares[id]? = some share →
    Broadcast p t.taken (shareIn C S) id share

/-- The next request is a broadcast, or it carries neither commitments
nor a share, or both of its sender are there. -/
def harmless (p : SigningSession C S) (t : Receiving C S) : SigningLabel → Bool
  | .receive req =>
      req.recipient.isNone || ((commitmentsIn C S req).isNone && (shareIn C S req).isNone)
        || (signerOf p req).all t.acc.holds
  | .sign => true

/-- The shares set aside in the first loop came with broadcasts too. -/
def DeferredFromBroadcasts (p : SigningSession C S) (t : Receiving C S) : Prop :=
  match t.acc with
  | .round1 s => ∀ id share, s.deferredSignatureShares[id]? = some share →
      Broadcast p t.taken (shareIn C S) id share
  | .round2 _ => True

variable {p : SigningSession C S}

omit [DagCbor] [SigningCodec C S] in
theorem Broadcast.append {α : Type} {taken : List AgentRequest}
    {valueIn : AgentRequest → Option α} {id : Nat} {value : α}
    (h : Broadcast p taken valueIn id value) (req : AgentRequest) :
    Broadcast p (taken ++ [req]) valueIn id value := by
  obtain ⟨req', hmem, h⟩ := h
  exact ⟨req', List.mem_append_left _ hmem, h⟩

omit [DagCbor] [SigningCodec C S] in
theorem broadcast_last {α : Type} {taken : List AgentRequest} {valueIn : AgentRequest → Option α}
    {id : Nat} {value : α} (hrecipient : req.recipient = none) (hid : signerOf p req = some id)
    (hvalue : valueIn req = some value) : Broadcast p (taken ++ [req]) valueIn id value :=
  ⟨req, List.mem_append_right _ List.mem_cons_self, hrecipient, hid, hvalue⟩

/-- A harmless request that places a value is a broadcast. -/
theorem recipient_eq_none {id : Nat} (hharmless : harmless p t (.receive req) = true)
    (hid : signerOf p req = some id)
    (hvalue : commitmentsIn C S req ≠ none ∨ shareIn C S req ≠ none)
    (hfresh : t.acc.holds id = false) : req.recipient = none := by
  rw [harmless, Bool.or_eq_true, Bool.or_eq_true, hid] at hharmless
  rcases hharmless with (hnone | hempty) | hholds
  · exact Option.isNone_iff_eq_none.mp hnone
  · rw [Bool.and_eq_true, Option.isNone_iff_eq_none, Option.isNone_iff_eq_none] at hempty
    rcases hvalue with hvalue | hvalue
    · exact absurd hempty.1 hvalue
    · exact absurd hempty.2 hvalue
  · have hholds : t.acc.holds id = true := hholds
    rw [hfresh] at hholds
    cases hholds

/-- A harmless message in round 1: a value that is stored or deferred is
broadcast. -/
theorem fromBroadcasts_receive1 {s s' : Round1 C S} (hacc : t.acc = .round1 s)
    (hinv : FromBroadcasts p t) (hdeferred : DeferredFromBroadcasts p t)
    (hharmless : harmless p t (.receive req) = true) (hturn : CommitmentTurn p s req s') :
    FromBroadcasts p { acc := .round1 s', taken := t.taken ++ [req] } ∧
      DeferredFromBroadcasts p { acc := .round1 s', taken := t.taken ++ [req] } := by
  have hcomms : ∀ id comms, id ≠ p.identifier → s.commitmentsMap[id]? = some comms →
      Broadcast p t.taken (commitmentsIn C S) id comms := by
    have h := hinv.commitments
    rwa [hacc] at h
  have hearly : ∀ id share, s.deferredSignatureShares[id]? = some share →
      Broadcast p t.taken (shareIn C S) id share := by
    rwa [DeferredFromBroadcasts, hacc] at hdeferred
  have hnone : ∀ id share, id ≠ p.identifier →
      (∅ : Std.TreeMap Nat S)[id]? = some share →
      Broadcast p (t.taken ++ [req]) (shareIn C S) id share :=
    fun id share _ h => by cases Std.TreeMap.getElem?_emptyc.symm.trans h
  cases hturn with
  | @placed id comms hid hfresh hvalue =>
      have hrecipient : req.recipient = none := by
        refine recipient_eq_none hharmless hid (.inl (by rw [hvalue]; exact nofun)) ?_
        rw [hacc]
        show (_ && _) = false
        rw [hfresh]
        rfl
      refine ⟨⟨fun key found hkey h => ?_, hnone⟩,
        fun key found h => (hearly key found h).append req⟩
      rcases getElem?_insert_cases h with ⟨rfl, rfl⟩ | h
      · exact broadcast_last hrecipient hid hvalue
      · exact (hcomms key found hkey h).append req
  | @early id share hid hvalue =>
      refine ⟨⟨fun key found hkey h => (hcomms key found hkey h).append req, hnone⟩,
        fun key found h => ?_⟩
      rw [Std.TreeMap.getElem?_insertIfNew] at h
      split at h
      · -- the signer had no share set aside
        rename_i hkey
        cases h
        obtain rfl : id = key := Std.LawfulEqCmp.eq_of_compare hkey.1
        have hrecipient : req.recipient = none := by
          refine recipient_eq_none hharmless hid (.inr (by rw [hvalue]; exact nofun)) ?_
          rw [hacc]
          show (_ && s.deferredSignatureShares.contains id) = false
          rw [Bool.eq_false_iff.mpr (fun hmem => hkey.2 (Std.TreeMap.mem_iff_contains.mpr hmem)),
            Bool.and_false]
        exact broadcast_last hrecipient hid hvalue
      · exact (hearly key found h).append req
  | skipped =>
      exact ⟨⟨fun key found hkey h => (hcomms key found hkey h).append req, hnone⟩,
        fun key found h => (hearly key found h).append req⟩

/-- A harmless message in round 2. -/
theorem fromBroadcasts_receive2 {s s' : Round2 C S} (hacc : t.acc = .round2 s)
    (hinv : FromBroadcasts p t) (hharmless : harmless p t (.receive req) = true)
    (hturn : ShareTurn p s req s') :
    FromBroadcasts p { acc := .round2 s', taken := t.taken ++ [req] } := by
  have hcomms : ∀ id comms, id ≠ p.identifier → s.commitmentsMap[id]? = some comms →
      Broadcast p (t.taken ++ [req]) (commitmentsIn C S) id comms := by
    intro id comms hid h
    refine (hinv.commitments id comms hid ?_).append req
    rwa [hacc]
  have hshares : ∀ id share, id ≠ p.identifier → s.signatureShares[id]? = some share →
      Broadcast p (t.taken ++ [req]) (shareIn C S) id share := by
    intro id share hid h
    refine (hinv.shares id share hid ?_).append req
    rwa [hacc]
  cases hturn with
  | @placed id share hid hfresh hvalue =>
      have hrecipient : req.recipient = none := by
        refine recipient_eq_none hharmless hid (.inr (by rw [hvalue]; exact nofun)) ?_
        rw [hacc]
        exact hfresh
      refine ⟨hcomms, fun key found hkey h => ?_⟩
      rcases getElem?_insert_cases h with ⟨rfl, rfl⟩ | h
      · exact broadcast_last hrecipient hid hvalue
      · exact hshares key found hkey h
  | skipped => exact ⟨hcomms, hshares⟩

/-- Signing adds the own share, and the shares that were set aside. -/
theorem fromBroadcasts_sign {s : Round1 C S} {share : S} {s' : Round2 C S}
    (hacc : t.acc = .round1 s) (hinv : FromBroadcasts p t) (hdeferred : DeferredFromBroadcasts p t)
    (hnew : Round2.new p s share = .ok s') : FromBroadcasts p { t with acc := .round2 s' } := by
  obtain ⟨hcomms, hshares⟩ := round2_new hnew
  refine ⟨fun id comms hid h => hinv.commitments id comms hid ?_, fun id early hid h => ?_⟩
  · rw [hacc]
    show s.commitmentsMap[id]? = some comms
    rw [← hcomms]
    exact h
  · rw [DeferredFromBroadcasts, hacc] at hdeferred
    rcases hshares id early h with hown | h
    · exact absurd hown hid
    · exact hdeferred id early h

/-- Every harmless step keeps the sources. -/
theorem fromBroadcasts_step {t' : Receiving C S} {l : SigningLabel}
    (hinv : FromBroadcasts p t ∧ DeferredFromBroadcasts p t) (hharmless : harmless p t l = true)
    (hstep : Receiving.step p t l = some t') :
    FromBroadcasts p t' ∧ DeferredFromBroadcasts p t' := by
  obtain ⟨hinv, hdeferred⟩ := hinv
  cases l with
  | receive req =>
      obtain ⟨acc, hreceive, rfl⟩ := Option.map_eq_some_iff.mp hstep
      cases hacc : t.acc with
      | round1 s =>
          rw [hacc, Receiving.receive] at hreceive
          split at hreceive
          · obtain ⟨s', htake, rfl⟩ := Option.map_eq_some_iff.mp hreceive
            cases hok : takeCommitment p s req with
            | ok s₁ =>
                rw [hok] at htake
                cases htake
                exact fromBroadcasts_receive1 hacc hinv hdeferred hharmless
                  (commitmentTurn_of_eq_ok hok)
            | error e =>
                rw [hok] at htake
                cases htake
          · cases hreceive
      | round2 s =>
          rw [hacc, Receiving.receive] at hreceive
          split at hreceive
          · obtain ⟨s', htake, rfl⟩ := Option.map_eq_some_iff.mp hreceive
            cases hok : takeShare p s req with
            | ok s₁ =>
                rw [hok] at htake
                cases htake
                exact ⟨fromBroadcasts_receive2 hacc hinv hharmless (shareTurn_of_eq_ok hok),
                  trivial⟩
            | error e =>
                rw [hok] at htake
                cases htake
          · cases hreceive
  | sign =>
      obtain ⟨acc, hsign, rfl⟩ := Option.map_eq_some_iff.mp hstep
      cases hacc : t.acc with
      | round1 s =>
          rw [hacc, Receiving.sign] at hsign
          split at hsign
          · cases hsign
          · -- round 2 starts with the shares that were deferred
            obtain ⟨sent, _, hnew⟩ := Option.bind_eq_some_iff.mp hsign
            obtain ⟨s', hnew, rfl⟩ := Option.map_eq_some_iff.mp hnew
            cases hok : Round2.new p s sent.1 with
            | ok s₁ =>
                rw [hok] at hnew
                cases hnew
                exact ⟨fromBroadcasts_sign hacc hinv hdeferred hok, trivial⟩
            | error e =>
                rw [hok] at hnew
                cases hnew
      | round2 s =>
          rw [hacc] at hsign
          cases hsign

/-- Take any sequence of requests in which every direct message is
harmless when the agent takes it. Then in every state of the two loops
the commitments and the shares of the other signers came with
broadcasts. -/
theorem fromBroadcasts (p : SigningSession C S) (commitments : C) (t : Receiving C S)
    (h : Reach (Receiving.step p) (fun t l => harmless p t l = true)
      (Receiving.start p commitments) t) : FromBroadcasts p t := by
  have hinv : FromBroadcasts p t ∧ DeferredFromBroadcasts p t := by
    refine h.invariant ?_ fun t l t' => fromBroadcasts_step
    refine ⟨⟨fun id comms hid hget => ?_, fun id share _ hget => ?_⟩, fun id share hget => ?_⟩
    · rcases getElem?_insert_cases hget with ⟨hown, _⟩ | hget
      · exact absurd hown hid
      · cases Std.TreeMap.getElem?_emptyc.symm.trans hget
    · cases Std.TreeMap.getElem?_emptyc.symm.trans hget
    · cases Std.TreeMap.getElem?_emptyc.symm.trans hget
  exact hinv.1

end Sources

namespace DirectCommitment

open scoped PlainAgent

/-- A commitment is the byte `1` and a value, a share the byte `2` and a
value. -/
local instance : SigningCodec UInt8 UInt8 where
  serializeCommitments c := .ok [1, c]
  deserializeCommitments
    | [1, c] => .ok c
    | _ => .error ""
  serializeShare s := [2, s]
  deserializeShare
    | [2, s] => .ok s
    | _ => .error ""

/-- The first of three signers. -/
def session : SigningSession UInt8 UInt8 where
  identifier := 1
  participants := [1, 2, 3]
  prepare := .ok ()
  commit := .ok 5
  sign _ := .ok 6
  finish _ _ := .ok []

/-- A message of another signer. -/
def message (sender : Nat) (recipient : Option Nat) (payload : Bytes) : AgentRequest where
  sender := sender
  recipient := recipient
  payload := payload

/-- The share of the second signer comes early. A direct message of it
with other commitments comes when both values are there. -/
def broadcastsFirst : List SigningLabel :=
  [.receive (message 2 none [2, 8]), .receive (message 2 none [1, 7]),
    .receive (message 2 (some 1) [1, 9]), .receive (message 3 none [1, 4]), .sign,
    .receive (message 3 none [2, 3])]

/-- The signer has used the broadcast values only. -/
theorem fromBroadcasts_broadcastsFirst :
    ∃ t, runIf (Receiving.step session) (harmless session) (Receiving.start session 5)
        broadcastsFirst = some t ∧
      t.acc.commitmentsMap.toList = [(1, 5), (2, 7), (3, 4)] ∧
      t.acc.signatureShares.toList = [(1, 6), (2, 8), (3, 3)] ∧ FromBroadcasts session t := by
  obtain ⟨t, hrun, hcomms, hshares⟩ :
      ∃ t, runIf (Receiving.step session) (harmless session) (Receiving.start session 5)
          broadcastsFirst = some t ∧
        t.acc.commitmentsMap.toList = [(1, 5), (2, 7), (3, 4)] ∧
        t.acc.signatureShares.toList = [(1, 6), (2, 8), (3, 3)] := ⟨_, rfl, rfl, rfl⟩
  exact ⟨t, hrun, hcomms, hshares, fromBroadcasts session 5 t (reach_of_runIf _ hrun)⟩

/-- The second signer sends its commitments to the first one only, and
then broadcasts others. The first signer keeps those it was sent
directly. -/
def directFirst : List SigningLabel :=
  [.receive (message 2 (some 1) [1, 9]), .receive (message 2 none [1, 7])]

/-- The signer has a value that no broadcast has brought. -/
theorem not_fromBroadcasts_directFirst :
    ∃ t, run (Receiving.step session) (Receiving.start session 5) directFirst = some t ∧
      t.acc.commitmentsMap[2]? = some 9 ∧ ¬ FromBroadcasts session t := by
  obtain ⟨t, hrun, hcomms, htaken⟩ :
      ∃ t, run (Receiving.step session) (Receiving.start session 5) directFirst = some t ∧
        t.acc.commitmentsMap[2]? = some 9 ∧
        t.taken = [message 2 (some 1) [1, 9], message 2 none [1, 7]] := ⟨_, rfl, rfl, rfl⟩
  refine ⟨t, hrun, hcomms, fun hfrom => ?_⟩
  obtain ⟨req, hmem, hrecipient, _, hvalue⟩ := hfrom.commitments 2 9 (by decide) hcomms
  rw [htaken] at hmem
  -- the direct message is no broadcast, and the broadcast has another value
  rcases List.mem_cons.mp hmem with rfl | hmem
  · cases hrecipient
  · cases List.mem_singleton.mp hmem
    cases hvalue

end DirectCommitment

end FrostMpcTss.Proofs
