import FrostMpcTss.Lib.Threshold
import FrostMpcTss.Proofs.ChannelRoom
import FrostMpcTss.Proofs.Conversation
import FrostMpcTss.Proofs.KeySignRoom
import FrostMpcTss.Proofs.SigningOrder

/-!
# `FrostMpcTss.Proofs.SigningConversation`: a signing session among honest parties

`SignPlan` lists what the signers of a session send if nothing goes
wrong: their commitments, and the shares that `round2::sign` makes of all
commitments. A signer for whom `sign` fails sends no share.

`SignPlan.part` turns the plan into parts of a conversation, and
`SignPlan.conversation_signing` says that the agents keep to it in every
reachable state. Signing has no direct messages, so an agent hears the
rounds of broadcasts and nothing else.
-/

set_option autoImplicit false

namespace FrostMpcTss.Proofs

open Lib Network Service FrostMpcTss.Session
open Tss Tss.KeySign

variable {P κ C S : Type} {n : Nat}

/-- The signer with an identifier. Other numbers stand for `j`. -/
def signerAt (ids : Fin n → Nat) (j : Fin n) (id : Nat) : Fin n :=
  if h : (List.ofFn ids).idxOf id < n then ⟨(List.ofFn ids).idxOf id, h⟩ else j

theorem signerAt_ids {ids : Fin n → Nat} (hinj : Function.Injective ids) (j i : Fin n) :
    signerAt ids j (ids i) = i := by
  have hindex := idxOf_ofFn hinj i
  rw [signerAt, dif_pos (by rw [hindex]; exact i.isLt)]
  exact Fin.ext hindex

section Plan

variable [Identifiers] [DagCbor] [SigningCodec C S]

/-- What the signers send. -/
structure SignPlan (p : Fin n → SigningSession C S) where
  ids : Fin n → Nat
  commitments : Fin n → C
  body : Fin n → Bytes
  /-- What `sign` makes of all commitments. -/
  signed : Fin n → Except String S
  share : Fin n → S
  shareBody : Fin n → Bytes
  injective : Function.Injective ids
  nonzero : ∀ j, ids j ≠ 0
  identifier : ∀ j, (p j).identifier = ids j
  participants : ∀ j, (p j).participants = List.ofFn ids
  sends : ∀ j, sendCommitments (p j) = .ok (commitments j, { body := body j, recipient := none })
  signs : ∀ j (m : Std.TreeMap Nat C), Holds Finset.univ ids commitments m →
    (p j).sign m = signed j
  share_eq : ∀ j s, signed j = .ok s → s = share j
  encodes : ∀ j, DagCbor.toVec (SigningCodec.serializeShare C (share j)) = .ok (shareBody j)

variable {p : Fin n → SigningSession C S}

/-- The participants of a session are the signers of the plan. -/
theorem SignPlan.signerSet (plan : SignPlan p) (j : Fin n) : SignerSet (p j) where
  nodup := by
    rw [plan.participants]
    exact List.nodup_ofFn.mpr plan.injective
  nonzero := by
    rw [plan.participants]
    intro id hid
    obtain ⟨i, rfl⟩ := List.mem_ofFn.mp hid
    exact plan.nonzero i
  mem := by
    rw [plan.participants, plan.identifier]
    exact List.mem_ofFn.mpr ⟨j, rfl⟩

/-- The messages of a signer as they reach the agent of `j`. -/
def SignPlan.messages (plan : SignPlan p) (j : Fin n) (id : Nat) : SignerMessages (p j) id where
  commitments := plan.commitments (signerAt plan.ids j id)
  share := plan.share (signerAt plan.ids j id)
  commitmentsRequest :=
    { sender := (p j).participants.idxOf id + 1, recipient := none,
      payload := plan.body (signerAt plan.ids j id) }
  shareRequest :=
    { sender := (p j).participants.idxOf id + 1, recipient := none,
      payload := plan.shareBody (signerAt plan.ids j id) }
  sender_commitments := rfl
  sender_share := rfl
  encodes_commitments := (sendCommitments_eq_ok (plan.sends (signerAt plan.ids j id))).2.2
  encodes_share := plan.encodes (signerAt plan.ids j id)

/-- How many broadcasts an agent has made when it stands here. -/
def voiced : Signing C S → Nat
  | .start => 0
  | .commitmentsSent _ => 1
  | .round1 _ => 1
  | .shareSent _ _ => 2
  | .round2 _ => 2
  | .returned => 0

/-- How many it makes at most. -/
def SignPlan.limit (plan : SignPlan p) (j : Fin n) : Nat :=
  match plan.signed j with
  | .ok _ => 2
  | .error _ => 1

/-- The part of a signer that keeps to the plan. -/
def SignPlan.part (plan : SignPlan p) (j : Fin n) : Part P (Signing C S) where
  heard reqs := ∃ order, order.Perm (signerRequests (plan.messages j)) ∧ reqs <+: order
  script := [plan.body j, plan.shareBody j].take (plan.limit j)
  letters _ := False
  explained a taken sent := SigningStage (plan.commitments j) (plan.messages j) a taken ∧
    (∀ m ∈ sent, m.recipient = none) ∧
    bodiesOf sent = [plan.body j, plan.shareBody j].take (voiced a)
  returns := SignsWith (plan.commitments j) (plan.messages j)

theorem SignPlan.mem_remotes (plan : SignPlan p) {i j : Fin n} (hne : i ≠ j) :
    plan.ids i ∈ remotes (p j) := by
  rw [Proofs.mem_remotes, plan.participants, plan.identifier]
  exact ⟨List.mem_ofFn.mpr ⟨i, rfl⟩, fun heq => hne (plan.injective heq)⟩

/-- A map with the values of the others and the own one has those of all
signers. -/
theorem SignPlan.holds_of_complete {α : Type} (plan : SignPlan p) {j : Fin n} {v : Fin n → α}
    {m : Std.TreeMap Nat α} (hm : ∀ id, m[id]? = complete (p j).identifier (remotes (p j))
      (some (v j)) (fun id => v (signerAt plan.ids j id)) id) :
    Holds Finset.univ plan.ids v m := by
  intro id a
  rw [hm, complete, plan.identifier]
  constructor
  · intro h
    split at h
    · rename_i hown
      exact ⟨j, Finset.mem_univ j, hown.symm, Option.some.inj h⟩
    · split at h
      · rename_i hmem
        obtain ⟨i, rfl⟩ :=
          List.mem_ofFn.mp (plan.participants j ▸ (Proofs.mem_remotes.mp hmem).1)
        rw [signerAt_ids plan.injective] at h
        exact ⟨i, Finset.mem_univ i, rfl, Option.some.inj h⟩
      · cases h
  · rintro ⟨i, _, rfl, rfl⟩
    by_cases hown : i = j
    · rw [if_pos (congrArg plan.ids hown), hown]
    · rw [if_neg fun heq => hown (plan.injective heq), if_pos (plan.mem_remotes hown),
        signerAt_ids plan.injective]

/-- What an agent signs with the commitments of all signers. -/
theorem SignPlan.share_of_sign (plan : SignPlan p) {j : Fin n} {m : Std.TreeMap Nat C}
    (hm : ∀ id, m[id]? = commitmentsOf (plan.commitments j) (plan.messages j) id) :
    (p j).sign m = plan.signed j :=
  plan.signs j m (plan.holds_of_complete hm)

end Plan

/-! ### The messages of an agent -/

section Turns

variable [Identifiers] [DagCbor] [SigningCodec C S] {p : SigningSession C S}

/-- What an agent sends in a poll. -/
inductive SigningTurn (p : SigningSession C S) (a : Signing C S) :
    Signing C S × AgentTurn → Prop where
  | commits {commitments : C} {message : AgentMessage} {received : Nat} : a = .start →
      sendCommitments p = .ok (commitments, message) →
      SigningTurn p a (.commitmentsSent commitments, .waiting received [message])
  | signs {s : Round1 C S} {share : S} {message : AgentMessage} {received : Nat} :
      voiced a = 1 → sendShare p s = .ok (share, message) →
      SigningTurn p a (.shareSent s share, .waiting received [message])
  | waits {a' : Signing C S} {received : Nat} : voiced a' = voiced a →
      SigningTurn p a (a', .waiting received [])
  | returns {a' : Signing C S} {received : Nat} {r : AgentResult} :
      SigningTurn p a (a', .returning received [] r)

theorem signingTurn_runRound1 {a : Signing C S} (ha : voiced a = 1) (s : Round1 C S)
    (incoming : List AgentRequest) : SigningTurn p a (runRound1 p s incoming) := by
  unfold runRound1
  split
  · exact .waits ha.symm
  · exact .returns
  · split
    · rename_i hshare
      exact .signs ha hshare
    · exact .returns

theorem signingTurn_runRound2 {a : Signing C S} (ha : voiced a = 2) (s : Round2 C S)
    (incoming : List AgentRequest) : SigningTurn p a (runRound2 p s incoming) := by
  unfold runRound2
  split
  · exact .waits ha.symm
  · exact .returns
  · exact .returns

/-- A turn sends the commitments first and the share second. -/
theorem signingTurn_runSigning (p : SigningSession C S) (a : Signing C S)
    (incoming : List AgentRequest) (outgoing : List AgentMessage) :
    SigningTurn p a (runSigning p a incoming outgoing) := by
  cases a with
  | start =>
      rw [runSigning]
      split
      · rename_i hsend
        exact .commits rfl hsend
      · exact .returns
  | commitmentsSent commitments =>
      rw [runSigning]
      split
      · exact .waits rfl
      · split
        · exact signingTurn_runRound1 rfl ..
        · exact .returns
  | round1 s => exact signingTurn_runRound1 rfl ..
  | shareSent s share =>
      rw [runSigning]
      split
      · exact .waits rfl
      · split
        · exact signingTurn_runRound2 rfl ..
        · exact .returns
  | round2 s => exact signingTurn_runRound2 rfl ..
  | returned => exact .waits rfl

end Turns

section Parts

variable [Identifiers] [DagCbor] [SigningCodec C S] {p : Fin n → SigningSession C S}
  {plan : SignPlan p} {j : Fin n} {a : Signing C S} {taken : List AgentRequest}

/-- An agent has made no more broadcasts than the plan has. -/
theorem voiced_le_limit (h : SigningStage (plan.commitments j) (plan.messages j) a taken) :
    voiced a ≤ plan.limit j := by
  have hone : 1 ≤ plan.limit j := by
    unfold SignPlan.limit
    split <;> omega
  have htwo : ∀ {m : Std.TreeMap Nat C} {share : S},
      (∀ id, m[id]? = commitmentsOf (plan.commitments j) (plan.messages j) id) →
      (p j).sign m = .ok share → 2 ≤ plan.limit j := by
    intro m share hm hsign
    rw [plan.share_of_sign hm] at hsign
    rw [SignPlan.limit, hsign]
  cases h with
  | start => exact Nat.zero_le _
  | commitmentsSent => exact hone
  | round1 _ => exact hone
  | shareSent hgathered hdone hsign _ =>
      exact htwo (commitments_of_done (plan.signerSet j) hgathered hdone) hsign
  | round2 _ hm hsign _ => exact htwo hm hsign

variable [LawfulIdentifiers] [LawfulDagCbor] [LawfulSigningCodec C S]

/-- An agent that hears its part keeps to the plan. -/
theorem SignPlan.plays_runSigning (plan : SignPlan p) (peers : List P) (j : Fin n) :
    Plays ((signers p).poll j) peers (plan.part j) := by
  rintro a taken sent incoming outgoing ⟨hstage, hnone, hspoken⟩ ⟨order, horder, hinitial⟩
  have hpolled := collects_signing (plan.signerSet j) (plan.sends j) horder a taken incoming
    outgoing hstage hinitial
  have hturn := signingTurn_runSigning (p j) a incoming outgoing
  show (plan.part j).Says peers (sent ++ (runSigning (p j) a incoming outgoing).2.sent) ∧ _
  generalize hrun : (signers p).poll j a incoming outgoing = polled
  have hrun : runSigning (p j) a incoming outgoing = polled := hrun
  rw [hrun] at hpolled hturn ⊢
  -- what has been sent, and how much of it was said
  have hspeaks : ∀ {sent' : List AgentMessage} (count : Nat), (∀ m ∈ sent', m.recipient = none) →
      bodiesOf sent' = [plan.body j, plan.shareBody j].take count → count ≤ plan.limit j →
      (plan.part j).Says peers sent' := by
    intro sent' count hrecipients hbodies hle
    refine ⟨?_, fun d hd => ?_⟩
    · rw [hbodies]
      exact List.take_prefix_take_left hle
    · obtain ⟨m, hm, hd⟩ := List.mem_filterMap.mp hd
      rw [hrecipients m hm] at hd
      cases hd
  have hadds : ∀ {message : AgentMessage}, message.recipient = none →
      (∀ m ∈ sent ++ [message], m.recipient = none) ∧
        bodiesOf (sent ++ [message]) = bodiesOf sent ++ [message.body] := by
    intro message hrecipient
    refine ⟨fun m hm => ?_, ?_⟩
    · rcases List.mem_append.mp hm with hm | hm
      · exact hnone m hm
      · rw [List.mem_singleton.mp hm, hrecipient]
    · rw [bodiesOf_append]
      simp [bodiesOf, hrecipient]
  cases hturn with
  | @commits commitments message received ha hsend =>
      subst ha
      cases (plan.sends j).symm.trans hsend
      cases hpolled with
      | goesOn hstage' _ =>
          obtain ⟨hrecipients, hbodies⟩ := hadds (sendCommitments_eq_ok hsend).2.1
          rw [hspoken] at hbodies
          exact ⟨hspeaks 1 hrecipients hbodies (voiced_le_limit hstage'),
            fun _ => ⟨hstage', hrecipients, hbodies⟩, fun _ h => by cases h⟩
  | @signs s share message received ha hsend =>
      obtain ⟨hrecipient, hencode⟩ := sendShare_eq_ok hsend
      cases hpolled with
      | goesOn hstage' _ =>
          obtain ⟨hrecipients, hbodies⟩ := hadds hrecipient
          have hbody : message.body = plan.shareBody j := by
            cases hstage' with
            | shareSent hgathered hdone hsign _ =>
                rw [plan.share_of_sign
                  (commitments_of_done (plan.signerSet j) hgathered hdone)] at hsign
                rw [plan.share_eq j _ hsign, plan.encodes j] at hencode
                exact (Except.ok.inj hencode).symm
          rw [hspoken, ha, hbody] at hbodies
          exact ⟨hspeaks 2 hrecipients hbodies (voiced_le_limit hstage'),
            fun _ => ⟨hstage', hrecipients, hbodies⟩, fun _ h => by cases h⟩
  | @waits a' received ha =>
      cases hpolled with
      | goesOn hstage' _ =>
          rw [← ha] at hspoken
          have hsame : sent ++ (AgentTurn.waiting received []).sent = sent := List.append_nil _
          simp only [hsame]
          exact ⟨hspeaks _ hnone hspoken (voiced_le_limit hstage'),
            fun _ => ⟨hstage', hnone, hspoken⟩, fun _ h => by cases h⟩
  | @returns _ received result =>
      cases hpolled with
      | returns hr =>
          have hsame : sent ++ (AgentTurn.returning received [] result).sent = sent :=
            List.append_nil _
          simp only [hsame]
          refine ⟨hspeaks _ hnone hspoken (voiced_le_limit hstage), fun h => ?_, fun r heq => ?_⟩
          · cases h
          · cases heq
            exact hr

end Parts

/-! ### What the agents hear -/

section Heard

variable [Identifiers] [DagCbor] [SigningCodec C S] {p : Fin n → SigningSession C S}
  {cfg : Config P κ n} {t : Net P κ n}

theorem SignPlan.sender_eq (plan : SignPlan p) (hsmall : n < 2 ^ 16) (j i : Fin n) :
    (p j).participants.idxOf (plan.ids i) + 1 = numberOf i := by
  rw [plan.participants, idxOf_ofFn plan.injective, numberOf_eq hsmall]

theorem SignPlan.limit_le (plan : SignPlan p) (j : Fin n) :
    1 ≤ plan.limit j ∧ plan.limit j ≤ 2 := by
  unfold SignPlan.limit
  split <;> omega

/-- The first round of broadcasts are the commitments. -/
theorem SignPlan.heardRound_zero (plan : SignPlan p) (hsmall : n < 2 ^ 16) (j : Fin n) :
    heardRound (P := P) plan.part j 0
      = (othersOf j).map fun i => (plan.messages j (plan.ids i)).commitmentsRequest := by
  refine List.map_congr_left fun i _ => ?_
  have hscript : (plan.part (P := P) i).script[0]? = some (plan.body i) := by
    show ([plan.body i, plan.shareBody i].take (plan.limit i))[0]? = _
    rw [List.getElem?_take_of_lt (plan.limit_le i).1]
    rfl
  rw [hscript, ← plan.sender_eq hsmall j i]
  simp only [SignPlan.messages, signerAt_ids plan.injective, Option.getD_some]

/-- The second one are the shares. -/
theorem SignPlan.heardRound_one (plan : SignPlan p) (hsmall : n < 2 ^ 16) (j : Fin n)
    (hlimit : ∀ i, i ≠ j → 1 < plan.limit i) :
    heardRound (P := P) plan.part j 1
      = (othersOf j).map fun i => (plan.messages j (plan.ids i)).shareRequest := by
  refine List.map_congr_left fun i hi => ?_
  have hscript : (plan.part (P := P) i).script[1]? = some (plan.shareBody i) := by
    show ([plan.body i, plan.shareBody i].take (plan.limit i))[1]? = _
    rw [List.getElem?_take_of_lt (hlimit i (mem_othersOf.mp hi))]
    rfl
  rw [hscript, ← plan.sender_eq hsmall j i]
  simp only [SignPlan.messages, signerAt_ids plan.injective, Option.getD_some]

variable [LawfulDagCbor] [LawfulSigningCodec C S]

/-- If the others keep to the plan, the agents hear their parts. -/
theorem SignPlan.heard_of_said (plan : SignPlan p) (htwo : 2 ≤ n) (hsmall : n < 2 ^ 16)
    (hhonest : ∀ j, cfg.honest j = true) (hr : NetRounds cfg t)
    (hsaid : AllSaid cfg plan.part t) : AllHeard plan.part t := by
  intro j
  obtain ⟨count, hcount, hbroadcasts⟩ := broadcasts_heard hsmall hhonest hr hsaid j
  generalize hreqs : handedIn (t.sessions j).trace = reqs at hbroadcasts
  -- there are no direct messages
  have hall : reqs.filter (·.recipient.isNone) = reqs := by
    rw [List.filter_eq_self]
    intro req hreq
    cases hrecipient : req.recipient with
    | none => rfl
    | some u =>
        obtain ⟨_, _, _, _, hletter⟩ :=
          hsaid.letters j req (hreqs ▸ hreq) (by rw [hrecipient]; rfl)
        exact hletter.elim
  rw [hall] at hbroadcasts
  have hlimit : ∀ i, i ≠ j → count ≤ plan.limit i := by
    intro i hne
    have hle : count ≤ ([plan.body i, plan.shareBody i].take (plan.limit i)).length :=
      hcount i hne
    rw [List.length_take] at hle
    exact hle.trans (Nat.min_le_left ..)
  -- so these are the commitments, and maybe the shares
  have hrounds : reqs.Sublist
      ((othersOf j).map (fun i => (plan.messages j (plan.ids i)).commitmentsRequest) ++
        (othersOf j).map fun i => (plan.messages j (plan.ids i)).shareRequest) := by
    obtain ⟨i, hne⟩ : ∃ i : Fin n, i ≠ j := by
      have : Nontrivial (Fin n) := Fin.nontrivial_iff_two_le.mpr htwo
      exact exists_ne j
    have hle : count ≤ 2 := (hlimit i hne).trans (plan.limit_le i).2
    have hzero := plan.heardRound_zero (P := P) hsmall j
    rw [hbroadcasts]
    interval_cases count
    · exact List.nil_sublist _
    · simp [hzero]
    · have hone := plan.heardRound_one (P := P) hsmall j hlimit
      simp [List.range_succ, hzero, hone]
  refine exists_perm_of_subset (hrounds.nodup ?_) fun req hreq => ?_
  · refine List.nodup_append.mpr ⟨nodup_map_othersOf hsmall j (plan.sender_eq hsmall j),
      nodup_map_othersOf hsmall j (plan.sender_eq hsmall j), ?_⟩
    rintro req hreq req' hreq' rfl
    obtain ⟨i, _, rfl⟩ := List.mem_map.mp hreq
    obtain ⟨i', hi', heq⟩ := List.mem_map.mp hreq'
    exact commitmentsRequest_ne_shareRequest (plan.messages j)
      (plan.mem_remotes (mem_othersOf.mp hi')) _ heq.symm
  · rw [mem_signerRequests]
    rcases List.mem_append.mp (hrounds.subset hreq) with hreq | hreq
    · obtain ⟨i, hi, rfl⟩ := List.mem_map.mp hreq
      exact ⟨_, plan.mem_remotes (mem_othersOf.mp hi), .inl rfl⟩
    · obtain ⟨i, hi, rfl⟩ := List.mem_map.mp hreq
      exact ⟨_, plan.mem_remotes (mem_othersOf.mp hi), .inr rfl⟩

end Heard

section Main

variable [Identifiers] [LawfulIdentifiers] [DagCbor] [SigningCodec C S] [LawfulDagCbor]
  [LawfulSigningCodec C S] [DecidableEq P] [Blake2s256] {p : Fin n → SigningSession C S}
  {cfg : Config P κ n} {t : AgentNet P κ (Signing C S) n}

/-- In every reachable state of a signing session among honest parties the
agents keep to the plan. -/
theorem SignPlan.conversation_signing (plan : SignPlan p) (htwo : 2 ≤ n) (hsmall : n < 2 ^ 16)
    (hhonest : ∀ j, cfg.honest j = true)
    (h : Reach (AgentNet.step cfg (signers p)) Always (AgentNet.start cfg (signers p)) t) :
    Conversation cfg plan.part t := by
  refine conversation_of_reach (plan.plays_runSigning (List.ofFn cfg.peers)) (fun j => ?_)
    hhonest (fun t _ hr hsaid => plan.heard_of_said htwo hsmall hhonest hr hsaid) h
  exact ⟨.start, nofun, rfl⟩

omit [LawfulIdentifiers] [LawfulDagCbor] [LawfulSigningCodec C S] [Blake2s256] in
/-- The result of an agent that keeps to the plan: `sign` has failed, or
the shares of all signers were handed to what comes after the last one. -/
theorem SignPlan.result_of_signsWith (plan : SignPlan p) {j : Fin n} {r : AgentResult}
    (h : SignsWith (plan.commitments j) (plan.messages j) r) :
    (∃ e, plan.signed j = .error e ∧ r = .error ("failed to generate signature share: " ++ e)) ∨
    ∃ m shares, Holds Finset.univ plan.ids plan.commitments m ∧
      Holds Finset.univ plan.ids plan.share shares ∧
      plan.signed j = .ok (plan.share j) ∧ r = (p j).finish m shares := by
  cases h with
  | signFailed hm hsign =>
      rw [plan.share_of_sign hm] at hsign
      exact .inl ⟨_, hsign, rfl⟩
  | encodeFailed hm hsign hencode =>
      rw [plan.share_of_sign hm] at hsign
      rw [plan.share_eq j _ hsign, plan.encodes j] at hencode
      cases hencode
  | aggregated hm hsign _ hshares =>
      rw [plan.share_of_sign hm] at hsign
      obtain rfl := plan.share_eq j _ hsign
      exact .inr ⟨_, _, plan.holds_of_complete hm, plan.holds_of_complete hshares, hsign, rfl⟩

end Main

end FrostMpcTss.Proofs
