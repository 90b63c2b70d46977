import FrostMpcTss.Proofs.Conversation
import FrostMpcTss.Proofs.DkgOrder
import FrostMpcTss.Proofs.ShareRouting
import FrostMpcTss.Proofs.SigningTurns

/-!
# `FrostMpcTss.Proofs.DkgConversation`: a key generation among honest parties

`DealPlan` lists what the parties of a key generation deal if nothing
goes wrong: each party's package of the first round, and its packages of
the second round for the others. The plan is what `sendRound1` and
`part2` return, so it says nothing about messages that others invent.

`DealPlan.part` turns the plan into parts of a conversation. An agent may
be handed the messages of the plan in any order, and none of them twice.
`plays_runDkg` says that an agent that hears this keeps to the plan, and
`heard_of_said` that it hears this if the others keep to it. So
`conversation_dkg` holds in every reachable state: whatever order the
network chooses, every agent calls `part2` and `part3` with the packages
that the others dealt.
-/

set_option autoImplicit false

namespace FrostMpcTss.Proofs

open Lib Network Service FrostMpcTss.Session
open Tss Tss.KeyGen

variable {P κ A B : Type} {n : Nat}

/-- The party with an identifier. Other numbers stand for `j`. -/
def partyOf (j : Fin n) (id : Nat) : Fin n := if h : id - 1 < n then ⟨id - 1, h⟩ else j

theorem partyOf_succ (j i : Fin n) : partyOf j (i + 1) = i := by
  simp [partyOf]

section Plan

variable [Identifiers] [DagCbor] [DkgCodec A B]

/-- What the parties deal. -/
structure DealPlan (p : Fin n → DkgSession A B) where
  package : Fin n → A
  body : Fin n → Bytes
  /-- The package of the second round, from one party to another. -/
  share : Fin n → Fin n → B
  letter : Fin n → Fin n → Bytes
  sends : ∀ j, sendRound1 (p j) = .ok (package j, { body := body j, recipient := none })
  encodes : ∀ i j, ∃ bytes, DkgCodec.serializeRound2 A (share i j) = .ok bytes ∧
    DagCbor.toVec bytes = .ok (letter i j)
  /-- With the packages of all others, `part2` makes these. -/
  deals : ∀ j (m : Std.TreeMap Nat A),
    (∀ id, m[id]? = complete (p j).identifier (otherParties (p j)) none
      (fun id => package (partyOf j id)) id) →
    ∃ packages, (p j).part2 m = .ok packages ∧ ∀ id share', packages[id]? = some share' →
      id ∈ otherParties (p j) ∧ share' = share j (partyOf j id)

variable {p : Fin n → DkgSession A B}

/-- The messages of a party as they reach the agent of `j`. -/
def DealPlan.messages (plan : DealPlan p) (j : Fin n) (id : Nat) : PartyMessages (p j) id where
  round1 := plan.package (partyOf j id)
  round2 := plan.share (partyOf j id) j
  broadcast := { sender := id, recipient := none, payload := plan.body (partyOf j id) }
  direct :=
    { sender := id, recipient := some (p j).identifier, payload := plan.letter (partyOf j id) j }
  sender_broadcast := rfl
  sender_direct := rfl
  recipient_broadcast := rfl
  recipient_direct := rfl
  encodes_round1 := (sendRound1_eq_ok (plan.sends (partyOf j id))).2.2
  encodes_round2 := plan.encodes (partyOf j id) j

/-- The broadcasts an agent has made when it stands here. -/
def DealPlan.spoken (plan : DealPlan p) (j : Fin n) : Dkg A B → List Bytes
  | .start => []
  | _ => [plan.body j]

/-- The part of a party that keeps to the plan. -/
def DealPlan.part (plan : DealPlan p) (cfg : Config P κ n) (j : Fin n) : Part P (Dkg A B) where
  heard reqs := ∃ order, order.Perm (partyRequests (plan.messages j)) ∧ reqs <+: order
  script := [plan.body j]
  letters d := ∃ k, d = (cfg.peers k, plan.letter j k)
  explained a taken sent := DkgStage (plan.package j) (plan.messages j) a taken ∧
    Dealing (p j) a taken sent ∧ bodiesOf sent = plan.spoken j a
  returns := DealsWith (plan.messages j)

end Plan

/-! ### The messages of an agent -/

section Spoken

variable [DagCbor] [DkgCodec A B] {p : DkgSession A B}

/-- A package whose encoding exists becomes a message. -/
theorem round2Message_eq_ok {package : Nat × B} {bytes body : Bytes}
    (hexpects : expects p package.1 = true)
    (hserialize : DkgCodec.serializeRound2 A package.2 = .ok bytes)
    (hencode : DagCbor.toVec bytes = .ok body) :
    round2Message p package = .ok { body := body, recipient := some package.1 } := by
  simp only [round2Message, hexpects, hserialize, mapErr, Lib.Except.ok_bind, hencode]
  rfl

/-- Round 2 broadcasts nothing. -/
theorem bodiesOf_sendRound2 (p : DkgSession A B) (room : Nat) (todo : List (Nat × B)) :
    bodiesOf (sendRound2 p room todo).1 = [] := by
  induction todo generalizing room with
  | nil =>
      rw [sendRound2]
      rfl
  | cons package todo ih =>
      cases hmessage : round2Message p package with
      | error e =>
          simp only [sendRound2, hmessage]
          rfl
      | ok message =>
          cases room with
          | zero =>
              simp only [sendRound2, hmessage]
              rfl
          | succ room =>
              simp only [sendRound2, hmessage]
              show bodiesOf ([message] ++ (sendRound2 p room todo).1) = []
              rw [bodiesOf_append, ih room]
              simp [bodiesOf, recipient_round2Message hmessage]

variable [Identifiers]

/-- The agent has left its start, and has sent no broadcast besides those
in `sent`. -/
def SpeaksOnly (sent : List AgentMessage) (polled : Dkg A B × AgentTurn) : Prop :=
  polled.1 ≠ .start ∧ bodiesOf polled.2.sent = bodiesOf sent

theorem speaksOnly_runRound2 (s : Round1 A) (acc : Round2 B) (received : Nat)
    (incoming : List AgentRequest) (sent : List AgentMessage) :
    SpeaksOnly sent (runRound2 p s acc received incoming sent) := by
  unfold runRound2
  split <;> exact ⟨nofun, rfl⟩

/-- Nor does the sending of shares. -/
theorem speaksOnly_runSending (s : Round1 A) (todo : List (Nat × B)) (room received : Nat)
    (incoming : List AgentRequest) (sent : List AgentMessage) :
    SpeaksOnly sent (runSending p s todo room received incoming sent) := by
  have hmessages : bodiesOf (sent ++ (sendRound2 p room todo).1) = bodiesOf sent := by
    rw [bodiesOf_append, bodiesOf_sendRound2, List.append_nil]
  unfold runSending
  split
  · rename_i messages e heq
    rw [heq] at hmessages
    exact ⟨nofun, hmessages⟩
  · rename_i messages heq
    rw [heq] at hmessages
    obtain ⟨hstart, hbodies⟩ := speaksOnly_runRound2 (p := p) s
      { packages := ∅, receivedSenders := ∅ } received incoming (sent ++ messages)
    exact ⟨hstart, hbodies.trans hmessages⟩
  · rename_i messages left _ heq
    rw [heq] at hmessages
    exact ⟨nofun, hmessages⟩

theorem speaksOnly_runRound1 (s : Round1 A) (room : Nat) (incoming : List AgentRequest)
    (sent : List AgentMessage) : SpeaksOnly sent (runRound1 p s room incoming sent) := by
  unfold runRound1
  split
  · exact ⟨nofun, rfl⟩
  · exact ⟨nofun, rfl⟩
  · split
    · exact ⟨nofun, rfl⟩
    · exact speaksOnly_runSending ..

end Spoken

section Parts

variable [Identifiers] [DagCbor] [DkgCodec A B] {p : Fin n → DkgSession A B}
  {plan : DealPlan p} {j : Fin n} {a : Dkg A B} {taken : List AgentRequest}
  {sent : List AgentMessage}

/-- Every poll leaves the agent with its one broadcast. -/
theorem spoken_runDkg (capacity : Nat) (incoming : List AgentRequest)
    (outgoing : List AgentMessage) (hreturned : a ≠ .returned)
    (h : bodiesOf sent = plan.spoken j a) :
    bodiesOf (sent ++ (runDkg (p j) capacity a incoming outgoing).2.sent) = [plan.body j] ∧
      plan.spoken j (runDkg (p j) capacity a incoming outgoing).1 = [plan.body j] := by
  have hspoken : ∀ {a' : Dkg A B}, a' ≠ .start → plan.spoken j a' = [plan.body j] := by
    intro a' hstart
    cases a' <;> first | rfl | exact absurd rfl hstart
  -- only the first poll adds a broadcast
  have hpolled : ∀ {first : List AgentMessage} {polled : Dkg A B × AgentTurn},
      SpeaksOnly first polled → plan.spoken j a ++ bodiesOf first = [plan.body j] →
      bodiesOf (sent ++ polled.2.sent) = [plan.body j] ∧
        plan.spoken j polled.1 = [plan.body j] := by
    intro first polled hspeaks hfirst
    refine ⟨?_, hspoken hspeaks.1⟩
    rw [bodiesOf_append, h, hspeaks.2, hfirst]
  cases a with
  | start =>
      simp only [runDkg, plan.sends j]
      exact hpolled (speaksOnly_runRound1 ..) rfl
  | round1 s => exact hpolled (speaksOnly_runRound1 ..) rfl
  | sending s todo => exact hpolled (speaksOnly_runSending ..) rfl
  | round2 s acc => exact hpolled (speaksOnly_runRound2 ..) rfl
  | returned => exact absurd rfl hreturned

variable [LawfulIdentifiers] [LawfulDagCbor] [LawfulRound1Codec A B]

/-- The packages of an agent that has heard the others are those of the
plan. -/
theorem DealPlan.share_of_mem (plan : DealPlan p) (hp : IsParty (p j))
    (htaken : ∀ req ∈ taken, req ∈ partyRequests (plan.messages j)) {package : Nat × B}
    (hmem : package ∈ packagesOf (p j) taken) :
    package.2 = plan.share j (partyOf j package.1) := by
  have hnew : BroadcastsGathered (plan.package j) (plan.messages j) []
      (.new (p j) (plan.package j)) := broadcastsGathered_new
  have hloop := collect_rule (needsRound1 (p j)) (takeRound1 (p j))
    (fun hinv hreq _ => broadcastsGathered_take hinv hreq) taken hnew htaken
  unfold packagesOf dealt at hmem
  simp only [plan.sends j] at hmem
  generalize collect (needsRound1 (p j)) (takeRound1 (p j)) (.new (p j) (plan.package j)) taken
    = ended at hloop hmem
  cases hloop with
  | waiting _ _ => cases hmem
  | done _ hdone hinv =>
      obtain ⟨packages, hpart2, hshares⟩ := plan.deals j _ fun id =>
        (hinv.forPart2 id).trans (round1_of_done hp hinv hdone none id)
      simp only [startRound2_of_done hp hinv hdone, hpart2] at hmem
      have hmem : package ∈ packages.toList := hmem
      exact (hshares _ _ (Std.TreeMap.mem_toList_iff_getElem?_eq_some.mp hmem)).2

variable [DecidableEq P] {cfg : Config P κ n}

/-- The direct messages of such an agent are those of the plan. -/
theorem DealPlan.letters_of_dealing (plan : DealPlan p) (hnumbers : OwnNumbers cfg p)
    (hsmall : n < 2 ^ 16) (hp : IsParty (p j)) (h : Dealing (p j) a taken sent)
    (htaken : ∀ req ∈ taken, req ∈ partyRequests (plan.messages j)) :
    ∀ d ∈ directsOf (List.ofFn cfg.peers) sent, ∃ k, d = (cfg.peers k, plan.letter j k) := by
  obtain ⟨done, hdone, hcarries⟩ := h.carries
  have haddressed := addressed_of_carries hnumbers hsmall sent done hcarries
  have hdone : done <+: packagesOf (p j) taken := by simpa using hdone []
  intro d hd
  obtain ⟨k, hk, rfl⟩ := List.getElem_of_mem hd
  have hk' : k < done.length := by rwa [haddressed.length_eq]
  obtain ⟨r, m, hr, hmessage, heq⟩ := haddressed.get hk' hk
  refine ⟨r, heq.trans ?_⟩
  -- the package is the one for party `r`
  have hshare := plan.share_of_mem hp htaken (hdone.subset (List.getElem_mem hk'))
  have hr : done[k].1 = r + 1 := by
    have hr : (p r).identifier = done[k].1 := hr
    rw [← hr, (hnumbers.eq hsmall r).1]
  rw [hr, partyOf_succ] at hshare
  obtain ⟨bytes, hserialize, hencode⟩ := plan.encodes j r
  rw [← hshare] at hserialize
  rw [round2Message_eq_ok (expects_of_round2Message hmessage) hserialize hencode] at hmessage
  cases hmessage
  rfl

variable [LawfulDkgCodec A B]

/-- An agent that hears its part keeps to the plan. -/
theorem DealPlan.plays_runDkg (plan : DealPlan p) (hnumbers : OwnNumbers cfg p) (htwo : 2 ≤ n)
    (hsmall : n < 2 ^ 16) (j : Fin n) :
    Plays ((dealers p).poll j) (List.ofFn cfg.peers) (plan.part cfg j) := by
  rintro a taken sent incoming outgoing ⟨hstage, hdealing, hspoken⟩ ⟨order, horder, hinitial⟩
  have hp : IsParty (p j) := by
    obtain ⟨hid, hmax⟩ := hnumbers.eq hsmall j
    unfold IsParty
    omega
  have hreturned : a ≠ .returned := by
    rintro rfl
    cases hstage
  have hpolled := collects_dkg hp (plan.sends j) (Nat.sub_pos_of_lt htwo) horder a taken incoming
    outgoing hstage hinitial
  have hdealing' := (explains_runDkg (p j) (n - 1)).step incoming outgoing hdealing
  have hspoken' := spoken_runDkg (n - 1) incoming outgoing hreturned hspoken
  show (plan.part cfg j).Says _ (sent ++ (runDkg (p j) (n - 1) a incoming outgoing).2.sent) ∧ _
  generalize hrun : (dealers p).poll j a incoming outgoing = polled
  have hrun : runDkg (p j) (n - 1) a incoming outgoing = polled := hrun
  rw [hrun] at hpolled hdealing' hspoken' ⊢
  have htaken : ∀ req ∈ taken ++ incoming.take polled.2.received,
      req ∈ partyRequests (plan.messages j) := by
    intro req hreq
    refine horder.mem_iff.mp (hinitial.subset ?_)
    exact (List.append_sublist_append_left _).mpr (List.take_sublist ..) |>.subset hreq
  refine ⟨⟨?_, plan.letters_of_dealing hnumbers hsmall hp hdealing' htaken⟩, ?_, ?_⟩
  · rw [hspoken'.1]
    exact List.prefix_rfl
  · intro hnone
    cases hpolled with
    | goesOn hstage' _ => exact ⟨hstage', hdealing', hspoken'.1.trans hspoken'.2.symm⟩
    | returns _ => cases hnone
  · intro r hr
    cases hpolled with
    | goesOn _ _ => cases hr
    | returns hdeals =>
        cases hr
        exact hdeals

end Parts

/-! ### What the agents hear -/

section Heard

variable [Identifiers] [DagCbor] [DkgCodec A B] [DecidableEq P] {p : Fin n → DkgSession A B}
  {cfg : Config P κ n} {t : Net P κ n}

omit [Identifiers] [DagCbor] [DkgCodec A B] in
theorem OwnNumbers.numberOf_eq (hnumbers : OwnNumbers cfg p) (hsmall : n < 2 ^ 16) (j : Fin n) :
    numberOf j = (p j).identifier := by
  rw [Proofs.numberOf_eq hsmall, (hnumbers.eq hsmall j).1]

omit [Identifiers] [DagCbor] [DkgCodec A B] in
theorem OwnNumbers.mem_otherParties (hnumbers : OwnNumbers cfg p) (hsmall : n < 2 ^ 16)
    {i j : Fin n} (hne : i ≠ j) : numberOf i ∈ otherParties (p j) := by
  obtain ⟨hid, hmax⟩ := hnumbers.eq hsmall j
  rw [Proofs.mem_otherParties, Proofs.numberOf_eq hsmall, hid, hmax]
  refine ⟨by omega, fun heq => hne (Fin.ext (Nat.succ.inj heq))⟩

/-- If the others keep to the plan, the agents hear their parts. -/
theorem DealPlan.heard_of_said (plan : DealPlan p) (hnumbers : OwnNumbers cfg p) (htwo : 2 ≤ n)
    (hsmall : n < 2 ^ 16) (hhonest : ∀ j, cfg.honest j = true) (hr : NetRounds cfg t)
    (honce : ∀ j, ((directRequests (handedIn (t.sessions j).trace)).map (·.sender)).Nodup)
    (hsaid : AllSaid cfg (plan.part cfg) t) : AllHeard (plan.part cfg) t := by
  intro j
  obtain ⟨count, hcount, hbroadcasts⟩ := broadcasts_heard hsmall hhonest hr hsaid j
  generalize hreqs : handedIn (t.sessions j).trace = reqs at hbroadcasts
  have hdirects : ∀ req ∈ reqs, req.recipient.isSome = true → ∃ i, i ≠ j ∧
      req = (plan.messages j (numberOf i)).direct := by
    intro req hreq hsome
    obtain ⟨i, hne, hsender, hrecipient, k, hletter⟩ :=
      hsaid.letters j req (hreqs ▸ hreq) hsome
    obtain ⟨hpeer, hpayload⟩ := Prod.mk.inj hletter
    obtain rfl := cfg.peers_injective hpeer
    refine ⟨i, hne, ?_⟩
    obtain ⟨sender, recipient, payload⟩ := req
    simp only at hsender hrecipient hpayload
    rw [hsender, hrecipient, hpayload, hnumbers.numberOf_eq hsmall j]
    simp only [DealPlan.messages, numberOf_eq hsmall i, partyOf_succ]
  -- every party makes one broadcast, so there is at most one round of them
  have hone : (reqs.filter (·.recipient.isNone)).Sublist (heardRound (plan.part cfg) j 0) := by
    obtain ⟨i, hne⟩ : ∃ i : Fin n, i ≠ j := by
      have : Nontrivial (Fin n) := Fin.nontrivial_iff_two_le.mpr htwo
      exact exists_ne j
    have hle : count ≤ 1 := hcount i hne
    rw [hbroadcasts]
    interval_cases count <;> simp
  have hround : ∀ req ∈ heardRound (plan.part cfg) j 0, ∃ i, i ≠ j ∧
      req = (plan.messages j (numberOf i)).broadcast := by
    intro req hreq
    obtain ⟨i, hi, rfl⟩ := List.mem_map.mp hreq
    refine ⟨i, mem_othersOf.mp hi, ?_⟩
    simp only [DealPlan.messages, numberOf_eq hsmall i, partyOf_succ]
    rfl
  refine exists_perm_of_subset ?_ fun req hreq => ?_
  · -- the broadcasts have different senders, and so have the direct messages
    have hnone : (reqs.filter (·.recipient.isNone)).Nodup :=
      hone.nodup (nodup_map_othersOf hsmall j fun _ => rfl)
    have hsome : (reqs.filter (·.recipient.isSome)).Nodup := (hreqs ▸ honce j).of_map _
    have hperm := List.filter_append_perm (fun req : AgentRequest => req.recipient.isNone) reqs
    refine hperm.nodup_iff.mp (List.nodup_append.mpr ⟨hnone, ?_, ?_⟩)
    · simpa using hsome
    · rintro req hreq req' hreq' rfl
      have hfirst := (List.mem_filter.mp hreq).2
      have hsecond := (List.mem_filter.mp hreq').2
      rw [hfirst] at hsecond
      cases hsecond
  · rw [mem_partyRequests]
    cases hrecipient : req.recipient with
    | none =>
        obtain ⟨i, hne, heq⟩ := hround req
          (hone.subset (List.mem_filter.mpr ⟨hreq, by rw [hrecipient]; rfl⟩))
        exact ⟨numberOf i, hnumbers.mem_otherParties hsmall hne, .inl heq⟩
    | some u =>
        obtain ⟨i, hne, heq⟩ := hdirects req hreq (by rw [hrecipient]; rfl)
        exact ⟨numberOf i, hnumbers.mem_otherParties hsmall hne, .inr heq⟩

end Heard

section Results

variable [Identifiers] [DagCbor] [DkgCodec A B] {p : Fin n → DkgSession A B} {j : Fin n}

/-- An agent that keeps to the plan returns what `part3` and the rest make
of the packages of all others. -/
theorem DealPlan.finished_of_dealsWith (plan : DealPlan p) {r : AgentResult}
    (h : DealsWith (plan.messages j) r) :
    ∃ m received, (∀ id, m[id]? = round1Of (plan.messages j) none id) ∧
      (∀ id, received[id]? = round2Of (plan.messages j) id) ∧
      r = (mapErr "Round 3 error: " ((p j).part3 m received) >>= (p j).save) := by
  cases h with
  | part2Failed hm herror =>
      obtain ⟨packages, hpart2, _⟩ := plan.deals j _ hm
      cases hpart2.symm.trans herror
  | @sendFailed m packages package e hm hpackages hmem herror =>
      obtain ⟨packages', hpart2, hshares⟩ := plan.deals j _ hm
      cases hpart2.symm.trans hpackages
      obtain ⟨hother, hshare⟩ :=
        hshares _ _ (Std.TreeMap.mem_toList_iff_getElem?_eq_some.mp hmem)
      obtain ⟨bytes, hserialize, hencode⟩ := plan.encodes j (partyOf j package.1)
      rw [← hshare] at hserialize
      rw [round2Message_eq_ok (expects_of_mem hother) hserialize hencode] at herror
      cases herror
  | finished hm _ hreceived => exact ⟨_, _, hm, hreceived, rfl⟩

end Results

section Main

variable [Identifiers] [DagCbor] [DkgCodec A B] [DecidableEq P] [Blake2s256]
  {p : Fin n → DkgSession A B} {cfg : Config P κ n} {t : AgentNet P κ (Dkg A B) n}

/-- No agent is handed two direct messages of one sender. -/
theorem once_of_reach (hnumbers : OwnNumbers cfg p) (htwo : 2 ≤ n) (hsmall : n < 2 ^ 16)
    (hhonest : ∀ j, cfg.honest j = true)
    (h : Reach (AgentNet.step cfg (dealers p)) Always (AgentNet.start cfg (dealers p)) t)
    (j : Fin n) :
    ((directRequests (handedIn (t.net.sessions j).trace)).map (·.sender)).Nodup := by
  obtain ⟨hl, hlog⟩ := dkgLog_of_reach hnumbers htwo hsmall hhonest h
  exact (hlog j).arrived.sublist.nodup (nodup_sendersTo hsmall hl.distinct j)

/-- In every reachable state of a key generation among honest parties the
agents keep to the plan. -/
theorem DealPlan.conversation_dkg [LawfulIdentifiers] [LawfulDagCbor]
    [LawfulRound1Codec A B] [LawfulDkgCodec A B] (plan : DealPlan p)
    (hnumbers : OwnNumbers cfg p) (htwo : 2 ≤ n) (hsmall : n < 2 ^ 16)
    (hhonest : ∀ j, cfg.honest j = true)
    (h : Reach (AgentNet.step cfg (dealers p)) Always (AgentNet.start cfg (dealers p)) t) :
    Conversation cfg (plan.part cfg) t := by
  refine conversation_of_reach (plan.plays_runDkg hnumbers htwo hsmall) (fun j => ?_) hhonest
    (fun t hreach hr hsaid => ?_) h
  · exact ⟨.start, .start, rfl⟩
  · exact plan.heard_of_said hnumbers htwo hsmall hhonest hr
      (once_of_reach hnumbers htwo hsmall hhonest hreach) hsaid

end Main

end FrostMpcTss.Proofs
