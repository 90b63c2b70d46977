import FrostMpcTss.Proofs.NetLedger
import FrostMpcTss.Proofs.PartyLedger
import FrostMpcTss.Proofs.SessionSteps

/-!
# `FrostMpcTss.Proofs.AgentLedger`: the parties of a session with their agents

`AgentLedger` joins the ledgers of the parties. A round is complete at a
party only if every other party has sent it (`othersSent_of_completes`),
and a party sends its second broadcast only after it has received the
first ones of all others. So when a second round completes at a party,
its own first broadcast is out (`AgentLedger.completable`). Every step
that does not release two rounds at once keeps the ledger
(`agentLedger_step`).

`I` is the invariant of the agents' contract.
-/

set_option autoImplicit false

namespace FrostMpcTss.Proofs

open Lib Network Service FrostMpcTss.Session
open Service.ProtocolExecution

variable {P κ σ : Type} {n : Nat} {delivered : List (Delivery n)}

/-- Party `r` has sent the broadcast with this id. -/
def Sent (t : Net P κ n) (r : Fin n) (k : Nat) : Prop :=
  ∃ body peers, .multicast k body peers ∈ (t.sessions r).trace

/-- Every party but `j` has sent it. -/
def OthersSent (t : Net P κ n) (j : Fin n) (k : Nat) : Prop := ∀ r, r ≠ j → Sent t r k

/-- How many direct messages were delivered to a party. -/
def directsTo (delivered : List (Delivery n)) (j : Fin n) : Nat :=
  delivered.countP fun d => d.recipient = j && d.messageId = none

/-- What holds of the parties, their agents and their network. -/
structure AgentLedger [Blake2s256] (cfg : Config P κ n) (limit : Nat) (direct : Bool)
    (I : Fin n → Nat → σ → Channels → Prop) (t : AgentNet P κ σ n) : Prop where
  net : NetLedger cfg t.net
  party : ∀ j s echoTx, (t.net.sessions j).execution = some (s, echoTx) →
    PartyLedger n limit direct (I j) cfg.sessionId (OthersSent t.net j 0)
      (directsTo t.delivered j) (t.agents j) s
  sent_lt : ∀ j k, Sent t.net j k → k < limit
  sent_after : ∀ j k, Sent t.net j k → 1 ≤ k → OthersSent t.net j 0
  direct : ∀ j peer body, .sendDirect peer body ∈ (t.net.sessions j).trace → direct = true
  distinct : t.delivered.Nodup
  sender_ne : ∀ d ∈ t.delivered, d.sender ≠ d.recipient
  room : ∀ j, (t.net.sessions j).state ≠ .panicked .applicationChannelFull

theorem mem_directsTo {j : Fin n} {d : Delivery n} :
    d ∈ delivered.filter (fun d => d.recipient = j && d.messageId = none) ↔
      d ∈ delivered ∧ d.recipient = j ∧ d.messageId = none := by
  simp

/-- The direct messages to a party come from different senders. -/
theorem nodup_senders (hdistinct : delivered.Nodup) (j : Fin n) :
    ((delivered.filter fun d => d.recipient = j && d.messageId = none).map (·.sender)).Nodup := by
  refine List.Nodup.map_on ?_ (hdistinct.filter _)
  intro d hd d' hd' heq
  obtain ⟨_, hrecipient, hid⟩ := mem_directsTo.mp hd
  obtain ⟨_, hrecipient', hid'⟩ := mem_directsTo.mp hd'
  cases d
  cases d'
  simp only at heq hrecipient hid hrecipient' hid'
  subst heq hrecipient hid hrecipient' hid'
  rfl

/-- At most one direct message came from every other party. -/
theorem directsTo_le (hdistinct : delivered.Nodup) (hne : ∀ d ∈ delivered, d.sender ≠ d.recipient)
    (j : Fin n) : directsTo delivered j ≤ n - 1 := by
  have hcount : directsTo delivered j
      = ((delivered.filter fun d => d.recipient = j && d.messageId = none).map
          (·.sender)).length := by
    rw [List.length_map, directsTo, List.countP_eq_length_filter]
  rw [hcount, ← List.toFinset_card_of_nodup (nodup_senders hdistinct j)]
  have hsubset : ((delivered.filter fun d => d.recipient = j && d.messageId = none).map
      (·.sender)).toFinset ⊆ Finset.univ.erase j := by
    intro r hr
    obtain ⟨d, hd, rfl⟩ := List.mem_map.mp (List.mem_toFinset.mp hr)
    obtain ⟨hd, hrecipient, _⟩ := mem_directsTo.mp hd
    exact Finset.mem_erase.mpr ⟨hrecipient ▸ hne d hd, Finset.mem_univ _⟩
  refine Nat.le_trans (Finset.card_le_card hsubset) ?_
  rw [Finset.card_erase_of_mem (Finset.mem_univ j), Finset.card_univ, Fintype.card_fin]

theorem directsTo_append (delivered : List (Delivery n)) (d : Delivery n) (j : Fin n) :
    directsTo (delivered ++ [d]) j
      = directsTo delivered j + if d.recipient = j ∧ d.messageId = none then 1 else 0 := by
  unfold directsTo
  rw [List.countP_append]
  by_cases h : d.recipient = j ∧ d.messageId = none
  · simp [h]
  · rw [if_neg h]
    simpa using h

/-- What the head of the agent's outgoing channel may be. -/
theorem Outgoing.sendsHead {limit : Nat} {direct : Bool} {ρ : Type}
    {s : ProtocolExecution P ρ κ} {effects : List (Effect P ρ κ)}
    (h : Outgoing n limit direct (channels s)) (hsends : SendsHead s effects) :
    (∀ k body peers, .multicast k body peers ∈ effects →
        k < limit ∧ (1 ≤ k → 1 ≤ s.nextIncomingBroadcastId)) ∧
      ∀ peer body, .sendDirect peer body ∈ effects → direct = true := by
  constructor
  · intro k body peers hmem
    obtain ⟨rfl, m, hm, hnone⟩ := hsends.multicast k body peers hmem
    have hpos : 0 < broadcasts s.fromProtocol :=
      List.countP_pos_iff.mpr ⟨m, hm, by rw [hnone]; rfl⟩
    have hle : s.nextOutgoingBroadcastId + broadcasts s.fromProtocol ≤ limit := h.le_limit
    refine ⟨by omega, fun hone => h.after_first ?_⟩
    show 2 ≤ s.nextOutgoingBroadcastId + broadcasts s.fromProtocol
    omega
  · intro peer body hmem
    obtain ⟨m, hm, hsome⟩ := hsends.sendDirect peer body hmem
    exact h.direct m hm hsome

section Completes

variable [Blake2s256] {cfg : Config P κ n} {t : Net P κ n} {j : Fin n}
  {s : ProtocolExecution P (Handle n) κ} {echoTx : List (EchoMessage (Handle n))}

/-- The ledger of an execution in the net. -/
theorem NetLedger.execution (hl : NetLedger cfg t) (hhonest : cfg.honest j = true)
    (hs : (t.sessions j).execution = some (s, echoTx)) :
    ExecLedger (Known cfg t j) (asU16 j) (t.sessions j).trace s ∧ Completion s := by
  obtain ⟨w, hw, hcomp, _⟩ := execution_eq_some.mp hs
  exact ((hl.sessions j hhonest).running w hw).exec s hcomp

omit [Blake2s256] in
/-- The head of the queue is buffered if it is a broadcast. -/
theorem buffered_bufferAfterHead {ρ : Type} {D : IncomingRequest P ρ → Prop}
    {s : ProtocolExecution P ρ κ} (hqueued : ∀ m ∈ s.fromNetwork, D m)
    (hbuffered : Buffered D s.pendingIncoming) : Buffered D (bufferAfterHead s) := by
  unfold bufferAfterHead
  cases hq : s.fromNetwork with
  | nil => exact hbuffered
  | cons m rest =>
      cases hb : m.isBroadcast with
      | false =>
          simp only [hb, Bool.false_eq_true, if_false]
          exact hbuffered
      | true =>
          simp only [hb, if_true]
          exact hbuffered.insert (hqueued m (by rw [hq]; exact List.mem_cons_self)) hb

/-- A round is complete only if every other party has sent it. -/
theorem othersSent_of_completes (hl : NetLedger cfg t) (hhonest : ∀ j, cfg.honest j = true)
    (hs : (t.sessions j).execution = some (s, echoTx)) (hn : s.n = n) {k : Nat}
    (h : completes s k = true) : OthersSent t j k := by
  have hexec := (hl.execution (hhonest j) hs).1
  have hbuffered := buffered_bufferAfterHead hexec.queued hexec.buffered
  have hlength := of_decide_eq_true h
  rw [hn] at hlength
  -- every sender in the buffer has sent the broadcast
  have hsender : ∀ sender ∈ readySenders (bufferAfterHead s) k,
      ∃ r, r ≠ j ∧ Sent t r k ∧ asU16 r + 1 = sender := by
    intro sender hmem
    obtain ⟨m, hm⟩ := getElem?_isSome_of_mem_readySenders hmem
    obtain ⟨⟨r, hne, hindex, hbroadcast, _⟩, hb, hkey⟩ := hbuffered _ _ hm
    obtain ⟨hsender, rfl⟩ := Prod.mk.inj hkey
    obtain ⟨peers, hsent⟩ := (hbroadcast hb).2 (hhonest r)
    exact ⟨r, hne, ⟨_, peers, hsent⟩, by rw [hsender, hindex]⟩
  intro r₀ hr₀
  by_contra hnot
  -- without one of the others, there are too few senders
  have hsubset : (readySenders (bufferAfterHead s) k).toFinset
      ⊆ ((Finset.univ.erase j).erase r₀).image fun r : Fin n => asU16 r + 1 := by
    intro sender hmem
    obtain ⟨r, hne, hsent, rfl⟩ := hsender sender (List.mem_toFinset.mp hmem)
    refine Finset.mem_image_of_mem _ ?_
    refine Finset.mem_erase.mpr ⟨?_, Finset.mem_erase.mpr ⟨hne, Finset.mem_univ _⟩⟩
    rintro rfl
    exact hnot hsent
  have hcard := (Finset.card_le_card hsubset).trans Finset.card_image_le
  rw [List.toFinset_card_of_nodup (nodup_readySenders _ _), hlength,
    Finset.card_erase_of_mem (Finset.mem_erase.mpr ⟨hr₀, Finset.mem_univ _⟩),
    Finset.card_erase_of_mem (Finset.mem_univ j), Finset.card_univ, Fintype.card_fin] at hcard
  have htwo : 2 ≤ n := hn ▸ (hl.execution (hhonest j) hs).2.two_le
  omega

end Completes

section Ledger

variable [Blake2s256] {cfg : Config P κ n} {limit : Nat} {direct : Bool}
  {I : Fin n → Nat → σ → Channels → Prop} {t : AgentNet P κ σ n} {j : Fin n}
  {s : ProtocolExecution P (Handle n) κ} {echoTx : List (EchoMessage (Handle n))}

omit [Blake2s256] in
theorem exists_other (htwo : 2 ≤ n) (j : Fin n) : ∃ r : Fin n, r ≠ j := by
  have : Nontrivial (Fin n) := Fin.nontrivial_iff_two_le.mpr htwo
  exact exists_ne j

/-- A round that completes is one that the others could send. -/
theorem AgentLedger.completable (hl : AgentLedger cfg limit direct I t)
    (hhonest : ∀ j, cfg.honest j = true)
    (hs : (t.net.sessions j).execution = some (s, echoTx))
    (h : completes s s.nextIncomingBroadcastId = true) :
    Completable limit (OthersSent t.net j 0) s := by
  have hparty := hl.party j s echoTx hs
  obtain ⟨hexec, hc⟩ := hl.net.execution (hhonest j) hs
  have hothers := othersSent_of_completes hl.net hhonest hs hparty.size h
  obtain ⟨r, hr⟩ := exists_other (hparty.size ▸ hc.two_le) j
  refine ⟨hl.sent_lt r _ (hothers r hr), fun hone => ?_, ?_⟩
  · -- another party's second broadcast came after the own first one
    obtain ⟨body, peers, hsent⟩ := hl.sent_after r _ (hothers r hr) hone j hr.symm
    exact hexec.sent_lt 0 body peers hsent
  · rcases Nat.eq_zero_or_pos s.nextIncomingBroadcastId with hzero | hpos
    · rw [hzero] at hothers
      exact hothers
    · exact hparty.received hpos

/-- With one broadcast for each party there is no second round. -/
theorem AgentLedger.releasesTwo_eq_false (hl : AgentLedger cfg 1 direct I t)
    (hhonest : ∀ j, cfg.honest j = true)
    (hs : (t.net.sessions j).execution = some (s, echoTx)) : releasesTwo s = false := by
  have hparty := hl.party j s echoTx hs
  obtain ⟨r, hr⟩ := exists_other (hparty.size ▸ (hl.net.execution (hhonest j) hs).2.two_le) j
  by_contra htwo
  obtain ⟨_, hnext⟩ := Bool.and_eq_true_iff.mp (Bool.eq_true_of_not_eq_false htwo)
  have hsent := othersSent_of_completes hl.net hhonest hs hparty.size hnext r hr
  have hlt := hl.sent_lt r _ hsent
  omega

/-- One party's session goes on, and the ledger with it. -/
theorem AgentLedger.update {t' : AgentNet P κ σ n} {session : Session P (Handle n) κ}
    (hl : AgentLedger cfg limit direct I t) (hnet : NetLedger cfg t'.net)
    (hgrows : Grows t.net t'.net)
    (hsessions : t'.net.sessions = Function.update t.net.sessions j session)
    (hagents : ∀ j', j' ≠ j → t'.agents j' = t.agents j')
    (hdirects : ∀ j', j' ≠ j → directsTo t'.delivered j' = directsTo t.delivered j')
    (hdistinct : t'.delivered.Nodup) (hsender : ∀ d ∈ t'.delivered, d.sender ≠ d.recipient)
    (hparty : ∀ s echoTx, session.execution = some (s, echoTx) →
      PartyLedger n limit direct (I j) cfg.sessionId (OthersSent t.net j 0)
        (directsTo t'.delivered j) (t'.agents j) s)
    (hsent : ∀ k body peers, .multicast k body peers ∈ session.trace →
      .multicast k body peers ∈ (t.net.sessions j).trace ∨
        (k < limit ∧ (1 ≤ k → OthersSent t.net j 0)))
    (hdirect : ∀ peer body, .sendDirect peer body ∈ session.trace → direct = true)
    (hroom : session.state ≠ .panicked .applicationChannelFull) :
    AgentLedger cfg limit direct I t' := by
  have hself : t'.net.sessions j = session := by
    rw [hsessions]
    exact Function.update_self ..
  have hother : ∀ j', j' ≠ j → t'.net.sessions j' = t.net.sessions j' := by
    intro j' hj'
    rw [hsessions]
    exact Function.update_of_ne hj' ..
  have hmono : ∀ j' k, OthersSent t.net j' k → OthersSent t'.net j' k := by
    intro j' k hothers r hr
    obtain ⟨body, peers, hmem⟩ := hothers r hr
    exact ⟨body, peers, hgrows r _ hmem⟩
  -- what a party has sent was sent before, or is allowed now
  have hcases : ∀ j' k, Sent t'.net j' k →
      Sent t.net j' k ∨ (k < limit ∧ (1 ≤ k → OthersSent t.net j' 0)) := by
    rintro j' k ⟨body, peers, hmem⟩
    by_cases hj' : j' = j
    · subst hj'
      rw [hself] at hmem
      exact (hsent k body peers hmem).imp_left fun hold => ⟨body, peers, hold⟩
    · rw [hother j' hj'] at hmem
      exact .inl ⟨body, peers, hmem⟩
  refine ⟨hnet, ?_, ?_, ?_, ?_, hdistinct, hsender, ?_⟩
  · intro j' s echoTx hs
    by_cases hj' : j' = j
    · subst hj'
      rw [hself] at hs
      exact (hparty s echoTx hs).mono (hmono j' 0)
    · rw [hother j' hj'] at hs
      rw [hagents j' hj', hdirects j' hj']
      exact (hl.party j' s echoTx hs).mono (hmono j' 0)
  · intro j' k hk
    rcases hcases j' k hk with hold | ⟨hlt, _⟩
    · exact hl.sent_lt j' k hold
    · exact hlt
  · intro j' k hk hone
    rcases hcases j' k hk with hold | ⟨_, hothers⟩
    · exact hmono j' 0 (hl.sent_after j' k hold hone)
    · exact hmono j' 0 (hothers hone)
  · intro j' peer body hmem
    by_cases hj' : j' = j
    · subst hj'
      rw [hself] at hmem
      exact hdirect peer body hmem
    · rw [hother j' hj'] at hmem
      exact hl.direct j' peer body hmem
  · intro j'
    by_cases hj' : j' = j
    · subst hj'
      rw [hself]
      exact hroom
    · rw [hother j' hj']
      exact hl.room j'

end Ledger

section Steps

variable [DecidableEq P] [Blake2s256]

/-- The ways the parties, their agents and their network can go on, when
all parties are honest. -/
inductive AgentSteps (cfg : Config P κ n) (agents : Agents σ n) (t : AgentNet P κ σ n) :
    AgentLabel n → AgentNet P κ σ n → Prop where
  | polls {j : Fin n} {now : Nat} {s : ProtocolExecution P (Handle n) κ}
      {echoTx : List (EchoMessage (Handle n))} {a : σ} {turn : AgentTurn}
      {session : Session P (Handle n) κ} :
      (t.net.sessions j).execution = some (s, echoTx) →
      TakesTurn (agents.poll j) s echoTx now (t.agents j) a turn →
      (t.net.sessions j).step (.pollComputation now turn) = some session →
      AgentSteps cfg agents t (.poll j now)
        { t with
            net := { t.net with sessions := Function.update t.net.sessions j session }
            agents := Function.update t.agents j a }
  | delivers {l : AgentLabel n} {d : Delivery n} {m : IncomingRequest P (Handle n)}
      {session : Session P (Handle n) κ} :
      (t.net.sessions d.recipient).step (.deliver m) = some session →
      d ∉ t.delivered → d.sender ≠ d.recipient → d.messageId.isSome = m.isBroadcast →
      m.peerIndex = asU16 d.sender →
      m.context.sessionId = cfg.sessionId ∧ m.context.messageType = .computation →
      (m.isBroadcast = false →
        .sendDirect (cfg.peers d.recipient) m.payload ∈ (t.net.sessions d.sender).trace) →
      AgentSteps cfg agents t l
        { t with
            net := { t.net with sessions := Function.update t.net.sessions d.recipient session }
            delivered := t.delivered ++ [d] }
  | keeps {l : AgentLabel n} {l' : WrapLabel P (Handle n)} {j : Fin n}
      {session : Session P (Handle n) κ} {answered : List (Answer P n)} :
      (t.net.sessions j).step l' = some session →
      (∀ m, l' ≠ .deliver m) → (∀ now turn, l' ≠ .pollComputation now turn) →
      AgentSteps cfg agents t l
        { t with
            net :=
              { sessions := Function.update t.net.sessions j session
                answered := answered } }

variable {cfg : Config P κ n} {agents : Agents σ n} {t t' : AgentNet P κ σ n}
  {l : AgentLabel n}

/-- Every step is one of the net, and goes one of these ways. -/
theorem agentSteps_step (hhonest : ∀ j, cfg.honest j = true)
    (h : t.step cfg agents l = some t') :
    (∃ l', t.net.step cfg l' = some t'.net) ∧ AgentSteps cfg agents t l t' := by
  cases l with
  | poll j now =>
      have h : t.pollParty cfg agents j now = some t' := h
      unfold AgentNet.pollParty at h
      split at h
      · cases h
      · -- the agent is polled only if the stages before it succeed
        rename_i s echoTx hs
        split at h
        · rename_i incoming outgoing hview
          obtain ⟨net, hnet, rfl⟩ := Option.map_eq_some_iff.mp h
          refine ⟨⟨_, hnet⟩, ?_⟩
          obtain ⟨_, hstepAt⟩ := Option.ite_none_right_eq_some.mp hnet
          obtain ⟨session, hstep, rfl⟩ := Option.map_eq_some_iff.mp hstepAt
          exact .polls hs (.agent hview) hstep
        · rename_i hview
          obtain ⟨net, hnet, rfl⟩ := Option.map_eq_some_iff.mp h
          refine ⟨⟨_, hnet⟩, ?_⟩
          obtain ⟨_, hstepAt⟩ := Option.ite_none_right_eq_some.mp hnet
          obtain ⟨session, hstep, rfl⟩ := Option.map_eq_some_iff.mp hstepAt
          have hpolls : AgentSteps cfg agents t (.poll j now) _ := .polls hs (.idle hview) hstep
          rw [Function.update_eq_self] at hpolls
          exact hpolls
  | echo j =>
      obtain ⟨net, hnet, rfl⟩ := Option.map_eq_some_iff.mp h
      refine ⟨⟨_, hnet⟩, ?_⟩
      obtain ⟨_, hstepAt⟩ := Option.ite_none_right_eq_some.mp hnet
      obtain ⟨session, hstep, rfl⟩ := Option.map_eq_some_iff.mp hstepAt
      exact .keeps hstep nofun nofun
  | close j k =>
      obtain ⟨net, hnet, rfl⟩ := Option.map_eq_some_iff.mp h
      refine ⟨⟨_, hnet⟩, ?_⟩
      obtain ⟨_, hstepAt⟩ := Option.ite_none_right_eq_some.mp hnet
      obtain ⟨session, hstep, rfl⟩ := Option.map_eq_some_iff.mp hstepAt
      exact .keeps hstep nofun nofun
  | respond s r k response =>
      obtain ⟨net, hnet, rfl⟩ := Option.map_eq_some_iff.mp h
      refine ⟨⟨_, hnet⟩, ?_⟩
      obtain ⟨_, hmap⟩ := Option.ite_none_right_eq_some.mp hnet
      obtain ⟨net₁, hstepAt, rfl⟩ := Option.map_eq_some_iff.mp hmap
      obtain ⟨session, hstep, rfl⟩ := Option.map_eq_some_iff.mp hstepAt
      exact .keeps hstep nofun nofun
  | broadcast s r k payload =>
      obtain ⟨hnew, h⟩ := Option.ite_none_left_eq_some.mp h
      obtain ⟨net, hnet, rfl⟩ := Option.map_eq_some_iff.mp h
      refine ⟨⟨_, hnet⟩, ?_⟩
      obtain ⟨hcond, hstepAt⟩ := Option.ite_none_right_eq_some.mp hnet
      obtain ⟨session, hstep, rfl⟩ := Option.map_eq_some_iff.mp hstepAt
      simp only [Bool.and_eq_true, decide_eq_true_eq] at hcond
      exact .delivers hstep hnew hcond.1.2 rfl rfl ⟨rfl, rfl⟩ nofun
  | direct s r payload =>
      obtain ⟨hnew, h⟩ := Option.ite_none_left_eq_some.mp h
      obtain ⟨net, hnet, rfl⟩ := Option.map_eq_some_iff.mp h
      refine ⟨⟨_, hnet⟩, ?_⟩
      obtain ⟨hcond, hstepAt⟩ := Option.ite_none_right_eq_some.mp hnet
      obtain ⟨session, hstep, rfl⟩ := Option.map_eq_some_iff.mp hstepAt
      -- an honest party delivers only what was sent
      simp only [Bool.and_eq_true, decide_eq_true_eq, hhonest, Bool.not_true,
        Bool.false_or] at hcond
      exact .delivers hstep hnew hcond.1.2 rfl rfl ⟨rfl, rfl⟩ fun _ => mem_of_sends hcond.2

variable {limit : Nat} {direct : Bool} {I : Fin n → Nat → σ → Channels → Prop}

omit [Blake2s256] in
/-- What a poll adds to the trace is the head of the outgoing channel. -/
theorem sendsHead_of_polls {ρ : Type} {t t' : Session P ρ κ} {s : ProtocolExecution P ρ κ}
    {echoTx : List (EchoMessage ρ)} {now : Nat} {turn : AgentTurn}
    (hs : t.execution = some (s, echoTx)) (hc : Completion s)
    (h : SessionSteps t (.pollComputation now turn) t') :
    ∃ effects, t'.trace = t.trace ++ effects ∧ SendsHead s effects := by
  cases h with
  | pending hexec hpoll _ htrace _ =>
      cases hs.symm.trans hexec
      exact ⟨_, htrace, sendsHead_pending hc.two_le hpoll⟩
  | ready hexec hpoll _ htrace _ =>
      cases hs.symm.trans hexec
      exact ⟨_, htrace, sendsHead_ready hc hpoll⟩
  | panics _ _ _ htrace => exact ⟨[], htrace.trans (List.append_nil _).symm, nofun, nofun⟩
  | keeps _ hpoll _ _ _ _ => exact absurd rfl (hpoll now turn)

/-- A party and its agent are polled. -/
theorem agentLedger_polls {j : Fin n} {now : Nat} {s : ProtocolExecution P (Handle n) κ}
    {echoTx : List (EchoMessage (Handle n))} {a : σ} {turn : AgentTurn}
    {session : Session P (Handle n) κ}
    (hspec : AgentSpec n limit direct (agents.poll j) (I j))
    (hhonest : ∀ j, cfg.honest j = true) (hl : AgentLedger cfg limit direct I t)
    (hs : (t.net.sessions j).execution = some (s, echoTx)) (htwo : releasesTwo s = false)
    (hturn : TakesTurn (agents.poll j) s echoTx now (t.agents j) a turn)
    (hstep : (t.net.sessions j).step (.pollComputation now turn) = some session)
    (hnet : NetLedger cfg
      { t.net with sessions := Function.update t.net.sessions j session }) :
    AgentLedger cfg limit direct I
      { t with
          net := { t.net with sessions := Function.update t.net.sessions j session }
          agents := Function.update t.agents j a } := by
  have hparty := hl.party j s echoTx hs
  have hc := (hl.net.execution (hhonest j) hs).2
  have hround := hl.completable hhonest hs
  have hsession := sessionSteps_step hstep
  obtain ⟨effects, htrace, hsends⟩ := sendsHead_of_polls hs hc hsession
  obtain ⟨hmulticast, hdirect⟩ := hparty.outgoing.sendsHead hsends
  refine hl.update hnet (grows_update _ hstep) rfl
    (fun j' hj' => Function.update_of_ne hj' ..) (fun _ _ => rfl) hl.distinct hl.sender_ne
    ?_ ?_ ?_ ?_
  · intro s' echoTx' hs'
    show PartyLedger n limit direct (I j) _ _ _ (Function.update t.agents j a j) s'
    rw [Function.update_self]
    cases hsession with
    | pending hexec hpoll hexec' _ _ =>
        cases hs.symm.trans hexec
        cases hexec'.symm.trans hs'
        exact hparty.pending hspec hc htwo hround hturn hpoll
    | ready _ _ hexec' _ _ => cases hexec'.symm.trans hs'
    | panics _ _ hstate _ =>
        obtain ⟨w, hw, _⟩ := execution_eq_some.mp hs'
        cases hstate.symm.trans hw
    | keeps _ hpoll _ _ _ _ => exact absurd rfl (hpoll now turn)
  · intro k body peers hmem
    rw [htrace] at hmem
    rcases List.mem_append.mp hmem with hmem | hmem
    · exact .inl hmem
    · obtain ⟨hlt, hafter⟩ := hmulticast k body peers hmem
      exact .inr ⟨hlt, fun hone => hparty.received (hafter hone)⟩
  · intro peer body hmem
    rw [htrace] at hmem
    rcases List.mem_append.mp hmem with hmem | hmem
    · exact hl.direct j peer body hmem
    · exact hdirect peer body hmem
  · -- the room that the ledger promises rules out a full channel
    cases hsession with
    | pending _ _ _ _ hok => exact hok _
    | ready _ _ _ _ hok => exact hok _
    | panics hexec hpoll hstate _ =>
        cases hs.symm.trans hexec
        intro hfull
        cases hstate.symm.trans hfull
        exact hparty.poll_ne_full hspec (directsTo_le hl.distinct hl.sender_ne j) hc htwo hround
          hpoll
    | keeps _ _ _ _ _ hroom => exact hroom

/-- A message is delivered. -/
theorem agentLedger_delivers {d : Delivery n} {m : IncomingRequest P (Handle n)}
    {session : Session P (Handle n) κ}
    (hspec : AgentSpec n limit direct (agents.poll d.recipient) (I d.recipient))
    (hl : AgentLedger cfg limit direct I t)
    (hstep : (t.net.sessions d.recipient).step (.deliver m) = some session)
    (hnew : d ∉ t.delivered) (hne : d.sender ≠ d.recipient)
    (hbroadcast : d.messageId.isSome = m.isBroadcast)
    (hcontext : m.context.sessionId = cfg.sessionId ∧ m.context.messageType = .computation)
    (hdirect : m.isBroadcast = false → direct = true)
    (hnet : NetLedger cfg
      { t.net with sessions := Function.update t.net.sessions d.recipient session }) :
    AgentLedger cfg limit direct I
      { t with
          net := { t.net with sessions := Function.update t.net.sessions d.recipient session }
          delivered := t.delivered ++ [d] } := by
  cases sessionSteps_step hstep with
  | keeps hdeliver _ _ _ _ _ => exact absurd rfl (hdeliver m)
  | @delivers _ _ s echoTx hexec hexec' htrace hok =>
      refine hl.update hnet (grows_update _ hstep) rfl (fun _ _ => rfl) ?_ ?_ ?_ ?_ ?_ ?_ (hok _)
      · -- the counts of the other parties stay
        intro j' hj'
        rw [directsTo_append, if_neg fun hboth => hj' hboth.1.symm]
        rfl
      · rw [List.nodup_append]
        refine ⟨hl.distinct, List.nodup_singleton d, ?_⟩
        rintro d₁ hd₁ d₂ hd₂ rfl
        exact hnew (List.mem_singleton.mp hd₂ ▸ hd₁)
      · intro d' hd'
        rcases List.mem_append.mp hd' with hd' | hd'
        · exact hl.sender_ne d' hd'
        · rw [List.mem_singleton.mp hd']
          exact hne
      · intro s' echoTx' hs'
        cases hexec'.symm.trans hs'
        have hparty := (hl.party _ s echoTx hexec).deliver hspec hcontext hdirect
        have hcount : directsTo (t.delivered ++ [d]) d.recipient
            = directsTo t.delivered d.recipient + if m.isBroadcast then 0 else 1 := by
          rw [directsTo_append, ← hbroadcast]
          cases d.messageId <;> simp
        show PartyLedger n limit direct _ _ _ (directsTo (t.delivered ++ [d]) d.recipient) _ _
        rw [hcount]
        exact hparty
      · intro k body peers hmem
        rw [htrace] at hmem
        exact .inl hmem
      · intro peer body hmem
        rw [htrace] at hmem
        exact hl.direct _ peer body hmem

/-- A step of the parties, their agents and their network keeps the
ledger, if it does not release two rounds at once. -/
theorem agentLedger_step (hspec : ∀ j, AgentSpec n limit direct (agents.poll j) (I j))
    (hhonest : ∀ j, cfg.honest j = true) (hl : AgentLedger cfg limit direct I t)
    (hone : ∀ j now s echoTx, l = .poll j now →
      (t.net.sessions j).execution = some (s, echoTx) → releasesTwo s = false)
    (h : t.step cfg agents l = some t') : AgentLedger cfg limit direct I t' := by
  obtain ⟨⟨l', hnet⟩, hsteps⟩ := agentSteps_step hhonest h
  have hnet' := netLedger_step hl.net hnet
  cases hsteps with
  | polls hs hturn hstep =>
      exact agentLedger_polls (hspec _) hhonest hl hs (hone _ _ _ _ rfl hs) hturn hstep hnet'
  | delivers hstep hnew hne hbroadcast _ hcontext hsent =>
      refine agentLedger_delivers (hspec _) hl hstep hnew hne hbroadcast hcontext ?_ hnet'
      exact fun hb => hl.direct _ _ _ (hsent hb)
  | @keeps l l' j session answered hstep hdeliver hpoll =>
      cases sessionSteps_step hstep with
      | pending _ _ _ _ _ => exact absurd rfl (hpoll _ _)
      | ready _ _ _ _ _ => exact absurd rfl (hpoll _ _)
      | panics _ _ _ _ => exact absurd rfl (hpoll _ _)
      | delivers _ _ _ _ => exact absurd rfl (hdeliver _)
      | keeps _ _ hexec htrace hquiet hroom =>
          refine hl.update hnet' (grows_update _ hstep) rfl (fun _ _ => rfl) (fun _ _ => rfl)
            hl.distinct hl.sender_ne ?_ ?_ ?_ hroom
          · intro s echoTx' hs
            obtain ⟨echoTx, hs⟩ := hexec s echoTx' hs
            exact hl.party j s echoTx hs
          · exact fun k body peers hmem => .inl (mem_of_byExecution htrace hquiet rfl hmem)
          · exact fun peer body hmem =>
              hl.direct j peer body (mem_of_byExecution htrace hquiet rfl hmem)

end Steps

end FrostMpcTss.Proofs
