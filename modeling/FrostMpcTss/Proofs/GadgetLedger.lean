import FrostMpcTss.Proofs.Echo
import FrostMpcTss.Proofs.Execution
import FrostMpcTss.Service.WrapExecution

/-!
# `FrostMpcTss.Proofs.GadgetLedger`: what the echo gadget accounts for

The gadget loses no message and makes none up. `GadgetLedger` says so
of a running session: the messages that entered the channel are, up to
their order, those of the hashed groups, of the group being gathered,
of the gadget's map and of the channel. A hashed group is verified, or
its echoes are the ones being read.

`GadgetTrace` is what the trace alone shows of this, also after the
session has ended. `EchoLedger` is the same for the echoes: those that
arrived for a broadcast are those of its verified round, those
collected so far and those still queued, in this order.
-/

set_option autoImplicit false

namespace FrostMpcTss.Proofs

open Lib Network Service
open Service.EchoGadget

variable {echoHash : Bytes}

section Traces

variable {P ρ κ : Type} {effects : List (Effect P ρ κ)}

/-- The messages of the hashed groups. -/
def hashedIn (trace : List (Effect P ρ κ)) : List (EchoMessage ρ) :=
  trace.flatMap fun
    | .hashed _ group _ => group
    | _ => []

/-- The echoes of the verified rounds of an id. -/
def verifiedIn (trace : List (Effect P ρ κ)) (k : Nat) : List (RemoteEcho P) :=
  trace.flatMap fun
    | .verified k' _ echoHashes => if k' = k then echoHashes else []
    | _ => []

/-- The effects that are the gadget's own. -/
def byGadget : Effect P ρ κ → Bool
  | .hashed _ _ _ => true
  | .verified _ _ _ => true
  | _ => false

theorem hashedIn_append (trace effects : List (Effect P ρ κ)) :
    hashedIn (trace ++ effects) = hashedIn trace ++ hashedIn effects :=
  List.flatMap_append

theorem verifiedIn_append (trace effects : List (Effect P ρ κ)) (k : Nat) :
    verifiedIn (trace ++ effects) k = verifiedIn trace k ++ verifiedIn effects k :=
  List.flatMap_append

theorem hashedIn_eq_nil (h : ∀ effect ∈ effects, byGadget effect = false) :
    hashedIn effects = [] := by
  rw [hashedIn, List.flatMap_eq_nil_iff]
  intro effect heffect
  have hfalse := h effect heffect
  cases effect <;> first | rfl | cases hfalse

theorem verifiedIn_eq_nil (h : ∀ effect ∈ effects, byGadget effect = false) (k : Nat) :
    verifiedIn effects k = [] := by
  rw [verifiedIn, List.flatMap_eq_nil_iff]
  intro effect heffect
  have hfalse := h effect heffect
  cases effect <;> first | rfl | cases hfalse

/-- A hashed group is a sublist of what was hashed. -/
theorem mem_hashedIn {trace : List (Effect P ρ κ)} {k : Nat} {group : List (EchoMessage ρ)}
    {m : EchoMessage ρ} (hgroup : .hashed k group echoHash ∈ trace) (hm : m ∈ group) :
    m ∈ hashedIn trace :=
  List.mem_flatMap.mpr ⟨_, hgroup, hm⟩

/-- A poll of the execution does nothing in the gadget's name. -/
theorem byGadget_takesOutgoing [DecidableEq P] {st st' : PollState P ρ κ}
    (hout : TakesOutgoing st st') (h : ∀ effect ∈ st.effects, byGadget effect = false) :
    ∀ effect ∈ st'.effects, byGadget effect = false := by
  cases hout with
  | nothing _ => exact h
  | direct _ _ _ =>
      intro effect heffect
      rcases List.mem_append.mp heffect with heffect | heffect
      · exact h effect heffect
      · rw [List.mem_singleton.mp heffect]
        rfl
  | broadcast _ _ _ _ _ =>
      intro effect heffect
      rcases List.mem_append.mp heffect with heffect | heffect
      · exact h effect heffect
      · rcases List.mem_cons.mp heffect with rfl | heffect
        · rfl
        · rw [List.mem_singleton.mp heffect]
          rfl

/-- The intake hashes and verifies nothing. -/
theorem byGadget_intake {now : Nat} {st st' : PollState P ρ κ} (hintake : Intake now st st')
    (h : ∀ effect ∈ st.effects, byGadget effect = false) :
    ∀ effect ∈ st'.effects, byGadget effect = false := by
  have hrestart : ∀ st : PollState P ρ κ,
      (ProtocolExecution.restartQuietPeriod now st).effects = st.effects := by
    intro st
    unfold ProtocolExecution.restartQuietPeriod
    split <;> rfl
  cases hintake with
  | nothing _ => exact h
  | message _ _ htakes =>
      cases htakes with
      | broadcast _ _ =>
          rw [hrestart]
          exact h
      | direct _ _ _ _ _ =>
          rw [hrestart]
          intro effect heffect
          rcases List.mem_append.mp heffect with heffect | heffect
          · rcases List.mem_append.mp heffect with heffect | heffect
            · exact h effect heffect
            · rw [List.mem_singleton.mp heffect]
              rfl
          · rw [List.mem_singleton.mp heffect]
            rfl

/-- Nor does a poll that goes on. -/
theorem byGadget_pending [DecidableEq P] {s : ProtocolExecution P ρ κ}
    {echoTx : List (EchoMessage ρ)} {now : Nat} {turn : AgentTurn} {st : PollState P ρ κ}
    (hn : 2 ≤ s.n) (h : s.poll echoTx now turn = .pending st) :
    ∀ effect ∈ st.effects, byGadget effect = false := by
  refine pending_induction (fun st => ∀ effect ∈ st.effects, byGadget effect = false)
    hn h (fun _ hout => byGadget_takesOutgoing hout nofun) ?_ (fun _ _ => byGadget_intake) ?_ ?_
  · intro st m _ hst effect heffect
    rcases List.mem_append.mp heffect with heffect | heffect
    · exact hst effect heffect
    · rw [List.mem_singleton.mp heffect]
      rfl
  · intro st _ hst effect heffect
    rcases List.mem_append.mp heffect with heffect | heffect
    · exact hst effect heffect
    · obtain ⟨r, _, hr⟩ := List.mem_flatMap.mp heffect
      rcases List.mem_cons.mp hr with rfl | hr
      · rfl
      · rw [List.mem_singleton.mp hr]
        rfl
  · intro st hst
    unfold ProtocolExecution.pollAgent
    cases turn.result <;> exact hst

/-- Nor does one that returns. -/
theorem byGadget_ready [DecidableEq P] {s : ProtocolExecution P ρ κ}
    {echoTx echoTx' : List (EchoMessage ρ)} {now : Nat} {turn : AgentTurn}
    {result : Except Error Unit} (hc : Completion s)
    (h : s.poll echoTx now turn = .ready result echoTx' effects) :
    ∀ effect ∈ effects, byGadget effect = false := by
  obtain ⟨r, _, st, _, _, _, _, hout, hreport⟩ := ready_cases hc h
  have hst := byGadget_takesOutgoing hout nofun
  rcases (report_effects hreport).2 with ⟨_, rfl⟩ | ⟨tx, _, rfl⟩
  · exact hst
  · intro effect heffect
    rcases List.mem_append.mp heffect with heffect | heffect
    · exact hst effect heffect
    · rw [List.mem_singleton.mp heffect]
      rfl

end Traces

variable {n : Nat}

section Groups

variable {P ρ κ : Type} [Blake2s256] {trace : List (Effect P ρ κ)}

/-- What is known of a group that was hashed under an id. -/
structure HashedGroup (n k : Nat) (group : List (EchoMessage ρ)) (echoHash : Bytes) : Prop where
  size : group.length = n
  hash : echoHash = Blake2s256.digest (payloads group)
  ids : ∀ m ∈ group, m.messageId = k
  senders : (group.map (·.sender)).Pairwise (· < ·)
  own : ∃ m ∈ group, isOutgoing m = true

/-- What the trace shows of the gadget. -/
structure GadgetTrace (n : Nat) (trace : List (Effect P ρ κ)) : Prop where
  hashed : ∀ k group echoHash, .hashed k group echoHash ∈ trace →
    HashedGroup n k group echoHash
  verified : ∀ k echoHash echoHashes, .verified k echoHash echoHashes ∈ trace →
    echoHashes.length + 1 = n ∧ AllEqual echoHash echoHashes ∧
      ∃ group, .hashed k group echoHash ∈ trace
  conserved : (hashedIn trace).Subperm (enteredIn trace)

/-- The group being gathered. -/
def gathered : Round P ρ → List (EchoMessage ρ)
  | .gather _ group => group
  | _ => []

/-- What a running gadget and its channel hold, against the trace. -/
structure GadgetLedger (n : Nat) (g : EchoGadget P ρ) (rx : List (EchoMessage ρ))
    (trace : List (Effect P ρ κ)) : Prop where
  size : g.n = n
  conserved : (enteredIn trace).Perm (hashedIn trace ++ (gathered g.round ++ (g.msgs ++ rx)))
  gathering : ∀ k group, g.round = .gather k group → ∀ m ∈ group, m.messageId = k
  settled : ∀ k group echoHash, .hashed k group echoHash ∈ trace →
    (∃ echoHashes, .verified k echoHash echoHashes ∈ trace) ∨
      ∃ respRx echoHashes, g.round = .responses k echoHash respRx echoHashes
  awaiting : ∀ k echoHash respRx echoHashes, g.round = .responses k echoHash respRx echoHashes →
    ∃ group, .hashed k group echoHash ∈ trace ∧ respRx ∈ outgoingRxs group

omit [Blake2s256] in
/-- What is hashed has entered. -/
theorem GadgetLedger.subperm {g : EchoGadget P ρ} {rx : List (EchoMessage ρ)}
    (h : GadgetLedger n g rx trace) : (hashedIn trace).Subperm (enteredIn trace) :=
  (List.sublist_append_left _ _).subperm.trans h.conserved.symm.subperm

theorem GadgetTrace.nil (n : Nat) : GadgetTrace n ([] : List (Effect P ρ κ)) :=
  ⟨nofun, nofun, List.Subperm.refl _⟩

/-- A hashed group holds an own broadcast of its id. -/
theorem GadgetTrace.own {k : Nat} {part : List (Effect P ρ κ)} {group : List (EchoMessage ρ)}
    (ht : GadgetTrace n trace) (hpart : part ⊆ trace) (h : .hashed k group echoHash ∈ part) :
    0 < (hashedIn part).countP fun m => isOutgoing m && m.messageId = k := by
  have hgroup := ht.hashed k group echoHash (hpart h)
  obtain ⟨m, hm, hout⟩ := hgroup.own
  refine List.countP_pos_iff.mpr ⟨m, mem_hashedIn h hm, ?_⟩
  rw [hout, hgroup.ids m hm, decide_eq_true rfl]
  rfl

/-- With one own broadcast of an id, one group is hashed for it. -/
theorem GadgetTrace.filter_hashedIn {k : Nat} {group : List (EchoMessage ρ)}
    (ht : GadgetTrace n trace)
    (hown : (enteredIn trace).countP (fun m => isOutgoing m && m.messageId = k) ≤ 1)
    (h : .hashed k group echoHash ∈ trace) : (hashedIn trace).filter (·.messageId = k) = group := by
  obtain ⟨before, after, hsplit⟩ := List.append_of_mem h
  have hhashed : hashedIn trace = hashedIn before ++ (group ++ hashedIn after) := by
    rw [hsplit, hashedIn_append]
    rfl
  have hcount := Nat.le_trans (ht.conserved.countP_le fun m =>
    isOutgoing m && m.messageId = k) hown
  have hfirst : 0 < group.countP fun m => isOutgoing m && m.messageId = k := by
    have hone := ht.own (List.cons_subset.mpr ⟨h, List.nil_subset _⟩) List.mem_cons_self
    rwa [hashedIn, List.flatMap_cons, List.flatMap_nil, List.append_nil] at hone
  rw [hhashed, List.countP_append, List.countP_append] at hcount
  -- a message of the id elsewhere would come with a second own broadcast
  have hnone : ∀ part : List (Effect P ρ κ), part ⊆ trace →
      (hashedIn part).countP (fun m => isOutgoing m && m.messageId = k) = 0 →
      (hashedIn part).filter (·.messageId = k) = [] := by
    intro part hpart hzero
    rw [List.filter_eq_nil_iff]
    intro m hm hid
    obtain ⟨effect, heffect, hmem⟩ := List.mem_flatMap.mp hm
    cases effect with
    | hashed k' group' echoHash' =>
        have hk : k' = k :=
          ((ht.hashed k' group' echoHash' (hpart heffect)).ids m hmem).symm.trans
            (of_decide_eq_true hid)
        subst hk
        have hpos := ht.own hpart heffect
        omega
    | _ => cases hmem
  have hbefore : before ⊆ trace := by
    rw [hsplit]
    exact List.subset_append_left _ _
  have hafter : after ⊆ trace := by
    rw [hsplit]
    exact List.subset_append_of_subset_right _ (List.subset_cons_self _ _)
  rw [hhashed, List.filter_append, List.filter_append, hnone before hbefore (by omega),
    hnone after hafter (by omega), List.append_nil, List.nil_append, List.filter_eq_self]
  exact fun m hm => decide_eq_true ((ht.hashed k group echoHash h).ids m hm)

omit [Blake2s256] in
theorem GadgetLedger.new (n : Nat) :
    GadgetLedger n (EchoGadget.new n : EchoGadget P ρ) [] ([] : List (Effect P ρ κ)) :=
  ⟨rfl, .refl _, nofun, nofun, nofun⟩

/-- Effects of the execution add to what entered, and to nothing else. -/
theorem GadgetTrace.append {effects : List (Effect P ρ κ)} (h : GadgetTrace n trace)
    (hexec : ∀ effect ∈ effects, byGadget effect = false) : GadgetTrace n (trace ++ effects) := by
  refine ⟨?_, ?_, ?_⟩
  · intro k group echoHash hmem
    rcases List.mem_append.mp hmem with hmem | hmem
    · exact h.hashed k group echoHash hmem
    · cases hexec _ hmem
  · intro k echoHash echoHashes hmem
    rcases List.mem_append.mp hmem with hmem | hmem
    · obtain ⟨hlen, hall, group, hgroup⟩ := h.verified k echoHash echoHashes hmem
      exact ⟨hlen, hall, group, List.mem_append_left _ hgroup⟩
    · cases hexec _ hmem
  · rw [hashedIn_append, hashedIn_eq_nil hexec, List.append_nil, enteredIn_append]
    exact h.conserved.trans (List.sublist_append_left _ _).subperm

omit [Blake2s256] in
/-- What entered in a poll of the execution is at the end of the
channel. -/
theorem GadgetLedger.longerChannel {g : EchoGadget P ρ} {rx : List (EchoMessage ρ)}
    {effects : List (Effect P ρ κ)} (h : GadgetLedger n g rx trace)
    (hexec : ∀ effect ∈ effects, byGadget effect = false) :
    GadgetLedger n g (rx ++ enteredIn effects) (trace ++ effects) := by
  have hold : ∀ k group echoHash, (.hashed k group echoHash : Effect P ρ κ) ∈ trace ++ effects →
      .hashed k group echoHash ∈ trace := by
    intro k group echoHash hmem
    rcases List.mem_append.mp hmem with hmem | hmem
    · exact hmem
    · cases hexec _ hmem
  refine ⟨h.size, ?_, h.gathering, ?_, ?_⟩
  · rw [enteredIn_append, hashedIn_append, hashedIn_eq_nil hexec, List.append_nil]
    simpa only [List.append_assoc] using h.conserved.append_right (enteredIn effects)
  · intro k group echoHash hmem
    rcases h.settled k group echoHash (hold _ _ _ hmem) with ⟨echoHashes, hverified⟩ | hround
    · exact .inl ⟨echoHashes, List.mem_append_left _ hverified⟩
    · exact .inr hround
  · intro k echoHash respRx echoHashes hround
    obtain ⟨group, hgroup, hrx⟩ := h.awaiting k echoHash respRx echoHashes hround
    exact ⟨group, List.mem_append_left _ hgroup, hrx⟩

omit [Blake2s256] in
theorem mem_outgoingRxs {ms : List (EchoMessage ρ)} {respRx : Nat} :
    respRx ∈ outgoingRxs ms ↔ ∃ m ∈ ms, m.response = .outgoing respRx := by
  unfold outgoingRxs
  rw [List.mem_filterMap]
  refine exists_congr fun m => and_congr_right fun _ => ?_
  cases m.response with
  | incoming tx => exact ⟨nofun, nofun⟩
  | outgoing rx => simp

/-- A complete group, sorted: `HashedGroup` holds of it. -/
theorem hashedGroup_sortBySender {k respRx : Nat} {group : List (EchoMessage ρ)}
    (hsize : group.length = n) (hids : ∀ m ∈ group, m.messageId = k)
    (hnodup : ((sortBySender group).map (·.sender)).Nodup)
    (hrx : (outgoingRxs (sortBySender group)).getLast? = some respRx) :
    HashedGroup n k (sortBySender group)
      (Blake2s256.digest (payloads (sortBySender group))) := by
  refine ⟨?_, rfl, fun m hm => hids m (mem_sortBySender.mp hm), ?_, ?_⟩
  · rw [sortBySender, (List.perm_insertionSort _ group).length_eq, hsize]
  · -- sorted by sender, and no sender twice
    have hle : ((sortBySender group).map (·.sender)).Pairwise (· ≤ ·) :=
      List.pairwise_map.mpr (pairwise_sortBySender group)
    exact (hle.and hnodup).imp fun h => Nat.lt_of_le_of_ne h.1 h.2
  · obtain ⟨m, hm, hresp⟩ := mem_outgoingRxs.mp (List.mem_of_getLast? hrx)
    exact ⟨m, hm, by rw [isOutgoing, hresp]⟩

end Groups

section Steps

variable {P ρ κ : Type} [Blake2s256] {g : EchoGadget P ρ} {trace : List (Effect P ρ κ)}

omit [Blake2s256] in
/-- The gadget moved messages about. -/
theorem GadgetLedger.move {g' : EchoGadget P ρ} {rx rx' : List (EchoMessage ρ)}
    (h : GadgetLedger n g rx trace) (hn : g'.n = g.n)
    (hround : ∀ k echoHash respRx echoHashes, g.round ≠ .responses k echoHash respRx echoHashes)
    (hround' : ∀ k echoHash respRx echoHashes,
      g'.round ≠ .responses k echoHash respRx echoHashes)
    (hmove : (gathered g.round ++ (g.msgs ++ rx)).Perm
      (gathered g'.round ++ (g'.msgs ++ rx')))
    (hgathering : ∀ k group, g'.round = .gather k group → ∀ m ∈ group, m.messageId = k) :
    GadgetLedger n g' rx' trace := by
  refine ⟨hn.trans h.size, h.conserved.trans (hmove.append_left _), hgathering, ?_, ?_⟩
  · intro k group echoHash hmem
    rcases h.settled k group echoHash hmem with hverified | ⟨respRx, echoHashes, hr⟩
    · exact .inl hverified
    · exact absurd hr (hround _ _ _ _)
  · intro k echoHash respRx echoHashes hr
    exact absurd hr (hround' _ _ _ _)

omit [Blake2s256] in
theorem enteredIn_acks (acks : List ρ) (k : Nat) (group : List (EchoMessage ρ))
    (echoHash : Bytes) :
    enteredIn (acks.map (fun tx => Effect.respond tx (.ok echoHash)) ++
      [Effect.hashed k group echoHash] : List (Effect P ρ κ)) = [] := by
  induction acks with
  | nil => rfl
  | cons tx acks ih => exact ih

omit [Blake2s256] in
theorem hashedIn_acks (acks : List ρ) (k : Nat) (group : List (EchoMessage ρ))
    (echoHash : Bytes) :
    hashedIn (acks.map (fun tx => Effect.respond tx (.ok echoHash)) ++
      [Effect.hashed k group echoHash] : List (Effect P ρ κ)) = group := by
  induction acks with
  | nil => exact List.append_nil _
  | cons tx acks ih => exact ih

omit [Blake2s256] in
/-- Of the gadget's own effects, hashing a group adds one. -/
theorem mem_acks {acks : List ρ} {k : Nat} {group : List (EchoMessage ρ)} {effect : Effect P ρ κ}
    (hgadget : byGadget effect = true)
    (h : effect ∈ trace ++ (acks.map (fun tx => Effect.respond tx (.ok echoHash)) ++
      [Effect.hashed k group echoHash])) : effect ∈ trace ∨ effect = .hashed k group echoHash := by
  rcases List.mem_append.mp h with h | h
  · exact .inl h
  · rcases List.mem_append.mp h with h | h
    · obtain ⟨tx, _, rfl⟩ := List.mem_map.mp h
      cases hgadget
    · exact .inr (List.mem_singleton.mp h)

/-- The gathered group is complete, hashed and acknowledged. -/
theorem GadgetLedger.hash {k respRx : Nat} {rx group : List (EchoMessage ρ)} {acks : List ρ}
    (ht : GadgetTrace n trace) (hl : GadgetLedger n g rx trace) (hround : g.round = .gather k group)
    (hgroup : HashedGroup n k (sortBySender group) echoHash)
    (hlast : (outgoingRxs (sortBySender group)).getLast? = some respRx) :
    let trace' := trace ++ (acks.map (fun tx => Effect.respond tx (.ok echoHash)) ++
      [Effect.hashed k (sortBySender group) echoHash])
    GadgetTrace n trace' ∧
      GadgetLedger n { g with round := .responses k echoHash respRx [] } rx trace' := by
  intro trace'
  have hnotResponses : ∀ k' echoHash respRx echoHashes,
      g.round ≠ .responses k' echoHash respRx echoHashes := by simp [hround]
  have hledger : GadgetLedger n { g with round := .responses k echoHash respRx [] } rx
      trace' := by
    refine ⟨hl.size, ?_, nofun, ?_, ?_⟩
    · -- the group moves from the gadget into the trace
      rw [enteredIn_append, enteredIn_acks, List.append_nil, hashedIn_append, hashedIn_acks]
      have hsorted : group.Perm (sortBySender group) := (List.perm_insertionSort _ group).symm
      have hold := hl.conserved
      rw [hround] at hold
      refine hold.trans ?_
      rw [List.append_assoc]
      exact (hsorted.append_right _).append_left _
    · intro k' group' echoHash' hmem
      rcases mem_acks rfl hmem with hmem | hmem
      · rcases hl.settled k' group' echoHash' hmem with ⟨es, hverified⟩ | ⟨respRx', es, hr⟩
        · exact .inl ⟨es, List.mem_append_left _ hverified⟩
        · exact absurd hr (hnotResponses _ _ _ _)
      · cases hmem
        exact .inr ⟨respRx, [], rfl⟩
    · rintro k' echoHash' respRx' echoHashes' ⟨⟩
      refine ⟨sortBySender group, ?_, List.mem_of_getLast? hlast⟩
      exact List.mem_append_right _ (List.mem_append_right _ List.mem_cons_self)
  refine ⟨⟨?_, ?_, hledger.subperm⟩, hledger⟩
  · intro k' group' echoHash' hmem
    rcases mem_acks rfl hmem with hmem | hmem
    · exact ht.hashed k' group' echoHash' hmem
    · cases hmem
      exact hgroup
  · intro k' echoHash' echoHashes' hmem
    rcases mem_acks rfl hmem with hmem | hmem
    · obtain ⟨hlen, hall, group', hgroup'⟩ := ht.verified _ _ _ hmem
      exact ⟨hlen, hall, group', List.mem_append_left _ hgroup'⟩
    · cases hmem

/-- The last echo is in, and all echoes equal the local hash. -/
theorem GadgetLedger.verify {k respRx r : Nat} {rx : List (EchoMessage ρ)}
    {echoHashes all : List (RemoteEcho P)} (ht : GadgetTrace n trace)
    (hl : GadgetLedger n g rx trace) (hround : g.round = .responses k echoHash respRx echoHashes)
    (hlen : all.length + 1 = n) (hall : AllEqual echoHash all) :
    GadgetTrace n (trace ++ [.verified k echoHash all]) ∧
      GadgetLedger n { g with r := r, round := .collect } rx
        (trace ++ [.verified k echoHash all]) := by
  obtain ⟨group, hgroup, _⟩ := hl.awaiting k echoHash respRx echoHashes hround
  have hmem : ∀ effect, effect ∈ trace ++ [Effect.verified k echoHash all] →
      effect ∈ trace ∨ effect = .verified k echoHash all :=
    fun effect heffect => (List.mem_append.mp heffect).imp_right List.mem_singleton.mp
  have hledger : GadgetLedger n { g with r := r, round := .collect } rx
      (trace ++ [.verified k echoHash all]) := by
    refine ⟨hl.size, ?_, nofun, ?_, nofun⟩
    · rw [enteredIn_append, hashedIn_append]
      show (enteredIn trace ++ []).Perm ((hashedIn trace ++ []) ++ _)
      rw [List.append_nil, List.append_nil]
      have hold := hl.conserved
      rw [hround] at hold
      exact hold
    · intro k' group' echoHash' hin
      rcases hmem _ hin with hin | hin
      · rcases hl.settled k' group' echoHash' hin with ⟨es, hverified⟩ | ⟨respRx', es, hr⟩
        · exact .inl ⟨es, List.mem_append_left _ hverified⟩
        · -- the group whose echoes were being read
          rw [hround] at hr
          cases hr
          exact .inl ⟨all, List.mem_append_right _ List.mem_cons_self⟩
      · cases hin
  refine ⟨⟨?_, ?_, hledger.subperm⟩, hledger⟩
  · intro k' group' echoHash' hin
    rcases hmem _ hin with hin | hin
    · exact ht.hashed k' group' echoHash' hin
    · cases hin
  · intro k' echoHash' echoHashes' hin
    rcases hmem _ hin with hin | hin
    · obtain ⟨hlen', hall', group', hgroup'⟩ := ht.verified _ _ _ hin
      exact ⟨hlen', hall', group', List.mem_append_left _ hgroup'⟩
    · cases hin
      exact ⟨hlen, hall, group, List.mem_append_left _ hgroup⟩

/-- The effects of a stretch of the gadget. -/
def echoEffects : Step P ρ → List (Effect P ρ κ)
  | .hashed _ messageId group echoHash acks =>
      acks.map (fun tx => .respond tx (.ok echoHash)) ++ [.hashed messageId group echoHash]
  | .verified _ messageId echoHash _ echoHashes => [.verified messageId echoHash echoHashes]
  | .took _ _ => []
  | .echoed _ _ => []
  | .pending => []
  | .finished => []
  | .failed _ => []
  | .panic _ => []

/-- The gadget and its channel after a stretch that goes on. -/
def gadgetAfter (rx : List (EchoMessage ρ)) :
    Step P ρ → Option (EchoGadget P ρ × List (EchoMessage ρ))
  | .took g rx' => some (g, rx')
  | .hashed g _ _ _ _ => some (g, rx)
  | .echoed g _ => some (g, rx)
  | .verified g _ _ _ _ => some (g, rx)
  | _ => none

/-- The gadget's ledger and the trace, after a stretch of the gadget. -/
theorem gadgetLedger_steps {rx : List (EchoMessage ρ)} {rxClosed : Bool}
    {responses : Nat → ResponseRx P} {gone : ρ → Bool} {step : Step P ρ}
    (ht : GadgetTrace n trace) (hl : GadgetLedger n g rx trace)
    (hsteps : Steps g rx rxClosed responses gone step) :
    GadgetTrace n (trace ++ echoEffects step) ∧
      ∀ g' rx', gadgetAfter rx step = some (g', rx') →
        GadgetLedger n g' rx' (trace ++ echoEffects step) := by
  have hsame : GadgetTrace n (trace ++ []) := ht.append (nofun)
  cases hsteps with
  | pending => exact ⟨hsame, nofun⟩
  | failed => exact ⟨hsame, nofun⟩
  | panic => exact ⟨hsame, nofun⟩
  | finished _ _ _ _ => exact ⟨hsame, nofun⟩
  | @ready k hround _ =>
      refine ⟨hsame, ?_⟩
      rintro g' rx' ⟨⟩
      rw [echoEffects, List.append_nil]
      refine hl.move rfl (by simp [hround]) nofun ?_ ?_
      · -- the ready id leaves the map, and its messages are the group
        simp only [hround, gathered, List.nil_append, ← List.append_assoc]
        refine List.Perm.append_right _ ?_
        have hsplit := List.filter_append_perm (fun m => decide (m.messageId = k)) g.msgs
        simpa only [group, decide_not] using hsplit.symm
      · rintro k' group ⟨⟩ m hm
        exact of_decide_eq_true (List.mem_filter.mp hm).2
  | @collects msg rest hround hrx =>
      refine ⟨hsame, ?_⟩
      rintro g' rx' ⟨⟩
      rw [echoEffects, List.append_nil]
      refine hl.move rfl (by simp [hround]) nofun ?_ nofun
      simp [hround, hrx, gathered]
  | @gathers k group msg rest hround hrx hid =>
      refine ⟨hsame, ?_⟩
      rintro g' rx' ⟨⟩
      rw [echoEffects, List.append_nil]
      refine hl.move rfl (by simp [hround]) nofun ?_ ?_
      · simp only [hround, hrx, gathered, List.append_assoc, List.singleton_append]
        exact List.perm_middle.append_left _
      · rintro k' group' ⟨⟩ m hm
        rcases List.mem_append.mp hm with hm | hm
        · exact hl.gathering k group hround m hm
        · rw [List.mem_singleton.mp hm, hid]
  | @setsAside k group msg rest hround hrx =>
      refine ⟨hsame, ?_⟩
      rintro g' rx' ⟨⟩
      rw [echoEffects, List.append_nil]
      refine hl.move rfl (by simp [hround]) nofun ?_ ?_
      · simp [hround, hrx, gathered]
      · rintro k' group' ⟨⟩
        exact hl.gathering k group hround
  | @hashed k respRx group hround hsize hnodup hlast =>
      have hgroup := hashedGroup_sortBySender (hsize.trans hl.size)
        (hl.gathering k group hround) hnodup hlast
      obtain ⟨htrace, hledger⟩ := GadgetLedger.hash ht hl hround hgroup hlast
      refine ⟨htrace, ?_⟩
      rintro g' rx' ⟨⟩
      exact hledger
  | @echoed k respRx echoHash echoHashes echo rest hround _ _ =>
      refine ⟨hsame, ?_⟩
      rintro g' rx' ⟨⟩
      rw [echoEffects, List.append_nil]
      refine ⟨hl.size, ?_, nofun, ?_, ?_⟩
      · have hold := hl.conserved
        rw [hround] at hold
        exact hold
      · intro k' group' echoHash' hmem
        rcases hl.settled k' group' echoHash' hmem with hverified | ⟨rx, es, hr⟩
        · exact .inl hverified
        · rw [hround] at hr
          cases hr
          exact .inr ⟨respRx, _, rfl⟩
      · rintro k' echoHash' respRx' echoHashes' ⟨⟩
        exact hl.awaiting k echoHash respRx echoHashes hround
  | @verified k respRx echoHash echoHashes echo rest hround _ hlen hall =>
      obtain ⟨htrace, hledger⟩ := GadgetLedger.verify (r := g.r + 1) ht hl hround
        (hlen.trans hl.size) hall
      refine ⟨htrace, ?_⟩
      rintro g' rx' ⟨⟩
      exact hledger

/-- The same in a session. -/
theorem gadgetLedger_pollEcho {w : WrapExecution P ρ κ} {state : WrapState P ρ κ}
    {effects : List (Effect P ρ κ)} (ht : GadgetTrace n trace) {gone : ρ → Bool}
    (hl : GadgetLedger n w.echo w.echoRx trace) (h : w.pollEcho gone = some (state, effects)) :
    GadgetTrace n (trace ++ effects) ∧
      ∀ w', state = .running w' →
        GadgetLedger n w'.echo w'.echoRx (trace ++ effects) ∧
          w'.computation = w.computation := by
  have hsteps := steps_step w.echo w.echoRx w.computation.isNone w.responses gone
  unfold WrapExecution.pollEcho at h
  generalize w.echo.step w.echoRx w.computation.isNone w.responses gone = step at hsteps h
  obtain ⟨htrace, hledger⟩ := gadgetLedger_steps ht hl hsteps
  cases step with
  | pending => cases h
  | failed e =>
      cases h
      exact ⟨htrace, fun w' hw' => absurd hw' (WrapState.returned_ne_running _ w')⟩
  | panic why =>
      cases h
      exact ⟨htrace, fun w' hw' => absurd hw' (WrapState.panicked_ne_running why w')⟩
  | finished =>
      cases hsteps with
      | finished _ _ hclosed _ =>
          simp only [hclosed, if_true] at h
          cases h
          exact ⟨htrace, fun w' hw' => absurd hw' (WrapState.returned_ne_running _ w')⟩
  | took g rx =>
      cases h
      refine ⟨htrace, ?_⟩
      rintro w' ⟨⟩
      exact ⟨hledger _ _ rfl, rfl⟩
  | hashed g messageId group echoHash acks =>
      cases h
      refine ⟨htrace, ?_⟩
      rintro w' ⟨⟩
      exact ⟨hledger _ _ rfl, rfl⟩
  | echoed g respRx =>
      cases h
      refine ⟨htrace, ?_⟩
      rintro w' ⟨⟩
      exact ⟨hledger _ _ rfl, rfl⟩
  | verified g messageId echoHash respRx echoHashes =>
      cases h
      refine ⟨htrace, ?_⟩
      rintro w' ⟨⟩
      exact ⟨hledger _ _ rfl, rfl⟩

end Steps

end FrostMpcTss.Proofs
