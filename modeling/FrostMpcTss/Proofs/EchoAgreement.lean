import FrostMpcTss.Lib.Flatten
import FrostMpcTss.Proofs.NetLedger

/-!
# `FrostMpcTss.Proofs.EchoAgreement`: what two verified rounds agree on

If `proceed_round` succeeds for an id at two honest parties, each has
the other's echo, and so they hashed the same bytes. The hasher is fed
the payloads one after the other with nothing between them, so the same
bytes can come from different payloads: two dishonest senders can move
a byte from the end of one payload to the beginning of the next.

`samePayloads_iff` says what is left. The parties hold the same
payloads if and only if the lengths of the payloads differ for one
sender at most. Honest senders send one payload to all, so one dishonest
sender is not enough (`samePayloads_of_dishonest_subsingleton`).

The proof is over every run of the parties and their network. By the
ledgers a session hashes one group for an id (`unique_group`), a round
that succeeded has the echo of every other party (`echo_given`), and an
honest party's echo is the hash of its group of that id
(`hashed_of_echo`).
-/

set_option autoImplicit false

namespace FrostMpcTss.Proofs

open Lib Network Service FrostMpcTss.Session

section Agreement

variable {P κ : Type} {n : Nat} {k : Nat} {echoHash : Bytes} {t : Net P κ n}

/-- `proceed_round` has succeeded for the id, with this group. -/
def Succeeded (trace : List (Effect P (Handle n) κ)) (k : Nat)
    (group : List (EchoMessage (Handle n))) : Prop :=
  ∃ echoHash echoHashes, .hashed k group echoHash ∈ trace ∧
    .verified k echoHash echoHashes ∈ trace

/-- The payload a group holds from a sender. -/
def payloadFrom (group : List (EchoMessage (Handle n))) (sender : Nat) : Option Bytes :=
  (group.find? (·.sender = sender)).map (·.payload)

/-- Both groups hold a payload from every sender, and the same one. -/
def SamePayloads (n : Nat) (group group' : List (EchoMessage (Handle n))) : Prop :=
  ∀ sender, 1 ≤ sender → sender ≤ n →
    ∃ payload, payloadFrom group sender = some payload ∧
      payloadFrom group' sender = some payload

/-- The senders from which the groups hold payloads of different
lengths. -/
def lengthsDiffer (group group' : List (EchoMessage (Handle n))) : Set Nat :=
  {sender | (payloadFrom group sender).map List.length
    ≠ (payloadFrom group' sender).map List.length}

/-- A group of `n` messages with increasing senders between one and `n`
has one message from each. -/
theorem senders_eq_range {senders : List Nat} (hlen : senders.length = n)
    (hlt : senders.Pairwise (· < ·)) (hbound : ∀ s ∈ senders, 1 ≤ s ∧ s ≤ n) :
    senders = List.range' 1 n := by
  have hnodup : senders.Nodup := hlt.imp Nat.ne_of_lt
  have hsubset : senders ⊆ List.range' 1 n := by
    intro s hs
    rw [List.mem_range'_1]
    have hs' := hbound s hs
    omega
  have hperm : senders.Perm (List.range' 1 n) := by
    refine (List.subperm_of_subset hnodup hsubset).perm_of_length_le ?_
    rw [List.length_range', hlen]
  have hrange : (List.range' 1 n).Pairwise (· < ·) := List.pairwise_lt_range'
  exact hperm.eq_of_pairwise (fun a b _ _ hab hba => absurd hab (Nat.lt_asymm hba)) hlt hrange

/-- Senders in order: the payloads are found by position. -/
theorem payloadFrom_eq {group : List (EchoMessage (Handle n))} {start size : Nat}
    (hsenders : group.map (·.sender) = List.range' start size) (i : Nat) :
    payloadFrom group (start + i) = (group.map (·.payload))[i]? := by
  induction group generalizing start size i with
  | nil => rfl
  | cons m group ih =>
      cases size with
      | zero => cases hsenders
      | succ size =>
          rw [List.map_cons, List.range'_succ] at hsenders
          obtain ⟨hm, hgroup⟩ := List.cons.inj hsenders
          cases i with
          | zero =>
              rw [payloadFrom, List.find?_cons_of_pos (by simp [hm])]
              rfl
          | succ i =>
              have hne : m.sender ≠ start + (i + 1) := by omega
              rw [payloadFrom, List.find?_cons_of_neg (by simp [hne]), List.map_cons,
                List.getElem?_cons_succ, ← ih hgroup i, payloadFrom]
              congr 3
              funext m'
              congr 2
              omega

theorem payloadFrom_eq_none {group : List (EchoMessage (Handle n))} {sender : Nat}
    (hsenders : group.map (·.sender) = List.range' 1 n) (h : ¬ (1 ≤ sender ∧ sender ≤ n)) :
    payloadFrom group sender = none := by
  rw [payloadFrom, Option.map_eq_none_iff, List.find?_eq_none]
  intro m hm hsender
  have hin : m.sender ∈ List.range' 1 n := hsenders ▸ List.mem_map_of_mem hm
  rw [of_decide_eq_true hsender, List.mem_range'_1] at hin
  omega

/-- The payloads as lists: what both groups must have in common. -/
theorem samePayloads_iff_map {group group' : List (EchoMessage (Handle n))}
    (hsenders : group.map (·.sender) = List.range' 1 n)
    (hsenders' : group'.map (·.sender) = List.range' 1 n) :
    SamePayloads n group group' ↔ group.map (·.payload) = group'.map (·.payload) := by
  have hlen : group.length = n := by
    rw [← List.length_map (·.sender), hsenders, List.length_range']
  have hlen' : group'.length = n := by
    rw [← List.length_map (·.sender), hsenders', List.length_range']
  constructor
  · intro hsame
    refine List.ext_getElem? fun i => ?_
    rw [← payloadFrom_eq hsenders, ← payloadFrom_eq hsenders']
    by_cases hi : i < n
    · obtain ⟨payload, h, h'⟩ := hsame (1 + i) (by omega) (by omega)
      rw [h, h']
    · rw [payloadFrom_eq hsenders, payloadFrom_eq hsenders', List.getElem?_eq_none,
        List.getElem?_eq_none]
      · rw [List.length_map]
        omega
      · rw [List.length_map]
        omega
  · intro heq sender hpos hle
    obtain ⟨i, rfl⟩ : ∃ i, sender = 1 + i := ⟨sender - 1, by omega⟩
    rw [payloadFrom_eq hsenders, payloadFrom_eq hsenders', ← heq]
    have hi : i < (group.map (·.payload)).length := by
      rw [List.length_map]
      omega
    exact ⟨_, List.getElem?_eq_getElem hi, List.getElem?_eq_getElem hi⟩

/-- At most one sender's payload differs in length. -/
theorem differences_of_lengthsDiffer {group group' : List (EchoMessage (Handle n))}
    (hsenders : group.map (·.sender) = List.range' 1 n)
    (hsenders' : group'.map (·.sender) = List.range' 1 n)
    (h : (lengthsDiffer group group').Subsingleton) :
    (differences ((group.map (·.payload)).map List.length)
      ((group'.map (·.payload)).map List.length)).Subsingleton := by
  have hmem : ∀ i, i ∈ differences ((group.map (·.payload)).map List.length)
      ((group'.map (·.payload)).map List.length) → 1 + i ∈ lengthsDiffer group group' := by
    intro i hi
    show (payloadFrom group (1 + i)).map List.length ≠ (payloadFrom group' (1 + i)).map _
    rw [payloadFrom_eq hsenders, payloadFrom_eq hsenders', ← List.getElem?_map,
      ← List.getElem?_map]
    exact hi
  intro i hi j hj
  have := h (hmem i hi) (hmem j hj)
  omega

/-- One concatenation: the payloads are the same if and only if their
lengths differ for one sender at most. -/
theorem samePayloads_iff_subsingleton {group group' : List (EchoMessage (Handle n))}
    (hsenders : group.map (·.sender) = List.range' 1 n)
    (hsenders' : group'.map (·.sender) = List.range' 1 n)
    (hbytes : payloads group = payloads group') :
    SamePayloads n group group' ↔ (lengthsDiffer group group').Subsingleton := by
  constructor
  · intro hsame s hs
    -- the lengths differ nowhere
    have hnone : ∀ s, payloadFrom group s = payloadFrom group' s := by
      intro s
      by_cases hs : 1 ≤ s ∧ s ≤ n
      · obtain ⟨payload, h, h'⟩ := hsame s hs.1 hs.2
        rw [h, h']
      · rw [payloadFrom_eq_none hsenders hs, payloadFrom_eq_none hsenders' hs]
    exact absurd (congrArg _ (hnone s)) hs
  · intro hone
    rw [samePayloads_iff_map hsenders hsenders']
    refine eq_of_flatten_eq ?_ ?_ (differences_of_lengthsDiffer hsenders hsenders' hone)
    · have hlen := congrArg List.length (hsenders.trans hsenders'.symm)
      rw [List.length_map, List.length_map] at hlen
      rw [List.length_map, List.length_map, hlen]
    · rw [← List.flatMap_def, ← List.flatMap_def]
      exact hbytes

variable [Blake2s256]

/-- A session hashes one group for an id. -/
theorem unique_group {ρ : Type} {D : IncomingRequest P ρ → Prop} {i : Nat}
    {trace : List (Effect P ρ κ)} {group group' : List (EchoMessage ρ)} {echoHash' : Bytes}
    (he : ExecTrace D i trace) (ht : GadgetTrace n trace) (h : .hashed k group echoHash ∈ trace)
    (h' : .hashed k group' echoHash' ∈ trace) : group = group' ∧ echoHash = echoHash' := by
  have hgroup : group = group' :=
    (ht.filter_hashedIn (he.own_le k) h).symm.trans (ht.filter_hashedIn (he.own_le k) h')
  refine ⟨hgroup, ?_⟩
  rw [(ht.hashed k group echoHash h).hash, (ht.hashed k group' echoHash' h').hash, hgroup]

/-- Every message of a hashed group has entered. -/
theorem entered_of_hashed {ρ : Type} {trace : List (Effect P ρ κ)} {group : List (EchoMessage ρ)}
    {m : EchoMessage ρ} (ht : GadgetTrace n trace) (h : .hashed k group echoHash ∈ trace)
    (hm : m ∈ group) : .entered m ∈ trace :=
  mem_enteredIn.mp (ht.conserved.subset (mem_hashedIn h hm))

omit [Blake2s256] in
/-- The number of a party. -/
theorem asU16_succ_le (j : Fin n) : asU16 j + 1 ≤ n := by
  have hmod : asU16 j ≤ j := Nat.mod_le _ _
  have hlt := j.isLt
  omega

/-- A hashed group has one message from every sender. -/
theorem senders_of_hashed {cfg : Config P κ n} {j : Fin n} {group : List (EchoMessage (Handle n))}
    (hl : NetLedger cfg t) (hj : cfg.honest j = true)
    (h : .hashed k group echoHash ∈ (t.sessions j).trace) :
    group.map (·.sender) = List.range' 1 n := by
  have hsession := hl.sessions j hj
  have hgroup := hsession.gadget.hashed k group echoHash h
  refine senders_eq_range (by rw [List.length_map, hgroup.size]) hgroup.senders ?_
  intro s hs
  obtain ⟨m, hm, rfl⟩ := List.mem_map.mp hs
  rcases hsession.exec.entered m (entered_of_hashed hsession.gadget h hm) with
    ⟨_, hsender, _⟩ | ⟨req, ⟨s, _, hindex, _⟩, _, rfl⟩
  · rw [hsender]
    exact ⟨Nat.le_add_left _ _, asU16_succ_le j⟩
  · show 1 ≤ req.peerIndex + 1 ∧ req.peerIndex + 1 ≤ n
    rw [hindex]
    exact ⟨Nat.le_add_left _ _, asU16_succ_le s⟩

/-- Responders of a broadcast: each other party once at most. -/
theorem nodup_responders {cfg : Config P κ n} (hl : NetLedger cfg t) (s : Fin n) (k : Nat) :
    ((answersTo t s k).map (·.responder)).Nodup ∧
      ∀ r ∈ (answersTo t s k).map (·.responder), r ≠ s := by
  have hkey : ∀ a ∈ answersTo t s k, a.requester = s ∧ a.messageId = k := by
    intro a ha
    simpa only [Bool.and_eq_true, decide_eq_true_eq] using (List.mem_filter.mp ha).2
  constructor
  · have hdistinct : ((answersTo t s k).map
        fun a => (a.requester, a.messageId, a.responder)).Nodup :=
      hl.distinct.sublist (List.filter_sublist.map _)
    rw [List.nodup_map_iff_inj_on (List.Nodup.of_map _ hdistinct)]
    intro a ha b hb hab
    refine List.inj_on_of_nodup_map hdistinct ha hb ?_
    rw [(hkey a ha).1, (hkey a ha).2, (hkey b hb).1, (hkey b hb).2, hab]
  · intro r hr
    obtain ⟨a, ha, rfl⟩ := List.mem_map.mp hr
    rw [← (hkey a ha).1]
    exact hl.responder_ne a (List.mem_of_mem_filter ha)

/-- A round that succeeded has the echo of every other honest party. -/
theorem echo_given {cfg : Config P κ n} {s r : Fin n} {echoHashes : List (RemoteEcho P)}
    (hl : NetLedger cfg t) (hs : cfg.honest s = true) (hr : cfg.honest r = true) (hne : s ≠ r)
    (h : .verified k echoHash echoHashes ∈ (t.sessions s).trace) :
    .respond (.echo s k) (.ok echoHash) ∈ (t.sessions r).trace := by
  have hsession := hl.sessions s hs
  obtain ⟨hlen, hall, _⟩ := hsession.gadget.verified k echoHash echoHashes h
  obtain ⟨hnodup, hothers⟩ := nodup_responders hl s k
  -- the responders are among the n - 1 other parties
  have hsub : ((answersTo t s k).map (·.responder)).toFinset ⊆ Finset.univ.erase s := by
    intro x hx
    exact Finset.mem_erase.mpr ⟨hothers x (List.mem_toFinset.mp hx), Finset.mem_univ x⟩
  have hcard : (Finset.univ.erase s).card = n - 1 := by
    rw [Finset.card_erase_of_mem (Finset.mem_univ s), Finset.card_univ, Fintype.card_fin]
  have hresponders := List.toFinset_card_of_nodup hnodup
  rw [List.length_map] at hresponders
  have hle : (arrivedAt t s k).length ≤ echoHashes.length := by
    have hbound := Finset.card_le_card hsub
    rw [arrivedAt, List.length_map]
    omega
  -- so the verified echoes are all that arrived
  have hsublist : echoHashes.Sublist (arrivedAt t s k) := by
    refine List.Sublist.trans ?_ (hsession.echoes k).sublist
    obtain ⟨before, after, hsplit⟩ := List.append_of_mem h
    rw [hsplit, verifiedIn_append]
    refine List.Sublist.trans ?_ (List.sublist_append_right _ _)
    show echoHashes.Sublist ((if k = k then echoHashes else []) ++ verifiedIn after k)
    rw [if_pos rfl]
    exact List.sublist_append_left _ _
  have hall' : echoHashes = arrivedAt t s k := hsublist.eq_of_length_le hle
  -- and the responders are all others
  have heq : ((answersTo t s k).map (·.responder)).toFinset = Finset.univ.erase s := by
    refine Finset.eq_of_subset_of_card_le hsub ?_
    have harrived := congrArg List.length hall'
    rw [arrivedAt, List.length_map] at harrived
    omega
  have hmem : r ∈ ((answersTo t s k).map (·.responder)).toFinset := by
    rw [heq]
    exact Finset.mem_erase.mpr ⟨hne.symm, Finset.mem_univ r⟩
  obtain ⟨a, ha, rfl⟩ := List.mem_map.mp (List.mem_toFinset.mp hmem)
  have hecho : a.echo ∈ echoHashes := by
    rw [hall']
    exact List.mem_map_of_mem ha
  obtain ⟨peer, hpeer⟩ := hall a.echo hecho
  obtain ⟨hmemAnswered, hkey⟩ := List.mem_filter.mp ha
  simp only [Bool.and_eq_true, decide_eq_true_eq] at hkey
  rw [← hkey.1, ← hkey.2]
  exact hl.given a hmemAnswered hr peer echoHash hpeer

/-- The echo an honest party gives for a broadcast is the hash of its
group of that id. -/
theorem hashed_of_echo {cfg : Config P κ n} {s r : Fin n} (hl : NetLedger cfg t)
    (hr : cfg.honest r = true) (h : .respond (.echo s k) (.ok echoHash) ∈ (t.sessions r).trace) :
    ∃ group, .hashed k group echoHash ∈ (t.sessions r).trace := by
  have hsession := hl.sessions r hr
  rcases hsession.exec.acked _ _ h with ⟨req, ⟨s', _, _, _, hdirect⟩, hb, htx⟩ |
    ⟨k', group, hgroup, htx⟩
  · -- direct messages have other handles
    rw [(hdirect hb).1] at htx
    cases htx
  · obtain ⟨m, hm, hresp⟩ := List.mem_filterMap.mp htx
    have hincoming : m.response = .incoming (.echo s k) := by
      cases hm' : m.response with
      | incoming tx =>
          rw [hm'] at hresp
          rw [Option.some.inj hresp]
      | outgoing respRx =>
          rw [hm'] at hresp
          cases hresp
    have hid := (hsession.gadget.hashed k' group echoHash hgroup).ids m hm
    rcases hsession.exec.entered m (entered_of_hashed hsession.gadget hgroup hm) with
      ⟨hout, _, _⟩ | ⟨req, ⟨s', _, _, hbroadcast, _⟩, hb, rfl⟩
    · rw [hincoming] at hout
      cases hout
    · have hhandle := (hbroadcast hb).1
      have htx' : req.pendingResponse = .echo s k := EchoResponse.incoming.inj hincoming
      rw [hhandle] at htx'
      obtain ⟨_, hk⟩ := Handle.echo.inj htx'
      have hid : req.context.messageId = k' := hid
      rw [← hid, hk] at hgroup
      exact ⟨group, hgroup⟩

/-- Two honest parties whose rounds of an id succeeded hashed the same
bytes. -/
theorem payloads_eq {cfg : Config P κ n} {A B : Fin n}
    {group group' : List (EchoMessage (Handle n))} (hinj : Function.Injective Blake2s256.digest)
    (hl : NetLedger cfg t) (hA : cfg.honest A = true) (hB : cfg.honest B = true) (hne : A ≠ B)
    (h : Succeeded (t.sessions A).trace k group) (h' : Succeeded (t.sessions B).trace k group') :
    payloads group = payloads group' := by
  obtain ⟨echoHash, echoHashes, hgroup, hverified⟩ := h
  obtain ⟨echoHash', _, hgroup', _⟩ := h'
  have hsessionB := hl.sessions B hB
  -- the echo that `A` has of `B` is the hash of the group of `B`
  obtain ⟨groupB, hgroupB⟩ := hashed_of_echo hl hB (echo_given hl hA hB hne hverified)
  obtain ⟨_, hhash⟩ := unique_group hsessionB.exec hsessionB.gadget hgroupB hgroup'
  have hdigestA := ((hl.sessions A hA).gadget.hashed k group echoHash hgroup).hash
  have hdigestB := (hsessionB.gadget.hashed k group' echoHash' hgroup').hash
  refine hinj ?_
  rw [← hdigestA, ← hdigestB, hhash]

/-- A message of a hashed group comes from the party it names, and if
that party is honest, it has sent this payload to all. -/
theorem multicast_of_hashed {cfg : Config P κ n} {j : Fin n} {group : List (EchoMessage (Handle n))}
    {m : EchoMessage (Handle n)} (hl : NetLedger cfg t) (hj : cfg.honest j = true)
    (h : .hashed k group echoHash ∈ (t.sessions j).trace) (hm : m ∈ group) :
    ∃ s : Fin n, m.sender = asU16 s + 1 ∧ (cfg.honest s = true →
      ∃ peers, .multicast k m.payload peers ∈ (t.sessions s).trace) := by
  have hsession := hl.sessions j hj
  have hid := (hsession.gadget.hashed k group echoHash h).ids m hm
  rcases hsession.exec.entered m (entered_of_hashed hsession.gadget h hm) with
    ⟨_, hsender, hsent⟩ | ⟨req, ⟨s, _, hindex, hbroadcast, _⟩, hb, rfl⟩
  · rw [hid] at hsent
    exact ⟨j, hsender, fun _ => hsent⟩
  · refine ⟨s, ?_, ?_⟩
    · show req.peerIndex + 1 = asU16 s + 1
      rw [hindex]
    · have hid : req.context.messageId = k := hid
      rw [← hid]
      exact (hbroadcast hb).2

/-- Only a session of at most `2 ^ 16` parties hashes a group. -/
theorem asU16_eq_of_hashed {cfg : Config P κ n} {j : Fin n} {group : List (EchoMessage (Handle n))}
    (hl : NetLedger cfg t) (hj : cfg.honest j = true)
    (h : .hashed k group echoHash ∈ (t.sessions j).trace) (s : Fin n) : asU16 s = s := by
  have hlast : n ∈ group.map (·.sender) := by
    rw [senders_of_hashed hl hj h, List.mem_range'_1]
    have hpos := s.isLt
    omega
  obtain ⟨m, hm, hsender⟩ := List.mem_map.mp hlast
  obtain ⟨s', hs', _⟩ := multicast_of_hashed hl hj h hm
  have hlt : asU16 s' < 2 ^ 16 := Nat.mod_lt _ (by decide)
  refine Nat.mod_eq_of_lt ?_
  have hpos := s.isLt
  omega

/-- Both parties hold the payload an honest sender has sent. -/
theorem payloadFrom_honest {cfg : Config P κ n} {A B s : Fin n}
    {group group' : List (EchoMessage (Handle n))} {echoHash' : Bytes} (hl : NetLedger cfg t)
    (hA : cfg.honest A = true) (hB : cfg.honest B = true) (hs : cfg.honest s = true)
    (h : .hashed k group echoHash ∈ (t.sessions A).trace)
    (h' : .hashed k group' echoHash' ∈ (t.sessions B).trace) :
    payloadFrom group (1 + s) = payloadFrom group' (1 + s) := by
  have hheld : ∀ (j : Fin n) (g : List (EchoMessage (Handle n))) (hash : Bytes),
      cfg.honest j = true → .hashed k g hash ∈ (t.sessions j).trace →
      ∃ payload peers, payloadFrom g (1 + s) = some payload ∧
        .multicast k payload peers ∈ (t.sessions s).trace := by
    intro j g hash hj hg
    have hsender : 1 + s.val ∈ g.map (·.sender) := by
      rw [senders_of_hashed hl hj hg, List.mem_range'_1]
      have hlt := s.isLt
      omega
    obtain ⟨m₀, hm₀, hm₀s⟩ := List.mem_map.mp hsender
    have hsome : (g.find? (·.sender = 1 + s.val)).isSome = true :=
      List.find?_isSome.mpr ⟨m₀, hm₀, decide_eq_true hm₀s⟩
    obtain ⟨m, hfind⟩ := Option.isSome_iff_exists.mp hsome
    have hm := List.mem_of_find?_eq_some hfind
    have hms : m.sender = 1 + s.val := by simpa using List.find?_some hfind
    obtain ⟨s', hs', hsent⟩ := multicast_of_hashed hl hj hg hm
    have heq : s' = s := by
      rw [asU16_eq_of_hashed hl hj hg s', hms] at hs'
      exact Fin.ext (by omega)
    subst heq
    obtain ⟨peers, hpeers⟩ := hsent hs
    exact ⟨m.payload, peers, by rw [payloadFrom, hfind]; rfl, hpeers⟩
  obtain ⟨payload, peers, hpayload, hsent⟩ := hheld A group echoHash hA h
  obtain ⟨payload', peers', hpayload', hsent'⟩ := hheld B group' echoHash' hB h'
  rw [hpayload, hpayload',
    (hl.sessions s hs).exec.sent_unique k payload peers payload' peers' hsent hsent']

variable [DecidableEq P]

/-- One dishonest party alone cannot make two honest ones disagree. -/
theorem samePayloads_of_dishonest_subsingleton {cfg : Config P κ n} {A B : Fin n}
    {group group' : List (EchoMessage (Handle n))} (hinj : Function.Injective Blake2s256.digest)
    (hreach : Reach (Net.step cfg) Always cfg.start t)
    (hone : {j | cfg.honest j = false}.Subsingleton) (hA : cfg.honest A = true)
    (hB : cfg.honest B = true) (hne : A ≠ B) (h : Succeeded (t.sessions A).trace k group)
    (h' : Succeeded (t.sessions B).trace k group') : SamePayloads n group group' := by
  have hl := netLedger_of_reach hreach
  have hbytes := payloads_eq hinj hl hA hB hne h h'
  obtain ⟨_, _, hgroup, _⟩ := h
  obtain ⟨_, _, hgroup', _⟩ := h'
  have hsenders := senders_of_hashed hl hA hgroup
  have hsenders' := senders_of_hashed hl hB hgroup'
  rw [samePayloads_iff_subsingleton hsenders hsenders' hbytes]
  -- a sender whose payloads differ in length is not honest
  have hdishonest : ∀ x ∈ lengthsDiffer group group',
      ∃ s : Fin n, x = 1 + s ∧ cfg.honest s = false := by
    intro x hx
    by_cases hrange : 1 ≤ x ∧ x ≤ n
    · refine ⟨⟨x - 1, by omega⟩, ?_, ?_⟩
      · show x = 1 + (x - 1)
        omega
      · by_contra hhonest
        rw [Bool.not_eq_false] at hhonest
        have hsame := payloadFrom_honest hl hA hB hhonest hgroup hgroup'
        have hx' : 1 + (x - 1) = x := by omega
        simp only [hx'] at hsame
        exact hx (congrArg _ hsame)
    · refine absurd ?_ hx
      rw [payloadFrom_eq_none hsenders hrange, payloadFrom_eq_none hsenders' hrange]
  intro x hx y hy
  obtain ⟨s, rfl, hs⟩ := hdishonest x hx
  obtain ⟨s', rfl, hs'⟩ := hdishonest y hy
  rw [hone hs hs']

/-- Take any run of the parties and their network, whatever the
dishonest parties send and answer. Let `proceed_round` have succeeded
for an id at two honest parties. They hold the same payload from every
sender if and only if the lengths of the payloads they hold differ for
one sender at most. -/
theorem samePayloads_iff {cfg : Config P κ n} {t : Net P κ n} {A B : Fin n} {k : Nat}
    {group group' : List (EchoMessage (Handle n))}
    (hinj : Function.Injective Blake2s256.digest)
    (hreach : Reach (Net.step cfg) Always cfg.start t)
    (hA : cfg.honest A = true) (hB : cfg.honest B = true) (hne : A ≠ B)
    (h : Succeeded (t.sessions A).trace k group) (h' : Succeeded (t.sessions B).trace k group') :
    SamePayloads n group group' ↔ (lengthsDiffer group group').Subsingleton := by
  have hl := netLedger_of_reach hreach
  have hbytes := payloads_eq hinj hl hA hB hne h h'
  obtain ⟨_, _, hgroup, _⟩ := h
  obtain ⟨_, _, hgroup', _⟩ := h'
  exact samePayloads_iff_subsingleton (senders_of_hashed hl hA hgroup)
    (senders_of_hashed hl hB hgroup') hbytes

end Agreement

namespace MovedByte

-- the runs below hash with the identity, which is injective
open scoped IdentityHash

/-- Four parties, of which the first two are honest. -/
def config : Config Nat Nat 4 where
  sessionId := noSessionId
  protocolId := 1
  peers := Fin.val
  peers_injective := Fin.val_injective
  honest j := j = 0 || j = 1
  rpcCaller _ := none

/-- A poll in which the agent does nothing. -/
def idlePoll (j : Fin 4) : NetLabel 4 :=
  .poll j 0 { received := 0, sent := [], result := none }

/-- A party broadcasts its payload. -/
def speaks (j : Fin 4) (payload : Bytes) : List (NetLabel 4) :=
  [.poll j 0 { received := 0, sent := [⟨payload, none⟩], result := none }, idlePoll j]

/-- A party takes the broadcasts of the others, and its gadget hashes
the round. -/
def hears (j : Fin 4) (others : List (Fin 4 × Bytes)) : List (NetLabel 4) :=
  others.flatMap (fun other => [.broadcast other.1 j 0 other.2, idlePoll j]) ++
    List.replicate 6 (.echo j)

/-- The others answer a party with this hash, and its gadget reads the
answers. -/
def isEchoed (j : Fin 4) (others : List (Fin 4)) (hash : Bytes) : List (NetLabel 4) :=
  others.flatMap fun other => [.respond j other 0 (.ok hash), .echo j]

/-- All bytes of the round. -/
def bytes : Bytes := [10, 20, 1, 2, 3]

/-- One round. The dishonest parties send `toFirst` to the first party
and `toSecond` to the second, and answer both with all the bytes. -/
def round (toFirst toSecond : Bytes × Bytes) : List (NetLabel 4) :=
  speaks 0 [10] ++ speaks 1 [20] ++
    hears 0 [(1, [20]), (2, toFirst.1), (3, toFirst.2)] ++
    hears 1 [(0, [10]), (2, toSecond.1), (3, toSecond.2)] ++
    isEchoed 0 [1, 2, 3] bytes ++ isEchoed 1 [0, 2, 3] bytes

/-- What a party holds after the round. -/
def group (own : Fin 4) (others : Bytes × Bytes) : List (EchoMessage (Handle 4)) :=
  let response (j : Fin 4) : EchoResponse (Handle 4) :=
    if j = own then .outgoing 0 else .incoming (.echo j 0)
  [{ messageId := 0, sender := 1, payload := [10], response := response 0 },
    { messageId := 0, sender := 2, payload := [20], response := response 1 },
    { messageId := 0, sender := 3, payload := others.1, response := response 2 },
    { messageId := 0, sender := 4, payload := others.2, response := response 3 }]

/-- The answers of the others. -/
def answers (others : List Nat) : List (RemoteEcho Nat) :=
  others.map fun other => .ok (other, bytes)

/-- The dishonest parties send the same to both, and both agree. -/
theorem samePayloads_round :
    ∃ t, run (Net.step config) config.start (round ([1, 2], [3]) ([1, 2], [3])) = some t ∧
      Succeeded (t.sessions 0).trace 0 (group 0 ([1, 2], [3])) ∧
      Succeeded (t.sessions 1).trace 0 (group 1 ([1, 2], [3])) ∧
      SamePayloads 4 (group 0 ([1, 2], [3])) (group 1 ([1, 2], [3])) := by
  obtain ⟨t, hrun, hfirst, hsecond⟩ :
      ∃ t, run (Net.step config) config.start (round ([1, 2], [3]) ([1, 2], [3])) = some t ∧
        Succeeded (t.sessions 0).trace 0 (group 0 ([1, 2], [3])) ∧
        Succeeded (t.sessions 1).trace 0 (group 1 ([1, 2], [3])) := by
    refine ⟨_, rfl, ?_, ?_⟩
    · exact ⟨bytes, answers [1, 2, 3], List.mem_of_getElem? (i := 11) rfl,
        List.mem_of_getElem? (i := 12) rfl⟩
    · exact ⟨bytes, answers [0, 2, 3], List.mem_of_getElem? (i := 11) rfl,
        List.mem_of_getElem? (i := 12) rfl⟩
  refine ⟨t, hrun, hfirst, hsecond, ?_⟩
  refine (samePayloads_iff (A := 0) (B := 1) (fun _ _ h => h) (reach_of_run _ hrun) rfl rfl
    (by decide) hfirst hsecond).mpr ?_
  -- no payload differs
  have hsame : ∀ sender, payloadFrom (group 0 ([1, 2], [3])) sender
      = payloadFrom (group 1 ([1, 2], [3])) sender := by
    intro sender
    simp only [payloadFrom, group, List.find?]
    cases decide (1 = sender) <;> cases decide (2 = sender) <;> cases decide (3 = sender) <;>
      cases decide (4 = sender) <;> rfl
  intro sender hsender
  exact absurd (congrArg _ (hsame sender)) hsender

/-- The third party sends `[1, 2]` to the first party and `[1]` to the
second, the fourth party `[3]` and `[2, 3]`. Both honest parties hash
the same bytes, and both rounds succeed. -/
theorem not_samePayloads_movedByte :
    Function.Injective Blake2s256.digest ∧
    ∃ t, run (Net.step config) config.start (round ([1, 2], [3]) ([1], [2, 3])) = some t ∧
      Succeeded (t.sessions 0).trace 0 (group 0 ([1, 2], [3])) ∧
      Succeeded (t.sessions 1).trace 0 (group 1 ([1], [2, 3])) ∧
      ¬ SamePayloads 4 (group 0 ([1, 2], [3])) (group 1 ([1], [2, 3])) := by
  refine ⟨fun _ _ h => h, _, rfl, ?_, ?_, ?_⟩
  · exact ⟨bytes, answers [1, 2, 3], List.mem_of_getElem? (i := 11) rfl,
      List.mem_of_getElem? (i := 12) rfl⟩
  · exact ⟨bytes, answers [0, 2, 3], List.mem_of_getElem? (i := 11) rfl,
      List.mem_of_getElem? (i := 12) rfl⟩
  · intro hsame
    obtain ⟨payload, h, h'⟩ := hsame 3 (by decide) (by decide)
    cases h
    cases h'

end MovedByte

end FrostMpcTss.Proofs
