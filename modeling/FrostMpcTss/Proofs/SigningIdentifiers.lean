import FrostMpcTss.Proofs.Execution
import FrostMpcTss.Proofs.PeersetOrder
import FrostMpcTss.Tss.KeyShare

/-!
# `FrostMpcTss.Proofs.SigningIdentifiers`: one numbering on all nodes

A session's peerset is sorted by the bytes of the peer ids, so it does
not depend on who proposed the session or in which order the responses
came in. The keygen identifier of a peer is its position in that order,
from one on, and the peers of a signing session stand in the same order.
The identifiers a signing session works with are therefore the keygen
identifiers of its peers, in increasing order, on every node
(`identifiersAgree`).
-/

set_option autoImplicit false

namespace FrostMpcTss.Proofs

open Lib Network Service Tss

section Identifiers

variable {P : Type} [DecidableEq P]

/-- The peerset a node works with: the proposer makes it of the peers in
the order it has collected them, and the others decode it and put their
own peer id in. -/
def sessionPeerset [PeerIdCodec P] (order : List P) (proposer node : P) : Peerset P :=
  { Peerset.new order proposer with localPeerId := node }

theorem lookup_zipIdx {peers : List P} {p : P} (h : p ∈ peers) (start : Nat) :
    (peers.zipIdx start).lookup p = some (start + peers.idxOf p) := by
  induction peers generalizing start with
  | nil => cases h
  | cons q peers ih =>
      rw [List.zipIdx_cons, List.lookup_cons]
      by_cases hpq : p = q
      · subst hpq
        simp
      · have hmem : p ∈ peers := (List.mem_cons.mp h).resolve_left hpq
        rw [List.idxOf_cons_ne _ (Ne.symm hpq), beq_false_of_ne hpq, ih hmem]
        simp only [Option.some.injEq]
        omega

theorem indexOf_eq {p : Peerset P} {q : P} (h : q ∈ p.peers) (hsmall : p.size < 2 ^ 16) :
    p.indexOf q = some (p.peers.idxOf q) := by
  have hlt : p.peers.idxOf q < p.size := List.idxOf_lt_length_of_mem h
  rw [indexOf_eq_some_of_mem h, asU16, Nat.mod_eq_of_lt (by omega)]

variable [PeerIdText P]

omit [DecidableEq P] in
/-- The participants of a keygen session, as long as the identifiers fit. -/
theorem keyShareParticipantsFrom_eq (peers : List P) (start : Nat)
    (h : start + peers.length < 2 ^ 16) :
    KeyGen.keyShareParticipantsFrom start peers
      = .ok ((peers.zipIdx start).map fun p =>
          { peerId := PeerIdText.toBase58 p.1, identifier := p.2 + 1 }) := by
  induction peers generalizing start with
  | nil => rfl
  | cons p peers ih =>
      rw [List.length_cons] at h
      have hsucc : succU16 (asU16 start) = .ok (start + 1) := by
        rw [asU16, Nat.mod_eq_of_lt (by omega), succU16, if_pos (by omega)]
      rw [KeyGen.keyShareParticipantsFrom, hsucc, ih (start + 1) (by omega)]
      rfl

/-- The first loop of `key_share_parties_for_peers` accepts them. -/
theorem participantIdentifiers_eq [LawfulPeerIdText P] {maxSigners : Nat} {peers : List P}
    {start : Nat} {used : List Nat} (identifiers : List (P × Nat))
    (hnodup : (identifiers.map Prod.fst ++ peers).Nodup) (hused : ∀ u ∈ used, u ≤ start)
    (hmax : start + peers.length ≤ maxSigners) :
    KeySign.participantIdentifiers maxSigners
        ((peers.zipIdx start).map fun p =>
          { peerId := PeerIdText.toBase58 p.1, identifier := p.2 + 1 }) used identifiers
      = .ok (identifiers ++ peers.zipIdx (start + 1)) := by
  induction peers generalizing start used identifiers with
  | nil => rw [List.zipIdx_nil, List.zipIdx_nil, List.append_nil]; rfl
  | cons p peers ih =>
      rw [List.length_cons] at hmax
      have hfresh : (identifiers.lookup p).isSome = false := by
        rw [Option.isSome_eq_false_iff, Option.isNone_iff_eq_none, List.lookup_eq_none_iff]
        intro q hq
        have hdisjoint := (List.nodup_append.mp hnodup).2.2
        exact bne_iff_ne.mpr (hdisjoint _ (List.mem_map_of_mem hq) _ List.mem_cons_self).symm
      have hunused : start + 1 ∉ used := fun hmem => by
        have hle := hused _ hmem
        omega
      rw [List.zipIdx_cons, List.map_cons, KeySign.participantIdentifiers]
      simp only [LawfulPeerIdText.fromStr_toBase58, mapErr, Except.ok_bind]
      rw [if_neg (Nat.succ_ne_zero start), if_neg (by omega), if_neg hunused, hfresh,
        if_neg Bool.false_ne_true, ih]
      · rw [List.zipIdx_cons, List.append_assoc]
        rfl
      · rw [List.map_append, List.append_assoc]
        exact hnodup
      · intro u hu
        rcases List.mem_cons.mp hu with rfl | hu
        · exact Nat.le_refl _
        · exact Nat.le_succ_of_le (hused u hu)
      · omega

/-- The second loop finds the position of every peer. -/
theorem mappedParties_eq {keygen peers : List P} (h : peers ⊆ keygen) :
    KeySign.mappedParties (keygen.zipIdx 1) peers = .ok (peers.map keygen.idxOf) := by
  induction peers with
  | nil => rfl
  | cons p peers ih =>
      obtain ⟨hp, hpeers⟩ := List.cons_subset.mp h
      rw [KeySign.mappedParties, lookup_zipIdx hp, ih hpeers]
      show Except.ok ((1 + keygen.idxOf p - 1) :: _) = _
      rw [Nat.add_sub_cancel_left]
      rfl

/-- The key share of a node, where the identifiers fit into `u16`. -/
def shareOf (curve : Curve) (threshold : Nat) (keygen : List P) (node : P)
    (material : KeyMaterial) : KeyShare where
  toKeyMaterial := material
  curve := curve
  identifier := keygen.idxOf node + 1
  minSigners := threshold
  maxSigners := keygen.length
  participants := keygen.zipIdx.map fun p =>
    { peerId := PeerIdText.toBase58 p.1, identifier := p.2 + 1 }

/-- The key share names every peer with its position. -/
theorem keyShareData_eq {curve : Curve} {threshold : Nat} {peerset : Peerset P}
    {material : KeyMaterial} (hlocal : peerset.localPeerId ∈ peerset.peers)
    (hsmall : peerset.size < 2 ^ 16) :
    KeyGen.keyShareData curve threshold peerset material
      = .ok (shareOf curve threshold peerset.peers peerset.localPeerId material) := by
  have hlt : peerset.peers.idxOf peerset.localPeerId < peerset.size :=
    List.idxOf_lt_length_of_mem hlocal
  have hsucc : succU16 (peerset.peers.idxOf peerset.localPeerId)
      = .ok (peerset.peers.idxOf peerset.localPeerId + 1) := if_pos (by omega)
  have hparticipants := keyShareParticipantsFrom_eq peerset.peers 0
    (by rw [Nat.zero_add]; exact hsmall)
  rw [KeyGen.keyShareData, indexOf_eq hlocal hsmall, KeyGen.keyShareParticipantsFromPeers,
    hparticipants]
  simp only [Outcome.ofOption, Outcome.ok_bind, hsucc, KeyGen.liftPanic, asU16,
    Nat.mod_eq_of_lt hsmall]
  rfl

/-- A signing session over peers of the keygen session. -/
theorem participantsOf_eq [LawfulPeerIdText P] (curve : Curve) (threshold : Nat)
    (material : KeyMaterial) {keygen : List P} (peerset : Peerset P) (hnodup : keygen.Nodup)
    (hsmall : keygen.length < 2 ^ 16) (hsub : peerset.peers ⊆ keygen)
    (hlocal : peerset.localPeerId ∈ keygen) :
    KeySign.keySharePartiesForPeers peerset.peers peerset.localPeerId
        (shareOf curve threshold keygen peerset.localPeerId material)
        = .ok (peerset.peers.map keygen.idxOf, keygen.idxOf peerset.localPeerId + 1) ∧
      KeySign.participantsOf peerset
        (shareOf curve threshold keygen peerset.localPeerId material)
        = .ok (keygen.idxOf peerset.localPeerId + 1,
            peerset.peers.map fun p => keygen.idxOf p + 1) := by
  have hparties : KeySign.keySharePartiesForPeers peerset.peers peerset.localPeerId
      (shareOf curve threshold keygen peerset.localPeerId material)
      = .ok (peerset.peers.map keygen.idxOf, keygen.idxOf peerset.localPeerId + 1) := by
    have hne : (shareOf curve threshold keygen peerset.localPeerId material).participants
        ≠ [] := by
      intro hnil
      have hzero := congrArg List.length hnil
      rw [shareOf, List.length_map, List.length_zipIdx] at hzero
      exact absurd hlocal (by rw [List.length_eq_zero_iff.mp hzero]; exact List.not_mem_nil)
    have hidentifiers : KeySign.participantIdentifiers (P := P) keygen.length
        (shareOf curve threshold keygen peerset.localPeerId material).participants [] []
        = .ok (keygen.zipIdx 1) :=
      participantIdentifiers_eq [] hnodup nofun (by rw [Nat.zero_add])
    rw [KeySign.keySharePartiesForPeers, if_neg hne]
    show (KeySign.participantIdentifiers keygen.length _ [] [] >>= _) = _
    rw [hidentifiers, Except.ok_bind, mappedParties_eq hsub, Except.ok_bind,
      lookup_zipIdx hlocal, Nat.add_comm]
    rfl
  refine ⟨hparties, ?_⟩
  rw [KeySign.participantsOf, hparties]
  simp only [Except.ok_bind, shareOf, ne_eq, not_true_eq_false, if_false]
  show Except.ok (_, (peerset.peers.map keygen.idxOf).map _) = _
  rw [List.map_map]
  congr 2
  refine List.map_congr_left fun p hp => ?_
  have hlt := List.idxOf_lt_length_of_mem (hsub hp)
  show asU16 (keygen.idxOf p + 1) = keygen.idxOf p + 1
  exact Nat.mod_eq_of_lt (by omega)

end Identifiers

section Agreement

variable {P : Type} [DecidableEq P] [PeerIdText P] [KeyShareJson]

/-- The nodes of a signing session number its members alike, and as the
keygen did. `share` are the key shares of the keygen, `peersetOf` the
peersets of the signing session. -/
structure IdentifiersAgree (share : P → KeyShare) (peersetOf : P → Peerset P) (signers : List P)
    (participants : List Nat) : Prop where
  increasing : participants.Pairwise (· < ·)
  exactly : ∀ u, u ∈ participants ↔ ∃ j ∈ signers, (share j).identifier = u
  /-- What a node reads back leads to its own identifier, and to the same
  participants on all nodes. -/
  computed : ∀ j ∈ signers, ∀ bytes stored, KeyShareJson.toVec (share j) = .ok bytes →
    KeyShareJson.fromSlice bytes = .ok stored →
    (∃ parties, KeySign.keySharePartiesForPeers (peersetOf j).peers (peersetOf j).localPeerId
      stored = .ok (parties, (share j).identifier)) ∧
    KeySign.participantsOf (peersetOf j) stored = .ok ((share j).identifier, participants)
  /-- A message of a member is attributed to its identifier. -/
  senders : ∀ j ∈ signers, ∀ m ∈ signers, ∃ index, (peersetOf j).indexOf m = some index ∧
    KeySign.participantIdentifierForSessionIndex (index + 1) participants
      = .ok (share m).identifier

/-- Take a keygen session over at most 65535 distinct peers and a signing
session over some of them, whoever proposed them and in whatever order
the responses were collected. Every node of the keygen has a key share,
and the nodes of the signing session agree on the identifiers. -/
theorem identifiersAgree [PeerIdCodec P] [LawfulPeerIdCodec P] [LawfulPeerIdText P]
    [LawfulKeyShareJson] (curve : Curve) (threshold : Nat) (material : P → KeyMaterial)
    {keygenOrder signOrder : List P} {keygenProposer signProposer : P}
    (hnodup : keygenOrder.Nodup) (hsmall : keygenOrder.length ≤ 65535)
    (hsnodup : signOrder.Nodup) (hsub : signOrder ⊆ keygenOrder) :
    ∃ share : P → KeyShare,
      (∀ j ∈ keygenOrder, KeyGen.keyShareData curve threshold
        (sessionPeerset keygenOrder keygenProposer j) (material j) = .ok (share j)) ∧
      ∃ participants,
        IdentifiersAgree share (sessionPeerset signOrder signProposer) signOrder
          participants := by
  have hkeygen := perm_peers keygenOrder keygenProposer
  have hsign := perm_peers signOrder signProposer
  have hsorted := pairwise_peers keygenOrder keygenProposer
  have hsorted' := pairwise_peers signOrder signProposer
  have hnodup' : (Peerset.new signOrder signProposer).peers.Nodup := hsign.nodup_iff.mpr hsnodup
  have hlength : (Peerset.new keygenOrder keygenProposer).peers.length < 2 ^ 16 := by
    rw [hkeygen.length_eq]
    omega
  have hmem : ∀ j, j ∈ signOrder → j ∈ (Peerset.new keygenOrder keygenProposer).peers :=
    fun j hj => hkeygen.mem_iff.mpr (hsub hj)
  have hsubset : (Peerset.new signOrder signProposer).peers
      ⊆ (Peerset.new keygenOrder keygenProposer).peers :=
    fun p hp => hmem p (hsign.mem_iff.mp hp)
  generalize hK : (Peerset.new keygenOrder keygenProposer).peers = keygen at *
  generalize hS : (Peerset.new signOrder signProposer).peers = signers at *
  have hkeygenPeers : ∀ j, (sessionPeerset keygenOrder keygenProposer j).peers = keygen :=
    fun _ => hK
  have hsignPeers : ∀ j, (sessionPeerset signOrder signProposer j).peers = signers :=
    fun _ => hS
  refine ⟨fun j => shareOf curve threshold keygen j (material j),
    fun j hj => ?_, signers.map fun p => keygen.idxOf p + 1, ?_, ?_, ?_, ?_⟩
  · rw [keyShareData_eq, hkeygenPeers]
    · rfl
    · rw [hkeygenPeers]
      exact hkeygen.mem_iff.mpr hj
    · rw [Peerset.size, hkeygenPeers]
      exact hlength
  · -- the signers stand in the order of the keygen
    refine List.pairwise_map.mpr ?_
    refine (hsorted'.and hnodup').imp_of_mem ?_
    rintro a b ha hb ⟨hle, hne⟩
    exact Nat.succ_lt_succ (idxOf_lt_idxOf hsorted (hsubset ha) (hsubset hb) hne hle)
  · intro u
    rw [List.mem_map]
    exact exists_congr fun j => and_congr_left fun _ => hsign.mem_iff
  · intro j hj bytes stored hbytes hstored
    rw [LawfulKeyShareJson.fromSlice_toVec _ _ hbytes] at hstored
    cases hstored
    obtain ⟨hparties, hparticipants⟩ := participantsOf_eq curve threshold (material j)
      (sessionPeerset signOrder signProposer j) (hkeygen.nodup_iff.mpr hnodup) hlength
      (by rw [hsignPeers]; exact hsubset) (hmem j hj)
    refine ⟨⟨_, hparties⟩, hparticipants.trans ?_⟩
    rw [hsignPeers]
    rfl
  · intro j hj m hm
    have hin : m ∈ signers := hsign.mem_iff.mpr hm
    have hlt := List.idxOf_lt_length_of_mem hin
    have hle : signers.length ≤ keygen.length :=
      (List.subperm_of_subset hnodup' hsubset).length_le
    refine ⟨signers.idxOf m, ?_, ?_⟩
    · rw [indexOf_eq, hsignPeers]
      · rw [hsignPeers]
        exact hin
      · rw [Peerset.size, hsignPeers]
        omega
    · rw [KeySign.participantIdentifierForSessionIndex, if_neg (Nat.succ_ne_zero _),
        Nat.add_sub_cancel, List.getElem?_map, List.getElem?_eq_getElem hlt,
        List.getElem_idxOf hlt]
      rfl

end Agreement

namespace ThreeOfFour

local instance four_neZero : NeZero 4 := ⟨by decide⟩

/-- Four nodes, whose bytes are in the opposite order of their numbers. -/
local instance : PeerIdCodec (Fin 4) where
  toBytes node := [UInt8.ofNat (3 - node)]
  fromBytes
    | [b] => if h : b.toNat < 4 then some (Fin.rev ⟨b.toNat, h⟩) else none
    | _ => none

local instance : LawfulPeerIdCodec (Fin 4) where
  fromBytes_toBytes := by decide
  length_toBytes_le node := by
    show 1 ≤ 66
    decide
  length_of_fromBytes {b node} h := by
    cases b with
    | nil => cases h
    | cons b rest => exact Nat.succ_le_succ (Nat.zero_le _)

def text (node : Fin 4) : String := ["first", "second", "third", "fourth"].getD node ""

local instance : PeerIdText (Fin 4) where
  toBase58 := text
  fromStr name :=
    match (List.finRange 4).find? fun node => text node = name with
    | some node => .ok node
    | none => .error "no such node"

local instance : LawfulPeerIdText (Fin 4) where
  fromStr_toBase58 := by decide

def material (_ : Fin 4) : KeyMaterial where
  signingKey := [1]
  publicKey := [2]
  groupPublicKey := [3]
  publicKeyPackage := [4]

/-- The key shares of a keygen of all four. -/
def shares : List KeyShare :=
  (List.finRange 4).map fun node => shareOf .ed25519 2 [3, 2, 1, 0] node (material node)

/-- Each of these key shares is stored as its position. -/
local instance : KeyShareJson where
  toVec share := if share ∈ shares then .ok [UInt8.ofNat (shares.idxOf share)] else .error "unknown"
  fromSlice
    | [b] =>
        match shares[b.toNat]? with
        | some share => .ok share
        | none => .error "unknown"
    | _ => .error "unknown"

local instance : LawfulKeyShareJson where
  fromSlice_toVec share bytes h := by
    by_cases hmem : share ∈ shares
    · have hlt : shares.idxOf share < 4 := List.idxOf_lt_length_of_mem hmem
      have hbytes : bytes = [UInt8.ofNat (shares.idxOf share)] := by
        have h : (if share ∈ shares then _ else _) = Except.ok bytes := h
        rw [if_pos hmem] at h
        exact (Except.ok.inj h).symm
      subst hbytes
      show (match shares[(UInt8.ofNat (shares.idxOf share)).toNat]? with
        | some share => Except.ok share
        | none => Except.error "unknown") = .ok share
      rw [UInt8.toNat_ofNat', Nat.mod_eq_of_lt (by omega),
        List.getElem?_eq_getElem (List.idxOf_lt_length_of_mem hmem),
        List.getElem_idxOf (List.idxOf_lt_length_of_mem hmem)]
    · have h : (if share ∈ shares then _ else _) = Except.ok bytes := h
      rw [if_neg hmem] at h
      cases h

/-- Four nodes generate a key, and three of them sign. -/
theorem identifiersAgree_threeOfFour :
    ∃ share : Fin 4 → KeyShare,
      (∀ j ∈ [2, 0, 3, 1], KeyGen.keyShareData .ed25519 2
        (sessionPeerset [2, 0, 3, 1] 1 j) (material j) = .ok (share j)) ∧
      ∃ participants,
        IdentifiersAgree share (sessionPeerset [0, 3, 1] 3) [0, 3, 1] participants :=
  identifiersAgree .ed25519 2 material (by decide) (by decide) (by decide) (by decide)

end ThreeOfFour

end FrostMpcTss.Proofs
