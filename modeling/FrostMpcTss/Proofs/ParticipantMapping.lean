import FrostMpcTss.Lib.Except
import FrostMpcTss.Proofs.SigningTurns
import FrostMpcTss.Tss.KeyShare

/-!
# `FrostMpcTss.Proofs.ParticipantMapping`: which key shares a session accepts

`key_share_parties_for_peers` checks the participants of a key share while
it collects their identifiers. `participantIdentifiers_eq_ok` says what has
been checked when it has collected all of them: the entries are those of
the participants, in order, and none of the six defects is there.
`mapping_validates` puts this together with the search for the session's
peers: the function succeeds on the valid mappings and no others.
-/

set_option autoImplicit false

namespace FrostMpcTss.Proofs

open Lib Network Service
open Tss Tss.KeySign

theorem exists_mem_of_forall₂ {α β : Type} {R : α → β → Prop} {l : List α} {l' : List β}
    (h : List.Forall₂ R l l') {a : α} (ha : a ∈ l) : ∃ b ∈ l', R a b := by
  induction h with
  | nil => cases ha
  | cons hrel _ ih =>
      rcases List.mem_cons.mp ha with rfl | ha
      · exact ⟨_, List.mem_cons_self, hrel⟩
      · obtain ⟨b, hb, hrel⟩ := ih ha
        exact ⟨b, List.mem_cons_of_mem _ hb, hrel⟩

theorem rel_of_forall₂ {α β : Type} {R : α → β → Prop} {l : List α} {l' : List β}
    (h : List.Forall₂ R l l') {k : Nat} {a : α} {b : β} (ha : l[k]? = some a)
    (hb : l'[k]? = some b) : R a b := by
  induction h generalizing k with
  | nil => cases ha
  | cons hrel _ ih =>
      cases k with
      | zero =>
          cases ha
          cases hb
          exact hrel
      | succ k => exact ih ha hb

variable {P : Type} [PeerIdText P] {entries : List (P × Nat)} {peers : List P} {localPeerId : P}

/-- The peer of a participant. -/
def ParticipantIs (q : KeyShareParticipant) (p : P) : Prop :=
  PeerIdText.fromStr q.peerId = .ok p

/-- A peer takes part under an identifier. -/
def HasIdentifier (share : KeyShare) (p : P) (identifier : Nat) : Prop :=
  ∃ q ∈ share.participants, ParticipantIs q p ∧ q.identifier = identifier

/-- What `key_share_parties_for_peers` asks of its arguments. -/
structure ValidMapping (share : KeyShare) (peers : List P) (localPeerId : P) : Prop where
  nonempty : share.participants ≠ []
  parses : ∀ q ∈ share.participants, ∃ p : P, ParticipantIs q p
  range : ∀ q ∈ share.participants, 1 ≤ q.identifier ∧ q.identifier ≤ share.maxSigners
  identifiers : (share.participants.map (·.identifier)).Nodup
  peerIds : share.participants.Pairwise fun q q' =>
    ∀ p : P, ParticipantIs q p → ¬ ParticipantIs q' p
  members : ∀ p ∈ peers, ∃ q ∈ share.participants, ParticipantIs q p
  localMember : ∃ q ∈ share.participants, ParticipantIs q localPeerId

/-- What it returns: for each peer its identifier minus one, and the
identifier of the local peer. -/
structure MapsPeers (share : KeyShare) (peers : List P) (localPeerId : P) (parties : List Nat)
    (localIdentifier : Nat) : Prop where
  outputs : List.Forall₂ (fun p index => HasIdentifier share p (index + 1)) peers parties
  injective : ∀ {k k' index : Nat} {p p' : P}, peers[k]? = some p → peers[k']? = some p' →
    parties[k]? = some index → parties[k']? = some index → p = p'
  localIdentifier : HasIdentifier share localPeerId localIdentifier

/-! ### The entries of the participants -/

/-- The entry of a participant. -/
def EntryOf (q : KeyShareParticipant) (e : P × Nat) : Prop :=
  ParticipantIs q e.1 ∧ q.identifier = e.2

/-- The entries of participants without a defect, next to those that are
there. -/
structure Entries (maxSigners : Nat) (participants : List KeyShareParticipant) (used : List Nat)
    (before entries : List (P × Nat)) : Prop where
  entryOf : List.Forall₂ EntryOf participants entries
  range : ∀ e ∈ entries, 1 ≤ e.2 ∧ e.2 ≤ maxSigners
  unused : ∀ e ∈ entries, e.2 ∉ used
  identifiers : (entries.map Prod.snd).Nodup
  fresh : ∀ e ∈ entries, e.1 ∉ before.map Prod.fst
  peerIds : (entries.map Prod.fst).Nodup

/-- What the loop over the participants checks of one of them. -/
theorem entries_cons_iff {maxSigners : Nat} {q : KeyShareParticipant}
    {rest : List KeyShareParticipant} {used : List Nat} {before : List (P × Nat)} {e : P × Nat} :
    Entries maxSigners (q :: rest) used before (e :: entries) ↔
      EntryOf q e ∧ (1 ≤ e.2 ∧ e.2 ≤ maxSigners) ∧ e.2 ∉ used ∧ e.1 ∉ before.map Prod.fst ∧
        Entries maxSigners rest (e.2 :: used) (before ++ [e]) entries := by
  constructor
  · rintro ⟨hentry, hrange, hunused, hids, hfresh, hpeers⟩
    obtain ⟨hhead, htail⟩ := List.forall₂_cons.mp hentry
    rw [List.map_cons, List.nodup_cons] at hids hpeers
    refine ⟨hhead, hrange e List.mem_cons_self, hunused e List.mem_cons_self,
      hfresh e List.mem_cons_self, htail, fun e' he' => hrange e' (List.mem_cons_of_mem _ he'),
      fun e' he' hmem => ?_, hids.2, fun e' he' hmem => ?_, hpeers.2⟩
    · rcases List.mem_cons.mp hmem with heq | hmem
      · exact hids.1 (heq ▸ List.mem_map_of_mem he')
      · exact hunused e' (List.mem_cons_of_mem _ he') hmem
    · rw [List.map_append, List.mem_append] at hmem
      rcases hmem with hmem | hmem
      · exact hfresh e' (List.mem_cons_of_mem _ he') hmem
      · have heq : e'.1 = e.1 := by simpa using hmem
        exact hpeers.1 (heq ▸ List.mem_map_of_mem he')
  · rintro ⟨hhead, hrange, hunused, hfresh, h⟩
    have hmap : ∀ e' ∈ entries, e'.1 ≠ e.1 := fun e' he' heq => h.fresh e' he' (by simp [heq])
    have hid : ∀ e' ∈ entries, e'.2 ≠ e.2 := fun e' he' heq => h.unused e' he' (by simp [heq])
    refine ⟨.cons hhead h.entryOf, ?_, ?_, ?_, ?_, ?_⟩
    · exact List.forall_mem_cons.mpr ⟨hrange, h.range⟩
    · exact List.forall_mem_cons.mpr
        ⟨hunused, fun e' he' hmem => h.unused e' he' (List.mem_cons_of_mem _ hmem)⟩
    · rw [List.map_cons, List.nodup_cons]
      refine ⟨fun hmem => ?_, h.identifiers⟩
      obtain ⟨e', he', heq⟩ := List.mem_map.mp hmem
      exact hid e' he' heq
    · refine List.forall_mem_cons.mpr ⟨hfresh, fun e' he' hmem => h.fresh e' he' ?_⟩
      rw [List.map_append]
      exact List.mem_append_left _ hmem
    · rw [List.map_cons, List.nodup_cons]
      refine ⟨fun hmem => ?_, h.peerIds⟩
      obtain ⟨e', he', heq⟩ := List.mem_map.mp hmem
      exact hmap e' he' heq

variable [DecidableEq P]

omit [PeerIdText P] in
theorem lookup_isSome_iff {p : P} :
    (entries.lookup p).isSome = true ↔ p ∈ entries.map Prod.fst := by
  rw [← not_iff_not, Bool.not_eq_true, Option.isSome_eq_false_iff, Option.isNone_iff_eq_none,
    List.lookup_eq_none_iff, List.mem_map]
  constructor
  · rintro h ⟨e, he, rfl⟩
    exact absurd (h e he) (by simp)
  · intro h e he
    exact bne_iff_ne.mpr fun heq => h ⟨e, he, heq.symm⟩

/-- The first loop succeeds exactly when none of the participants has a
defect, and then has their entries. -/
theorem participantIdentifiers_eq_ok {maxSigners : Nat} {participants : List KeyShareParticipant}
    {used : List Nat} {before result : List (P × Nat)} :
    participantIdentifiers maxSigners participants used before = .ok result ↔
      ∃ entries, result = before ++ entries ∧
        Entries maxSigners participants used before entries := by
  induction participants generalizing used before with
  | nil =>
      rw [participantIdentifiers]
      constructor
      · intro h
        cases h
        exact ⟨[], (List.append_nil _).symm, .nil, nofun, nofun, .nil, nofun, .nil⟩
      · rintro ⟨entries, rfl, h⟩
        cases h.entryOf
        rw [List.append_nil]
  | cons q rest ih =>
      rw [participantIdentifiers]
      constructor
      · intro h
        obtain ⟨p, hp, h⟩ := Lib.Except.bind_eq_ok.mp h
        -- the four checks of the loop, in its order
        have hp : ParticipantIs q p := mapErr_eq_ok.mp hp
        split at h
        · cases h
        · rename_i hzero
          split at h
          · cases h
          · rename_i hmax
            split at h
            · cases h
            · rename_i hused
              split at h
              · cases h
              · rename_i hfresh
                rw [lookup_isSome_iff] at hfresh
                obtain ⟨entries, hresult, hentries⟩ := ih.mp h
                rw [List.append_assoc] at hresult
                refine ⟨(p, q.identifier) :: entries, hresult, entries_cons_iff.mpr
                  ⟨⟨hp, rfl⟩, ⟨Nat.one_le_iff_ne_zero.mpr hzero, Nat.le_of_not_lt hmax⟩, hused,
                    hfresh, hentries⟩⟩
      · rintro ⟨entries, rfl, h⟩
        cases entries with
        | nil => cases h.entryOf
        | cons e entries =>
            -- an entry without a defect passes the same four checks
            obtain ⟨⟨hp, hid⟩, ⟨hpos, hle⟩, hused, hfresh, h⟩ := entries_cons_iff.mp h
            obtain ⟨p, identifier⟩ := e
            subst hid
            have hp : PeerIdText.fromStr q.peerId = .ok p := hp
            simp only [hp, mapErr, Lib.Except.ok_bind]
            rw [if_neg (Nat.one_le_iff_ne_zero.mp hpos), if_neg (Nat.not_lt.mpr hle),
              if_neg hused, if_neg (by rwa [lookup_isSome_iff])]
            exact ih.mpr ⟨entries, by rw [List.append_assoc]; rfl, h⟩

/-! ### The peers of the session -/

omit [PeerIdText P] in
/-- Of entries for distinct peers, the entry of a peer is found. -/
theorem lookup_eq_some_iff (h : (entries.map Prod.fst).Nodup) {p : P} {u : Nat} :
    entries.lookup p = some u ↔ (p, u) ∈ entries := by
  induction entries with
  | nil => simp
  | cons e entries ih =>
      rw [List.map_cons, List.nodup_cons] at h
      rw [List.lookup_cons, List.mem_cons]
      by_cases hp : p = e.1
      · subst hp
        have hnot : (e.1, u) ∉ entries := fun hmem =>
          h.1 (List.mem_map.mpr ⟨_, hmem, rfl⟩)
        simp [hnot, Prod.ext_iff, eq_comm]
      · rw [beq_false_of_ne hp, ih h.2]
        refine (or_iff_right fun heq => hp ?_).symm
        rw [← heq]

/-- The second loop succeeds when every peer has an entry. -/
theorem mappedParties_eq_ok (h : (entries.map Prod.fst).Nodup) {parties : List Nat} :
    mappedParties entries peers = .ok parties ↔
      List.Forall₂ (fun p index => ∃ u, (p, u) ∈ entries ∧ index = u - 1) peers parties := by
  induction peers generalizing parties with
  | nil =>
      rw [mappedParties, List.forall₂_nil_left_iff]
      exact ⟨fun heq => by cases heq; rfl, fun heq => by rw [heq]⟩
  | cons p peers ih =>
      rw [mappedParties]
      cases hlookup : entries.lookup p with
      | none =>
          -- the loop ends with the first peer that has no entry
          refine iff_of_false nofun fun hall => ?_
          cases hall with
          | cons hp _ =>
              obtain ⟨u, hmem, _⟩ := hp
              rw [(lookup_eq_some_iff h).mpr hmem] at hlookup
              cases hlookup
      | some u =>
          have hmem := (lookup_eq_some_iff h).mp hlookup
          constructor
          · intro hok
            obtain ⟨rest, hrest, hok⟩ := Lib.Except.bind_eq_ok.mp hok
            cases hok
            exact .cons ⟨u, hmem, rfl⟩ (ih.mp hrest)
          · intro hall
            cases hall with
            | cons hp hrest =>
                obtain ⟨u', hmem', rfl⟩ := hp
                rw [(lookup_eq_some_iff h).mpr hmem'] at hlookup
                cases hlookup
                simp only [ih.mpr hrest, Lib.Except.ok_bind]
                rfl

/-- What the function has checked when it succeeds. -/
theorem keySharePartiesForPeers_eq_ok {share : KeyShare} {parties : List Nat} {i : Nat} :
    keySharePartiesForPeers peers localPeerId share = .ok (parties, i) ↔
      share.participants ≠ [] ∧ ∃ entries : List (P × Nat),
        Entries share.maxSigners share.participants [] [] entries ∧
        List.Forall₂ (fun p index => ∃ u, (p, u) ∈ entries ∧ index = u - 1) peers parties ∧
        (localPeerId, i) ∈ entries := by
  unfold keySharePartiesForPeers
  split
  · rename_i hnil
    exact iff_of_false nofun fun h => h.1 hnil
  · rename_i hne
    rw [and_iff_right hne]
    constructor
    · intro h
      obtain ⟨entries, hentries, h⟩ := Lib.Except.bind_eq_ok.mp h
      obtain ⟨mapped, hmapped, h⟩ := Lib.Except.bind_eq_ok.mp h
      obtain ⟨_, rfl, hentries⟩ := participantIdentifiers_eq_ok.mp hentries
      split at h
      · rename_i u hlookup
        cases h
        exact ⟨_, hentries, (mappedParties_eq_ok hentries.peerIds).mp hmapped,
          (lookup_eq_some_iff hentries.peerIds).mp hlookup⟩
      · cases h
    · rintro ⟨entries, hentries, hmapped, hlocal⟩
      have hidentifiers := participantIdentifiers_eq_ok.mpr ⟨entries, rfl, hentries⟩
      rw [hidentifiers, Lib.Except.ok_bind, List.nil_append,
        (mappedParties_eq_ok hentries.peerIds).mpr hmapped, Lib.Except.ok_bind,
        (lookup_eq_some_iff hentries.peerIds).mpr hlocal]
      rfl

/-! ### Valid mappings -/

omit [DecidableEq P] in
theorem exists_entryOf {participants : List KeyShareParticipant}
    (h : ∀ q ∈ participants, ∃ p : P, ParticipantIs q p) :
    ∃ entries : List (P × Nat), List.Forall₂ EntryOf participants entries := by
  induction participants with
  | nil => exact ⟨[], .nil⟩
  | cons q rest ih =>
      obtain ⟨p, hp⟩ := h q List.mem_cons_self
      obtain ⟨entries, hentries⟩ := ih fun q' hq' => h q' (List.mem_cons_of_mem _ hq')
      exact ⟨(p, q.identifier) :: entries, .cons ⟨hp, rfl⟩ hentries⟩

section Entry

variable {participants : List KeyShareParticipant} {entries : List (P × Nat)}
  (h : List.Forall₂ EntryOf participants entries)

include h

omit [DecidableEq P] in
/-- The entries are the participants, decoded. -/
theorem mem_entries_iff {p : P} {u : Nat} :
    (p, u) ∈ entries ↔ ∃ q ∈ participants, ParticipantIs q p ∧ q.identifier = u := by
  induction h with
  | nil => simp
  | @cons q e participants entries hentry _ ih =>
      rw [List.mem_cons, ih, List.exists_mem_cons_iff]
      refine or_congr_left ⟨fun heq => ?_, fun hq => ?_⟩
      · rw [← heq] at hentry
        exact hentry
      · obtain ⟨hp, hu⟩ := hq
        obtain ⟨hp', hu'⟩ := hentry
        cases hp.symm.trans hp'
        exact Prod.ext rfl (hu.symm.trans hu')

omit [DecidableEq P] in
theorem map_snd_entries : entries.map Prod.snd = participants.map (·.identifier) := by
  induction h with
  | nil => rfl
  | cons hentry _ ih => rw [List.map_cons, List.map_cons, ih, hentry.2]

omit [DecidableEq P] in
/-- No two participants are the same peer. -/
theorem nodup_map_fst_iff : (entries.map Prod.fst).Nodup ↔
    participants.Pairwise fun q q' => ∀ p : P, ParticipantIs q p → ¬ ParticipantIs q' p := by
  induction h with
  | nil => simp
  | @cons q e participants entries hentry hrest ih =>
      rw [List.map_cons, List.nodup_cons, List.pairwise_cons, ih]
      refine and_congr_left' ⟨fun hnot q' hq' p hp hp' => ?_, fun hall hmem => ?_⟩
      · cases hp.symm.trans hentry.1
        have hmem := (mem_entries_iff hrest).mpr ⟨q', hq', hp', rfl⟩
        exact hnot (List.mem_map.mpr ⟨_, hmem, rfl⟩)
      · obtain ⟨⟨p, u⟩, hmem, rfl⟩ := List.mem_map.mp hmem
        obtain ⟨q', hq', hp', _⟩ := (mem_entries_iff hrest).mp hmem
        exact hall q' hq' e.1 hentry.1 hp'

end Entry

omit [DecidableEq P] in
theorem entries_of_valid {share : KeyShare} (h : ValidMapping share peers localPeerId) :
    ∃ entries : List (P × Nat), Entries share.maxSigners share.participants [] [] entries := by
  obtain ⟨entries, hentries⟩ := exists_entryOf h.parses
  refine ⟨entries, hentries, fun e he => ?_, fun e _ => List.not_mem_nil, ?_,
    fun e _ => List.not_mem_nil, (nodup_map_fst_iff hentries).mpr h.peerIds⟩
  · obtain ⟨q, hq, _, hid⟩ := (mem_entries_iff hentries).mp he
    rw [← hid]
    exact h.range q hq
  · rw [map_snd_entries hentries]
    exact h.identifiers

/-- A valid mapping maps. -/
theorem exists_of_valid {share : KeyShare} (h : ValidMapping share peers localPeerId) :
    ∃ out, keySharePartiesForPeers peers localPeerId share = .ok out := by
  obtain ⟨entries, hentries⟩ := entries_of_valid h
  have hentry : ∀ p : P, (∃ q ∈ share.participants, ParticipantIs q p) →
      ∃ u, (p, u) ∈ entries := by
    rintro p ⟨q, hq, hp⟩
    exact ⟨q.identifier, (mem_entries_iff hentries.entryOf).mpr ⟨q, hq, hp, rfl⟩⟩
  have hpeers : ∃ parties, List.Forall₂
      (fun p index => ∃ u, (p, u) ∈ entries ∧ index = u - 1) peers parties := by
    have hmembers := h.members
    clear h
    induction peers with
    | nil => exact ⟨[], .nil⟩
    | cons p peers ih =>
        obtain ⟨u, hu⟩ := hentry p (hmembers p List.mem_cons_self)
        obtain ⟨parties, hparties⟩ := ih fun p' hp' => hmembers p' (List.mem_cons_of_mem _ hp')
        exact ⟨(u - 1) :: parties, .cons ⟨u, hu, rfl⟩ hparties⟩
  obtain ⟨parties, hparties⟩ := hpeers
  obtain ⟨i, hi⟩ := hentry localPeerId h.localMember
  exact ⟨(parties, i),
    keySharePartiesForPeers_eq_ok.mpr ⟨h.nonempty, entries, hentries, hparties, hi⟩⟩

/-- A mapping that maps is valid. -/
theorem valid_of_eq_ok {share : KeyShare} {parties : List Nat} {i : Nat}
    (h : keySharePartiesForPeers peers localPeerId share = .ok (parties, i)) :
    ValidMapping share peers localPeerId := by
  obtain ⟨hne, entries, hentries, hparties, hlocal⟩ := keySharePartiesForPeers_eq_ok.mp h
  refine ⟨hne, fun q hq => ?_, fun q hq => ?_, ?_,
    (nodup_map_fst_iff hentries.entryOf).mp hentries.peerIds, fun p hp => ?_, ?_⟩
  · obtain ⟨e, _, hentry⟩ := exists_mem_of_forall₂ hentries.entryOf hq
    exact ⟨e.1, hentry.1⟩
  · obtain ⟨e, he, hentry⟩ := exists_mem_of_forall₂ hentries.entryOf hq
    rw [hentry.2]
    exact hentries.range e he
  · rw [← map_snd_entries hentries.entryOf]
    exact hentries.identifiers
  · obtain ⟨_, _, u, hu, _⟩ := exists_mem_of_forall₂ hparties hp
    obtain ⟨q, hq, hp, _⟩ := (mem_entries_iff hentries.entryOf).mp hu
    exact ⟨q, hq, hp⟩
  · obtain ⟨q, hq, hp, _⟩ := (mem_entries_iff hentries.entryOf).mp hlocal
    exact ⟨q, hq, hp⟩

/-- What a valid mapping maps to. -/
theorem mapsPeers_of_eq_ok {share : KeyShare} {parties : List Nat} {i : Nat}
    (h : keySharePartiesForPeers peers localPeerId share = .ok (parties, i)) :
    MapsPeers share peers localPeerId parties i := by
  obtain ⟨_, entries, hentries, hparties, hlocal⟩ := keySharePartiesForPeers_eq_ok.mp h
  have hmem : ∀ {p : P} {u : Nat}, (p, u) ∈ entries → HasIdentifier share p u :=
    fun hu => (mem_entries_iff hentries.entryOf).mp hu
  -- no identifier is zero, so nothing is lost with the subtraction
  have hindex : List.Forall₂ (fun p index => (p, index + 1) ∈ entries) peers parties := by
    refine hparties.imp ?_
    rintro p index ⟨u, hu, rfl⟩
    rwa [Nat.sub_add_cancel (hentries.range _ hu).1]
  refine ⟨hindex.imp fun _ _ => hmem, fun hp hp' hk hk' => ?_, hmem hlocal⟩
  have hu := rel_of_forall₂ hindex hp hk
  have hu' := rel_of_forall₂ hindex hp' hk'
  exact congrArg Prod.fst (List.inj_on_of_nodup_map hentries.identifiers hu hu' rfl)

/-- `key_share_parties_for_peers` succeeds exactly on the valid mappings,
and returns the peers' identifiers. An error of
`apply_key_share_participants` leaves the peerset as it was. -/
theorem mapping_validates (share : KeyShare) (peers : List P) (localPeerId : P) :
    ((∃ out, keySharePartiesForPeers peers localPeerId share = .ok out) ↔
      ValidMapping share peers localPeerId) ∧
    (∀ parties i, keySharePartiesForPeers peers localPeerId share = .ok (parties, i) →
      MapsPeers share peers localPeerId parties i) ∧
    ∀ (peerset : Peerset P) (e : String),
      (applyKeyShareParticipants peerset share).2 = .error e →
      (applyKeyShareParticipants peerset share).1 = peerset := by
  refine ⟨⟨fun ⟨_, hok⟩ => valid_of_eq_ok hok, exists_of_valid⟩,
    fun _ _ => mapsPeers_of_eq_ok, fun peerset e herror => ?_⟩
  unfold applyKeyShareParticipants at herror ⊢
  split
  · rename_i hok
    rw [hok] at herror
    cases herror
  · rfl

namespace TwoOfThree

local instance four_neZero : NeZero 4 := ⟨by decide⟩

/-- Peers are numbers, written out. -/
local instance : PeerIdText (Fin 4) where
  toBase58 p := toString p.val
  fromStr text :=
    if text = "1" then .ok 1 else if text = "2" then .ok 2 else if text = "3" then .ok 3
    else .error "peer id"

/-- Three participants, not in the order of their identifiers. -/
def share : KeyShare where
  signingKey := []
  publicKey := []
  groupPublicKey := []
  publicKeyPackage := []
  curve := .ed25519
  identifier := 3
  minSigners := 2
  maxSigners := 3
  participants := [⟨"2", 2⟩, ⟨"1", 3⟩, ⟨"3", 1⟩]

/-- A mapping of three, for a session of two. -/
theorem mapping_validates_share :
    ValidMapping share [(3 : Fin 4), 1] 1 ∧ MapsPeers share [(3 : Fin 4), 1] 1 [0, 2] 3 := by
  have hok : keySharePartiesForPeers [(3 : Fin 4), 1] 1 share = .ok ([0, 2], 3) := by decide
  have h := mapping_validates share [(3 : Fin 4), 1] 1
  exact ⟨h.1.mp ⟨_, hok⟩, h.2.1 _ _ hok⟩

end TwoOfThree

end FrostMpcTss.Proofs
