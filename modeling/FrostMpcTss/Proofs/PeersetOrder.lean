import FrostMpcTss.Service.Peerset

/-!
# `FrostMpcTss.Proofs.PeersetOrder`: the order of a session's peers

`Peerset::new` sorts the peers by their bytes. The order of byte strings
is total, and peer ids have different bytes, so the list depends only on
who is in it.
-/

set_option autoImplicit false

namespace FrostMpcTss.Proofs

open Network Service

/-- Any two byte strings are ordered, a prefix before what extends it. -/
theorem bytesLe_total (a b : Bytes) :
    Peerset.bytesLe a b = true ∨ Peerset.bytesLe b a = true := by
  induction a generalizing b with
  | nil => exact .inl rfl
  | cons x a ih =>
      cases b with
      | nil => exact .inr rfl
      | cons y b =>
          by_cases hxy : x = y
          · subst hxy
            simpa [Peerset.bytesLe] using ih b
          · simp only [Peerset.bytesLe, hxy, Ne.symm hxy, if_false, decide_eq_true_eq]
            exact UInt8.lt_or_lt_of_ne hxy

theorem bytesLe_antisymm {a b : Bytes} (hab : Peerset.bytesLe a b = true)
    (hba : Peerset.bytesLe b a = true) : a = b := by
  induction a generalizing b with
  | nil =>
      cases b with
      | nil => rfl
      | cons y b => cases hba
  | cons x a ih =>
      cases b with
      | nil => cases hab
      | cons y b =>
          by_cases hxy : x = y
          · subst hxy
            simp only [Peerset.bytesLe, if_true] at hab hba
            rw [ih hab hba]
          · simp only [Peerset.bytesLe, hxy, Ne.symm hxy, if_false, decide_eq_true_eq] at hab hba
            exact absurd hab (UInt8.lt_asymm hba)

theorem bytesLe_trans {a b c : Bytes} (hab : Peerset.bytesLe a b = true)
    (hbc : Peerset.bytesLe b c = true) : Peerset.bytesLe a c = true := by
  induction a generalizing b c with
  | nil => rfl
  | cons x a ih =>
      cases b with
      | nil => cases hab
      | cons y b =>
          cases c with
          | nil => cases hbc
          | cons z c =>
              by_cases hxy : x = y <;> by_cases hyz : y = z
              · subst hxy hyz
                simp only [Peerset.bytesLe, if_true] at hab hbc ⊢
                exact ih hab hbc
              · subst hxy
                simpa [Peerset.bytesLe, hyz] using hbc
              · subst hyz
                simpa [Peerset.bytesLe, hxy] using hab
              · simp only [Peerset.bytesLe, hxy, hyz, if_false, decide_eq_true_eq] at hab hbc
                have hlt : x < z := UInt8.lt_trans hab hbc
                simp [Peerset.bytesLe, UInt8.ne_of_lt hlt, hlt]

variable {P : Type} [PeerIdCodec P]

/-- The peers of a session stand in the order of their bytes. -/
theorem pairwise_peers (order : List P) (p : P) :
    (Peerset.new order p).peers.Pairwise fun a b =>
      Peerset.bytesLe (PeerIdCodec.toBytes a) (PeerIdCodec.toBytes b) = true := by
  have : Std.Total fun a b : P =>
      Peerset.bytesLe (PeerIdCodec.toBytes a) (PeerIdCodec.toBytes b) = true :=
    ⟨fun a b => bytesLe_total _ _⟩
  have : IsTrans P fun a b =>
      Peerset.bytesLe (PeerIdCodec.toBytes a) (PeerIdCodec.toBytes b) = true :=
    ⟨fun a b c => bytesLe_trans⟩
  exact List.pairwise_insertionSort _ order

theorem perm_peers (order : List P) (p : P) : (Peerset.new order p).peers.Perm order :=
  List.perm_insertionSort _ order

/-- Two peers with the same bytes are the same peer, since the bytes can be
read. -/
theorem toBytes_injective [LawfulPeerIdCodec P] {a b : P}
    (h : PeerIdCodec.toBytes a = PeerIdCodec.toBytes b) : a = b := by
  have ha := LawfulPeerIdCodec.fromBytes_toBytes a
  rw [h, LawfulPeerIdCodec.fromBytes_toBytes b] at ha
  exact (Option.some.inj ha).symm

/-- In a sorted list the positions go with the order. -/
theorem idxOf_lt_idxOf [DecidableEq P] [LawfulPeerIdCodec P] {peers : List P} {a b : P}
    (hsorted : peers.Pairwise fun a b =>
      Peerset.bytesLe (PeerIdCodec.toBytes a) (PeerIdCodec.toBytes b) = true)
    (ha : a ∈ peers) (hb : b ∈ peers) (hne : a ≠ b)
    (hle : Peerset.bytesLe (PeerIdCodec.toBytes a) (PeerIdCodec.toBytes b) = true) :
    peers.idxOf a < peers.idxOf b := by
  have hia := List.idxOf_lt_length_of_mem ha
  have hib := List.idxOf_lt_length_of_mem hb
  rcases Nat.lt_trichotomy (peers.idxOf a) (peers.idxOf b) with hlt | heq | hgt
  · exact hlt
  · exact absurd ((List.idxOf_inj ha).mp heq) hne
  · -- otherwise the bytes are ordered both ways
    have hba := List.pairwise_iff_getElem.mp hsorted _ _ hib hia hgt
    rw [List.getElem_idxOf hib, List.getElem_idxOf hia] at hba
    exact absurd (toBytes_injective (bytesLe_antisymm hle hba)) hne

end FrostMpcTss.Proofs
