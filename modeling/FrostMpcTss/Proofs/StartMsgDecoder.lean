import FrostMpcTss.Network.GenericCodec
import FrostMpcTss.Proofs.StartMsgRoundTrip
import FrostMpcTss.Service.StartMsgReads

/-!
# `FrostMpcTss.Proofs.StartMsgDecoder`: the start message decoder on hostile input

Every buffer of `StartMsg::from_bytes` is allocated from a length prefix
before the bytes for it are read. A `LongPrefix` asks for more than there
is behind it. `StartMsg.Overlong` lists the places where one can stand:
in front of the peerset, in front of the body, in front of a peer id inside
the peerset. `decodesWithin_iff` says that these are the only inputs on which
the decoder panics or allocates more than it has left to read.

What a prefix is, the varint reader decides: a number has more spellings
than its encoding. So the places are named by what is read in front of
them, and of the varints only the length law is used.

The loops cost nothing: both stop at the first varint that is not there,
and the functions are total.
-/

set_option autoImplicit false

namespace FrostMpcTss.Proofs

open Lib Network Service
open Service.Peerset

/-- The buffer is no longer than what is left. -/
def Allocation.Fits (a : Allocation) : Prop := a.size ≤ a.remaining

section Prefixes

variable [UnsignedVarint]

/-- A length, and fewer bytes behind it. -/
def LongPrefix (io : Bytes) : Prop :=
  (Peerset.readUsize io).Returns fun r => r.2.length < r.1.toNat

instance : DecidablePred LongPrefix := fun io =>
  inferInstanceAs (Decidable ((Peerset.readUsize io).Returns _))

variable (P : Type) [PeerIdCodec P]

/-- A long prefix among the first `k` peer ids. -/
def LongNode : Nat → Bytes → Prop
  | 0, _ => False
  | k + 1, io =>
      LongPrefix io ∨
        (readPeerId io : Outcome Panic IoError (P × Bytes)).Returns fun r => LongNode k r.2

instance decidableLongNode : ∀ k io, Decidable (LongNode P k io)
  | 0, _ => isFalse id
  | k + 1, _ =>
      have := decidableLongNode k
      inferInstanceAs (Decidable (_ ∨ Outcome.Returns _ _))

/-- A long prefix in front of the local peer id, or of a node. -/
def Peerset.Overlong (io : Bytes) : Prop :=
  LongPrefix io ∨
    (readPeerId io : Outcome Panic IoError (P × Bytes)).Returns fun localPeer =>
      (Peerset.readUsize localPeer.2).Returns fun nodesLen =>
        LongNode P nodesLen.1.toNat nodesLen.2

instance : DecidablePred (Peerset.Overlong P) := fun _ =>
  inferInstanceAs (Decidable (_ ∨ Outcome.Returns _ _))

/-- A long prefix in front of the peerset, of the body, or inside the
peerset of a complete message. -/
def StartMsg.Overlong (b : Bytes) : Prop :=
  LongPrefix b ∨
    (Peerset.readUsize b).Returns fun peersetLen =>
      (readBuffer peersetLen.1 peersetLen.2).Returns fun peerset =>
        LongPrefix peerset.2 ∨
          (Peerset.readUsize peerset.2).Returns fun length =>
            (readBuffer length.1 length.2).Returns fun _ => Peerset.Overlong P peerset.1

instance : DecidablePred (StartMsg.Overlong P) := fun _ =>
  inferInstanceAs (Decidable (_ ∨ Outcome.Returns _ _))

end Prefixes

/-- The decoder returns, with `Ok` or `Err`, and has allocated no buffer
longer than the input it had left. -/
structure DecodesWithin {P : Type} [PeerIdCodec P] [UnsignedVarint] (b : Bytes)
    (localPeerId : P) : Prop where
  returns : ¬ (StartMsg.fromBytes b localPeerId).Panics
  allocates : ∀ a ∈ (Reads.startMsg b localPeerId).events, Allocation.Fits a

section Decoder

variable {io : Bytes}

/-- A buffer is safe when the bytes for it are there. -/
theorem safe_buffer {len : UInt64} (hio : io.length ≤ isizeMax) :
    (Reads.buffer len io).Safe Allocation.Fits ↔ len.toNat ≤ io.length := by
  have hmax : isizeMax < 2 ^ 63 := by decide
  constructor
  · intro h
    exact h.2 _ List.mem_cons_self
  · intro h
    constructor
    · rw [Reads.outcome_buffer, readBuffer, if_neg (by omega), if_neg (by omega)]
      exact Outcome.not_panics_ok _
    · intro a ha
      rw [List.mem_singleton.mp ha]
      exact h

variable [UnsignedVarint]

theorem safe_usize (io : Bytes) : (Reads.usize io).Safe Allocation.Fits :=
  Traced.safe_lift.mpr (Outcome.not_panics_ofOption _ _)

/-- The parties are numbers, so nothing is allocated for them. -/
theorem not_panics_readParties (k : Nat) (io : Bytes) :
    ¬ (readParties k io).Panics := by
  induction k generalizing io with
  | zero => exact Outcome.not_panics_ok _
  | succ k ih =>
      intro h
      rcases Outcome.panics_bind.mp h with h | ⟨value, _, h⟩
      · exact Outcome.not_panics_ofOption _ _ h
      · rcases Outcome.panics_bind.mp h with h | ⟨_, _, h⟩
        · exact ih _ h
        · exact Outcome.not_panics_ok _ h

variable [LawfulUnsignedVarint]

theorem length_le_of_readUsize {rest : Bytes} {v : UInt64}
    (h : Peerset.readUsize io = .ok (v, rest)) : rest.length ≤ io.length := by
  have hread := length_of_readUsize h
  omega

omit [UnsignedVarint] [LawfulUnsignedVarint] in
/-- A buffer and what follows it are parts of the input. -/
theorem length_le_of_readBuffer {data rest : Bytes} {len : UInt64}
    (h : readBuffer len io = .ok (data, rest)) :
    data.length ≤ io.length ∧ rest.length ≤ io.length := by
  obtain ⟨rfl, -⟩ := append_of_readBuffer h
  rw [List.length_append]
  omega

/-- A length and its buffer, and what follows. -/
theorem safe_prefixed {α : Type} (hio : io.length ≤ isizeMax) {f : Bytes × Bytes → Reads α} :
    (Reads.usize io >>= fun len => Reads.buffer len.1 len.2 >>= f).Safe Allocation.Fits ↔
      ¬ LongPrefix io ∧ ∀ len, Peerset.readUsize io = .ok len →
        ∀ data, readBuffer len.1 len.2 = .ok data → (f data).Safe Allocation.Fits := by
  simp only [Traced.safe_bind, Reads.outcome_usize, Reads.outcome_buffer, safe_usize, true_and,
    LongPrefix, Outcome.not_returns, ← forall₂_and]
  refine forall₂_congr fun len hlen => and_congr_left fun _ => ?_
  rw [safe_buffer (Nat.le_trans (length_le_of_readUsize hlen) hio), Nat.not_lt]

variable {P : Type} [PeerIdCodec P]

theorem length_le_of_readPeerId {rest : Bytes} {p : P} (h : readPeerId io = .ok (p, rest)) :
    rest.length ≤ io.length := by
  obtain ⟨⟨len, io₁⟩, hlen, h⟩ := Outcome.bind_eq_ok.mp h
  obtain ⟨⟨data, io₂⟩, hdata, h⟩ := Outcome.bind_eq_ok.mp h
  obtain ⟨q, -, h⟩ := Outcome.bind_eq_ok.mp h
  cases h
  exact Nat.le_trans (length_le_of_readBuffer hdata).2 (length_le_of_readUsize hlen)

/-- A peer id is safe to read when its own prefix is not long. -/
theorem safe_peerId (hio : io.length ≤ isizeMax) :
    (Reads.peerId io : Reads (P × Bytes)).Safe Allocation.Fits ↔ ¬ LongPrefix io := by
  refine (safe_prefixed hio).trans (and_iff_left fun _ _ _ _ => ?_)
  -- behind its buffer a peer id only decodes
  refine Traced.safe_bind.mpr ⟨Traced.safe_lift.mpr (Outcome.not_panics_ofOption _ _), ?_⟩
  exact fun _ _ => Traced.safe_lift.mpr (Outcome.not_panics_ok _)

/-- So are the nodes, one behind the other. -/
theorem safe_nodes (k : Nat) (hio : io.length ≤ isizeMax) :
    (Reads.nodes k io : Reads (List P × Bytes)).Safe Allocation.Fits ↔ ¬ LongNode P k io := by
  induction k generalizing io with
  | zero => exact iff_of_true (Traced.safe_lift.mpr (Outcome.not_panics_ok _)) id
  | succ k ih =>
      rw [Reads.nodes, LongNode, not_or, Outcome.not_returns, Traced.safe_bind, safe_peerId hio,
        Reads.outcome_peerId]
      refine and_congr_right fun _ => forall₂_congr ?_
      rintro ⟨p, rest⟩ hread
      rw [← ih (Nat.le_trans (length_le_of_readPeerId hread) hio), Traced.safe_bind]
      exact and_iff_left fun _ _ => Traced.safe_lift.mpr (Outcome.not_panics_ok _)

/-- The peerset reads the local peer, the nodes and the parties, and only
the first two allocate. -/
theorem safe_peerset {bytes : Bytes} (localPeerId : P) (hbytes : bytes.length ≤ isizeMax) :
    (Reads.peerset bytes localPeerId).Safe Allocation.Fits ↔ ¬ Peerset.Overlong P bytes := by
  simp only [Reads.peerset, Peerset.Overlong, not_or, Outcome.not_returns]
  rw [Traced.safe_bind, safe_peerId hbytes, Reads.outcome_peerId]
  refine and_congr_right fun _ => forall₂_congr ?_
  rintro ⟨x, io⟩ hx
  rw [Traced.safe_bind, Reads.outcome_usize]
  refine (and_iff_right (safe_usize _)).trans (forall₂_congr ?_)
  rintro ⟨nodesLen, io'⟩ hread
  have hle := Nat.le_trans (length_le_of_readUsize hread) (length_le_of_readPeerId hx)
  rw [← safe_nodes _ (Nat.le_trans hle hbytes), Traced.safe_bind]
  -- the parties allocate nothing
  refine and_iff_left fun _ _ => Traced.safe_bind.mpr ⟨safe_usize _, fun _ _ => ?_⟩
  refine Traced.safe_bind.mpr ⟨Traced.safe_lift.mpr (not_panics_readParties _ _), ?_⟩
  exact fun _ _ => Traced.safe_lift.mpr (Outcome.not_panics_ok _)

/-- The peerset is decoded from its buffer, after the body has been read. -/
theorem safe_startMsg {b : Bytes} (localPeerId : P) (hb : b.length ≤ isizeMax) :
    (Reads.startMsg b localPeerId).Safe Allocation.Fits ↔ ¬ StartMsg.Overlong P b := by
  simp only [StartMsg.Overlong, not_or, Outcome.not_returns]
  refine (safe_prefixed hb).trans (and_congr_right fun _ => ?_)
  refine forall₂_congr fun len hlen => forall₂_congr ?_
  rintro ⟨buffer, io⟩ hbuffer
  have hle := length_le_of_readBuffer hbuffer
  have hrest := Nat.le_trans (length_le_of_readUsize hlen) hb
  refine (safe_prefixed (Nat.le_trans hle.2 hrest)).trans (and_congr_right fun _ => ?_)
  refine forall₂_congr fun _ _ => forall₂_congr fun body _ => ?_
  rw [← safe_peerset localPeerId (Nat.le_trans hle.1 hrest), Traced.safe_bind]
  exact and_iff_left fun _ _ => Traced.safe_lift.mpr (Outcome.not_panics_ok _)

/-- The decoder returns within its input on every byte string but those
with a long prefix. A slice has at most `isize::MAX` bytes. -/
theorem decodesWithin_iff (b : ByteVec) (localPeerId : P) :
    DecodesWithin b.1 localPeerId ↔ ¬ StartMsg.Overlong P b.1 := by
  rw [← safe_startMsg localPeerId b.2, Traced.Safe, Reads.outcome_startMsg]
  exact ⟨fun h => ⟨h.returns, h.allocates⟩, fun h => ⟨h.1, h.2⟩⟩

end Decoder

set_option maxRecDepth 4000 in
/-- The decoder on the encoding of a start message of two peers, read at
the second one: no prefix is long. -/
theorem decodesWithin_twoPeerStart :
    DecodesWithin (twoPeerStart [1, 2, 3]).toBytes (Ed25519PeerId.ofByte 2) := by
  have hlength : (twoPeerStart [1, 2, 3]).toBytes.length ≤ isizeMax := by decide +kernel
  have hshort : ¬ StartMsg.Overlong Ed25519PeerId (twoPeerStart [1, 2, 3]).toBytes := by
    decide +kernel
  exact (decodesWithin_iff ⟨(twoPeerStart [1, 2, 3]).toBytes, hlength⟩ (.ofByte 2)).mpr hshort

/-- The length `2 ^ 63`. -/
def hugeLength : ByteVec := ⟨List.replicate 9 0x80 ++ [0x01], by decide⟩

/-- Ten bytes make the decoder panic. -/
theorem not_decodesWithin_hugeLength :
    StartMsg.fromBytes hugeLength.1 (Ed25519PeerId.ofByte 2) = .panic .capacityOverflow ∧
      ¬ DecodesWithin hugeLength.1 (Ed25519PeerId.ofByte 2) := by
  have hpanic : StartMsg.fromBytes hugeLength.1 (Ed25519PeerId.ofByte 2)
      = .panic .capacityOverflow := by decide +kernel
  exact ⟨hpanic, fun h => h.returns ⟨_, hpanic⟩⟩

end FrostMpcTss.Proofs
