import FrostMpcTss.Service.Codecs
import FrostMpcTss.Service.StartMsg

/-!
# `FrostMpcTss.Proofs.StartMsgRoundTrip`: when an encoded start message reads back

The decoders undo the *format*: reading the chunks `Peerset.writes`
lists gives the peerset back (`fromBytes_writes`), and whatever is
read without error is at least as long as such chunks
(`length_of_fromBytes`).
The encoders return the buffer of a `BufWriter`, so they produce the
format only as long as nothing has been flushed. `roundTrips_iff`
puts the two together: a start message reads back exactly when its
whole encoding has at most `bufSize` bytes, and so does a peerset on
its own.

The direction from the round trip to the bound is a length argument.
A decoded message accounts for every byte of its own encoding except
the local peer id, which the decoder drops. A flush loses more than
a local peer id can make up for.
-/

set_option autoImplicit false

namespace FrostMpcTss.Proofs

open Lib Network Service
open Service.Peerset

variable {P : Type}

section Format

variable [PeerIdCodec P] [LawfulPeerIdCodec P] [UnsignedVarint] [LawfulUnsignedVarint]
  {m : StartMsg P} {p : Peerset P}

/-! ### Reading what was written -/

theorem readUsize_encode (v : UInt64) (rest : Bytes) :
    Peerset.readUsize (UnsignedVarint.encode v ++ rest) = .ok (v, rest) := by
  simp [Peerset.readUsize, LawfulUnsignedVarint.readUsize_encode]

omit [UnsignedVarint] [LawfulUnsignedVarint] in
/-- A buffer is read back from what follows its length. -/
theorem readBuffer_append (data rest : Bytes) (h : data.length < 2 ^ 63) :
    readBuffer data.length.toUInt64 (data ++ rest) = .ok (data, rest) := by
  have hlen := Leb128.toNat_toUInt64_of_lt (show data.length < 2 ^ 64 by omega)
  unfold readBuffer
  rw [hlen, if_neg (by omega), if_neg (by simp), List.take_left, List.drop_left]

/-- A peer id is read back. -/
theorem readPeerId_peerIdWrites (p : P) (rest : Bytes) :
    readPeerId ((peerIdWrites p).flatten ++ rest) = .ok (p, rest) := by
  have hle := LawfulPeerIdCodec.length_toBytes_le p
  have hbuf := readBuffer_append (PeerIdCodec.toBytes p) rest (by omega)
  simp only [peerIdWrites, List.flatten_cons, List.flatten_nil, List.append_nil,
    List.append_assoc, readPeerId, readUsize_encode, Outcome.ok_bind, hbuf,
    LawfulPeerIdCodec.fromBytes_toBytes]
  rfl

/-- So is a list of them. -/
theorem readNodes_writes (ps : List P) (rest : Bytes) :
    readNodes ps.length ((ps.flatMap peerIdWrites).flatten ++ rest) = .ok (ps, rest) := by
  induction ps with
  | nil => rfl
  | cons p ps ih =>
      rw [List.flatMap_cons, List.flatten_append, List.append_assoc, List.length_cons,
        readNodes, readPeerId_peerIdWrites, Outcome.ok_bind]
      simp only [ih, Outcome.ok_bind, Outcome.pure_eq_ok]

theorem readParties_writes (vs : List UInt64) (rest : Bytes) :
    readParties vs.length ((vs.map UnsignedVarint.encode).flatten ++ rest)
      = .ok (vs, rest) := by
  induction vs with
  | nil => rfl
  | cons v vs ih =>
      rw [List.map_cons, List.flatten_cons, List.append_assoc, List.length_cons,
        readParties, readUsize_encode, Outcome.ok_bind]
      simp only [ih, Outcome.ok_bind, Outcome.pure_eq_ok]

/-- The written chunks read back, whatever follows them. -/
theorem fromBytes_writes (p : Peerset P) (localPeerId : P) (rest : Bytes)
    (hpeers : p.peers.length < 2 ^ 64) (hparties : p.parties.length < 2 ^ 64) :
    Peerset.fromBytes (p.writes.flatten ++ rest) localPeerId
      = .ok { p with localPeerId := localPeerId } := by
  simp only [Peerset.writes, List.flatten_append, List.flatten_cons, List.append_assoc,
    Peerset.fromBytes, readPeerId_peerIdWrites, Outcome.ok_bind, readUsize_encode,
    Leb128.toNat_toUInt64_of_lt hpeers, Leb128.toNat_toUInt64_of_lt hparties, readNodes_writes,
    readParties_writes, Outcome.pure_eq_ok]

/-! ### What is read accounts for its encoding -/

theorem length_of_readUsize {io rest : Bytes} {v : UInt64}
    (h : Peerset.readUsize io = .ok (v, rest)) :
    (UnsignedVarint.encode v).length + rest.length ≤ io.length :=
  LawfulUnsignedVarint.length_of_readUsize (Outcome.ofOption_eq_ok.mp h)

omit [UnsignedVarint] [LawfulUnsignedVarint] in
/-- What is read was there, with its length. -/
theorem append_of_readBuffer {io data rest : Bytes} {len : UInt64}
    (h : readBuffer len io = .ok (data, rest)) :
    io = data ++ rest ∧ data.length.toUInt64 = len := by
  unfold readBuffer at h
  split at h
  · cases h
  · split at h
    · cases h
    · rename_i hle
      cases h
      refine ⟨(List.take_append_drop _ _).symm, ?_⟩
      rw [List.length_take, Nat.min_eq_left (by omega)]
      simp

/-- The length of a peer id takes one byte, as little as any length can. -/
theorem length_of_readPeerId {io rest : Bytes} {p : P} (h : readPeerId io = .ok (p, rest)) :
    (peerIdWrites p).flatten.length + rest.length ≤ io.length := by
  unfold readPeerId at h
  obtain ⟨⟨len, io₁⟩, hlen, h⟩ := Outcome.bind_eq_ok.mp h
  obtain ⟨⟨buffer, io₂⟩, hbuffer, h⟩ := Outcome.bind_eq_ok.mp h
  obtain ⟨q, hq, h⟩ := Outcome.bind_eq_ok.mp h
  cases h
  have hp := LawfulPeerIdCodec.length_of_fromBytes (Outcome.ofOption_eq_ok.mp hq)
  obtain ⟨rfl, -⟩ := append_of_readBuffer hbuffer
  have hread := length_of_readUsize hlen
  have hpos := LawfulUnsignedVarint.length_encode_pos len
  have hone : (UnsignedVarint.encode (PeerIdCodec.toBytes p).length.toUInt64).length = 1 := by
    have hle := LawfulPeerIdCodec.length_toBytes_le p
    refine LawfulUnsignedVarint.length_encode_of_lt ?_
    rw [Leb128.toNat_toUInt64_of_lt (by omega)]
    omega
  simp only [peerIdWrites, List.flatten_cons, List.flatten_nil, List.append_nil,
    List.length_append] at hread ⊢
  omega

/-- Ids that are read take at least as many bytes as they are written with.
-/
theorem length_of_readNodes (k : Nat) :
    ∀ {io rest : Bytes} {ps : List P}, readNodes k io = .ok (ps, rest) →
      (ps.flatMap peerIdWrites).flatten.length + rest.length ≤ io.length ∧ ps.length = k := by
  induction k with
  | zero =>
      intro io rest ps h
      cases h
      exact ⟨Nat.le_of_eq (Nat.zero_add _), rfl⟩
  | succ k ih =>
      intro io rest ps h
      unfold readNodes at h
      obtain ⟨⟨p, io₁⟩, hp, h⟩ := Outcome.bind_eq_ok.mp h
      obtain ⟨⟨qs, io₂⟩, hqs, h⟩ := Outcome.bind_eq_ok.mp h
      cases h
      have hfirst := length_of_readPeerId hp
      obtain ⟨hrest, hlen⟩ := ih hqs
      refine ⟨?_, congrArg Nat.succ hlen⟩
      rw [List.flatMap_cons, List.flatten_append, List.length_append]
      omega

theorem length_of_readParties (k : Nat) :
    ∀ {io rest : Bytes} {vs : List UInt64}, readParties k io = .ok (vs, rest) →
      (vs.map UnsignedVarint.encode).flatten.length + rest.length ≤ io.length ∧
        vs.length = k := by
  induction k with
  | zero =>
      intro io rest vs h
      cases h
      exact ⟨Nat.le_of_eq (Nat.zero_add _), rfl⟩
  | succ k ih =>
      intro io rest vs h
      unfold readParties at h
      obtain ⟨⟨v, io₁⟩, hv, h⟩ := Outcome.bind_eq_ok.mp h
      obtain ⟨⟨ws, io₂⟩, hws, h⟩ := Outcome.bind_eq_ok.mp h
      cases h
      have hfirst := length_of_readUsize hv
      obtain ⟨hrest, hlen⟩ := ih hws
      refine ⟨?_, congrArg Nat.succ hlen⟩
      rw [List.map_cons, List.flatten_cons, List.length_append]
      omega

/-- The chunks behind the local peer id: what a decoded peerset must
account for. -/
def peersAndPartiesLength (p : Peerset P) : Nat :=
  (UnsignedVarint.encode p.peers.length.toUInt64 :: p.peers.flatMap peerIdWrites
    ++ UnsignedVarint.encode p.parties.length.toUInt64
      :: p.parties.map UnsignedVarint.encode).flatten.length

omit [LawfulPeerIdCodec P] in
theorem length_peerIdWrites_pos (p : P) : 0 < (peerIdWrites p).flatten.length := by
  have hlen := LawfulUnsignedVarint.length_encode_pos
    (PeerIdCodec.toBytes p).length.toUInt64
  simp only [peerIdWrites, List.flatten_cons, List.length_append]
  omega

/-- What decodes to a peerset is longer than the encoding of its peers and
parties. -/
theorem length_of_fromBytes {bytes : Bytes} {localPeerId : P} {q : Peerset P}
    (h : Peerset.fromBytes bytes localPeerId = .ok q) :
    peersAndPartiesLength q < bytes.length := by
  unfold Peerset.fromBytes at h
  obtain ⟨⟨x, io₁⟩, hx, h⟩ := Outcome.bind_eq_ok.mp h
  obtain ⟨⟨nodesLen, io₂⟩, hnodesLen, h⟩ := Outcome.bind_eq_ok.mp h
  obtain ⟨⟨nodes, io₃⟩, hnodes, h⟩ := Outcome.bind_eq_ok.mp h
  obtain ⟨⟨partiesLen, io₄⟩, hpartiesLen, h⟩ := Outcome.bind_eq_ok.mp h
  obtain ⟨⟨parties, io₅⟩, hparties, h⟩ := Outcome.bind_eq_ok.mp h
  cases h
  have hlocal := length_of_readPeerId hx
  have hpos := length_peerIdWrites_pos x
  have hcount := length_of_readUsize hnodesLen
  have hcount' := length_of_readUsize hpartiesLen
  obtain ⟨hnodes, hlen⟩ := length_of_readNodes _ hnodes
  obtain ⟨hparties, hlen'⟩ := length_of_readParties _ hparties
  simp only [peersAndPartiesLength, hlen, hlen', List.cons_append, List.flatten_cons,
    List.flatten_append, List.length_append, UInt64.ofNat_toNat, Nat.toUInt64_eq]
  omega

omit [LawfulPeerIdCodec P] in
/-- The parts of a start message that decodes: the buffer of the peerset
behind its length, and the body. -/
theorem parts_of_startMsg_fromBytes {b : Bytes} {localPeerId : P}
    (h : StartMsg.fromBytes b localPeerId = .ok m) :
    ∃ (buffer io : Bytes), Peerset.readUsize b = .ok (buffer.length.toUInt64, io) ∧
      buffer.length + (UnsignedVarint.encode m.body.length.toUInt64).length + m.body.length
        ≤ io.length ∧
      Peerset.fromBytes buffer localPeerId = .ok m.peerset := by
  unfold StartMsg.fromBytes at h
  obtain ⟨⟨peersetLen, io₁⟩, hpeersetLen, h⟩ := Outcome.bind_eq_ok.mp h
  obtain ⟨⟨buffer, io₂⟩, hbuffer, h⟩ := Outcome.bind_eq_ok.mp h
  obtain ⟨⟨length, io₃⟩, hlength, h⟩ := Outcome.bind_eq_ok.mp h
  obtain ⟨⟨body, io₄⟩, hbody, h⟩ := Outcome.bind_eq_ok.mp h
  obtain ⟨peerset, hpeerset, h⟩ := Outcome.bind_eq_ok.mp h
  cases h
  obtain ⟨rfl, rfl⟩ := append_of_readBuffer hbuffer
  obtain ⟨rfl, rfl⟩ := append_of_readBuffer hbody
  have hread := length_of_readUsize hlength
  refine ⟨buffer, _, hpeersetLen, ?_, hpeerset⟩
  simp only [List.length_append] at hread ⊢
  omega

/-! ### What the writers keep -/

omit [LawfulPeerIdCodec P] [LawfulUnsignedVarint] in
theorem encodedLength_eq (p : Peerset P) :
    p.encodedLength = (peerIdWrites p.localPeerId).flatten.length + peersAndPartiesLength p := by
  simp only [Peerset.encodedLength, Peerset.writes, peersAndPartiesLength, List.append_assoc,
    List.flatten_append, List.length_append]

/-- An id takes at most 76 bytes. -/
theorem length_peerIdWrites_le (p : P) : (peerIdWrites p).flatten.length ≤ 76 := by
  have hbytes := LawfulPeerIdCodec.length_toBytes_le p
  have hlen := LawfulUnsignedVarint.length_encode_le
    (PeerIdCodec.toBytes p).length.toUInt64
  simp only [peerIdWrites, List.flatten_cons, List.flatten_nil, List.append_nil,
    List.length_append]
  omega

theorem length_le_of_mem_peerIdWrites {p : P} {c : Bytes} (hc : c ∈ peerIdWrites p) :
    c.length ≤ 66 := by
  have hbytes := LawfulPeerIdCodec.length_toBytes_le p
  have hlen := LawfulUnsignedVarint.length_encode_le
    (PeerIdCodec.toBytes p).length.toUInt64
  simp only [peerIdWrites, List.mem_cons, List.not_mem_nil, or_false] at hc
  rcases hc with rfl | rfl
  · omega
  · exact hbytes

/-- Every single write of a peerset is short. -/
theorem length_le_of_mem_writes {c : Bytes} (hc : c ∈ p.writes) : c.length ≤ 66 := by
  have hnum : ∀ v : UInt64, (UnsignedVarint.encode v).length ≤ 66 := fun v => by
    have := LawfulUnsignedVarint.length_encode_le v
    omega
  simp only [Peerset.writes, List.mem_append, List.mem_cons, List.mem_flatMap,
    List.mem_map] at hc
  rcases hc with (hc | rfl | ⟨q, _, hc⟩) | rfl | ⟨v, _, rfl⟩
  · exact length_le_of_mem_peerIdWrites hc
  · exact hnum _
  · exact length_le_of_mem_peerIdWrites hc
  · exact hnum _
  · exact hnum _

/-- Within the buffer the peerset encoder returns all it has written. -/
theorem toBytes_eq_writes (h : p.encodedLength ≤ bufSize) : p.toBytes = p.writes.flatten := by
  have hbuf := BufWriter.buf_writeAlls_of_le p.writes
    (BufWriter.new : BufWriter UInt8 bufSize)
    (fun c hc => by
      have hle := length_le_of_mem_writes hc
      have hsize : bufSize = 8192 := rfl
      omega)
    (by simp only [BufWriter.new, List.length_nil, Nat.zero_add]; exact h)
  simpa only [Peerset.toBytes, BufWriter.new, List.nil_append] using hbuf

/-- Beyond the buffer it returns less than what follows the local peer
id, by more than any framing could make up. -/
theorem length_toBytes_lt (h : bufSize < p.encodedLength) :
    p.toBytes.length + 8000 < peersAndPartiesLength p := by
  have hlost := BufWriter.length_buf_writeAlls_lt (show 66 < bufSize by decide) p.writes
    (BufWriter.new : BufWriter UInt8 bufSize) (fun c hc => length_le_of_mem_writes hc)
    (by simp only [BufWriter.new, List.length_nil, Nat.zero_add]; exact h)
  have hlocal := length_peerIdWrites_le p.localPeerId
  have heq := encodedLength_eq p
  simp only [BufWriter.new, List.length_nil, Nat.zero_add] at hlost
  change p.toBytes.length + (bufSize - 66) < p.encodedLength at hlost
  have hsize : bufSize = 8192 := rfl
  omega

omit [LawfulPeerIdCodec P] in
/-- A peerset with a short encoding has few peers and parties. -/
theorem length_le_encodedLength (p : Peerset P) :
    p.peers.length ≤ p.encodedLength ∧ p.parties.length ≤ p.encodedLength := by
  have hpeers : p.peers.length ≤ (p.peers.flatMap peerIdWrites).flatten.length := by
    induction p.peers with
    | nil => simp
    | cons q qs ih =>
        have hpos := length_peerIdWrites_pos q
        rw [List.flatMap_cons, List.flatten_append, List.length_append, List.length_cons]
        omega
  have hparties : p.parties.length ≤ (p.parties.map UnsignedVarint.encode).flatten.length := by
    induction p.parties with
    | nil => simp
    | cons v vs ih =>
        have hpos := LawfulUnsignedVarint.length_encode_pos v
        rw [List.map_cons, List.flatten_cons, List.length_append, List.length_cons]
        omega
  simp only [Peerset.encodedLength, Peerset.writes, List.flatten_append, List.flatten_cons,
    List.length_append]
  omega

/-! ### The round trips -/

/-- A peerset reads back from its own bytes. -/
def Peerset.RoundTrips (p : Peerset P) (localPeerId : P) : Prop :=
  Peerset.fromBytes p.toBytes localPeerId = .ok { p with localPeerId := localPeerId }

/-- A start message reads back from its own bytes, for the local peer
of the reader. -/
def StartMsg.RoundTrips (m : StartMsg P) (localPeerId : P) : Prop :=
  StartMsg.fromBytes m.toBytes localPeerId
    = .ok { peerset := { m.peerset with localPeerId := localPeerId }, body := m.body }

/-- A peerset survives if and only if it fits into the buffer. -/
theorem peerset_roundTrips_iff (p : Peerset P) (localPeerId : P) :
    Peerset.RoundTrips p localPeerId ↔ p.encodedLength ≤ bufSize := by
  constructor
  · intro h
    by_contra hgt
    have hlost := length_toBytes_lt (Nat.lt_of_not_le hgt)
    have hlen := length_of_fromBytes h
    change peersAndPartiesLength p < p.toBytes.length at hlen
    omega
  · intro hle
    obtain ⟨hpeers, hparties⟩ := length_le_encodedLength p
    have hsize : bufSize = 8192 := rfl
    unfold Peerset.RoundTrips
    rw [toBytes_eq_writes hle]
    have h := fromBytes_writes p localPeerId [] (by omega) (by omega)
    rwa [List.append_nil] at h

/-- Within the buffer the start message encoder returns all it has
written. -/
theorem startMsg_toBytes_eq_writes (h : m.encodedLength ≤ bufSize) :
    m.toBytes = m.writes.flatten := by
  have hsize : bufSize = 8192 := rfl
  have hpeerset : m.peerset.encodedLength ≤ bufSize := by
    unfold StartMsg.encodedLength at h
    omega
  have hlen : m.peerset.toBytes.length = m.peerset.encodedLength := by
    rw [toBytes_eq_writes hpeerset]
    rfl
  have hpos := LawfulUnsignedVarint.length_encode_pos m.peerset.encodedLength.toUInt64
  have hflat : m.writes.flatten.length = m.encodedLength := by
    simp only [StartMsg.writes, StartMsg.encodedLength, List.flatten_cons, List.flatten_nil,
      List.append_nil, List.length_append, hlen]
    omega
  have hchunk : ∀ c ∈ m.writes, c.length < bufSize := by
    intro c hc
    unfold StartMsg.encodedLength at h
    simp only [StartMsg.writes, hlen, List.mem_cons, List.not_mem_nil, or_false] at hc
    have hnum := fun v => LawfulUnsignedVarint.length_encode_le v
    rcases hc with rfl | rfl | rfl | rfl
    · have := hnum m.peerset.encodedLength.toUInt64
      omega
    · omega
    · have := hnum m.body.length.toUInt64
      omega
    · omega
  have hbuf := BufWriter.buf_writeAlls_of_le m.writes
    (BufWriter.new : BufWriter UInt8 bufSize) hchunk
    (by simp only [BufWriter.new, List.length_nil, Nat.zero_add, hflat]; exact h)
  simpa only [StartMsg.toBytes, BufWriter.new, List.nil_append] using hbuf

omit [LawfulPeerIdCodec P] in
/-- What the start message encoder returns: everything it wrote; all
but the first length, when the peerset's bytes pushed that out; or at
most the body and its length. -/
theorem startMsg_toBytes_cases (m : StartMsg P) :
    m.toBytes = m.writes.flatten ∨
    (bufSize < 10 + m.peerset.toBytes.length ∧
      m.toBytes = m.peerset.toBytes ++ UnsignedVarint.encode m.body.length.toUInt64 ++ m.body) ∨
    m.toBytes.length
      ≤ (UnsignedVarint.encode m.body.length.toUInt64).length + m.body.length := by
  have hsize : bufSize = 8192 := rfl
  have hv₁ := LawfulUnsignedVarint.length_encode_le m.peerset.toBytes.length.toUInt64
  have hv₂ := LawfulUnsignedVarint.length_encode_le m.body.length.toUInt64
  simp only [StartMsg.toBytes, StartMsg.writes, BufWriter.writeAlls_cons,
    BufWriter.writeAlls_nil, List.flatten_cons, List.flatten_nil, List.append_nil]
  generalize hv₁' : UnsignedVarint.encode m.peerset.toBytes.length.toUInt64 = v₁ at hv₁ ⊢
  generalize UnsignedVarint.encode m.body.length.toUInt64 = v₂ at hv₂ ⊢
  generalize m.peerset.toBytes = pb
  -- The first write always fits. Each later one fits or flushes.
  have h₁ : ((BufWriter.new : BufWriter UInt8 bufSize).writeAll v₁).buf = v₁ := by
    rw [BufWriter.buf_writeAll, if_pos (by omega),
      if_pos (by simp only [BufWriter.new, List.length_nil]; omega)]
    rfl
  generalize (BufWriter.new : BufWriter UInt8 bufSize).writeAll v₁ = w₁ at h₁ ⊢
  rw [BufWriter.buf_writeAll]
  by_cases hbody : m.body.length < bufSize
  · rw [if_pos hbody]
    split
    · rw [BufWriter.buf_writeAll, if_pos (show v₂.length < bufSize by omega)]
      split
      · rw [BufWriter.buf_writeAll, h₁]
        split
        · split
          · exact Or.inl (by simp)
          · exact Or.inr (Or.inl ⟨by omega, rfl⟩)
        · exact Or.inr (Or.inr (by simp))
      · exact Or.inr (Or.inr (by simp))
    · exact Or.inr (Or.inr (by omega))
  · rw [if_neg hbody]
    exact Or.inr (Or.inr (by simp))

omit [LawfulPeerIdCodec P] in
/-- What is returned is at most the peerset's bytes and the body, each
behind its length. -/
theorem length_startMsg_toBytes_le (m : StartMsg P) :
    m.toBytes.length ≤ 10 + m.peerset.toBytes.length
      + (UnsignedVarint.encode m.body.length.toUInt64).length + m.body.length := by
  have hprefix := LawfulUnsignedVarint.length_encode_le m.peerset.toBytes.length.toUInt64
  rcases startMsg_toBytes_cases m with he | ⟨_, he⟩ | he
  · rw [he]
    simp only [StartMsg.writes, List.flatten_cons, List.flatten_nil, List.append_nil,
      List.length_append]
    omega
  · rw [he]
    simp only [List.length_append]
    omega
  · omega

/-- A message whose encoding exceeds the buffer does not read back. -/
theorem not_startMsg_roundTrips (localPeerId : P) (hgt : bufSize < m.encodedLength) :
    ¬ StartMsg.RoundTrips m localPeerId := by
  intro h
  obtain ⟨buffer, io, hbytes, hio, hpeerset⟩ := parts_of_startMsg_fromBytes h
  have hbuffer := length_of_fromBytes hpeerset
  change peersAndPartiesLength m.peerset < buffer.length at hbuffer
  change buffer.length + (UnsignedVarint.encode m.body.length.toUInt64).length + m.body.length
    ≤ io.length at hio
  have hpos := LawfulUnsignedVarint.length_encode_pos buffer.length.toUInt64
  have hlen := length_of_readUsize hbytes
  have hfits : m.toBytes.length ≤ bufSize := BufWriter.fits _
  have hsize : bufSize = 8192 := rfl
  by_cases hpe : bufSize < m.peerset.encodedLength
  · -- A peerset beyond the buffer has lost too much.
    have hlost := length_toBytes_lt hpe
    have hshort := length_startMsg_toBytes_le m
    omega
  · have hpb := toBytes_eq_writes (Nat.le_of_not_lt hpe)
    have hpblen : m.peerset.toBytes.length = m.peerset.encodedLength := by
      rw [hpb]
      rfl
    have heq := encodedLength_eq m.peerset
    have hlocal := length_peerIdWrites_le m.peerset.localPeerId
    rcases startMsg_toBytes_cases m with he | ⟨hbig, he⟩ | he
    · -- Nothing was lost, so the encoding fitted after all.
      rw [he] at hfits
      simp only [StartMsg.writes, List.flatten_cons, List.flatten_nil, List.append_nil,
        List.length_append, hpblen] at hfits
      unfold StartMsg.encodedLength at hgt
      omega
    · -- The reader takes the length of the local peer id for that of the peerset.
      have hread : Peerset.readUsize m.toBytes
          = .ok ((PeerIdCodec.toBytes m.peerset.localPeerId).length.toUInt64,
              m.toBytes.drop (UnsignedVarint.encode
                (PeerIdCodec.toBytes m.peerset.localPeerId).length.toUInt64).length) := by
        rw [he, hpb]
        simp only [Peerset.writes, peerIdWrites, List.flatten_append, List.flatten_cons,
          List.append_assoc, readUsize_encode, List.drop_left]
      rw [hbytes, Outcome.ok.injEq, Prod.mk.injEq] at hread
      have hid := LawfulPeerIdCodec.length_toBytes_le m.peerset.localPeerId
      have hnum := congrArg UInt64.toNat hread.1
      rw [Leb128.toNat_toUInt64_of_lt (by omega), Leb128.toNat_toUInt64_of_lt (by omega)] at hnum
      omega
    · omega

/-- The parts of a start message read back, whatever the peerset's size. -/
theorem startMsg_fromBytes_writes (p : Peerset P) (localPeerId : P) (body : Bytes)
    (hpeers : p.peers.length < 2 ^ 64) (hparties : p.parties.length < 2 ^ 64)
    (hlength : p.encodedLength < 2 ^ 63) (hbody : body.length < 2 ^ 63) :
    StartMsg.fromBytes (UnsignedVarint.encode p.encodedLength.toUInt64 ++
        (p.writes.flatten ++ (UnsignedVarint.encode body.length.toUInt64 ++ body))) localPeerId
      = .ok { peerset := { p with localPeerId := localPeerId }, body := body } := by
  have hdecode := fromBytes_writes p localPeerId [] hpeers hparties
  have hrest := readBuffer_append body [] hbody
  rw [List.append_nil] at hdecode hrest
  unfold Peerset.encodedLength at hlength ⊢
  simp only [StartMsg.fromBytes, readUsize_encode, Outcome.ok_bind,
    readBuffer_append p.writes.flatten _ hlength, hrest, hdecode]
  rfl

/-- A start message that fits into the buffer survives. -/
theorem startMsg_roundTrips_of_le (localPeerId : P) (hle : m.encodedLength ≤ bufSize) :
    StartMsg.RoundTrips m localPeerId := by
  have hsize : bufSize = 8192 := rfl
  have hparts := hle
  unfold StartMsg.encodedLength at hparts
  have hpeerset : m.peerset.encodedLength ≤ bufSize := by omega
  have hlengths := length_le_encodedLength m.peerset
  unfold StartMsg.RoundTrips
  rw [startMsg_toBytes_eq_writes hle]
  simp only [StartMsg.writes, List.flatten_cons, List.flatten_nil, List.append_nil,
    toBytes_eq_writes hpeerset]
  exact startMsg_fromBytes_writes m.peerset localPeerId m.body (by omega) (by omega) (by omega)
    (by omega)

/-- When the encodings read back. A start message does exactly when its
whole encoding fits the writer's buffer of 8 KiB, and a peerset on its
own, as the peerset cache stores it, under the same condition. -/
theorem roundTrips_iff (m : StartMsg P) (localPeerId : P) :
    (StartMsg.RoundTrips m localPeerId ↔ m.encodedLength ≤ bufSize) ∧
    (Peerset.RoundTrips m.peerset localPeerId ↔ m.peerset.encodedLength ≤ bufSize) := by
  refine ⟨⟨fun h => ?_, startMsg_roundTrips_of_le localPeerId⟩,
    peerset_roundTrips_iff m.peerset localPeerId⟩
  by_contra hgt
  exact not_startMsg_roundTrips localPeerId (Nat.lt_of_not_le hgt) h

end Format

/-! ### A short and a long message -/

/-- A start message of two peers with the given body. -/
def twoPeerStart (body : Bytes) : StartMsg Ed25519PeerId where
  peerset :=
    { localPeerId := .ofByte 1, peers := [.ofByte 1, .ofByte 2], parties := [0, 1] }
  body := body

/-- A message of three body bytes fits, so both encodings read back at
the other peer. -/
theorem roundTrips_twoPeerStart :
    StartMsg.RoundTrips (twoPeerStart [1, 2, 3]) (.ofByte 2) ∧
    Peerset.RoundTrips (twoPeerStart [1, 2, 3]).peerset (.ofByte 2) :=
  have h := roundTrips_iff (twoPeerStart [1, 2, 3]) (.ofByte 2)
  ⟨h.1.mpr (by decide +kernel), h.2.mpr (by decide +kernel)⟩

/-- With a body of 8 KiB the same message does not read back. -/
theorem not_roundTrips_twoPeerStart :
    ¬ StartMsg.RoundTrips (twoPeerStart (List.replicate 8192 0)) (.ofByte 2) := by
  refine not_startMsg_roundTrips _ ?_
  have hbody : (twoPeerStart (List.replicate 8192 0)).body.length = 8192 :=
    List.length_replicate
  have hpos := LawfulUnsignedVarint.length_encode_pos
    (twoPeerStart (List.replicate 8192 0)).body.length.toUInt64
  have hsize : bufSize = 8192 := rfl
  unfold StartMsg.encodedLength
  omega

end FrostMpcTss.Proofs
