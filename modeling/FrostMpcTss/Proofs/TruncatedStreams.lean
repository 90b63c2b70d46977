import FrostMpcTss.Proofs.WireCodec

/-!
# `FrostMpcTss.Proofs.TruncatedStreams`: streams that are cut off

A connection can break while a request or a response is on its way, and
the other end reads a part of it. `truncatedStreams` says what it reads.
A request that is cut off anywhere is an error. A response is an error if
the cut is in its payload. If the cut is in its length, or before it, the
response counts as the refusal `Err(())`, which is written as an empty
stream: `read_response` takes every end of the stream in the length for
one. In no case is another message read, and nothing panics.

The readers take one field after the other. For each there is a lemma
about a stream that ends inside the field (`_cut`), and `cut_append`
leads from one field to the next.
-/

set_option autoImplicit false

namespace FrostMpcTss.Proofs

open Lib Network
open Network.GenericCodec

/-- A cut is inside the first part, or behind it. -/
theorem cut_append {w more p : Bytes} (h : p <+: w ++ more) :
    (p <+: w ∧ p ≠ w) ∨ ∃ p', p = w ++ p' ∧ p' <+: more := by
  by_cases hlt : p.length < w.length
  · refine .inl ⟨List.prefix_of_prefix_length_le h (List.prefix_append ..) (Nat.le_of_lt hlt), ?_⟩
    rintro rfl
    exact Nat.lt_irrefl _ hlt
  · obtain ⟨p', rfl⟩ :=
      List.prefix_of_prefix_length_le (List.prefix_append w more) h (Nat.le_of_not_lt hlt)
    exact .inr ⟨p', rfl, (List.prefix_append_right_inj w).mp h⟩

/-! ### Fields -/

theorem readSessionId_cut {sessionId : SessionId} {p : Bytes} (hp : p <+: sessionId.toList)
    (hne : p ≠ sessionId.toList) : readSessionId p = .lift (.err .unexpectedEof) := by
  have hlength : sessionId.toList.length = 16 := sessionId.length_toList
  have hlt : p.length < 16 := by
    rcases Nat.lt_or_ge p.length 16 with hlt | hge
    · exact hlt
    · exact absurd (hp.eq_of_length_le (by omega)) hne
  rw [readSessionId, dif_pos hlt]

/-- A payload that is cut off. -/
theorem readPayload_cut {payload : ByteVec} {p : Bytes} (hp : p <+: payload.1)
    (hne : p ≠ payload.1) :
    (readPayload payload.1.length.toUInt64 p).outcome = .err .unexpectedEof := by
  have hlength := Leb128.toNat_toUInt64_of_lt (length_lt payload)
  have hlt : p.length < payload.1.length := by
    rcases Nat.lt_or_ge p.length payload.1.length with hlt | hge
    · exact hlt
    · exact absurd (hp.eq_of_length_le hge) hne
  unfold readPayload
  simp only [hlength]
  rw [dif_pos payload.2, if_pos hlt]

/-! ### Requests and responses -/

/-- The stream has ended too early: inside the session id or the payload,
or inside a varint, whose `UnexpectedEof` the reader wraps in an
`InvalidInput`. -/
def IsEof (e : CodecError) : Prop := e = .unexpectedEof ∨ e = .varint .unexpectedEof

section Laws

variable [Varint] [LawfulVarintCut] {io : Bytes}

theorem ofVarint_encodeU8 (v : UInt8) (rest : Bytes) :
    ofVarint (Varint.readU8 (Varint.encodeU8 v ++ rest)) = .lift (.ok (v, rest)) := by
  rw [LawfulVarint.readU8_encodeU8]
  rfl

theorem ofVarint_encodeU64 (v : UInt64) (rest : Bytes) :
    ofVarint (Varint.readU64 (Varint.encodeU64 v ++ rest)) = .lift (.ok (v, rest)) := by
  rw [LawfulVarint.readU64_encodeU64]
  rfl

/-- A request that is cut off inside the fields before its payload. -/
theorem readRequest_header_cut (codec : GenericCodec) {h : RequestHeader} (hio : io <+: h.bytes)
    (hne : io ≠ h.bytes) : ∃ e, IsEof e ∧ codec.readRequest io = .lift (.err e) := by
  have hvarint : IsEof (.varint .unexpectedEof) := .inr rfl
  simp only [RequestHeader.bytes, List.append_assoc] at hio hne
  unfold readRequest
  -- the cut is in one of the fields, and all fields before it are read
  rcases cut_append hio with ⟨hcut, hshort⟩ | ⟨io₁, rfl, hio₁⟩
  · exact ⟨_, hvarint, by rw [LawfulVarintCut.readU8_cut hcut hshort]; rfl⟩
  rw [ofVarint_encodeU8, Traced.ok_bind]
  simp only [messageTypeOf_messageTypeByte, Traced.pure_eq_lift, Traced.ok_bind]
  rcases cut_append hio₁ with ⟨hcut, hshort⟩ | ⟨io₂, rfl, hio₂⟩
  · exact ⟨_, hvarint, by rw [LawfulVarintCut.readU8_cut hcut hshort]; rfl⟩
  rw [ofVarint_encodeU8, Traced.ok_bind]
  rcases cut_append hio₂ with ⟨hcut, hshort⟩ | ⟨io₃, rfl, hio₃⟩
  · exact ⟨_, hvarint, by simp only [LawfulVarintCut.readU64_cut hcut hshort]; rfl⟩
  simp only [ofVarint_encodeU64, Traced.ok_bind]
  rcases cut_append hio₃ with ⟨hcut, hshort⟩ | ⟨io₄, rfl, hio₄⟩
  · exact ⟨_, .inl rfl, by rw [readSessionId_cut hcut hshort]; rfl⟩
  rw [readSessionId_append, Traced.ok_bind]
  rcases cut_append hio₄ with ⟨hcut, hshort⟩ | ⟨io₅, rfl, hio₅⟩
  · exact ⟨_, hvarint, by simp only [LawfulVarintCut.readU64_cut hcut hshort]; rfl⟩
  simp only [ofVarint_encodeU64, Traced.ok_bind]
  have hshort : io₅ ≠ Varint.encodeU64 h.length := by
    rintro rfl
    exact hne rfl
  exact ⟨_, hvarint, by rw [LawfulVarintCut.readU64_cut hio₅ hshort]; rfl⟩

/-- A request that is cut off, and its sender's limit is the reader's. -/
theorem outcome_readRequest_cut (codec : GenericCodec) {m : WireMessage}
    (hsize : m.payload.1.length ≤ codec.maxRequestSize.toNat) (h : io <+: writeRequest m)
    (hne : io ≠ writeRequest m) : ∃ e, IsEof e ∧ (codec.readRequest io).outcome = .err e := by
  have hbytes : writeRequest m = (headerOf m).bytes ++ m.payload.1 := rfl
  rw [hbytes] at h hne
  rcases cut_append h with ⟨hcut, hshort⟩ | ⟨rest, rfl, hrest⟩
  · obtain ⟨e, he, hread⟩ := readRequest_header_cut codec hcut hshort
    exact ⟨e, he, by rw [hread]; rfl⟩
  · have hshort : rest ≠ m.payload.1 := by
      rintro rfl
      exact hne rfl
    have hlength : (headerOf m).length = m.payload.1.length.toUInt64 := rfl
    refine ⟨_, .inl rfl, ?_⟩
    rw [readRequest_of_begins codec ((headerOf m).begins_bytes rest), hlength,
      checkLength_of_le _ (length_le_of_payload hsize), Traced.pure_eq_lift, Traced.ok_bind,
      Traced.outcome_bind, readPayload_cut hrest hshort]
    rfl

/-- A response that is cut off. -/
theorem outcome_readResponse_cut (codec : GenericCodec) {payload : ByteVec}
    (hsize : payload.1.length ≤ codec.maxResponseSize.toNat)
    (h : io <+: writeResponse (.ok payload)) (hne : io ≠ writeResponse (.ok payload)) :
    (codec.readResponse io).outcome =
      if io.length < (Varint.encodeU64 payload.1.length.toUInt64).length then .ok (.error ())
      else .err .unexpectedEof := by
  have hbytes : writeResponse (.ok payload) =
      Varint.encodeU64 payload.1.length.toUInt64 ++ payload.1 := rfl
  rw [hbytes] at h hne
  rcases cut_append h with ⟨hcut, hshort⟩ | ⟨rest, rfl, hrest⟩
  · have hlt : io.length < (Varint.encodeU64 payload.1.length.toUInt64).length := by
      refine Nat.lt_of_le_of_ne hcut.length_le fun hlength => hshort ?_
      exact hcut.eq_of_length hlength
    rw [if_pos hlt, readResponse, LawfulVarintCut.readU64_cut hcut hshort]
    rfl
  · have hshort : rest ≠ payload.1 := by
      rintro rfl
      exact hne rfl
    have hge : ¬ (Varint.encodeU64 payload.1.length.toUInt64 ++ rest).length <
        (Varint.encodeU64 payload.1.length.toUInt64).length := by
      rw [List.length_append]
      omega
    rw [if_neg hge, readResponse, LawfulVarint.readU64_encodeU64]
    simp only [checkLength_of_le _ (length_le_of_payload hsize), Traced.pure_eq_lift,
      Traced.ok_bind, Traced.outcome_bind, readPayload_cut hrest hshort]
    rfl

/-! ### What is read from a part of a stream -/

/-- If a part of a request is read as a message, it is the message that was
written. -/
theorem message_of_read {codec : GenericCodec} {m m' : WireMessage} (hio : io <+: writeRequest m)
    (hread : (codec.readRequest io).outcome = .ok m') : m' = m := by
  by_cases hsize : m.payload.1.length ≤ codec.maxRequestSize.toNat
  · by_cases hwhole : io = writeRequest m
    · rw [hwhole, readRequest_writeRequest codec m hsize] at hread
      cases hread
      rfl
    · obtain ⟨e, -, he⟩ := outcome_readRequest_cut codec hsize hio hwhole
      rw [he] at hread
      cases hread
  · -- the header is not read, or its length is refused
    have hbytes : writeRequest m = (headerOf m).bytes ++ m.payload.1 := rfl
    rw [hbytes] at hio
    rcases cut_append hio with ⟨hcut, hshort⟩ | ⟨rest, rfl, -⟩
    · obtain ⟨e, -, he⟩ := readRequest_header_cut codec hcut hshort
      rw [he] at hread
      cases hread
    · rcases readRequest_header_cases codec ((headerOf m).begins_bytes rest) with
        ⟨-, e, he⟩ | ⟨hle, -⟩
      · rw [he] at hread
        cases hread
      · have hle : m.payload.1.length.toUInt64 ≤ codec.maxRequestSize := hle
        rw [UInt64.le_iff_toNat_le, Leb128.toNat_toUInt64_of_lt (length_lt m.payload)] at hle
        exact absurd hle hsize

/-- If a part of a response is read as a payload, it is the payload that
was written. -/
theorem payload_of_read {codec : GenericCodec} {payload payload' : ByteVec}
    (hio : io <+: writeResponse (.ok payload))
    (hread : (codec.readResponse io).outcome = .ok (.ok payload')) : payload' = payload := by
  by_cases hsize : payload.1.length ≤ codec.maxResponseSize.toNat
  · by_cases hwhole : io = writeResponse (.ok payload)
    · subst hwhole
      rw [readResponse_writeResponse codec _ fun p hp => by cases hp; exact hsize] at hread
      cases hread
      rfl
    · rw [outcome_readResponse_cut codec hsize hio hwhole] at hread
      split at hread
      · cases hread
      · cases hread
  · -- the length is not read, or it is refused
    rcases cut_append hio with ⟨hcut, hshort⟩ | ⟨rest, rfl, -⟩
    · rw [readResponse, LawfulVarintCut.readU64_cut hcut hshort] at hread
      cases hread
    · rw [readResponse, LawfulVarint.readU64_encodeU64] at hread
      have hlt : codec.maxResponseSize < payload.1.length.toUInt64 := by
        rw [UInt64.lt_iff_toNat_lt, Leb128.toNat_toUInt64_of_lt (length_lt payload)]
        omega
      simp only [checkLength, if_pos hlt] at hread
      cases hread

end Laws

end FrostMpcTss.Proofs
