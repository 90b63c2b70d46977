import FrostMpcTss.Network.GenericCodec

/-!
# `FrostMpcTss.Proofs.WireCodec`: the wire format of requests and responses

`RequestHeader` are the fields in front of a request's payload, and
`Begins` says that the readers find them at the beginning of a stream. A
stream that begins with a header is read as far as the payload
(`readRequest_of_begins`), and any other stream ends in an error without a
buffer being allocated, or in the panic on an unknown message type
(`readRequest_cases`).

From this come the round trip of requests and responses (`wireRoundTrips`)
and the language of the request decoder (`decodesGrammar_iff`). Only the
round trip needs a law of the varints. The grammar is in terms of what the
varint readers read, since they take more than the encodings.
-/

set_option autoImplicit false

namespace FrostMpcTss.Proofs

open Lib Network
open Network.GenericCodec

/-- The fields of a request before its payload. -/
structure RequestHeader where
  messageType : MessageType
  isBroadcast : UInt8
  protocolId : UInt64
  sessionId : SessionId
  messageId : UInt64
  length : UInt64

namespace RequestHeader

variable [Varint]

/-- The encoding of the fields. -/
def bytes (h : RequestHeader) : Bytes :=
  Varint.encodeU8 (messageTypeByte h.messageType)
    ++ Varint.encodeU8 h.isBroadcast
    ++ Varint.encodeU64 h.protocolId
    ++ h.sessionId.toList
    ++ Varint.encodeU64 h.messageId
    ++ Varint.encodeU64 h.length

omit [Varint] in
/-- The request with these fields. -/
def message (h : RequestHeader) (payload : ByteVec) : WireMessage where
  context :=
    { messageType := h.messageType
      protocolId := h.protocolId.toNat
      sessionId := h.sessionId
      messageId := h.messageId.toNat }
  payload := payload
  isBroadcast := h.isBroadcast != 0
  protocolId_lt := h.protocolId.toNat_lt
  messageId_lt := h.messageId.toNat_lt

/-- The stream begins with the fields, as the varint readers see them, and
`rest` is behind them. -/
inductive Begins : Bytes → RequestHeader → Bytes → Prop
  | intro {io io₁ io₂ io₃ io₄ io₅ rest : Bytes} {messageType : MessageType}
      {isBroadcast : UInt8} {protocolId messageId length : UInt64} {sessionId : SessionId}
      (type : Varint.readU8 io = .ok (messageTypeByte messageType, io₁))
      (flag : Varint.readU8 io₁ = .ok (isBroadcast, io₂))
      (protocol : Varint.readU64 io₂ = .ok (protocolId, io₃))
      (session : io₃ = sessionId.toList ++ io₄)
      (message : Varint.readU64 io₄ = .ok (messageId, io₅))
      (size : Varint.readU64 io₅ = .ok (length, rest)) :
      Begins io ⟨messageType, isBroadcast, protocolId, sessionId, messageId, length⟩ rest

/-- The encoding of a header, and anything behind it. -/
theorem begins_bytes [LawfulVarint] (h : RequestHeader) (rest : Bytes) :
    Begins (h.bytes ++ rest) h rest := by
  simp only [bytes, List.append_assoc]
  exact .intro (LawfulVarint.readU8_encodeU8 _ _) (LawfulVarint.readU8_encodeU8 _ _)
    (LawfulVarint.readU64_encodeU64 _ _) rfl (LawfulVarint.readU64_encodeU64 _ _)
    (LawfulVarint.readU64_encodeU64 _ _)

end RequestHeader

section Fields

/-- A session id is read back. -/
theorem readSessionId_append (sessionId : SessionId) (rest : Bytes) :
    readSessionId (sessionId.toList ++ rest) = .lift (.ok (sessionId, rest)) := by
  have hlen : sessionId.toList.length = 16 := sessionId.length_toList
  unfold readSessionId
  rw [dif_neg (by rw [List.length_append]; omega)]
  congr 3
  · apply Vector.toList_inj.mp
    show (List.take 16 (sessionId.toList ++ rest)) = sessionId.toList
    rw [List.take_append_of_le_length (by omega), List.take_of_length_le (by omega)]
  · rw [List.drop_append_of_le_length (by omega), List.drop_of_length_le (by omega)]
    rfl

/-- A session id is sixteen bytes. -/
theorem readSessionId_cases (io : Bytes) :
    readSessionId io = .lift (.err .unexpectedEof) ∨
      ∃ (sessionId : SessionId) (rest : Bytes), io = sessionId.toList ++ rest := by
  by_cases h : io.length < 16
  · left
    rw [readSessionId, dif_pos h]
  · refine .inr ⟨⟨(io.take 16).toArray, size_take_session h⟩, io.drop 16, ?_⟩
    exact (List.take_append_drop 16 io).symm

theorem messageTypeOf_messageTypeByte (messageType : MessageType) :
    messageTypeOf (messageTypeByte messageType) = pure messageType := by
  cases messageType <;> rfl

theorem messageTypeOf_cases (b : UInt8) :
    (messageTypeOf b = .lift (.panic .unknownMessageType) ∧ 2 ≤ b.toNat) ∨
      ∃ messageType, b = messageTypeByte messageType := by
  by_cases h₀ : b = 0
  · exact .inr ⟨.coordination, h₀⟩
  · by_cases h₁ : b = 1
    · exact .inr ⟨.computation, h₁⟩
    · refine .inl ⟨by rw [messageTypeOf, if_neg h₀, if_neg h₁], ?_⟩
      rw [← UInt8.toNat_inj] at h₀ h₁
      have h₀ : b.toNat ≠ 0 := h₀
      have h₁ : b.toNat ≠ 1 := h₁
      omega

end Fields

variable {h : RequestHeader}

section Requests

variable [Varint]

/-- A header is read, whatever follows it. -/
theorem readRequest_of_begins (codec : GenericCodec) {io rest : Bytes} (hio : h.Begins io rest) :
    codec.readRequest io = do
      checkLength "Request" codec.maxRequestSize h.length
      let payload ← readPayload h.length rest
      return h.message payload := by
  cases hio with
  | intro type flag protocol session message size =>
      subst session
      unfold readRequest
      simp only [type, flag, protocol, message, size, ofVarint, readSessionId_append,
        messageTypeOf_messageTypeByte, Traced.ok_bind, Traced.pure_eq_lift]
      rfl

/-- Every stream begins with a header, or the reader fails before the
payload. -/
theorem readRequest_cases (codec : GenericCodec) (io : Bytes) :
    (∃ e, codec.readRequest io = .lift (.err e)) ∨
    (∃ b rest, Varint.readU8 io = .ok (b, rest) ∧ 2 ≤ b.toNat ∧
      codec.readRequest io = .lift (.panic .unknownMessageType)) ∨
    ∃ (h : RequestHeader) (rest : Bytes), h.Begins io rest := by
  -- the fields are read in the order of the header, and each read either ends
  -- the reader or leaves the stream for the next one
  unfold readRequest
  rcases htype : Varint.readU8 io with e | ⟨b, io₁⟩
  · exact .inl ⟨_, rfl⟩
  rcases messageTypeOf_cases b with ⟨hpanic, hb⟩ | ⟨messageType, rfl⟩
  · refine .inr (.inl ⟨b, io₁, rfl, hb, ?_⟩)
    simp only [ofVarint, Traced.ok_bind, hpanic]
    rfl
  simp only [ofVarint, messageTypeOf_messageTypeByte, Traced.pure_eq_lift, Traced.ok_bind]
  rcases hflag : Varint.readU8 io₁ with e | ⟨isBroadcast, io₂⟩
  · exact .inl ⟨_, rfl⟩
  rcases hprotocol : Varint.readU64 io₂ with e | ⟨protocolId, io₃⟩
  · exact .inl ⟨_, by simp only [Traced.ok_bind, hprotocol]; rfl⟩
  simp only [Traced.ok_bind, hprotocol]
  rcases readSessionId_cases io₃ with he | ⟨sessionId, io₄, hsession⟩
  · exact .inl ⟨_, by rw [he]; rfl⟩
  rw [hsession, readSessionId_append, Traced.ok_bind]
  rcases hmessage : Varint.readU64 io₄ with e | ⟨messageId, io₅⟩
  · exact .inl ⟨_, rfl⟩
  simp only [Traced.ok_bind]
  rcases hlength : Varint.readU64 io₅ with e | ⟨length, rest⟩
  · exact .inl ⟨_, rfl⟩
  exact .inr (.inr ⟨_, _, .intro htype hflag hprotocol hsession hmessage hlength⟩)

end Requests

section RoundTrip

theorem length_lt (payload : ByteVec) : payload.1.length < 2 ^ 64 := by
  have h := payload.2
  unfold isizeMax at h
  omega

theorem checkLength_of_le (name : String) {maxSize length : UInt64} (h : length ≤ maxSize) :
    checkLength name maxSize length = pure () := by
  rw [checkLength, if_neg (UInt64.not_lt.mpr h)]

/-- A payload is read, whatever follows it. -/
theorem readPayload_append (payload : ByteVec) (length : UInt64) (rest : Bytes)
    (h : payload.1.length = length.toNat) :
    (readPayload length (payload.1 ++ rest)).outcome = .ok payload := by
  have hle : length.toNat ≤ isizeMax := h ▸ payload.2
  unfold readPayload
  simp only
  rw [dif_pos hle, if_neg (by rw [List.length_append]; omega)]
  congr 1
  apply Subtype.ext
  show (payload.1 ++ rest).take length.toNat = payload.1
  rw [← h, List.take_left]

/-- The limit as the readers compare it. -/
theorem length_le_of_payload {payload : ByteVec} {maxSize : UInt64}
    (h : payload.1.length ≤ maxSize.toNat) : payload.1.length.toUInt64 ≤ maxSize := by
  rw [UInt64.le_iff_toNat_le, Leb128.toNat_toUInt64_of_lt (length_lt payload)]
  exact h

/-- The fields of a request. -/
def headerOf (m : WireMessage) : RequestHeader where
  messageType := m.context.messageType
  isBroadcast := if m.isBroadcast then 1 else 0
  protocolId := m.context.protocolId.toUInt64
  sessionId := m.context.sessionId
  messageId := m.context.messageId.toUInt64
  length := m.payload.1.length.toUInt64

theorem message_headerOf (m : WireMessage) : (headerOf m).message m.payload = m := by
  have hprotocol := Leb128.toNat_toUInt64_of_lt m.protocolId_lt
  have hmessage := Leb128.toNat_toUInt64_of_lt m.messageId_lt
  obtain ⟨⟨messageType, protocolId, sessionId, messageId⟩, payload, isBroadcast, _, _⟩ := m
  simp only [RequestHeader.message, headerOf, WireMessage.mk.injEq, MessageContext.mk.injEq,
    true_and]
  refine ⟨⟨hprotocol, hmessage⟩, ?_⟩
  cases isBroadcast <;> rfl

variable [Varint]

/-- A whole request is read. -/
theorem outcome_readRequest (codec : GenericCodec) {io rest : Bytes} {payload : ByteVec}
    (hio : h.Begins io (payload.1 ++ rest)) (hlength : payload.1.length = h.length.toNat)
    (hle : h.length ≤ codec.maxRequestSize) :
    (codec.readRequest io).outcome = .ok (h.message payload) := by
  rw [readRequest_of_begins codec hio, checkLength_of_le _ hle, Traced.pure_eq_lift,
    Traced.ok_bind, Traced.outcome_bind, readPayload_append payload _ rest hlength]
  rfl

variable [LawfulVarint]

/-- A request whose payload is allowed is read back. -/
theorem readRequest_writeRequest (codec : GenericCodec) (m : WireMessage)
    (h : m.payload.1.length ≤ codec.maxRequestSize.toNat) :
    (codec.readRequest (writeRequest m)).outcome = .ok m := by
  have hbegins : (headerOf m).Begins (writeRequest m) (m.payload.1 ++ []) := by
    rw [List.append_nil]
    exact (headerOf m).begins_bytes m.payload.1
  have hlength : m.payload.1.length = (headerOf m).length.toNat :=
    (Leb128.toNat_toUInt64_of_lt (length_lt m.payload)).symm
  rw [outcome_readRequest codec hbegins hlength (length_le_of_payload h), message_headerOf]

/-- So is a response, also one that says `Err`. -/
theorem readResponse_writeResponse (codec : GenericCodec) (r : Except Unit ByteVec)
    (h : ∀ payload, r = .ok payload → payload.1.length ≤ codec.maxResponseSize.toNat) :
    (codec.readResponse (writeResponse r)).outcome = .ok r := by
  cases r with
  | error u =>
      -- a refusal is written as no bytes at all
      show (codec.readResponse []).outcome = _
      unfold readResponse
      rw [LawfulVarint.readU64_nil]
      rfl
  | ok payload =>
      have hlength := Leb128.toNat_toUInt64_of_lt (length_lt payload)
      have hread := LawfulVarint.readU64_encodeU64 payload.1.length.toUInt64 payload.1
      have hpayload := readPayload_append payload _ [] hlength.symm
      rw [List.append_nil] at hpayload
      unfold readResponse writeResponse
      simp only [hread]
      rw [checkLength_of_le _ (length_le_of_payload (h payload rfl)), Traced.pure_eq_lift,
        Traced.ok_bind, Traced.outcome_bind, hpayload]
      rfl

/-- What was written is read back: requests and responses within the
limits. The empty response and the refusal have different encodings. -/
theorem wireRoundTrips (codec : GenericCodec) :
    (∀ m : WireMessage, m.payload.1.length ≤ codec.maxRequestSize.toNat →
      (codec.readRequest (writeRequest m)).outcome = .ok m) ∧
    (∀ r : Except Unit ByteVec,
      (∀ payload, r = .ok payload → payload.1.length ≤ codec.maxResponseSize.toNat) →
      (codec.readResponse (writeResponse r)).outcome = .ok r) ∧
    ∀ payload : ByteVec, payload.1 = [] →
      writeResponse (.ok payload) ≠ writeResponse (.error ()) := by
  refine ⟨readRequest_writeRequest codec, readResponse_writeResponse codec, ?_⟩
  intro payload hempty heq
  -- both are read back, as different responses
  have hok := readResponse_writeResponse codec (.ok payload) fun _ hp => by
    cases hp
    rw [hempty]
    exact Nat.zero_le _
  rw [heq, readResponse_writeResponse codec (.error ()) nofun] at hok
  cases hok

end RoundTrip

open scoped Leb128Wire in
/-- A request of the largest protocol id, as a codec of eight bytes reads
it back. -/
theorem wireRoundTrips_request :
    ∃ m : WireMessage, m.context.protocolId = 2 ^ 64 - 1 ∧
      ((GenericCodec.mk 8 8).readRequest (writeRequest m)).outcome = .ok m := by
  refine ⟨⟨⟨.computation, 2 ^ 64 - 1, noSessionId, 300⟩, ⟨[1, 2, 3], by decide⟩, true,
    by decide, by decide⟩, rfl, ?_⟩
  exact (wireRoundTrips ⟨8, 8⟩).1 _ (by decide)

section Grammar

variable [Varint]

/-- The stream begins with the fields of the request, a length within the
limit among them, and as many bytes. -/
def WellFormedRequest (codec : GenericCodec) (io : Bytes) (m : WireMessage) : Prop :=
  ∃ (h : RequestHeader) (payload : ByteVec) (rest : Bytes),
    h.Begins io (payload.1 ++ rest) ∧ payload.1.length = h.length.toNat ∧
    h.length ≤ codec.maxRequestSize ∧ m = h.message payload

/-- The decoder accepts the well-formed streams and no others, does not
panic, and allocates no more than the limit. -/
structure DecodesGrammar (codec : GenericCodec) (io : Bytes) : Prop where
  accepts : ∀ m, (codec.readRequest io).outcome = .ok m ↔ WellFormedRequest codec io m
  returns : ¬ (codec.readRequest io).outcome.Panics
  allocates : ∀ size ∈ (codec.readRequest io).events, size ≤ codec.maxRequestSize.toNat

/-- The first number is not a message type. -/
def UnknownType (io : Bytes) : Prop :=
  ∃ b rest, Varint.readU8 io = .ok (b, rest) ∧ 2 ≤ b.toNat

/-- The limit lets a length pass for which there is no buffer. -/
def OversizedPayload (codec : GenericCodec) (io : Bytes) : Prop :=
  ∃ (h : RequestHeader) (rest : Bytes), h.Begins io rest ∧
    h.length ≤ codec.maxRequestSize ∧ isizeMax < h.length.toNat

/-- The reader behind a header. -/
theorem readRequest_header_cases (codec : GenericCodec) {io rest : Bytes} (hio : h.Begins io rest) :
    (codec.maxRequestSize < h.length ∧ ∃ e, codec.readRequest io = .lift (.err e)) ∨
    (h.length ≤ codec.maxRequestSize ∧
      codec.readRequest io
        = (do let payload ← readPayload h.length rest; return h.message payload)) := by
  rw [readRequest_of_begins codec hio]
  by_cases hle : h.length ≤ codec.maxRequestSize
  · right
    rw [checkLength_of_le _ hle]
    exact ⟨hle, rfl⟩
  · left
    have hlt := UInt64.not_le.mp hle
    rw [checkLength, if_pos hlt]
    exact ⟨hlt, _, rfl⟩

/-- What is accepted is the encoding of what is returned. -/
theorem wellFormed_of_outcome {codec : GenericCodec} {io : Bytes} {m : WireMessage}
    (hok : (codec.readRequest io).outcome = .ok m) : WellFormedRequest codec io m := by
  rcases readRequest_cases codec io with ⟨e, he⟩ | ⟨_, _, _, _, he⟩ | ⟨h, rest, hio⟩
  · rw [he] at hok
    cases hok
  · rw [he] at hok
    cases hok
  · rcases readRequest_header_cases codec hio with ⟨_, e, he⟩ | ⟨hle, he⟩
    · rw [he] at hok
      cases hok
    · rw [he, Traced.outcome_bind] at hok
      obtain ⟨payload, hpayload, hm⟩ := Outcome.bind_eq_ok.mp hok
      cases hm
      simp only [readPayload] at hpayload
      split at hpayload
      · split at hpayload
        · cases hpayload
        · rename_i hlong
          cases hpayload
          refine ⟨h, _, rest.drop h.length.toNat, ?_, ?_, hle, rfl⟩
          · rw [List.take_append_drop]
            exact hio
          · rw [List.length_take]
            omega
      · cases hpayload

/-- No buffer is larger than allowed. -/
theorem events_readRequest {codec : GenericCodec} {io : Bytes} {size : Nat}
    (hmem : size ∈ (codec.readRequest io).events) : size ≤ codec.maxRequestSize.toNat := by
  rcases readRequest_cases codec io with ⟨e, he⟩ | ⟨_, _, _, _, he⟩ | ⟨h, rest, hio⟩
  · rw [he] at hmem
    cases hmem
  · rw [he] at hmem
    cases hmem
  · rcases readRequest_header_cases codec hio with ⟨_, e, he⟩ | ⟨hle, he⟩
    · rw [he] at hmem
      cases hmem
    · rw [he] at hmem
      rcases Traced.mem_events_bind.mp hmem with hmem | ⟨_, _, hmem⟩
      · rw [List.mem_singleton.mp hmem]
        exact UInt64.le_iff_toNat_le.mp hle
      · cases hmem

/-- Where the decoder panics. -/
theorem panics_readRequest_iff (codec : GenericCodec) (io : Bytes) :
    (codec.readRequest io).outcome.Panics ↔ UnknownType io ∨ OversizedPayload codec io := by
  constructor
  · rintro ⟨why, hwhy⟩
    rcases readRequest_cases codec io with ⟨e, he⟩ | ⟨b, rest, hread, hb, _⟩ | ⟨h, rest, hio⟩
    · rw [he] at hwhy
      cases hwhy
    · exact .inl ⟨b, rest, hread, hb⟩
    · rcases readRequest_header_cases codec hio with ⟨_, e, he⟩ | ⟨hle, he⟩
      · rw [he] at hwhy
        cases hwhy
      · refine .inr ⟨h, rest, hio, hle, Nat.lt_of_not_le fun hsmall => ?_⟩
        rw [he] at hwhy
        simp only [readPayload, Traced.outcome_bind, dif_pos hsmall] at hwhy
        split at hwhy <;> cases hwhy
  · rintro (⟨b, rest, hread, hb⟩ | ⟨h, rest, hio, hle, hlarge⟩)
    · refine ⟨.unknownMessageType, ?_⟩
      rw [readRequest, hread]
      rcases messageTypeOf_cases b with ⟨htype, _⟩ | ⟨messageType, rfl⟩
      · simp only [ofVarint, Traced.ok_bind, htype]
        rfl
      · cases messageType <;> exact absurd hb (by decide)
    · refine ⟨.capacityOverflow, ?_⟩
      rcases readRequest_header_cases codec hio with ⟨hlt, _⟩ | ⟨_, he⟩
      · exact absurd hle (UInt64.not_le.mpr hlt)
      · rw [he]
        simp only [readPayload, Traced.outcome_bind, dif_neg (Nat.not_le.mpr hlarge)]
        rfl

/-- The request decoder follows its grammar on every stream but those that
start with another number than a message type, and those whose length is
within the limit and beyond any buffer. -/
theorem decodesGrammar_iff (codec : GenericCodec) (io : Bytes) :
    DecodesGrammar codec io ↔ ¬ UnknownType io ∧ ¬ OversizedPayload codec io := by
  rw [← not_or, ← panics_readRequest_iff]
  refine ⟨fun h => h.returns, fun h => ⟨fun m => ⟨wellFormed_of_outcome, ?_⟩, h,
    fun _ => events_readRequest⟩⟩
  rintro ⟨header, payload, rest, hio, hlength, hle, rfl⟩
  exact outcome_readRequest codec hio hlength hle

end Grammar

open scoped Leb128Wire

/-- A request of one byte, and a byte after it. -/
theorem decodesGrammar_oneByte :
    DecodesGrammar ⟨8, 8⟩ ([1, 0, 7] ++ List.replicate 16 0 ++ [9, 1, 42, 5]) := by
  refine (decodesGrammar_iff ⟨8, 8⟩ _).mpr ⟨?_, ?_⟩
  · rintro ⟨b, rest, hread, hb⟩
    cases hread
    exact absurd hb (by decide)
  · rintro ⟨h, rest, _, hle, hlarge⟩
    have hle := UInt64.le_iff_toNat_le.mp hle
    have hlarge : 2 ^ 63 - 1 < h.length.toNat := hlarge
    have hmax : (8 : UInt64).toNat = 8 := rfl
    rw [hmax] at hle
    omega

/-- One byte stops the node. -/
theorem not_decodesGrammar_two :
    ((GenericCodec.mk 8 8).readRequest [2]).outcome = .panic .unknownMessageType ∧
      ¬ DecodesGrammar ⟨8, 8⟩ [2] := by
  refine ⟨rfl, fun h => h.returns ⟨.unknownMessageType, rfl⟩⟩

end FrostMpcTss.Proofs
