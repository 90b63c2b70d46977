import FrostMpcTss.Lib.Traced
import FrostMpcTss.Network.Varint

/-!
# `FrostMpcTss.Network.GenericCodec`: requests and responses on the wire

A request is seven fields one after the other: message type, broadcast
marker, protocol id, session id, message id, length, payload. A response
is a length and a payload, or nothing at all for `Err(())`. The writer
closes the stream behind the last byte.

The readers log the buffers they allocate, which happens before the bytes
for them are there.
-/

set_option autoImplicit false

namespace FrostMpcTss.Network

open Lib

/-- The largest buffer there can be, `isize::MAX` bytes. -/
def isizeMax : Nat := 2 ^ 63 - 1

/-- A `Vec<u8>`. -/
abbrev ByteVec := { b : Bytes // b.length ≤ isizeMax }

/-- `WireMessage`, with the ranges of its types. -/
structure WireMessage where
  context : MessageContext
  payload : ByteVec
  isBroadcast : Bool
  protocolId_lt : context.protocolId < 2 ^ 64
  messageId_lt : context.messageId < 2 ^ 64
deriving DecidableEq

/-- `GenericCodec`. -/
structure GenericCodec where
  maxRequestSize : UInt64
  maxResponseSize : UInt64
deriving Repr, DecidableEq

/-- The panics of the readers. -/
inductive CodecPanic where
  | unknownMessageType
  /-- `vec![0; length]` -/
  | capacityOverflow
deriving Repr, DecidableEq

/-- The `io::Error`s of the readers. -/
inductive CodecError where
  /-- `InvalidInput` from a varint -/
  | varint (e : ReadError)
  /-- `read_exact` on a short stream -/
  | unexpectedEof
  /-- `InvalidInput` with a text -/
  | invalidInput (text : String)
deriving Repr, DecidableEq

/-- A call of a reader. It logs the sizes of its buffers. -/
abbrev Read (α : Type) := Traced Nat CodecPanic CodecError α

namespace GenericCodec

/-- `message_type as u8`. -/
def messageTypeByte : MessageType → UInt8
  | .coordination => 0
  | .computation => 1

/-- The message type of a byte. -/
def messageTypeOf (b : UInt8) : Read MessageType :=
  if b = 0 then return .coordination
  else if b = 1 then return .computation
  else .lift (.panic .unknownMessageType)

/-- The result of a varint reader, with its error as `InvalidInput`. -/
def ofVarint {α : Type} : Except ReadError α → Read α
  | .ok result => .lift (.ok result)
  | .error e => .lift (.err (.varint e))

theorem size_take_session {io : Bytes} (h : ¬ io.length < 16) :
    (io.take 16).toArray.size = 16 := by
  rw [List.size_toArray, List.length_take]
  omega

/-- `read_exact` into the session id. -/
def readSessionId (io : Bytes) : Read (SessionId × Bytes) :=
  .lift <|
    if h : io.length < 16 then .err .unexpectedEof
    else .ok (⟨(io.take 16).toArray, size_take_session h⟩, io.drop 16)

/-- A length above the limit is refused. -/
def checkLength (name : String) (maxSize length : UInt64) : Read Unit :=
  if maxSize < length then
    .lift (.err (.invalidInput s!"{name} size exceeds limit: {length} > {maxSize}"))
  else return ()

/-- `vec![0; length]` and `read_exact` into it. -/
def readPayload (length : UInt64) (io : Bytes) : Read ByteVec where
  outcome :=
    if h : length.toNat ≤ isizeMax then
      if io.length < length.toNat then .err .unexpectedEof
      else .ok ⟨io.take length.toNat, Nat.le_trans (List.length_take_le _ _) h⟩
    else .panic .capacityOverflow
  events := [length.toNat]

variable [Varint]

/-- `GenericCodec::read_request`. -/
def readRequest (codec : GenericCodec) (io : Bytes) : Read WireMessage := do
  let (b, io) ← ofVarint (Varint.readU8 io)
  let messageType ← messageTypeOf b
  let (isBroadcast, io) ← ofVarint (Varint.readU8 io)
  let (protocolId, io) ← ofVarint (Varint.readU64 io)
  let (sessionId, io) ← readSessionId io
  let (messageId, io) ← ofVarint (Varint.readU64 io)
  let (length, io) ← ofVarint (Varint.readU64 io)
  checkLength "Request" codec.maxRequestSize length
  let payload ← readPayload length io
  return {
    context :=
      { messageType := messageType
        protocolId := protocolId.toNat
        sessionId := sessionId
        messageId := messageId.toNat }
    payload := payload
    isBroadcast := isBroadcast != 0
    protocolId_lt := protocolId.toNat_lt
    messageId_lt := messageId.toNat_lt }

/-- `GenericCodec::read_response`. A stream that ends before the length
is complete is the response `Err(())`. -/
def readResponse (codec : GenericCodec) (io : Bytes) : Read (Except Unit ByteVec) :=
  match Varint.readU64 io with
  | .error .unexpectedEof => return .error ()
  | .error e => .lift (.err (.varint e))
  | .ok (length, io) => do
      checkLength "Response" codec.maxResponseSize length
      let payload ← readPayload length io
      return .ok payload

/-- `GenericCodec::write_request`. -/
def writeRequest (req : WireMessage) : Bytes :=
  Varint.encodeU8 (messageTypeByte req.context.messageType)
    ++ Varint.encodeU8 (if req.isBroadcast then 1 else 0)
    ++ Varint.encodeU64 req.context.protocolId.toUInt64
    ++ req.context.sessionId.toList
    ++ Varint.encodeU64 req.context.messageId.toUInt64
    ++ Varint.encodeU64 req.payload.1.length.toUInt64
    ++ req.payload.1

/-- `GenericCodec::write_response`. -/
def writeResponse : Except Unit ByteVec → Bytes
  | .ok res => Varint.encodeU64 res.1.length.toUInt64 ++ res.1
  | .error _ => []

end GenericCodec

end FrostMpcTss.Network
