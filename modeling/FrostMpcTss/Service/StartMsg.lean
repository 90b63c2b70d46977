import FrostMpcTss.Service.Peerset

/-!
# `FrostMpcTss.Service.StartMsg`: the start message of a session

The proposer ends a negotiation with a `StartMsg`: the chosen peerset
and the body of the request. Its encoding nests the peerset's, and
like it goes through a `BufWriter` whose buffer is returned
(`negotiation.rs`).
-/

set_option autoImplicit false

namespace FrostMpcTss.Service

open Lib Network

/-- `StartMsg`. -/
structure StartMsg (P : Type) where
  peerset : Peerset P
  body : Bytes
deriving Repr, DecidableEq

namespace StartMsg

variable {P : Type} [PeerIdCodec P] [UnsignedVarint]

/-- The `write_all` calls of `StartMsg::to_bytes`, in order. -/
def writes (m : StartMsg P) : List Bytes :=
  [UnsignedVarint.encode m.peerset.toBytes.length.toUInt64, m.peerset.toBytes,
    UnsignedVarint.encode m.body.length.toUInt64, m.body]

/-- `StartMsg::to_bytes`: again `io.buffer()`. -/
def toBytes (m : StartMsg P) : Bytes :=
  ((BufWriter.new : BufWriter UInt8 bufSize).writeAlls m.writes).buf

/-- `StartMsg::from_bytes`. -/
def fromBytes (b : Bytes) (localPeerId : P) : Outcome Panic IoError (StartMsg P) := do
  let (peersetLen, io) ← Peerset.readUsize b
  let (peersetBuffer, io) ← Peerset.readBuffer peersetLen io
  let (length, io) ← Peerset.readUsize io
  let (body, _) ← Peerset.readBuffer length io
  let peerset ← Peerset.fromBytes peersetBuffer localPeerId
  return { peerset := peerset, body := body }

/-- The length of the whole encoding of the message, with the whole
encoding of its peerset inside. -/
def encodedLength (m : StartMsg P) : Nat :=
  (UnsignedVarint.encode m.peerset.encodedLength.toUInt64).length + m.peerset.encodedLength
    + (UnsignedVarint.encode m.body.length.toUInt64).length + m.body.length

end StartMsg

end FrostMpcTss.Service
