import FrostMpcTss.Lib.Outcome
import FrostMpcTss.Network.RequestResponses

/-!
# `FrostMpcTss.Service.Basic`: errors, panics, and the codecs of other crates

`Error` is the service crate's error type. `Panic` names the places
where the service crate unwinds: each `unwrap`, `expect`, index and
checked subtraction its functions contain, plus the panics that the
channel and allocation primitives document.

Peer ids and variable-length integers come from `libp2p` and
`unsigned-varint`. The model takes both as classes: the operations in
`PeerIdCodec` and `UnsignedVarint`, what holds of them in
`LawfulPeerIdCodec` and `LawfulUnsignedVarint`. Decoding undoes encoding.
The other direction fails in the crates: the varint reader drops the bits
that do not fit in its type, so a number, and with it a peer id, has more
spellings than its encoding. A spelling is never shorter than the encoding.
-/

set_option autoImplicit false

namespace FrostMpcTss.Service

open Network

/-- `mpc_service::Error`. The text of an internal error is kept as a
string. -/
inductive Error where
  | busy
  | inconsistentEcho (party : Nat)
  | echoFailed (failure : RequestFailure)
  | unknownProtocol (protocolId : Nat)
  | internalError (text : String)
deriving Repr, DecidableEq

/-- Where the service crate panics. -/
inductive Panic where
  /-- `vec![0; len]` with `len` above `isize::MAX` -/
  | capacityOverflow
  /-- `peerset.index_of(peerset.local_peer_id()).unwrap()` -/
  | localPeerMissing
  /-- `n - 1` on an unsigned zero -/
  | subtractOverflow
  /-- an unsigned sum past the top of its type -/
  | addOverflow
  /-- `async_channel::bounded(0)` -/
  | zeroCapacity
  /-- `peerset[remote_index - 1]` outside the list -/
  | indexOutOfBounds
  /-- `"echo channel is expected to be open"` on a full channel -/
  | echoChannelFull
  /-- `"application channel is expected to be open"` on a full channel -/
  | applicationChannelFull
  /-- `"application channel is expected to be open"` on a closed channel -/
  | applicationChannelClosed
  /-- `"outgoing message was expected"` -/
  | outgoingMessageMissing
  /-- `"expected to be able to send acknowledgment with echoing module"` -/
  | acknowledgmentFailed
  /-- `select_next_some` on a finished stream -/
  | polledAfterTerminated
  /-- `request.try_recv().unwrap()` with the sender gone -/
  | requestCanceled
  /-- `self.state.take().unwrap()` with the state taken out before -/
  | stateMissing
  /-- `"ready key must exist"` -/
  | readyKeyMissing
  /-- `"completion delay is only set after agent completion"` -/
  | resultMissing
deriving Repr, DecidableEq

/-- `io::ErrorKind`, as far as the decoders produce it. -/
inductive IoError where
  | invalidInput
  | unexpectedEof
deriving Repr, DecidableEq

/-- `PeerId::to_bytes` and `PeerId::from_bytes`. -/
class PeerIdCodec (P : Type) where
  toBytes : P → Bytes
  fromBytes : Bytes → Option P

/-- A peer id is a multihash of at most 64 digest bytes behind a one-byte
code and a one-byte length. -/
class LawfulPeerIdCodec (P : Type) [PeerIdCodec P] : Prop where
  fromBytes_toBytes : ∀ p : P, PeerIdCodec.fromBytes (PeerIdCodec.toBytes p) = some p
  length_toBytes_le : ∀ p : P, (PeerIdCodec.toBytes p).length ≤ 66
  /-- The digest has one spelling, code and length may have longer ones. -/
  length_of_fromBytes : ∀ {b : Bytes} {p : P},
    PeerIdCodec.fromBytes b = some p → (PeerIdCodec.toBytes p).length ≤ b.length

/-- `unsigned_varint::encode::usize` and `unsigned_varint::io::read_usize`
on a 64-bit target. The reader returns what follows the number. -/
class UnsignedVarint where
  encode : UInt64 → Bytes
  readUsize : Bytes → Option (UInt64 × Bytes)

/-- An encoding has seven bits of the number to a byte. -/
class LawfulUnsignedVarint [UnsignedVarint] : Prop where
  readUsize_encode : ∀ (v : UInt64) (rest : Bytes),
    UnsignedVarint.readUsize (UnsignedVarint.encode v ++ rest) = some (v, rest)
  length_encode_pos : ∀ v : UInt64, 0 < (UnsignedVarint.encode v).length
  length_encode_le : ∀ v : UInt64, (UnsignedVarint.encode v).length ≤ 10
  length_encode_of_lt : ∀ {v : UInt64}, v.toNat < 128 → (UnsignedVarint.encode v).length = 1
  /-- No spelling of a number is shorter than its encoding. -/
  length_of_readUsize : ∀ {b rest : Bytes} {v : UInt64},
    UnsignedVarint.readUsize b = some (v, rest) →
      (UnsignedVarint.encode v).length + rest.length ≤ b.length

/-- Truncation to `u16`, the source's `as u16`. -/
def asU16 (n : Nat) : Nat := n % 2 ^ 16

/-- `a + 1` on `u16`. -/
def succU16 (a : Nat) : Except Panic Nat :=
  if a + 1 < 2 ^ 16 then .ok (a + 1) else .error .addOverflow

/-- `a - 1` on an unsigned type. -/
def predUnsigned (a : Nat) : Except Panic Nat :=
  if 0 < a then .ok (a - 1) else .error .subtractOverflow

end FrostMpcTss.Service
