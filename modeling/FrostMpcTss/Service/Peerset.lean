import FrostMpcTss.Lib.BufWriter
import FrostMpcTss.Service.Basic

/-!
# `FrostMpcTss.Service.Peerset`: the members of a session

A `Peerset` is the ordered list of a session's peers, the local peer
id, and the `parties` vector. `Peerset.new` sorts the peers by their
bytes. `toBytes` writes a length-prefixed encoding through a
`BufWriter` and returns the writer's *buffer*; `fromBytes` reads the
encoding back and installs the local peer id it is given.

`Peerset.writes` lists the arguments of the `write_all` calls in
order, one chunk per call, so that `toBytes` is one run of the writer
over that list.

The `tx` end of the cache channel is left out: only
`recover_from_cache` and `save_to_cache` use it, and no agent calls
them.
-/

set_option autoImplicit false

namespace FrostMpcTss.Service

open Lib Network

/-- `DEFAULT_BUF_SIZE` of `std::io::BufWriter`: 8 KiB. -/
def bufSize : Nat := 8192

/-- `Peerset`. -/
structure Peerset (P : Type) where
  localPeerId : P
  peers : List P
  parties : List UInt64
deriving Repr, DecidableEq

namespace Peerset

variable {P : Type}

/-- `Peerset::size`. -/
def size (p : Peerset P) : Nat := p.peers.length

/-- `Peerset::index_of`: the first position of the peer, as `u16`. -/
def indexOf [DecidableEq P] (p : Peerset P) (peerId : P) : Option Nat :=
  (p.peers.findIdx? (· = peerId)).map asU16

/-- `Peerset::remotes_iter`. -/
def remotesIter [DecidableEq P] (p : Peerset P) : List P :=
  p.peers.filter (· ≠ p.localPeerId)

/-- `Index<u16>`: a panic outside the list. -/
def index (p : Peerset P) (i : Nat) : Except Panic P :=
  match p.peers[i]? with
  | some q => .ok q
  | none => .error .indexOutOfBounds

/-- Byte strings in the order `sorted_by_key(|p| p.to_bytes())` uses. -/
def bytesLe : Bytes → Bytes → Bool
  | [], _ => true
  | _ :: _, [] => false
  | a :: as, b :: bs => if a = b then bytesLe as bs else decide (a < b)

/-- `Peerset::new`. -/
def new [PeerIdCodec P] (peers : List P) (localPeerId : P) : Peerset P where
  localPeerId := localPeerId
  peers := peers.insertionSort fun a b =>
    bytesLe (PeerIdCodec.toBytes a) (PeerIdCodec.toBytes b) = true
  parties := (List.range peers.length).map Nat.toUInt64

section Encode

variable [PeerIdCodec P] [UnsignedVarint]

/-- The two writes of one peer id: its length, its bytes. -/
def peerIdWrites (p : P) : List Bytes :=
  [UnsignedVarint.encode (PeerIdCodec.toBytes p).length.toUInt64, PeerIdCodec.toBytes p]

/-- The `write_all` calls of `Peerset::to_bytes`, in order: the local
peer id, the number of peers and each of them, the number of parties
and each of them. -/
def writes (p : Peerset P) : List Bytes :=
  peerIdWrites p.localPeerId
    ++ UnsignedVarint.encode p.peers.length.toUInt64 :: p.peers.flatMap peerIdWrites
    ++ UnsignedVarint.encode p.parties.length.toUInt64 :: p.parties.map UnsignedVarint.encode

/-- `Peerset::to_bytes`. The source returns `io.buffer()`, what the
writer has not flushed yet. Writing to a vector cannot fail, so the
`io::Result` is always `Ok`. -/
def toBytes (p : Peerset P) : Bytes :=
  ((BufWriter.new : BufWriter UInt8 bufSize).writeAlls p.writes).buf

/-- How many bytes `Peerset::to_bytes` writes. -/
def encodedLength (p : Peerset P) : Nat := p.writes.flatten.length

end Encode

section Decode

variable [PeerIdCodec P] [UnsignedVarint]

/-- `unsigned_varint::io::read_usize(&mut io)` with its error mapped
to `InvalidInput`. -/
def readUsize (io : Bytes) : Outcome Panic IoError (UInt64 × Bytes) :=
  .ofOption .invalidInput (UnsignedVarint.readUsize io)

/-- `vec![0; len]` followed by `read_exact`. The allocation panics
for a length above `isize::MAX`, before the input is looked at. -/
def readBuffer (len : UInt64) (io : Bytes) : Outcome Panic IoError (Bytes × Bytes) :=
  if 2 ^ 63 ≤ len.toNat then .panic .capacityOverflow
  else if io.length < len.toNat then .err .unexpectedEof
  else .ok (io.take len.toNat, io.drop len.toNat)

/-- A length, that many bytes, and the peer id they encode. -/
def readPeerId (io : Bytes) : Outcome Panic IoError (P × Bytes) := do
  let (len, io) ← readUsize io
  let (buffer, io) ← readBuffer len io
  let p ← Outcome.ofOption .invalidInput (PeerIdCodec.fromBytes buffer)
  return (p, io)

/-- The loop over the nodes. -/
def readNodes : Nat → Bytes → Outcome Panic IoError (List P × Bytes)
  | 0, io => .ok ([], io)
  | k + 1, io => do
      let (p, io) ← readPeerId io
      let (ps, io) ← readNodes k io
      return (p :: ps, io)

/-- The loop over the parties. -/
def readParties : Nat → Bytes → Outcome Panic IoError (List UInt64 × Bytes)
  | 0, io => .ok ([], io)
  | k + 1, io => do
      let (v, io) ← readUsize io
      let (vs, io) ← readParties k io
      return (v :: vs, io)

/-- `Peerset::from_bytes`. The encoded local peer id is checked to be
a peer id and then dropped; the caller's takes its place. -/
def fromBytes (bytes : Bytes) (localPeerId : P) : Outcome Panic IoError (Peerset P) := do
  let ((_ : P), io) ← readPeerId bytes
  let (nodesLen, io) ← readUsize io
  let (nodes, io) ← readNodes nodesLen.toNat io
  let (partiesLen, io) ← readUsize io
  let (parties, _) ← readParties partiesLen.toNat io
  return { localPeerId := localPeerId, peers := nodes, parties := parties }

end Decode

end Peerset

end FrostMpcTss.Service
