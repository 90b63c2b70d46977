import FrostMpcTss.Lib.Leb128
import FrostMpcTss.Service.Basic

/-!
# `FrostMpcTss.Service.Codecs`: Ed25519 peer ids and LEB128 lengths

The codec classes of `Service.Basic` at the values a node really
uses. Nodes are configured with Ed25519 keys, and the peer id of such
a key is the identity multihash of its protobuf encoding: six fixed
bytes and the 32 bytes of the key. Lengths are LEB128.
-/

set_option autoImplicit false

namespace FrostMpcTss.Service

open Lib Network

/-- The peer id of an Ed25519 public key. -/
structure Ed25519PeerId where
  key : Vector UInt8 32
deriving Repr, DecidableEq

namespace Ed25519PeerId

/-- Multihash code and length, then the protobuf header of the key. -/
def header : Bytes := [0x00, 0x24, 0x08, 0x01, 0x12, 0x20]

/-- Read the header and exactly one key behind it. -/
def parse (b : Bytes) : Option Ed25519PeerId :=
  if h : (b.drop 6).toArray.size = 32 then
    if b.take 6 = header then some ⟨⟨(b.drop 6).toArray, h⟩⟩ else none
  else none

instance : PeerIdCodec Ed25519PeerId where
  toBytes p := header ++ p.key.toList
  fromBytes := parse

instance : LawfulPeerIdCodec Ed25519PeerId where
  fromBytes_toBytes p := by
    have hdrop : (header ++ p.key.toList).drop 6 = p.key.toList := rfl
    have htake : (header ++ p.key.toList).take 6 = header := rfl
    show parse (header ++ p.key.toList) = some p
    unfold parse
    rw [dif_pos (by rw [hdrop]; simp), if_pos htake]
    congr 2
  length_toBytes_le p := by
    show (header ++ p.key.toList).length ≤ 66
    simp [header]
  length_of_fromBytes {b p} h := by
    change parse b = some p at h
    unfold parse at h
    split at h
    next hsize =>
        show (header ++ p.key.toList).length ≤ b.length
        have hkey : p.key.toList.length = 32 := p.key.length_toList
        rw [List.size_toArray, List.length_drop] at hsize
        simp only [header, List.length_append, List.length_cons, List.length_nil]
        omega
    next => cases h

/-- The peer id whose key is one byte repeated. -/
def ofByte (b : UInt8) : Ed25519PeerId := ⟨Vector.replicate 32 b⟩

end Ed25519PeerId

instance : UnsignedVarint where
  encode := Leb128.encode
  readUsize := Leb128.decode

instance : LawfulUnsignedVarint where
  readUsize_encode := Leb128.decode_encode
  length_encode_pos v := Leb128.length_encodeAux_pos 9 v.toNat
  length_encode_le v := Leb128.length_encodeAux_le 9 v.toNat
  length_encode_of_lt := Leb128.length_encodeAux_of_lt 9
  length_of_readUsize := Leb128.length_of_decode

end FrostMpcTss.Service
