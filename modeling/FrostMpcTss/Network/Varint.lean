import FrostMpcTss.Lib.Leb128
import FrostMpcTss.Network.RequestResponses

/-!
# `FrostMpcTss.Network.Varint`: the integers of the wire format

`unsigned_varint::encode` and the readers of `unsigned_varint::aio`, for
`u8` and `u64`; `usize` is `u64` on a 64-bit target. A stream is the list
of its bytes, so the only I/O error is its end.

The crate is not part of the program, so its functions are a class.
`LawfulVarint` says that reading undoes writing, and `LawfulVarintCut` what
the readers make of a number that is cut off. Nothing says that the
encoding of a number is the only one: the crate drops the bits that do not
fit, and reads `[128, 2]` as the `u8` zero.

LEB128 gives an instance, for the runs on fixed inputs only. They open
`Leb128Wire`.
-/

set_option autoImplicit false

namespace FrostMpcTss.Network

open Lib

/-- `unsigned_varint::io::ReadError`. -/
inductive ReadError where
  /-- `Io`, with `UnexpectedEof` -/
  | unexpectedEof
  /-- `Decode`: overlong, not minimal, or too large -/
  | decode
deriving Repr, DecidableEq

class Varint where
  encodeU8 : UInt8 → Bytes
  encodeU64 : UInt64 → Bytes
  readU8 : Bytes → Except ReadError (UInt8 × Bytes)
  readU64 : Bytes → Except ReadError (UInt64 × Bytes)

/-- Reading undoes writing. An empty stream ends before the first byte. -/
class LawfulVarint [Varint] : Prop where
  readU8_encodeU8 : ∀ (v : UInt8) (rest : Bytes),
    Varint.readU8 (Varint.encodeU8 v ++ rest) = .ok (v, rest)
  readU64_encodeU64 : ∀ (v : UInt64) (rest : Bytes),
    Varint.readU64 (Varint.encodeU64 v ++ rest) = .ok (v, rest)
  readU64_nil : Varint.readU64 [] = .error .unexpectedEof

/-- A stream that ends inside a number. The readers take a byte at a time
and ask for the next one. -/
class LawfulVarintCut [Varint] : Prop extends LawfulVarint where
  readU8_cut : ∀ {v : UInt8} {p : Bytes}, p <+: Varint.encodeU8 v → p ≠ Varint.encodeU8 v →
    Varint.readU8 p = .error .unexpectedEof
  readU64_cut : ∀ {v : UInt64} {p : Bytes}, p <+: Varint.encodeU64 v →
    p ≠ Varint.encodeU64 v → Varint.readU64 p = .error .unexpectedEof

namespace Leb128Wire

/-- The readers take a byte at a time, up to the first one without the top
bit or to the longest encoding. -/
def readErrorOf (maxLength : Nat) (b : Bytes) : ReadError :=
  if b.length < maxLength ∧ b.all (128 ≤ ·.toNat) then .unexpectedEof else .decode

/-- A LEB128 reader with its errors. -/
def withReadError {α : Type} (maxLength : Nat) (decode : Bytes → Option (α × Bytes))
    (b : Bytes) : Except ReadError (α × Bytes) :=
  match decode b with
  | some result => .ok result
  | none => .error (readErrorOf maxLength b)

theorem withReadError_eq_ok {α : Type} {maxLength : Nat}
    {decode : Bytes → Option (α × Bytes)} {b rest : Bytes} {v : α} :
    withReadError maxLength decode b = .ok (v, rest) ↔ decode b = some (v, rest) := by
  unfold withReadError
  cases decode b <;> simp

/-- The error of a reader whose stream ends too early. -/
theorem withReadError_cut {α : Type} (fuel : Nat) (ofNat : Nat → α) {n : Nat} {p : Bytes}
    (hp : p <+: Leb128.encodeAux fuel n) (hne : p ≠ Leb128.encodeAux fuel n) :
    withReadError (fuel + 1) (fun b => (Leb128.decodeAux fuel b).map fun r => (ofNat r.1, r.2)) p
      = .error .unexpectedEof := by
  obtain ⟨hlength, hall, hnone⟩ := Leb128.decodeAux_cut fuel n p hp hne
  have hbytes : p.all (128 ≤ ·.toNat) = true := by
    rw [List.all_eq_true]
    exact fun b hb => decide_eq_true (hall b hb)
  simp only [withReadError, hnone, Option.map_none]
  rw [readErrorOf, if_pos ⟨hlength, hbytes⟩]

scoped instance instVarint : Varint where
  encodeU8 := Leb128.encodeU8
  encodeU64 := Leb128.encode
  readU8 := withReadError 2 Leb128.decodeU8
  readU64 := withReadError 10 Leb128.decode

scoped instance instLawfulVarintCut : LawfulVarintCut where
  readU8_encodeU8 v rest := withReadError_eq_ok.mpr (Leb128.decodeU8_encodeU8 v rest)
  readU64_encodeU64 v rest := withReadError_eq_ok.mpr (Leb128.decode_encode v rest)
  readU64_nil := rfl
  readU8_cut := withReadError_cut 1 Nat.toUInt8
  readU64_cut := withReadError_cut 9 Nat.toUInt64

end Leb128Wire

end FrostMpcTss.Network
