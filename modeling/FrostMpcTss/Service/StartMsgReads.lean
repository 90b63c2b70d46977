import FrostMpcTss.Lib.Traced
import FrostMpcTss.Service.StartMsg

/-!
# `FrostMpcTss.Service.StartMsgReads`: the buffers of the start message decoder

`Peerset::from_bytes` and `StartMsg::from_bytes` once more, this time with
a log of every `vec![0; len]`: the size asked for, and how many bytes are
left in the reader at that point. `outcome_startMsg` says that these are
the decoders of `Service.Peerset` and `Service.StartMsg`.
-/

set_option autoImplicit false

namespace FrostMpcTss.Service

open Lib Network

/-- A `vec![0; size]` in front of `remaining` bytes of input. -/
structure Allocation where
  size : Nat
  remaining : Nat
deriving Repr, DecidableEq

/-- A decoder that logs its buffers. -/
abbrev Reads (α : Type) := Traced Allocation Panic IoError α

namespace Reads

variable {P : Type} [PeerIdCodec P] [UnsignedVarint]

/-- `read_usize`, which allocates nothing. -/
def usize (io : Bytes) : Reads (UInt64 × Bytes) := .lift (Peerset.readUsize io)

/-- `vec![0; len]` followed by `read_exact`. -/
def buffer (len : UInt64) (io : Bytes) : Reads (Bytes × Bytes) where
  outcome := Peerset.readBuffer len io
  events := [⟨len.toNat, io.length⟩]

/-- A length, that many bytes, and the peer id they encode. -/
def peerId (io : Bytes) : Reads (P × Bytes) := do
  let (len, io) ← usize io
  let (bytes, io) ← buffer len io
  let p ← .lift (Outcome.ofOption .invalidInput (PeerIdCodec.fromBytes bytes))
  return (p, io)

/-- The loop over the nodes. -/
def nodes : Nat → Bytes → Reads (List P × Bytes)
  | 0, io => .lift (.ok ([], io))
  | k + 1, io => do
      let (p, io) ← peerId io
      let (ps, io) ← nodes k io
      return (p :: ps, io)

/-- `Peerset::from_bytes`. The loop over the parties allocates nothing. -/
def peerset (bytes : Bytes) (localPeerId : P) : Reads (Peerset P) := do
  let ((_ : P), io) ← peerId bytes
  let (nodesLen, io) ← usize io
  let (nodes, io) ← nodes nodesLen.toNat io
  let (partiesLen, io) ← usize io
  let (parties, _) ← .lift (Peerset.readParties partiesLen.toNat io)
  return { localPeerId := localPeerId, peers := nodes, parties := parties }

/-- `StartMsg::from_bytes`. -/
def startMsg (b : Bytes) (localPeerId : P) : Reads (StartMsg P) := do
  let (peersetLen, io) ← usize b
  let (peersetBuffer, io) ← buffer peersetLen io
  let (length, io) ← usize io
  let (body, _) ← buffer length io
  let peerset ← peerset peersetBuffer localPeerId
  return { peerset := peerset, body := body }

@[simp] theorem outcome_usize (io : Bytes) : (usize io).outcome = Peerset.readUsize io := rfl

omit [UnsignedVarint] in
@[simp] theorem outcome_buffer (len : UInt64) (io : Bytes) :
    (buffer len io).outcome = Peerset.readBuffer len io := rfl

@[simp] theorem outcome_peerId (io : Bytes) :
    (peerId io : Reads (P × Bytes)).outcome = Peerset.readPeerId io := by
  unfold peerId Peerset.readPeerId
  simp only [Traced.outcome_bind, outcome_usize, outcome_buffer, Traced.outcome_lift,
    Traced.pure_eq_lift, Outcome.pure_eq_ok]

@[simp] theorem outcome_nodes (k : Nat) (io : Bytes) :
    (nodes k io : Reads (List P × Bytes)).outcome = Peerset.readNodes k io := by
  induction k generalizing io with
  | zero => rfl
  | succ k ih =>
      unfold nodes Peerset.readNodes
      simp only [Traced.outcome_bind, outcome_peerId, ih, Traced.outcome_lift,
        Traced.pure_eq_lift, Outcome.pure_eq_ok]

@[simp] theorem outcome_peerset (bytes : Bytes) (localPeerId : P) :
    (peerset bytes localPeerId).outcome = Peerset.fromBytes bytes localPeerId := by
  unfold peerset Peerset.fromBytes
  simp only [Traced.outcome_bind, outcome_peerId, outcome_usize, outcome_nodes,
    Traced.outcome_lift, Traced.pure_eq_lift, Outcome.pure_eq_ok]

/-- The logging decoder is the decoder. -/
theorem outcome_startMsg (b : Bytes) (localPeerId : P) :
    (startMsg b localPeerId).outcome = StartMsg.fromBytes b localPeerId := by
  unfold startMsg StartMsg.fromBytes
  simp only [Traced.outcome_bind, outcome_usize, outcome_buffer, outcome_peerset,
    Traced.outcome_lift, Traced.pure_eq_lift, Outcome.pure_eq_ok]

end Reads

end FrostMpcTss.Service
