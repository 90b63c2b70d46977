import FrostMpcTss.Service.Worker
import FrostMpcTss.Tss.Wallet

/-!
# `FrostMpcTss.Rpc.Tss`: the RPC server

`Tss::keygen` and `Tss::sign` make a request for the worker of a call, and
wait for its result on a one-shot. The `room` of a call is the wallet's id;
all requests go to the same room. The session of a `sign` has one party more
than its `t`.

`n` and `t` are `u16`. What a call makes of a successful result is left out:
it decodes the bytes.
-/

set_option autoImplicit false

namespace FrostMpcTss.Rpc

open Lib Network Service Tss

/-- `mpc_rpc_api::tss::error::Error`, as far as the calls return it. -/
inductive TssError where
  | terminated (text : String)
  | canceled
deriving Repr, DecidableEq

/-- What a client can call. -/
inductive TssCall where
  | keygen (room : String) (n t : Nat)
  | sign (room : String) (t : Nat) (msg : Bytes)
deriving Repr, DecidableEq

variable {κ : Type}

/-- `Tss::keygen` until it waits. `transportRoom` is the id of
`DEFAULT_TRANSPORT_ROOM`. -/
def keygen [CborRecord KeygenRequestPayload] (transportRoom : RoomId) (room : String)
    (n t : Nat) (tx : κ) : Outcome Panic TssError (ServicetoWorkerMsg κ) :=
  match encodeKeygenPayload room t with
  | .error e => .err (.terminated ("failed to encode keygen request: " ++ e))
  | .ok payload => .ok (.keyGen t n transportRoom payload tx)

/-- `Tss::sign` until it waits. -/
def sign [CborRecord SignRequestPayload] (transportRoom : RoomId) (room : String) (t : Nat)
    (msg : Bytes) (tx : κ) : Outcome Panic TssError (ServicetoWorkerMsg κ) :=
  match encodeSignPayload room msg with
  | .error e => .err (.terminated ("failed to encode sign request: " ++ e))
  | .ok payload =>
      match succU16 t with
      | .error why => .panic why
      | .ok n => .ok (.keySign n transportRoom payload tx)

/-- The call is made. -/
def TssCall.send [CborRecord KeygenRequestPayload] [CborRecord SignRequestPayload]
    (transportRoom : RoomId) (tx : κ) : TssCall → Outcome Panic TssError (ServicetoWorkerMsg κ)
  | .keygen room n t => Rpc.keygen transportRoom room n t tx
  | .sign room t msg => Rpc.sign transportRoom room t msg tx

/-- What a call returns when its one-shot is resolved. A sender that goes
away cancels it. -/
def reply : Option AgentResult → Except TssError Bytes
  | some (.ok value) => .ok value
  | some (.error e) => .error (.terminated e)
  | none => .error .canceled

end FrostMpcTss.Rpc
