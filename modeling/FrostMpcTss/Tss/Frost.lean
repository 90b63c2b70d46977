import FrostMpcTss.Lib.Threshold
import FrostMpcTss.Tss.KeyGen
import FrostMpcTss.Tss.Wallet

/-!
# `FrostMpcTss.Tss.Frost`: the two agents over a threshold scheme

`KeyGen::compute` and `KeySign::compute` as sessions of the agents in
`Tss.KeyGen` and `Tss.KeySign`. What the source takes from `frost-core`
is a parameter: a scheme `S` with the functions that the source calls,
and the texts and encodings of what they return. Both branches of the
`match` on the curve are this code at their own scheme. The generator of
random values is part of a call.

`run_dkg` hands its two key packages on as one byte string in the
session's model, so `KeyPackages` writes them down and reads them back.
-/

set_option autoImplicit false

namespace FrostMpcTss.Tss

open Lib Lib.Threshold Network Service

/-- The texts of the scheme's errors. -/
class FrostText (S : Scheme Bytes) where
  error : S.Error → String

/-- `map_err` with the text of a `frost-core` error. -/
def frost {S : Scheme Bytes} [FrostText S] {α : Type} : Except S.Error α → Except String α
  | .ok a => .ok a
  | .error e => .error (FrostText.error e)

/-- `serialize` and `deserialize` of what a key share holds. -/
class KeyCodec (S : Scheme Bytes) where
  serializeSigningShare : S.SigningShare → Bytes
  deserializeSigningShare : Bytes → Except String S.SigningShare
  serializeVerifyingShare : S.VerifyingShare → Except String Bytes
  deserializeVerifyingShare : Bytes → Except String S.VerifyingShare
  serializeVerifyingKey : S.VerifyingKey → Except String Bytes
  deserializeVerifyingKey : Bytes → Except String S.VerifyingKey
  serializePublicKeys : S.PublicKeys → Except String Bytes
  deserializePublicKeys : Bytes → Except String S.PublicKeys
  serializeSignature : S.Signature → Except String Bytes

/-- What was serialised is read back. -/
class LawfulKeyCodec (S : Scheme Bytes) [KeyCodec S] : Prop where
  signingShare : ∀ share : S.SigningShare,
    KeyCodec.deserializeSigningShare (KeyCodec.serializeSigningShare share) = .ok share
  verifyingShare : ∀ (share : S.VerifyingShare) (bytes : Bytes),
    KeyCodec.serializeVerifyingShare share = .ok bytes →
      KeyCodec.deserializeVerifyingShare bytes = .ok share
  verifyingKey : ∀ (key : S.VerifyingKey) (bytes : Bytes),
    KeyCodec.serializeVerifyingKey key = .ok bytes →
      KeyCodec.deserializeVerifyingKey bytes = .ok key
  publicKeys : ∀ (keys : S.PublicKeys) (bytes : Bytes),
    KeyCodec.serializePublicKeys keys = .ok bytes →
      KeyCodec.deserializePublicKeys bytes = .ok keys

/-- The key packages as one byte string. -/
class KeyPackages (S : Scheme Bytes) where
  toBytes : S.Key × S.PublicKeys → Bytes
  ofBytes : Bytes → Option (S.Key × S.PublicKeys)

/-- They are read back. -/
class LawfulKeyPackages (S : Scheme Bytes) [KeyPackages S] : Prop where
  ofBytes_toBytes : ∀ keys : S.Key × S.PublicKeys,
    KeyPackages.ofBytes (KeyPackages.toBytes keys) = some keys

variable {P : Type} {S : Scheme Bytes}

/-! ### Key generation -/

/-- What a call of `KeyGen::compute` works on: the fields of `KeyGen`, the
arguments, the generator of random values, and the files. -/
structure KeyGenCall (P : Type) (S : Scheme Bytes) where
  path : Path
  curve : Curve
  peerset : Peerset P
  payload : Bytes
  rng : S.Rng
  faults : Faults
  disk : Disk

namespace KeyGen

/-- The identifier and the request, before `run_dkg`. -/
def prepare [DecidableEq P] [CborRecord KeygenRequestPayload] (c : KeyGenCall P S) :
    Except String (Nat × KeygenRequestPayload) := do
  let index ←
    match c.peerset.indexOf c.peerset.localPeerId with
    | some index => Except.ok index
    | none => .error "local peer id not found in peerset"
  let request ← decodeKeygenBytes c.payload
  return (index + 1, request)

/-- The serialised parts of the key packages. -/
def keyMaterial [KeyCodec S] (keys : S.Key × S.PublicKeys) : Except String KeyMaterial := do
  let verifyingShareBytes ← mapErr "failed to serialize verifying share: "
    (KeyCodec.serializeVerifyingShare keys.1.verifyingShare)
  let groupBytes ← mapErr "failed to serialize group public key: "
    (KeyCodec.serializeVerifyingKey keys.2.verifyingKey)
  let pubPkgBytes ← mapErr "failed to serialize public key package: "
    (KeyCodec.serializePublicKeys keys.2)
  return {
    signingKey := KeyCodec.serializeSigningShare keys.1.signingShare
    publicKey := verifyingShareBytes
    groupPublicKey := groupBytes
    publicKeyPackage := pubPkgBytes }

/-- The key share `compute` builds. A panic has no key share either. -/
def keyShare [DecidableEq P] [PeerIdText P] [KeyCodec S] (c : KeyGenCall P S) (threshold : Nat)
    (keys : S.Key × S.PublicKeys) : Except String KeyShare := do
  let material ← keyMaterial keys
  match keyShareData c.curve threshold c.peerset material with
  | .ok share => .ok share
  | .err e => .error e
  | .panic _ => .error "attempt to add with overflow"

/-- `compute` from the end of `run_dkg` on: the files after it, and its
result. -/
def finish [DecidableEq P] [PeerIdText P] [CborRecord KeygenRequestPayload] [KeyShareJson]
    [PublicKeyCodec] [KeyCodec S] (c : KeyGenCall P S) (keys : S.Key × S.PublicKeys) :
    Disk × Except String Bytes :=
  match CborRecord.fromSlice c.payload with
  | .error e => (c.disk, .error ("failed to decode keygen wallet payload: " ++ e))
  | .ok decoded => compute c.path decoded (keyShare c decoded.threshold keys) c.faults c.disk

/-- `compute` as a session of the agent. The secret packages stay with the
party, so a later round has them from the earlier ones. -/
def session [DecidableEq P] [PeerIdText P] [CborRecord KeygenRequestPayload] [KeyShareJson]
    [PublicKeyCodec] [KeyCodec S] [KeyPackages S] [FrostText S] (c : KeyGenCall P S) :
    DkgSession S.Package1 S.Package2 :=
  let maxSigners := asU16 c.peerset.size
  let (identifier, threshold) :=
    match prepare c with
    | .ok (identifier, request) => (identifier, request.threshold)
    | .error _ => (0, 0)
  { identifier := identifier
    threshold := threshold
    maxSigners := maxSigners
    prepare := (prepare c).map fun _ => ()
    part1 := frost do
      let (_, package) ← S.part1 c.rng identifier maxSigners threshold
      return package
    part2 := fun packages => frost do
      let (secret, _) ← S.part1 c.rng identifier maxSigners threshold
      let (_, round2) ← S.part2 secret packages
      return round2
    part3 := fun packages round2 => frost do
      let (secret, _) ← S.part1 c.rng identifier maxSigners threshold
      let (secret2, _) ← S.part2 secret packages
      let keys ← S.part3 secret2 packages round2
      return KeyPackages.toBytes keys
    save := fun bytes =>
      match KeyPackages.ofBytes (S := S) bytes with
      | some keys => (finish c keys).2
      | none => .error "" }

end KeyGen

/-! ### Signing -/

/-- `Signature`. -/
structure Signature where
  curve : Curve
  pubKey : Bytes
  signature : Bytes
deriving Repr, DecidableEq

/-- What a call of `KeySign::compute` works on. -/
structure KeySignCall (P : Type) (S : Scheme Bytes) where
  path : Path
  peerset : Peerset P
  payload : Bytes
  rng : S.Rng
  disk : Disk

namespace KeySign

/-- What `compute` has when it calls `run_signing`. -/
structure Prepared where
  keyShare : KeyShare
  participants : List Nat
  message : Bytes

/-- `compute` before `run_signing`. -/
def prepare [DecidableEq P] [PeerIdText P] [CborRecord SignRequestPayload] [KeyShareJson]
    (c : KeySignCall P S) : Except String Prepared := do
  let request ← decodeSignBytes c.payload
  let keyShare ← readKeyShare c.path request.walletId c.disk
  let (_, participants) ← participantsOf c.peerset keyShare
  return { keyShare := keyShare, participants := participants, message := request.message }

/-- The key package of a key share. -/
def keyPackage [KeyCodec S] (share : KeyShare) : Except String S.Key := do
  let signingShare ← mapErr "failed to deserialize signing share: "
    (KeyCodec.deserializeSigningShare share.signingKey)
  let verifyingShare ← mapErr "failed to deserialize verifying share: "
    (KeyCodec.deserializeVerifyingShare share.publicKey)
  let verifyingKey ← mapErr "failed to deserialize group public key: "
    (KeyCodec.deserializeVerifyingKey share.groupPublicKey)
  return {
    identifier := share.identifier
    signingShare := signingShare
    verifyingShare := verifyingShare
    verifyingKey := verifyingKey
    minSigners := share.minSigners }

/-- The bytes `compute` returns for a signature. -/
def encodeSignature [KeyCodec S] [CborRecord Signature] (curve : Curve)
    (verifyingKey : S.VerifyingKey) (signature : S.Signature) : Except String Bytes := do
  let groupPublicKeyBytes ← mapErr "failed to serialize group public key: "
    (KeyCodec.serializeVerifyingKey verifyingKey)
  let sigBytes ← mapErr "failed to serialize signature: " (KeyCodec.serializeSignature signature)
  mapErr "error encoding signature " (CborRecord.toVec
    ({ curve := curve, pubKey := groupPublicKeyBytes, signature := sigBytes } : Signature))

/-- `run_signing` after the last share, and what `compute` makes of the
signature. -/
def finish [Identifiers] [KeyCodec S] [FrostText S] [CborRecord Signature] (prepared : Prepared)
    (commitments : Std.TreeMap Nat S.Commitments) (shares : Std.TreeMap Nat S.SignatureShare) :
    Except String Bytes := do
  let publicKeys : S.PublicKeys ← mapErr "failed to deserialize public key package: "
    (KeyCodec.deserializePublicKeys prepared.keyShare.publicKeyPackage)
  let publicKeyIdentifiers := publicKeys.verifyingShares.map (·.1)
  match shares.keys.find? fun id => !publicKeyIdentifiers.contains id with
  | some sigId =>
      let id := Identifiers.debug sigId
      let known := debugSet publicKeyIdentifiers
      .error (s!"Signature participant {id} is not in the public key package. " ++
        s!"Only participants from the original keygen can sign: {known}")
  | none => do
      let signature ← mapErr "failed to aggregate signature: "
        (frost (S.aggregate commitments prepared.message shares publicKeys))
      mapErr "signature verification failed: "
        (frost (S.verify publicKeys.verifyingKey prepared.message signature))
      encodeSignature prepared.keyShare.curve publicKeys.verifyingKey signature

/-- `compute` as a session of the agent. -/
def session [DecidableEq P] [Identifiers] [PeerIdText P] [CborRecord SignRequestPayload]
    [KeyShareJson] [KeyCodec S] [FrostText S] [CborRecord Signature] (c : KeySignCall P S) :
    SigningSession S.Commitments S.SignatureShare :=
  match prepare c with
  | .error e =>
      { identifier := 0
        participants := []
        prepare := .error e
        commit := .error e
        sign := fun _ => .error e
        finish := fun _ _ => .error e }
  | .ok prepared =>
      { identifier := prepared.keyShare.identifier
        participants := prepared.participants
        prepare := .ok ()
        commit := do
          let key : S.Key ← keyPackage prepared.keyShare
          return (S.commit c.rng key.signingShare).2
        sign := fun commitments => do
          let key : S.Key ← keyPackage prepared.keyShare
          let (nonces, _) := S.commit c.rng key.signingShare
          frost (S.sign commitments prepared.message nonces key)
        finish := finish prepared }

end KeySign

end FrostMpcTss.Tss
