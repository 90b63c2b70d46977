import FrostMpcTss.Service.Peerset
import FrostMpcTss.Tss.KeySign

/-!
# `FrostMpcTss.Tss.KeyShare`: the key share and its participants

`KeyGen::compute` stores who took part and under which identifier: the
position in the keygen session's peerset, from one on. `KeySign::compute`
reads this back and translates the positions of the signing session's
peerset into those identifiers.

The key material comes out of `run_dkg`; here it is four byte strings.
-/

set_option autoImplicit false

namespace FrostMpcTss.Tss

open Lib Network Service

/-- `Curve`. -/
inductive Curve where
  | ed25519
  | secp256k1
deriving Repr, DecidableEq

/-- `KeyShareParticipant`. -/
structure KeyShareParticipant where
  peerId : String
  identifier : Nat
deriving Repr, DecidableEq

/-- What `run_dkg` yields, serialized. -/
structure KeyMaterial where
  signingKey : Bytes
  publicKey : Bytes
  groupPublicKey : Bytes
  publicKeyPackage : Bytes
deriving Repr, DecidableEq

/-- `KeyShare`. -/
structure KeyShare extends KeyMaterial where
  curve : Curve
  identifier : Nat
  minSigners : Nat
  maxSigners : Nat
  participants : List KeyShareParticipant
deriving Repr, DecidableEq

/-- `PeerId::to_base58` and `PeerId::from_str`. -/
class PeerIdText (P : Type) where
  toBase58 : P → String
  fromStr : String → Except String P

/-- A peer id is read back from its text. -/
class LawfulPeerIdText (P : Type) [PeerIdText P] : Prop where
  fromStr_toBase58 : ∀ p : P, PeerIdText.fromStr (PeerIdText.toBase58 p) = .ok p

/-- `serde_json::{to_vec, from_slice}` on `KeyShare`. -/
class KeyShareJson where
  toVec : KeyShare → Except String Bytes
  fromSlice : Bytes → Except String KeyShare

/-- A key share is read back from its encoding. -/
class LawfulKeyShareJson [KeyShareJson] : Prop where
  fromSlice_toVec : ∀ (share : KeyShare) (bytes : Bytes),
    KeyShareJson.toVec share = .ok bytes → KeyShareJson.fromSlice bytes = .ok share

variable {P : Type}

namespace KeyGen

/-- A panic of a helper inside an `anyhow` function. -/
def liftPanic {α : Type} : Except Panic α → Outcome Panic String α
  | .ok a => .ok a
  | .error why => .panic why

/-- `key_share_participants_from_peers`, from an index on. -/
def keyShareParticipantsFrom [PeerIdText P] : Nat → List P → Except Panic (List KeyShareParticipant)
  | _, [] => .ok []
  | index, peerId :: peers => do
      let identifier ← succU16 (asU16 index)
      let rest ← keyShareParticipantsFrom (index + 1) peers
      return { peerId := PeerIdText.toBase58 peerId, identifier := identifier } :: rest

/-- `key_share_participants_from_peers`. -/
def keyShareParticipantsFromPeers [PeerIdText P] (peers : List P) :
    Except Panic (List KeyShareParticipant) :=
  keyShareParticipantsFrom 0 peers

/-- The key share `KeyGen::compute` builds, after `run_dkg` has returned
the key material. -/
def keyShareData [DecidableEq P] [PeerIdText P] (curve : Curve) (threshold : Nat)
    (peerset : Peerset P) (material : KeyMaterial) : Outcome Panic String KeyShare := do
  let index ← Outcome.ofOption "local peer id not found in peerset"
    (peerset.indexOf peerset.localPeerId)
  let identifier ← liftPanic (succU16 index)
  let participants ← liftPanic (keyShareParticipantsFromPeers peerset.peers)
  return {
    toKeyMaterial := material
    curve := curve
    identifier := identifier
    minSigners := threshold
    maxSigners := asU16 peerset.size
    participants := participants }

end KeyGen

namespace KeySign

/-- The first loop of `key_share_parties_for_peers`: the identifier of
each participant, with what has been used so far. -/
def participantIdentifiers [DecidableEq P] [PeerIdText P] (maxSigners : Nat) :
    List KeyShareParticipant → List Nat → List (P × Nat) → Except String (List (P × Nat))
  | [], _, identifiers => .ok identifiers
  | participant :: rest, usedIdentifiers, identifiers => do
      let text := participant.peerId
      let identifier := participant.identifier
      let peerId ← mapErr s!"invalid participant peer id {text}: " (PeerIdText.fromStr text)
      if identifier = 0 then .error "participant identifier must be one-based"
      else if maxSigners < identifier then
        .error s!"participant identifier {identifier} exceeds max signers {maxSigners}"
      else if identifier ∈ usedIdentifiers then
        .error s!"duplicate participant identifier {identifier}"
      else if (identifiers.lookup peerId).isSome then .error "duplicate participant peer id"
      else
        participantIdentifiers maxSigners rest (identifier :: usedIdentifiers)
          (identifiers ++ [(peerId, identifier)])

/-- The second loop: the session's peers as positions of the keygen. -/
def mappedParties [DecidableEq P] [PeerIdText P] (identifiers : List (P × Nat)) :
    List P → Except String (List Nat)
  | [] => .ok []
  | peerId :: peers =>
      match identifiers.lookup peerId with
      | some identifier => do
          let rest ← mappedParties identifiers peers
          return (identifier - 1) :: rest
      | none =>
          let text := PeerIdText.toBase58 peerId
          .error s!"peer {text} is not in wallet key share"

/-- `key_share_parties_for_peers`. -/
def keySharePartiesForPeers [DecidableEq P] [PeerIdText P] (peers : List P) (localPeerId : P)
    (keyShare : KeyShare) : Except String (List Nat × Nat) :=
  if keyShare.participants = [] then .error "key share does not contain participant mapping"
  else do
    let identifiers ← participantIdentifiers keyShare.maxSigners keyShare.participants [] []
    let parties ← mappedParties identifiers peers
    match identifiers.lookup localPeerId with
    | some localIdentifier => return (parties, localIdentifier)
    | none => .error "local peer is not in wallet key share"

/-- `apply_key_share_participants`: the peerset it leaves behind, and what
it returns. -/
def applyKeyShareParticipants [DecidableEq P] [PeerIdText P] (parties : Peerset P)
    (keyShare : KeyShare) : Peerset P × Except String Nat :=
  match keySharePartiesForPeers parties.peers parties.localPeerId keyShare with
  | .ok (mapped, localIdentifier) =>
      ({ parties with parties := mapped.map Nat.toUInt64 }, .ok localIdentifier)
  | .error e => (parties, .error e)

/-- `signing_participants`, of the parties. -/
def signingParticipants (parties : List Nat) : List Nat :=
  parties.map fun index => asU16 (index + 1)

/-- What `KeySign::compute` does with the key share before it signs. -/
def participantsOf [DecidableEq P] [PeerIdText P] (peerset : Peerset P) (keyShare : KeyShare) :
    Except String (Nat × List Nat) := do
  let (parties, i) ← keySharePartiesForPeers peerset.peers peerset.localPeerId keyShare
  let identifier := keyShare.identifier
  if i ≠ identifier then
    .error (s!"Current identifier {i} does not match key share identifier {identifier}. " ++
      "This node may not have participated in the original keygen.")
  else return (i, signingParticipants parties)

end KeySign

end FrostMpcTss.Tss
