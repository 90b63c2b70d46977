import FrostMpcTss.Tss.KeyShare

/-!
# `FrostMpcTss.Tss.Wallet`: wallet ids and stored key shares

The key share of a wallet is a file whose name is made of the wallet id:
characters that are not safe in a file name become `_`, and the name is
cut after 64 characters.

`saveKeyShare` creates the file before it has anything to write, so a
failure after that point leaves an empty file or the beginning of one.
What the operating system refuses is an argument (`Faults`).

A path is the list of its components.
-/

set_option autoImplicit false

namespace FrostMpcTss.Tss

open Network

/-- `DEFAULT_WALLET_ID`. -/
def defaultWalletId : String := "default"

/-- `MAX_WALLET_ID_LEN`. -/
def maxWalletIdLen : Nat := 64

/-- `char::is_whitespace`: the `White_Space` characters of Unicode. -/
def isWhitespace (ch : Char) : Bool :=
  let c := ch.toNat
  (0x9 ≤ c && c ≤ 0xd) || c = 0x20 || c = 0x85 || c = 0xa0 || c = 0x1680 ||
    (0x2000 ≤ c && c ≤ 0x200a) || c = 0x2028 || c = 0x2029 || c = 0x202f || c = 0x205f ||
    c = 0x3000

/-- `str::trim`. -/
def trim (raw : String) : List Char :=
  ((raw.toList.dropWhile isWhitespace).reverse.dropWhile isWhitespace).reverse

/-- `ch.is_ascii_alphanumeric() || ch == '-' || ch == '_'`. -/
def isSafe (ch : Char) : Bool := ch.isAlphanum || ch = '-' || ch = '_'

/-- The loop of `normalize_wallet_id`. Every character it pushes is one
byte long. -/
def sanitize : List Char → List Char → List Char
  | sanitized, [] => sanitized
  | sanitized, ch :: rest =>
      if maxWalletIdLen ≤ sanitized.length then sanitized
      else sanitize (sanitized ++ [if isSafe ch then ch else '_']) rest

/-- `normalize_wallet_id`. -/
def normalizeWalletId (raw : String) : String :=
  let trimmed := trim raw
  if trimmed = [] then defaultWalletId
  else
    let sanitized := sanitize [] trimmed
    if sanitized = [] then defaultWalletId else String.ofList sanitized

/-- A path as its components. -/
abbrev Path := List String

/-- `Path::extension` of a file name: what follows the last dot, if
something stands before that dot. -/
def extension (name : List Char) : Option (List Char) :=
  if name = ['.', '.'] then none
  else
    match name.reverse.dropWhile (· ≠ '.') with
    | _ :: _ :: _ => some (name.reverse.takeWhile (· ≠ '.')).reverse
    | _ => none

/-- `wallet_key_share_path`. -/
def walletKeySharePath (basePath : Path) (walletId : String) : Path :=
  let name := normalizeWalletId walletId ++ ".share"
  match basePath.getLast?.bind fun file => extension file.toList with
  | some _ => basePath.dropLast ++ ["wallets", name]
  | none => basePath ++ [name]

/-- `KeygenRequestPayload`. -/
structure KeygenRequestPayload where
  walletId : String
  threshold : Nat
deriving Repr, DecidableEq

/-- `decode_keygen_payload`, from the decoded record on. -/
def decodeKeygenPayload (decoded : KeygenRequestPayload) : KeygenRequestPayload where
  walletId := normalizeWalletId decoded.walletId
  threshold := decoded.threshold

/-- `SignRequestPayload`. -/
structure SignRequestPayload where
  walletId : String
  message : Bytes
deriving Repr, DecidableEq

/-- `decode_sign_payload`, from the decoded record on. -/
def decodeSignPayload (decoded : SignRequestPayload) : SignRequestPayload where
  walletId := normalizeWalletId decoded.walletId
  message := decoded.message

/-- `serde_ipld_dagcbor::{to_vec, from_slice}` on a record. -/
class CborRecord (α : Type) where
  toVec : α → Except String Bytes
  fromSlice : Bytes → Except String α

/-- Every record has an encoding, and is read back from it. -/
class LawfulCborRecord (α : Type) [CborRecord α] : Prop where
  roundTrip : ∀ record : α, ∃ bytes : Bytes,
    CborRecord.toVec record = .ok bytes ∧ CborRecord.fromSlice bytes = .ok record

/-- `encode_keygen_payload`. -/
def encodeKeygenPayload [CborRecord KeygenRequestPayload] (walletId : String) (threshold : Nat) :
    Except String Bytes :=
  mapErr "failed to encode keygen wallet payload: "
    (CborRecord.toVec
      ({ walletId := normalizeWalletId walletId, threshold := threshold } :
        KeygenRequestPayload))

/-- `decode_keygen_payload`, from the bytes on. -/
def decodeKeygenBytes [CborRecord KeygenRequestPayload] (payload : Bytes) :
    Except String KeygenRequestPayload := do
  let decoded ← mapErr "failed to decode keygen wallet payload: "
    (CborRecord.fromSlice payload)
  return decodeKeygenPayload decoded

/-- `encode_sign_payload`. -/
def encodeSignPayload [CborRecord SignRequestPayload] (walletId : String) (message : Bytes) :
    Except String Bytes :=
  mapErr "failed to encode sign wallet payload: "
    (CborRecord.toVec
      ({ walletId := normalizeWalletId walletId, message := message } : SignRequestPayload))

/-- `decode_sign_payload`, from the bytes on. -/
def decodeSignBytes [CborRecord SignRequestPayload] (payload : Bytes) :
    Except String SignRequestPayload := do
  let decoded ← mapErr "failed to decode sign wallet payload: " (CborRecord.fromSlice payload)
  return decodeSignPayload decoded

/-- The directory `wallet_key_share_path` puts the files of all wallets in. -/
def walletDirectory (basePath : Path) : Path :=
  match basePath.getLast?.bind fun file => extension file.toList with
  | some _ => basePath.dropLast ++ ["wallets"]
  | none => basePath

/-- The files of a node. -/
abbrev Disk := Path → Option Bytes

/-- Which calls of `save_key_share` fail. A failing `write_all` has
written some bytes already. -/
structure Faults where
  createDirAll : Bool
  createFile : Bool
  writeAll : Option Nat
deriving Repr, DecidableEq

/-- No call fails. -/
def Faults.none : Faults where
  createDirAll := false
  createFile := false
  writeAll := Option.none

namespace KeyGen

/-- `KeyGen::save_key_share`: the files after it, and its result. -/
def saveKeyShare [KeyShareJson] (basePath : Path) (walletId : String) (keyShare : KeyShare)
    (faults : Faults) (disk : Disk) : Disk × Except String Bytes :=
  let path := walletKeySharePath basePath walletId
  if faults.createDirAll then (disk, .error "failed to create directory")
  else if faults.createFile then (disk, .error "failed to create key share file")
  else
    let created := Function.update disk path (some [])
    match KeyShareJson.toVec keyShare with
    | .error _ => (created, .error "failed to serialize key share")
    | .ok shareBytes =>
        match faults.writeAll with
        | some written =>
            (Function.update created path (some (shareBytes.take written)),
              .error "failed to write local key to file")
        | none => (Function.update created path (some shareBytes), .ok keyShare.groupPublicKey)

/-- `serde_ipld_dagcbor::to_vec` on `PublicKey`. -/
class PublicKeyCodec where
  toVec : Curve → Bytes → Except String Bytes

/-- `KeyGen::compute` from the decoded payload on. `share` is the key
share it builds, or the error that ends it before. -/
def compute [KeyShareJson] [PublicKeyCodec] (basePath : Path) (decoded : KeygenRequestPayload)
    (share : Except String KeyShare) (faults : Faults) (disk : Disk) :
    Disk × Except String Bytes :=
  let request := decodeKeygenPayload decoded
  match share with
  | .error e => (disk, .error e)
  | .ok keyShare =>
      match saveKeyShare basePath request.walletId keyShare faults disk with
      | (disk', .error e) => (disk', .error e)
      | (disk', .ok groupPkBytes) =>
          (disk', mapErr "error encoding public key "
            (PublicKeyCodec.toVec keyShare.curve groupPkBytes))

end KeyGen

namespace KeySign

/-- `KeySign::read_key_share`. -/
def readKeyShare [KeyShareJson] (basePath : Path) (walletId : String) (disk : Disk) :
    Except String KeyShare :=
  match disk (walletKeySharePath basePath walletId) with
  | none => .error "failed to read local key"
  | some shareBytes =>
      match KeyShareJson.fromSlice shareBytes with
      | .ok keyShare => .ok keyShare
      | .error _ => .error "failed to deserialize local key"

/-- The key share `KeySign::compute` finds for a decoded payload. -/
def keyShareFor [KeyShareJson] (basePath : Path) (decoded : SignRequestPayload) (disk : Disk) :
    Except String KeyShare :=
  readKeyShare basePath (decodeSignPayload decoded).walletId disk

end KeySign

end FrostMpcTss.Tss
