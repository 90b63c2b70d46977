import FrostMpcTss.Lib.Schnorr
import FrostMpcTss.Proofs.DkgConversation
import FrostMpcTss.Proofs.SigningIdentifiers
import FrostMpcTss.Tss.Frost

/-!
# `FrostMpcTss.Proofs.KeygenAgreement`: the parties of a key generation agree on a key

All parties of a session call `KeyGen::compute` for the same threshold,
and all get as far as their first broadcast. Then `part1` has succeeded
for each of them, and by the laws of the scheme there is a key generation
`d` that says what the later rounds return (`exists_generation`).
`exists_plan` turns `d` into the plan of a conversation, so with
`conversation_dkg` the packages of `d` are what every agent gets, in
every reachable state of the session.

So `part3` returns the keys of `d`, and `keygen_agrees` follows: there is
one key, shared with the session's threshold, and whatever an agent
returns is what `compute` makes of its own share of that key and of the
public keys that all parties have. In particular all parties return the
same group public key.

The scheme is any that keeps the laws of `Lib.Threshold`. At the end of
the module they are met by Schnorr signatures modulo seven.
-/

set_option autoImplicit false

namespace FrostMpcTss.Proofs

open Lib Network Service FrostMpcTss.Session
open Tss Tss.KeyGen
open Lib.Threshold (Scheme LawfulScheme KeyGeneration SharedKey HoldsOthers HoldsAll
  identifierOf identifierOf_injective)

variable {P κ : Type} {n : Nat} {S : Scheme Bytes}

section Numbers

/-- A map with a value from each of the others. -/
theorem holdsOthers_of_complete {A B α : Type} {p : DkgSession A B} {j : Fin n}
    (hid : p.identifier = j + 1) (hmax : p.maxSigners = n) {v : Fin n → α}
    {m : Std.TreeMap Nat α} (hm : ∀ id, m[id]? = complete p.identifier (otherParties p) none
      (fun id => v (partyOf j id)) id) : HoldsOthers j v m := by
  intro id a
  have hmem : id ∈ otherParties p ↔ (1 ≤ id ∧ id ≤ n) ∧ id ≠ j + 1 := by
    rw [mem_otherParties, hid, hmax]
  rw [hm, complete, hid]
  simp only [hmem]
  constructor
  · intro h
    split at h
    · cases h
    · split at h
      · rename_i hne hmem
        have hlt : id - 1 < n := by omega
        rw [partyOf, dif_pos hlt] at h
        refine ⟨⟨id - 1, hlt⟩, ?_, Nat.sub_add_cancel hmem.1.1, Option.some.inj h⟩
        rw [Finset.mem_compl, Finset.mem_singleton, Fin.ext_iff]
        show ¬ id - 1 = j
        omega
      · cases h
  · rintro ⟨i, hi, rfl, rfl⟩
    have hne : (i : Nat) + 1 ≠ j + 1 := by
      rw [Finset.mem_compl, Finset.mem_singleton, Fin.ext_iff] at hi
      omega
    show (if (i : Nat) + 1 = j + 1 then none
      else if (1 ≤ (i : Nat) + 1 ∧ (i : Nat) + 1 ≤ n) ∧ (i : Nat) + 1 ≠ j + 1 then _ else _) = _
    rw [if_neg hne, if_pos ⟨⟨by omega, by omega⟩, hne⟩]
    show some (v (partyOf j (i + 1))) = _
    rw [partyOf_succ]

theorem indexOf_local [DecidableEq P] (cfg : Config P κ n) (hsmall : n < 2 ^ 16) (j : Fin n) :
    (cfg.peerset j).indexOf (cfg.peerset j).localPeerId = some (j : Nat) := by
  have hmem : cfg.peers j ∈ (cfg.peerset j).peers := List.mem_ofFn.mpr ⟨j, rfl⟩
  show (cfg.peerset j).indexOf (cfg.peers j) = _
  rw [indexOf_eq_some_of_mem hmem]
  show some (asU16 ((List.ofFn cfg.peers).idxOf (cfg.peers j))) = _
  rw [idxOf_peers cfg j, asU16_fin hsmall]

end Numbers

variable [DecidableEq P] [FrostText S] [PeerIdText P] [CborRecord KeygenRequestPayload]
  [KeyShareJson] [PublicKeyCodec] [KeyCodec S] [KeyPackages S] [Identifiers] [DagCbor]
  [DkgCodec S.Package1 S.Package2]

/-- The parties call `KeyGen::compute` for one session. -/
structure KeygenCalls (cfg : Config P κ n) (threshold : Nat) (calls : Fin n → KeyGenCall P S) :
    Prop where
  peersets : ∀ j, (calls j).peerset = cfg.peerset j
  requests : ∀ j, ∃ request, decodeKeygenBytes (calls j).payload = .ok request ∧
    request.threshold = threshold
  /-- Every party gets as far as its first broadcast. -/
  first : ∀ j, ∃ out, sendRound1 (session (calls j)) = .ok out
  /-- The packages of the second round can be encoded. -/
  second : ∀ package : S.Package2, ∃ bytes body,
    DkgCodec.serializeRound2 S.Package1 package = .ok bytes ∧ DagCbor.toVec bytes = .ok body

/-- A key generation with the random values of these calls. -/
abbrev GenerationOf (threshold : Nat) (calls : Fin n → KeyGenCall P S) : Type :=
  KeyGeneration S n threshold fun j => (calls j).rng

section Session

variable {cfg : Config P κ n} {threshold : Nat} {calls : Fin n → KeyGenCall P S}

/-- What a call knows before `run_dkg`. -/
theorem KeygenCalls.prepare_eq (h : KeygenCalls cfg threshold calls) (hsmall : n < 2 ^ 16)
    (j : Fin n) : ∃ request, prepare (calls j) = .ok (j + 1, request) ∧
      request.threshold = threshold := by
  obtain ⟨request, hdecode, hthreshold⟩ := h.requests j
  refine ⟨request, ?_, hthreshold⟩
  simp only [prepare, h.peersets j, indexOf_local cfg hsmall j, hdecode, Lib.Except.ok_bind]
  rfl

theorem KeygenCalls.size_eq (h : KeygenCalls cfg threshold calls) (hsmall : n < 2 ^ 16)
    (j : Fin n) : asU16 (calls j).peerset.size = n := by
  rw [h.peersets j]
  show (List.ofFn cfg.peers).length % 2 ^ 16 = n
  rw [List.length_ofFn]
  exact Nat.mod_eq_of_lt hsmall

/-- A session in terms of the scheme. -/
theorem KeygenCalls.session_eq (h : KeygenCalls cfg threshold calls) (hsmall : n < 2 ^ 16)
    (j : Fin n) : session (calls j)
      = { identifier := j + 1
          threshold := threshold
          maxSigners := n
          prepare := .ok ()
          part1 := frost (S.part1 (calls j).rng (identifierOf j) n threshold >>= fun out =>
            pure out.2)
          part2 := fun packages => frost
            (S.part1 (calls j).rng (identifierOf j) n threshold >>= fun out =>
              S.part2 out.1 packages >>= fun out => pure out.2)
          part3 := fun packages round2 => frost
            (S.part1 (calls j).rng (identifierOf j) n threshold >>= fun out =>
              S.part2 out.1 packages >>= fun out =>
                S.part3 out.1 packages round2 >>= fun keys => pure (KeyPackages.toBytes keys))
          save := (session (calls j)).save } := by
  obtain ⟨request, hprepare, rfl⟩ := h.prepare_eq hsmall j
  simp only [session, hprepare, h.size_eq hsmall j]
  rfl

/-- The calls give every party its own number. -/
theorem KeygenCalls.ownNumbers (h : KeygenCalls cfg threshold calls) (hsmall : n < 2 ^ 16) :
    OwnNumbers cfg fun j => session (calls j) := by
  intro j
  refine ⟨j, indexOf_local cfg hsmall j, ?_, ?_⟩
  · show (session (calls j)).identifier = _
    rw [h.session_eq hsmall j]
  · rw [← h.peersets j]
    rfl

/-- The laws give a key generation. -/
theorem KeygenCalls.exists_generation (h : KeygenCalls cfg threshold calls) (hsmall : n < 2 ^ 16)
    (hlaws : LawfulScheme S n) : Nonempty (GenerationOf threshold calls) := by
  refine hlaws.honest threshold _ fun j => ?_
  obtain ⟨⟨package, message⟩, hsend⟩ := h.first j
  have hpart1 := (sendRound1_eq_ok hsend).1
  rw [h.session_eq hsmall j] at hpart1
  cases hout : S.part1 (calls j).rng (identifierOf j) n threshold with
  | ok out => exact ⟨out, rfl⟩
  | error e =>
      simp only [hout] at hpart1
      cases hpart1

variable (d : GenerationOf threshold calls)

/-- The parts of a session are those of the key generation. -/
theorem KeygenCalls.parts_eq (h : KeygenCalls cfg threshold calls) (hsmall : n < 2 ^ 16)
    (j : Fin n) :
    (session (calls j)).part1 = .ok (d.package1 j) ∧
      (∀ m, (session (calls j)).part2 m
        = frost (S.part2 (d.secret1 j) m >>= fun out => pure out.2)) ∧
      ∀ m received, (session (calls j)).part3 m received
        = frost (S.part2 (d.secret1 j) m >>= fun out =>
          S.part3 out.1 m received >>= fun keys => pure (KeyPackages.toBytes keys)) := by
  rw [h.session_eq hsmall j]
  simp only [d.part1_eq j, Lib.Except.ok_bind, implies_true, and_true]
  rfl

/-- What the parties of a key generation send. -/
theorem KeygenCalls.exists_plan (h : KeygenCalls cfg threshold calls) (hsmall : n < 2 ^ 16) :
    ∃ plan : DealPlan fun j => session (calls j),
      plan.package = d.package1 ∧ plan.share = d.package2 := by
  have hsends : ∀ j, ∃ body, sendRound1 (session (calls j))
      = .ok (d.package1 j, { body := body, recipient := none }) := by
    intro j
    obtain ⟨⟨package, body, recipient⟩, hsend⟩ := h.first j
    obtain ⟨hpart1, hrecipient, _⟩ := sendRound1_eq_ok hsend
    cases hpart1.symm.trans (h.parts_eq d hsmall j).1
    cases hrecipient
    exact ⟨body, hsend⟩
  choose body hbody using hsends
  choose bytes letter hletter using h.second
  refine ⟨{ package := d.package1, body := body, share := d.package2,
            letter := fun i j => letter (d.package2 i j), sends := hbody,
            encodes := fun i j => ⟨_, hletter (d.package2 i j)⟩, deals := ?_ }, rfl, rfl⟩
  intro j m hm
  obtain ⟨hid, hmax⟩ := (h.ownNumbers hsmall).eq hsmall j
  obtain ⟨packages, hpart2, hpackages⟩ := d.part2_eq j m (holdsOthers_of_complete hid hmax hm)
  refine ⟨packages, ?_, fun id share hshare => ?_⟩
  · rw [(h.parts_eq d hsmall j).2.1, hpart2]
    rfl
  · obtain ⟨i, hi, rfl, rfl⟩ := (hpackages id share).mp hshare
    rw [Finset.mem_compl, Finset.mem_singleton, Fin.ext_iff] at hi
    refine ⟨?_, congrArg (d.package2 j) (partyOf_succ j i).symm⟩
    rw [mem_otherParties, hid, hmax]
    show (1 ≤ (i : Nat) + 1 ∧ (i : Nat) + 1 ≤ n) ∧ (i : Nat) + 1 ≠ j + 1
    omega

/-- The keys that every agent's `part3` returns. -/
theorem KeygenCalls.part3_eq (h : KeygenCalls cfg threshold calls) (hsmall : n < 2 ^ 16)
    {plan : DealPlan fun j => session (calls j)} (hpackage : plan.package = d.package1)
    (hshare : plan.share = d.package2) {j : Fin n} {m : Std.TreeMap Nat S.Package1}
    {received : Std.TreeMap Nat S.Package2}
    (hm : ∀ id, m[id]? = round1Of (plan.messages j) none id)
    (hreceived : ∀ id, received[id]? = round2Of (plan.messages j) id) :
    (session (calls j)).part3 m received = .ok (KeyPackages.toBytes (d.key j, d.publicKeys)) := by
  obtain ⟨hid, hmax⟩ := (h.ownNumbers hsmall).eq hsmall j
  have hpackages : HoldsOthers j d.package1 m := by
    rw [← hpackage]
    exact holdsOthers_of_complete hid hmax hm
  have hshares : HoldsOthers j (d.package2 · j) received := by
    rw [← hshare]
    exact holdsOthers_of_complete (v := (plan.share · j)) hid hmax hreceived
  obtain ⟨packages, hpart2, _⟩ := d.part2_eq j m hpackages
  rw [(h.parts_eq d hsmall j).2.2, hpart2, Lib.Except.ok_bind,
    d.part3_eq j m received hpackages hshares]
  rfl

end Session

/-! ### What is returned and stored -/

section Stored

omit [FrostText S] [DecidableEq P] [PeerIdText P] [CborRecord KeygenRequestPayload] [KeyCodec S]
  [KeyPackages S] [Identifiers] [DagCbor] [DkgCodec S.Package1 S.Package2] in
/-- A successful `compute` returns the group public key of the share it
has stored. -/
theorem stored_of_compute [LawfulKeyShareJson] {basePath : Path} {decoded : KeygenRequestPayload}
    {share : Except String KeyShare} {faults : Faults} {disk : Disk} {bytes : Bytes}
    (h : (compute basePath decoded share faults disk).2 = .ok bytes) :
    ∃ keyShare, share = .ok keyShare ∧
      PublicKeyCodec.toVec keyShare.curve keyShare.groupPublicKey = .ok bytes ∧
      KeySign.readKeyShare basePath (decodeKeygenPayload decoded).walletId
        (compute basePath decoded share faults disk).1 = .ok keyShare := by
  unfold compute at h ⊢
  cases share with
  | error e => cases h
  | ok keyShare =>
      refine ⟨keyShare, rfl, ?_⟩
      unfold saveKeyShare at h ⊢
      cases hdir : faults.createDirAll with
      | true => simp [hdir] at h
      | false =>
          cases hfile : faults.createFile with
          | true => simp [hdir, hfile] at h
          | false =>
              cases hvec : KeyShareJson.toVec keyShare with
              | error e => simp [hdir, hfile, hvec] at h
              | ok shareBytes =>
                  cases hwrite : faults.writeAll with
                  | some written => simp [hdir, hfile, hvec, hwrite] at h
                  | none =>
                      simp only [hdir, hfile, hvec, hwrite, Bool.false_eq_true, if_false] at h ⊢
                      refine ⟨mapErr_eq_ok.mp h, ?_⟩
                      rw [KeySign.readKeyShare, Function.update_self]
                      simp only [LawfulKeyShareJson.fromSlice_toVec _ _ hvec]

/-- A party's result, for its share of a key: it is what `compute` makes
of the share. If it is a public key, it is the group's, and the wallet's
file holds the share. -/
structure ReturnsKey (c : KeyGenCall P S) (request : KeygenRequestPayload)
    (keys : S.Key × S.PublicKeys) (r : AgentResult) : Prop where
  result : r = (finish c keys).2
  publicKey : ∀ bytes, r = .ok bytes → ∃ groupBytes,
    KeyCodec.serializeVerifyingKey keys.2.verifyingKey = .ok groupBytes ∧
      PublicKeyCodec.toVec c.curve groupBytes = .ok bytes
  stored : ∀ bytes, r = .ok bytes → ∃ material, keyMaterial keys = .ok material ∧
    KeySign.readKeyShare c.path request.walletId (finish c keys).1
      = .ok (shareOf c.curve request.threshold c.peerset.peers c.peerset.localPeerId material)

omit [FrostText S] [KeyPackages S] [Identifiers] [DagCbor] [DkgCodec S.Package1 S.Package2] in
/-- What `compute` returns and stores for its share of a key. -/
theorem returnsKey_finish [LawfulKeyShareJson] {c : KeyGenCall P S}
    {request : KeygenRequestPayload} (hrequest : decodeKeygenBytes c.payload = .ok request)
    (hlocal : c.peerset.localPeerId ∈ c.peerset.peers) (hsmall : c.peerset.size < 2 ^ 16)
    (keys : S.Key × S.PublicKeys) :
    ReturnsKey c request keys (finish c keys).2 := by
  obtain ⟨decoded, hdecoded, hrequest⟩ := Lib.Except.bind_eq_ok.mp hrequest
  rw [mapErr_eq_ok] at hdecoded
  cases hrequest
  have hfinish : finish c keys
      = compute c.path decoded (keyShare c decoded.threshold keys) c.faults c.disk := by
    simp only [finish, hdecoded]
  have hstored : ∀ bytes, (finish c keys).2 = .ok bytes → ∃ material,
      keyMaterial keys = .ok material ∧
      PublicKeyCodec.toVec c.curve material.groupPublicKey = .ok bytes ∧
      KeySign.readKeyShare c.path (decodeKeygenPayload decoded).walletId (finish c keys).1
        = .ok (shareOf c.curve decoded.threshold c.peerset.peers c.peerset.localPeerId
          material) := by
    intro bytes hbytes
    rw [hfinish] at hbytes ⊢
    obtain ⟨share, hshare, hpublic, hread⟩ := stored_of_compute hbytes
    obtain ⟨material, hmaterial, hshare⟩ := Lib.Except.bind_eq_ok.mp hshare
    rw [keyShareData_eq hlocal hsmall] at hshare
    cases hshare
    exact ⟨material, hmaterial, hpublic, hread⟩
  refine ⟨rfl, fun bytes hbytes => ?_, fun bytes hbytes => ?_⟩
  · obtain ⟨material, hmaterial, hpublic, _⟩ := hstored bytes hbytes
    obtain ⟨_, _, hmaterial⟩ := Lib.Except.bind_eq_ok.mp hmaterial
    obtain ⟨groupBytes, hgroup, hmaterial⟩ := Lib.Except.bind_eq_ok.mp hmaterial
    obtain ⟨_, _, hmaterial⟩ := Lib.Except.bind_eq_ok.mp hmaterial
    cases hmaterial
    exact ⟨groupBytes, mapErr_eq_ok.mp hgroup, hpublic⟩
  · obtain ⟨material, hmaterial, _, hread⟩ := hstored bytes hbytes
    exact ⟨material, hmaterial, hread⟩

end Stored

/-- The states of a key generation. -/
abbrev KeygenReaches [Blake2s256] (cfg : Config P κ n) (calls : Fin n → KeyGenCall P S)
    (t : AgentNet P κ (Dkg S.Package1 S.Package2) n) : Prop :=
  Reach (AgentNet.step cfg (dealers fun j => session (calls j))) Always
    (AgentNet.start cfg (dealers fun j => session (calls j))) t

section Main

variable [LawfulIdentifiers] [LawfulDagCbor] [LawfulRound1Codec S.Package1 S.Package2]
  [LawfulDkgCodec S.Package1 S.Package2] [LawfulKeyPackages S] [LawfulKeyShareJson] [Blake2s256]
  {cfg : Config P κ n} {threshold : Nat} {calls : Fin n → KeyGenCall P S}

/-- In every reachable state, what a party returns is the result for its
share of the key that was generated. -/
theorem KeygenCalls.returnsKey (hcalls : KeygenCalls cfg threshold calls) (htwo : 2 ≤ n)
    (hsmall : n < 2 ^ 16) (hhonest : ∀ j, cfg.honest j = true) (d : GenerationOf threshold calls)
    {t : AgentNet P κ (Dkg S.Package1 S.Package2) n} (ht : KeygenReaches cfg calls t)
    {j : Fin n} {r : AgentResult} (hr : Returned t j r) {request : KeygenRequestPayload}
    (hrequest : decodeKeygenBytes (calls j).payload = .ok request) :
    ReturnsKey (calls j) request (d.key j, d.publicKeys) r := by
  obtain ⟨plan, hpackage, hshare⟩ := hcalls.exists_plan d hsmall
  have hconversation :=
    plan.conversation_dkg (hcalls.ownNumbers hsmall) htwo hsmall hhonest ht
  obtain ⟨m, received, hm, hreceived, rfl⟩ :=
    plan.finished_of_dealsWith (hconversation.returns hr)
  rw [hcalls.part3_eq d hsmall hpackage hshare hm hreceived]
  have hsave : ∀ keys : S.Key × S.PublicKeys,
      (session (calls j)).save (KeyPackages.toBytes keys) = (finish (calls j) keys).2 := by
    intro keys
    simp only [session, LawfulKeyPackages.ofBytes_toBytes]
  rw [mapErr, Lib.Except.ok_bind, hsave]
  have hpeers : (calls j).peerset = cfg.peerset j := hcalls.peersets j
  refine returnsKey_finish hrequest ?_ ?_ _
  · rw [hpeers]
    exact List.mem_ofFn.mpr ⟨j, rfl⟩
  · rw [hpeers]
    show (List.ofFn cfg.peers).length < 2 ^ 16
    rwa [List.length_ofFn]

/-- Take a session of `2 ≤ n ≤ 65535` honest parties that generate a key
with one threshold, in any scheme that keeps the laws, and any order in
which the network delivers their messages. There is one key, shared with
this threshold, and every result of every party is that of its own share
of this key. -/
theorem keygen_agrees (hlaws : LawfulScheme S n) (htwo : 2 ≤ n) (hsmall : n ≤ 65535)
    (hhonest : ∀ j, cfg.honest j = true) (hcalls : KeygenCalls cfg threshold calls) :
    ∃ key publicKeys, SharedKey S n threshold key publicKeys ∧
      ∀ t, KeygenReaches cfg calls t → ∀ j r, Returned t j r →
        ∀ request, decodeKeygenBytes (calls j).payload = .ok request →
          ReturnsKey (calls j) request (key j, publicKeys) r := by
  have hsmall : n < 2 ^ 16 := Nat.lt_succ_of_le hsmall
  obtain ⟨d⟩ := hcalls.exists_generation hsmall hlaws
  exact ⟨d.key, d.publicKeys, d.shared, fun _ ht _ _ hr _ hrequest =>
    hcalls.returnsKey htwo hsmall hhonest d ht hr hrequest⟩

end Main

end FrostMpcTss.Proofs

/-! ### Three parties over the numbers modulo seven -/

namespace FrostMpcTss.Proofs.Mod7

open Lib Network Service FrostMpcTss.Session
open Tss Tss.KeyGen
open Lib.Threshold (LawfulScheme SharedKey identifierOf)

open scoped IdentityHash PlainAgent

scoped instance three_neZero : NeZero 3 := ⟨by decide⟩

scoped instance prime7 : Fact (Nat.Prime 7) := ⟨by norm_num⟩

/-- Scalars and elements are the numbers modulo seven. -/
def suite : Schnorr.Suite (ZMod 7) (ZMod 7) Bytes where
  generator := 1
  challenge commitment key message := commitment + key + message.length

abbrev scheme : Threshold.Scheme Bytes := Schnorr.scheme suite

theorem cast_injective : Function.Injective fun j : Fin 3 => (identifierOf j : ZMod 7) := by
  decide

theorem laws : LawfulScheme scheme 3 := Schnorr.lawful_scheme suite cast_injective (by decide)

scoped instance : FrostText scheme where
  error _ := ""

def config : Config Nat Nat 3 := .numbered 3 0

/-- The polynomials of threshold two are `1 + 2x`, `2 + 3x` and `3 + 4x`. -/
def call (threshold : UInt8) (j : Fin 3) : KeyGenCall Nat scheme where
  path := ["keys"]
  curve := .ed25519
  peerset := config.peerset j
  payload := [threshold]
  rng k := (j : ZMod 7) + k + 1
  faults := .none
  disk _ := none

/-- The key generation of these calls. -/
def generation (threshold : UInt8) (hsigners : 2 ≤ threshold.toNat ∧ threshold.toNat ≤ 3) :
    GenerationOf threshold.toNat (call threshold) :=
  Schnorr.generation suite cast_injective hsigners _

/-- The keys of a party. -/
def keysOf (threshold : UInt8) (j : Fin 3) : scheme.Key × scheme.PublicKeys :=
  let coefficients (i : Fin 3) := Schnorr.draw (call threshold i).rng threshold.toNat
  (Schnorr.dealtKey suite coefficients threshold.toNat j,
    Schnorr.publicKeyPackage (ZMod 7) (Schnorr.allCommitments suite coefficients))

/-- A value by its place in a table. -/
def tableIndex {α : Type} [DecidableEq α] (table : List α) (a : α) : Except String Bytes :=
  if a ∈ table then .ok [(table.idxOf a).toUInt8] else .error ""

def tableEntry {α : Type} (table : List α) : Bytes → Except String α
  | [index] =>
      match table[index.toNat]? with
      | some a => .ok a
      | none => .error ""
  | _ => .error ""

/-- The index of a table is decoded to the entry. -/
theorem tableEntry_tableIndex {α : Type} [DecidableEq α] {table : List α}
    (hsmall : table.length ≤ 256) (a : α) (bytes : Bytes) (h : tableIndex table a = .ok bytes) :
    tableEntry table bytes = .ok a := by
  unfold tableIndex at h
  split at h
  · rename_i hmem
    cases h
    have hlt := List.idxOf_lt_length_of_mem hmem
    have hnat : (table.idxOf a).toUInt8.toNat = table.idxOf a := by
      show table.idxOf a % 2 ^ 8 = _
      exact Nat.mod_eq_of_lt (by omega)
    rw [tableEntry, hnat, List.getElem?_eq_getElem hlt]
    simp
  · cases h

/-- A number is one byte. -/
def toByte (v : ZMod 7) : UInt8 := v.val.toUInt8

theorem cast_toByte : ∀ v : ZMod 7, ((toByte v).toNat : ZMod 7) = v := by
  decide +kernel

def ofBytes : Bytes → Except String (ZMod 7)
  | [byte] => .ok byte.toNat
  | _ => .error ""

scoped instance : DkgCodec scheme.Package1 scheme.Package2 where
  serializeRound1 commitment := .ok (List.map toByte commitment)
  deserializeRound1 bytes := .ok (bytes.map fun byte => (byte.toNat : ZMod 7))
  serializeRound2 value := .ok [toByte value]
  deserializeRound2 := ofBytes

scoped instance : LawfulRound1Codec scheme.Package1 scheme.Package2 where
  deserializeRound1_serializeRound1 commitment bytes h := by
    cases h
    show Except.ok ((List.map toByte commitment).map _) = _
    rw [List.map_map]
    exact congrArg Except.ok (List.map_id'' cast_toByte commitment)

scoped instance : LawfulDkgCodec scheme.Package1 scheme.Package2 where
  deserializeRound2_serializeRound2 value bytes h := by
    cases h
    exact congrArg Except.ok (cast_toByte value)

scoped instance : CborRecord KeygenRequestPayload where
  toVec record := .ok [record.threshold.toUInt8]
  fromSlice
    | [threshold] => .ok { walletId := "w", threshold := threshold.toNat }
    | _ => .error ""

/-- A peer's text is as long as its number. -/
scoped instance : PeerIdText Nat where
  toBase58 peer := String.ofList (List.replicate peer 'a')
  fromStr text := .ok text.toList.length

scoped instance : LawfulPeerIdText Nat where
  fromStr_toBase58 peer := by
    show Except.ok (String.ofList (List.replicate peer 'a')).toList.length = _
    rw [String.toList_ofList, List.length_replicate]

scoped instance : PublicKeyCodec where
  toVec _ bytes := .ok bytes

/-- The public keys of the key generations with thresholds two and three. -/
def bothPublicKeys : List scheme.PublicKeys := [(keysOf 2 0).2, (keysOf 3 0).2]

scoped instance : KeyCodec scheme where
  serializeSigningShare share := [toByte share]
  deserializeSigningShare := ofBytes
  serializeVerifyingShare share := .ok [toByte share]
  deserializeVerifyingShare := ofBytes
  serializeVerifyingKey key := .ok [toByte key]
  deserializeVerifyingKey := ofBytes
  serializePublicKeys := tableIndex bothPublicKeys
  deserializePublicKeys := tableEntry bothPublicKeys
  serializeSignature signature := .ok [toByte signature.commitment, toByte signature.response]

scoped instance : LawfulKeyCodec scheme where
  signingShare share := congrArg Except.ok (cast_toByte share)
  verifyingShare share bytes h := by
    cases h
    exact congrArg Except.ok (cast_toByte share)
  verifyingKey key bytes h := by
    cases h
    exact congrArg Except.ok (cast_toByte key)
  publicKeys := tableEntry_tableIndex (by decide)

/-- The key shares of both key generations. -/
def keyShares : List KeyShare :=
  ([2, 3] : List UInt8).flatMap fun threshold => (List.finRange 3).filterMap fun j =>
    (keyShare (call threshold j) threshold.toNat (keysOf threshold j)).toOption

scoped instance : KeyShareJson where
  toVec := tableIndex keyShares
  fromSlice := tableEntry keyShares

scoped instance : LawfulKeyShareJson where
  fromSlice_toVec := tableEntry_tableIndex (by
    decide +kernel)

/-- Numbers as runs of zeros. -/
def unary (numbers : List Nat) : Bytes :=
  numbers.flatMap fun k => List.replicate k 0 ++ [1]

def ofUnary : Nat → Bytes → List Nat
  | _, [] => []
  | k, byte :: bytes => if byte = 0 then ofUnary (k + 1) bytes else k :: ofUnary 0 bytes

theorem ofUnary_replicate (rest : Bytes) : ∀ count k : Nat,
    ofUnary k (List.replicate count 0 ++ 1 :: rest) = (k + count) :: ofUnary 0 rest
  | 0, k => rfl
  | count + 1, k => by
      have ih := ofUnary_replicate rest count (k + 1)
      rw [List.replicate_succ, List.cons_append, ofUnary, if_pos rfl, ih, Nat.add_right_comm k 1]
      rfl

/-- Numbers in unary are read back. -/
theorem ofUnary_unary (numbers : List Nat) : ofUnary 0 (unary numbers) = numbers := by
  induction numbers with
  | nil => rfl
  | cons k numbers ih =>
      rw [unary, List.flatMap_cons, List.append_assoc]
      show ofUnary 0 (List.replicate k 0 ++ 1 :: unary numbers) = _
      rw [ofUnary_replicate, ih, Nat.zero_add]

def pairs : List Nat → List (Nat × ZMod 7)
  | id :: value :: rest => (id, (value : ZMod 7)) :: pairs rest
  | _ => []

theorem pairs_flatMap (shares : List (Nat × ZMod 7)) :
    pairs (shares.flatMap fun e => [e.1, e.2.val]) = shares := by
  induction shares with
  | nil => rfl
  | cons e shares ih =>
      simp only [List.flatMap_cons, List.cons_append, List.nil_append, pairs, ih,
        ZMod.natCast_zmod_val]

scoped instance : KeyPackages scheme where
  toBytes keys := unary ([keys.1.identifier, ZMod.val (n := 7) keys.1.signingShare,
      ZMod.val (n := 7) keys.1.verifyingShare, ZMod.val (n := 7) keys.1.verifyingKey,
      keys.1.minSigners, ZMod.val (n := 7) keys.2.verifyingKey]
    ++ keys.2.verifyingShares.flatMap fun e : Nat × ZMod 7 => [e.1, e.2.val])
  ofBytes bytes :=
    match ofUnary 0 bytes with
    | identifier :: signingShare :: verifyingShare :: verifyingKey :: minSigners :: key :: rest =>
        some ({ identifier := identifier
                signingShare := (signingShare : ZMod 7)
                verifyingShare := (verifyingShare : ZMod 7)
                verifyingKey := (verifyingKey : ZMod 7)
                minSigners := minSigners },
          { verifyingShares := pairs rest, verifyingKey := (key : ZMod 7) })
    | _ => none

scoped instance : LawfulKeyPackages scheme where
  ofBytes_toBytes keys := by
    simp only [KeyPackages.ofBytes, KeyPackages.toBytes, ofUnary_unary, List.cons_append,
      List.nil_append, pairs_flatMap, ZMod.natCast_zmod_val]

/-- All broadcasts are sent and delivered, then all packages. -/
def labels : List (AgentLabel 3) :=
  [.poll 0 0, .poll 0 0, .poll 1 0, .poll 1 0, .poll 2 0, .poll 2 0,
    .broadcast 1 0 0 [2, 3], .broadcast 2 0 0 [3, 4], .broadcast 0 1 0 [1, 2],
    .broadcast 2 1 0 [3, 4], .broadcast 0 2 0 [1, 2], .broadcast 1 2 0 [2, 3],
    .poll 0 0, .poll 1 0, .poll 2 0, .poll 0 0, .poll 1 0, .poll 2 0,
    .poll 0 0, .poll 1 0, .poll 2 0, .poll 0 0, .poll 1 0, .poll 2 0,
    .direct 1 0 [5], .direct 2 0 [0], .direct 0 1 [5], .direct 2 1 [4], .direct 0 2 [0],
    .direct 1 2 [4], .poll 0 0, .poll 1 0, .poll 2 0, .poll 0 0, .poll 1 0, .poll 2 0]

theorem exists_ok {ε α : Type} {x : Except ε α} (h : x.toOption.isSome = true) :
    ∃ a, x = .ok a := by
  cases x with
  | ok a => exact ⟨a, rfl⟩
  | error e => cases h

/-- The three calls fit together. -/
theorem keygenCalls (threshold : UInt8)
    (hfirst : ∀ j, (sendRound1 (session (call threshold j))).toOption.isSome = true) :
    KeygenCalls config threshold.toNat (call threshold) where
  peersets _ := rfl
  requests _ := ⟨_, rfl, rfl⟩
  first j := exists_ok (hfirst j)
  second _ := ⟨_, _, rfl, rfl⟩

theorem first_two : ∀ j, (sendRound1 (session (call 2 j))).toOption.isSome = true := by
  decide +kernel

/-- Every party ends up with the public key. -/
theorem keygen_returned : ∀ j,
    (run (AgentNet.step config (dealers fun j => session (call 2 j)))
      (AgentNet.start config (dealers fun j => session (call 2 j))) labels).bind
        (storedResult · j) = some (.ok [6]) := by
  decide +kernel

theorem exists_keygen (j : Fin 3) :
    ∃ t, KeygenReaches config (call 2) t ∧ Returned t j (.ok [6]) := by
  obtain ⟨t, hrun, hresult⟩ := Option.bind_eq_some_iff.mp (keygen_returned j)
  exact ⟨t, reach_of_run labels hrun, returned_of_storedResult hresult⟩

/-- Three parties generate a key, two of which can sign. -/
theorem keygen_agrees_mod7 : ∃ key publicKeys t r, SharedKey scheme 3 2 key publicKeys ∧
    KeygenReaches config (call 2) t ∧ Returned t 0 r ∧
    ReturnsKey (call 2 0) { walletId := "w", threshold := 2 } (key 0, publicKeys) r := by
  obtain ⟨t, ht, hr⟩ := exists_keygen 0
  obtain ⟨key, publicKeys, hshared, hreturns⟩ := keygen_agrees laws (by decide) (by decide)
    (fun _ => rfl) (keygenCalls 2 first_two)
  exact ⟨key, publicKeys, t, _, hshared, ht, hr, hreturns t ht 0 _ hr _ rfl⟩

end FrostMpcTss.Proofs.Mod7
