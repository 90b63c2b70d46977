import FrostMpcTss.Proofs.KeygenAgreement
import FrostMpcTss.Proofs.SigningConversation

/-!
# `FrostMpcTss.Proofs.SigningValidity`: what a signing session returns

Some parties of a key generation call `KeySign::compute` for one message.
Each of them finds its key share on its disk (`SigningCalls`), with the
identifier it had in the key generation and not the one it has in the
session.

`signing_verifies`: if they are at least as many as the threshold, all of
them return the same signature, and it verifies under the group's key.
`signing_needs_threshold`: if they are fewer, none of them returns a
signature. Both hold in every reachable state of the session, for every
order of the messages, and in any scheme that keeps its laws.
-/

set_option autoImplicit false

namespace FrostMpcTss.Proofs

open Lib Network Service FrostMpcTss.Session
open Tss Tss.KeySign
open Lib.Threshold (Scheme LawfulScheme SharedKey HoldsAll identifierOf
  identifierOf_injective)

variable {P κ : Type} {n k : Nat} {S : Scheme Bytes}

/-- A key package is read back from the key share. -/
theorem keyPackage_shareOf [DecidableEq P] [PeerIdText P] [KeyCodec S] [LawfulKeyCodec S]
    {curve : Curve} {threshold : Nat} {keygen : List P} {node : P} {key : S.Key}
    {publicKeys : S.PublicKeys} {material : KeyMaterial}
    (hkey : key.verifyingKey = publicKeys.verifyingKey)
    (hid : key.identifier = keygen.idxOf node + 1) (hmin : key.minSigners = threshold)
    (h : KeyGen.keyMaterial (key, publicKeys) = .ok material) :
    keyPackage (shareOf curve threshold keygen node material) = .ok key ∧
      KeyCodec.deserializePublicKeys material.publicKeyPackage = .ok publicKeys := by
  obtain ⟨verifyingShareBytes, hverifyingShare, h⟩ := Lib.Except.bind_eq_ok.mp h
  obtain ⟨groupBytes, hgroup, h⟩ := Lib.Except.bind_eq_ok.mp h
  obtain ⟨pubPkgBytes, hpublic, h⟩ := Lib.Except.bind_eq_ok.mp h
  cases h
  rw [mapErr_eq_ok] at hverifyingShare hgroup hpublic
  refine ⟨?_, LawfulKeyCodec.publicKeys _ _ hpublic⟩
  simp only [keyPackage, shareOf, LawfulKeyCodec.signingShare,
    LawfulKeyCodec.verifyingShare _ _ hverifyingShare, LawfulKeyCodec.verifyingKey _ _ hgroup,
    mapErr, Lib.Except.ok_bind, ← hid, ← hmin, ← hkey]
  rfl

variable [DecidableEq P] [FrostText S] [Identifiers] [PeerIdText P] [DagCbor]
  [CborRecord SignRequestPayload] [KeyShareJson] [KeyCodec S] [CborRecord Signature]
  [SigningCodec S.Commitments S.SignatureShare]

/-- Some parties of a key generation sign a message. Party `i` of the
session was party `node i` of the key generation. -/
structure SigningCalls (keygen : Fin n → P) (cfg : Config P κ k) (node : Fin k → Fin n)
    (threshold : Nat) (key : Fin n → S.Key) (publicKeys : S.PublicKeys) (curve : Curve)
    (message : Bytes) (calls : Fin k → KeySignCall P S) : Prop where
  injective : Function.Injective keygen
  small : n < 2 ^ 16
  shared : SharedKey S n threshold key publicKeys
  peers : ∀ i, cfg.peers i = keygen (node i)
  peersets : ∀ i, (calls i).peerset = cfg.peerset i
  /-- Each party asks for the same message, and finds its share of the key
  under the wallet id it asks for. -/
  shares : ∀ i, ∃ request material, decodeSignBytes (calls i).payload = .ok request ∧
    request.message = message ∧
    KeyGen.keyMaterial (key (node i), publicKeys) = .ok material ∧
    readKeyShare (calls i).path request.walletId (calls i).disk
      = .ok (shareOf curve threshold (List.ofFn keygen) (cfg.peers i) material)
  /-- Every party gets as far as its commitments. -/
  first : ∀ i, ∃ out, sendCommitments (session (calls i)) = .ok out
  /-- Signature shares can be encoded. -/
  second : ∀ share : S.SignatureShare, ∃ body,
    DagCbor.toVec (SigningCodec.serializeShare S.Commitments share) = .ok body

/-- The nonces of a party and its commitments to them. -/
def committed (key : Fin n → S.Key) (node : Fin k → Fin n) (calls : Fin k → KeySignCall P S)
    (i : Fin k) : S.Nonces × S.Commitments :=
  S.commit (calls i).rng (key (node i)).signingShare

/-- What a party's `sign` makes of the commitments of all signers. -/
def Signs (key : Fin n → S.Key) (node : Fin k → Fin n) (message : Bytes)
    (calls : Fin k → KeySignCall P S) (i : Fin k) (result : Except S.Error S.SignatureShare) :
    Prop :=
  ∀ m, HoldsAll node (fun i => (committed key node calls i).2) m →
    S.sign m message (committed key node calls i).1 (key (node i)) = result

/-- The states of a signing session. -/
abbrev SigningReaches [Blake2s256] (cfg : Config P κ k) (calls : Fin k → KeySignCall P S)
    (t : AgentNet P κ (Signing S.Commitments S.SignatureShare) k) : Prop :=
  Reach (AgentNet.step cfg (signers fun i => session (calls i))) Always
    (AgentNet.start cfg (signers fun i => session (calls i))) t

section Calls

variable {keygen : Fin n → P} {cfg : Config P κ k} {node : Fin k → Fin n} {threshold : Nat}
  {key : Fin n → S.Key} {publicKeys : S.PublicKeys} {curve : Curve} {message : Bytes}
  {calls : Fin k → KeySignCall P S}
  (h : SigningCalls keygen cfg node threshold key publicKeys curve message calls)

include h

theorem SigningCalls.node_injective : Function.Injective node := by
  intro i j heq
  refine cfg.peers_injective ?_
  rw [h.peers i, h.peers j, heq]

/-- The shares of all signers end in their signature. -/
theorem SigningCalls.finish_eq {signature : S.Signature} {prepared : Prepared}
    {m : Std.TreeMap Nat S.Commitments} {shares : Std.TreeMap Nat S.SignatureShare}
    {share : Fin k → S.SignatureShare}
    (hpublic : KeyCodec.deserializePublicKeys prepared.keyShare.publicKeyPackage = .ok publicKeys)
    (hshares : HoldsAll node share shares)
    (haggregate : S.aggregate m prepared.message shares publicKeys = .ok signature)
    (hverify : S.verify publicKeys.verifyingKey prepared.message signature = .ok ()) :
    finish prepared m shares
      = encodeSignature prepared.keyShare.curve publicKeys.verifyingKey signature := by
  -- every signer is in the public key package
  have hfind : (shares.keys.find? fun id =>
      !(publicKeys.verifyingShares.map (·.1)).contains id) = none := by
    rw [List.find?_eq_none]
    intro id hid
    rw [Std.TreeMap.mem_keys, Std.TreeMap.mem_iff_isSome_getElem?, Option.isSome_iff_exists] at hid
    obtain ⟨s, hs⟩ := hid
    obtain ⟨i, _, rfl, _⟩ := (hshares id s).mp hs
    have hknown := List.contains_iff_mem.mpr (h.shared.known (node i))
    rw [Function.comp_apply, hknown]
    exact Bool.false_ne_true
  simp only [finish, hpublic, mapErr, Lib.Except.ok_bind, hfind, frost, haggregate, hverify]

variable [LawfulPeerIdText P] [LawfulKeyCodec S]

/-- What a call knows before `run_signing`. -/
theorem SigningCalls.prepare_eq (i : Fin k) :
    ∃ keyShare, prepare (calls i) = .ok
        { keyShare := keyShare
          participants := List.ofFn (identifierOf ∘ node)
          message := message } ∧
      keyShare.identifier = identifierOf (node i) ∧ keyShare.curve = curve ∧
      keyPackage keyShare = .ok (key (node i)) ∧
      KeyCodec.deserializePublicKeys keyShare.publicKeyPackage = .ok publicKeys := by
  obtain ⟨request, material, hdecode, hmessage, hmaterial, hread⟩ := h.shares i
  have hmember : ∀ i, cfg.peers i ∈ List.ofFn keygen := fun i =>
    List.mem_ofFn.mpr ⟨node i, (h.peers i).symm⟩
  have hid : ∀ i, (List.ofFn keygen).idxOf (cfg.peers i) + 1 = identifierOf (node i) := by
    intro i
    rw [h.peers i, idxOf_ofFn h.injective]
    rfl
  obtain ⟨_, hparticipants⟩ := participantsOf_eq curve threshold material (cfg.peerset i)
    (List.nodup_ofFn.mpr h.injective) (by rw [List.length_ofFn]; exact h.small)
    (fun peer hpeer => by
      obtain ⟨i, rfl⟩ := List.mem_ofFn.mp hpeer
      exact hmember i) (hmember i)
  have hids : (cfg.peerset i).peers.map (fun peer => (List.ofFn keygen).idxOf peer + 1)
      = List.ofFn (identifierOf ∘ node) := by
    show (List.ofFn cfg.peers).map _ = _
    rw [List.map_ofFn]
    exact congrArg List.ofFn (funext hid)
  have hshare : readKeyShare (calls i).path request.walletId (calls i).disk
      = .ok (shareOf curve threshold (List.ofFn keygen) (cfg.peerset i).localPeerId material) :=
    hread
  refine ⟨shareOf curve threshold (List.ofFn keygen) (cfg.peers i) material, ?_, hid i, rfl,
    keyPackage_shareOf (h.shared.verifyingKey _)
      ((h.shared.identifier _).trans (hid i).symm) (h.shared.minSigners _) hmaterial⟩
  simp only [prepare, hdecode, hshare, h.peersets i, hparticipants, Lib.Except.ok_bind, hids,
    hmessage]
  rfl

/-- A session in terms of the key. -/
theorem SigningCalls.session_eq (i : Fin k) :
    ∃ prepared : Prepared, session (calls i)
      = { identifier := identifierOf (node i)
          participants := List.ofFn (identifierOf ∘ node)
          prepare := .ok ()
          commit := .ok (committed key node calls i).2
          sign := fun commitments =>
            frost (S.sign commitments message (committed key node calls i).1 (key (node i)))
          finish := finish prepared } ∧
      prepared.message = message ∧ prepared.keyShare.curve = curve ∧
      KeyCodec.deserializePublicKeys prepared.keyShare.publicKeyPackage = .ok publicKeys := by
  obtain ⟨keyShare, hprepare, hid, hcurve, hkey, hpublic⟩ := h.prepare_eq i
  refine ⟨⟨keyShare, List.ofFn (identifierOf ∘ node), message⟩, ?_, rfl, hcurve, hpublic⟩
  simp only [session, hprepare, hkey, hid, Lib.Except.ok_bind]
  rfl

/-- `commit` draws from the call's own randomness, so what is sent is
fixed. -/
theorem SigningCalls.sendCommitments_eq (i : Fin k) : ∃ body, sendCommitments (session (calls i))
    = .ok ((committed key node calls i).2, { body := body, recipient := none }) := by
  obtain ⟨⟨commitments, body, recipient⟩, hsend⟩ := h.first i
  obtain ⟨prepared, hsession, _⟩ := h.session_eq i
  obtain ⟨hcommit, hrecipient, _⟩ := sendCommitments_eq_ok hsend
  rw [hsession] at hcommit
  cases hcommit
  cases hrecipient
  exact ⟨body, hsend⟩

/-- What the parties of a signing session send, from the results of their
`sign`. -/
theorem SigningCalls.exists_plan {signed : Fin k → Except S.Error S.SignatureShare}
    {share : Fin k → S.SignatureShare} (hsigned : ∀ i, Signs key node message calls i (signed i))
    (hshare : ∀ i s, signed i = .ok s → s = share i) :
    ∃ plan : SignPlan fun i => session (calls i), plan.ids = identifierOf ∘ node ∧
      plan.commitments = (fun i => (committed key node calls i).2) ∧ plan.share = share ∧
      ∀ i, plan.signed i = frost (signed i) := by
  choose body hbody using h.sendCommitments_eq
  choose shareBody hshareBody using h.second
  refine ⟨{ ids := identifierOf ∘ node
            commitments := fun i => (committed key node calls i).2
            body := body
            signed := fun i => frost (signed i)
            share := share
            shareBody := fun i => shareBody (share i)
            injective := identifierOf_injective.comp h.node_injective
            nonzero := fun _ => Nat.succ_ne_zero _
            identifier := fun i => ?_
            participants := fun i => ?_
            sends := hbody
            signs := fun i m hm => ?_
            share_eq := fun i s hs => ?_
            encodes := fun i => hshareBody _ }, rfl, rfl, rfl, fun _ => rfl⟩
  · obtain ⟨_, hsession, _⟩ := h.session_eq i
    rw [hsession]
    rfl
  · obtain ⟨_, hsession, _⟩ := h.session_eq i
    rw [hsession]
  · obtain ⟨_, hsession, _⟩ := h.session_eq i
    rw [hsession]
    exact congrArg frost (hsigned i m hm)
  · cases hsigned : signed i with
    | ok s' =>
        rw [hsigned] at hs
        cases hs
        exact hshare i s hsigned
    | error e =>
        rw [hsigned] at hs
        cases hs

end Calls

section Main

variable [LawfulPeerIdText P] [LawfulKeyCodec S] [LawfulIdentifiers] [LawfulDagCbor]
  [LawfulSigningCodec S.Commitments S.SignatureShare] [Blake2s256] {keygen : Fin n → P}
  {cfg : Config P κ k} {node : Fin k → Fin n} {threshold : Nat} {key : Fin n → S.Key}
  {publicKeys : S.PublicKeys} {curve : Curve} {message : Bytes} {calls : Fin k → KeySignCall P S}

/-- If the signers make their shares, there is a signature that verifies,
and in every reachable state it is what a party returns. -/
theorem SigningCalls.exists_signature
    (h : SigningCalls keygen cfg node threshold key publicKeys curve message calls)
    (htwo : 2 ≤ k) (hsmall : k < 2 ^ 16) (hhonest : ∀ i, cfg.honest i = true)
    (hthreshold : threshold ≤ k)
    (hsigns : ∀ i, ∃ share, Signs key node message calls i (.ok share)) :
    ∃ signature, S.verify publicKeys.verifyingKey message signature = .ok () ∧
      ∀ t, SigningReaches cfg calls t → ∀ i r, Returned t i r →
        r = encodeSignature curve publicKeys.verifyingKey signature := by
  choose share hshare using hsigns
  obtain ⟨signature, hverify, haggregate⟩ := h.shared.signs node h.node_injective hthreshold
    (fun i => (calls i).rng) message share hshare
  refine ⟨signature, hverify, fun t ht i r hr => ?_⟩
  obtain ⟨plan, hids, hcommitments, hplanShare, hsigned⟩ :=
    h.exists_plan hshare fun i s hs => (Except.ok.inj hs).symm
  have hconversation := plan.conversation_signing htwo hsmall hhonest ht
  rcases plan.result_of_signsWith (hconversation.returns hr) with
    ⟨e, herror, _⟩ | ⟨m, shares, hm, hs, _, rfl⟩
  · rw [hsigned] at herror
    cases herror
  · obtain ⟨prepared, hsession, hmessage, hcurve, hpublic⟩ := h.session_eq i
    rw [hids, hcommitments] at hm
    rw [hids, hplanShare] at hs
    rw [hsession]
    subst hmessage hcurve
    exact h.finish_eq hpublic hs (haggregate m shares hm hs) hverify

/-- Take any signing session of at least two and at most 65535 honest
parties of a key generation, as many as its threshold or more, and any
order in which the network delivers their messages. If every party's
`sign` makes a share of the commitments of all, there is a signature of
the message that verifies under the group's key, and every result of
every party is this signature. -/
theorem signing_verifies (htwo : 2 ≤ k) (hsmall : k ≤ 65535)
    (hhonest : ∀ i, cfg.honest i = true)
    (hcalls : SigningCalls keygen cfg node threshold key publicKeys curve message calls)
    (hthreshold : threshold ≤ k)
    (hsigns : ∀ i, ∃ share, Signs key node message calls i (.ok share)) :
    ∃ signature, S.verify publicKeys.verifyingKey message signature = .ok () ∧
      ∀ t, SigningReaches cfg calls t → ∀ i r, Returned t i r →
        r = encodeSignature curve publicKeys.verifyingKey signature :=
  hcalls.exists_signature htwo (Nat.lt_succ_of_le hsmall) hhonest hthreshold hsigns

/-- If the parties of the session are fewer than the threshold, no result
of any party is a signature: `sign` has too few commitments. -/
theorem signing_needs_threshold [Inhabited S.SignatureShare] (hlaws : LawfulScheme S n)
    (htwo : 2 ≤ k) (hsmall : k ≤ 65535) (hhonest : ∀ i, cfg.honest i = true)
    (hcalls : SigningCalls keygen cfg node threshold key publicKeys curve message calls)
    (hfew : k < threshold) {t : AgentNet P κ (Signing S.Commitments S.SignatureShare) k}
    (ht : SigningReaches cfg calls t) {i : Fin k} {r : AgentResult} (hr : Returned t i r) :
    r = .error ("failed to generate signature share: " ++
      FrostText.error S.incorrectNumberOfCommitments) := by
  have hsigned : ∀ i, Signs key node message calls i (.error S.incorrectNumberOfCommitments) := by
    intro i m hm
    refine hlaws.sign_few m message _ _ ?_
    rw [hm.size_eq (identifierOf_injective.comp hcalls.node_injective), Finset.card_fin,
      hcalls.shared.minSigners]
    exact hfew
  -- no party makes a share, so the plan may name any
  have hshare : ∀ (_ : Fin k) (s : S.SignatureShare),
      Except.error S.incorrectNumberOfCommitments = .ok s → s = default := nofun
  obtain ⟨plan, _, _, _, hplanSigned⟩ := hcalls.exists_plan hsigned hshare
  have hconversation := plan.conversation_signing htwo (Nat.lt_succ_of_le hsmall) hhonest ht
  rcases plan.result_of_signsWith (hconversation.returns hr) with
    ⟨e, herror, hresult⟩ | ⟨_, _, _, _, hok, _⟩
  · rw [hplanSigned] at herror
    cases herror
    exact hresult
  · rw [hplanSigned] at hok
    cases hok

end Main

end FrostMpcTss.Proofs

/-! ### Two of the three parties sign -/

namespace FrostMpcTss.Proofs.Mod7

open Lib Network Service FrostMpcTss.Session
open Tss Tss.KeyGen
open Lib.Threshold (identifierOf SharedKey)

open scoped IdentityHash PlainAgent

scoped instance : CborRecord SignRequestPayload where
  toVec record := .ok record.message
  fromSlice bytes := .ok { walletId := "w", message := bytes }

scoped instance : CborRecord Signature where
  toVec record := .ok (record.pubKey ++ record.signature)
  fromSlice _ := .error ""

/-- Commitments have a second byte, so that they are no shares. -/
scoped instance : KeySign.SigningCodec scheme.Commitments scheme.SignatureShare where
  serializeCommitments commitment := .ok [toByte commitment, 0]
  deserializeCommitments
    | [byte, _] => .ok (byte.toNat : ZMod 7)
    | _ => .error ""
  serializeShare share := [toByte share]
  deserializeShare := ofBytes

scoped instance :
    KeySign.LawfulSigningCodec scheme.Commitments scheme.SignatureShare where
  deserializeCommitments_serializeCommitments commitment bytes h := by
    cases h
    exact congrArg Except.ok (cast_toByte commitment)
  deserializeShare_serializeShare share := congrArg Except.ok (cast_toByte share)
  not_both bytes commitments share h h' := by
    match bytes with
    | [] => cases h
    | [_] => cases h
    | _ :: _ :: _ => cases h'

scoped instance : Inhabited scheme.SignatureShare := ⟨(0 : ZMod 7)⟩

/-- The first and the third party of the key generation. -/
def pair : Config Nat Nat 2 where
  sessionId := noSessionId
  protocolId := 1
  peers i := 2 * i
  peers_injective i j h := by
    have h : 2 * (i : Nat) = 2 * j := h
    exact Fin.ext (by omega)
  honest _ := true
  rpcCaller _ := none

def node (i : Fin 2) : Fin 3 := ⟨2 * i, by omega⟩

def signCall (threshold : UInt8) (i : Fin 2) : KeySignCall Nat scheme where
  path := ["keys"]
  peerset := pair.peerset i
  payload := [5]
  rng _ := (i : ZMod 7) + 1
  disk := (finish (call threshold (node i)) (keysOf threshold (node i))).1

scoped instance two_neZero : NeZero 2 := ⟨by decide⟩

/-- The commitments are sent and delivered. -/
def signLabels : List (AgentLabel 2) :=
  [.poll 0 0, .poll 0 0, .poll 1 0, .poll 1 0,
    .broadcast 0 1 0 [1, 0], .broadcast 1 0 0 [2, 0],
    .poll 0 0, .poll 1 0, .poll 0 0, .poll 1 0, .poll 0 0, .poll 1 0, .poll 0 0, .poll 1 0]

/-- Then the signature shares. -/
def shareLabels : List (AgentLabel 2) :=
  [.echo 0, .echo 0, .echo 1, .broadcast 0 1 1 [2], .broadcast 1 0 1 [5], .poll 0 0]

/-- The two calls fit together. -/
theorem signingCalls (threshold : UInt8) (hsigners : 2 ≤ threshold.toNat ∧ threshold.toNat ≤ 3)
    (hstored : ∀ j, (KeyGen.finish (call threshold j) (keysOf threshold j)).2.toOption.isSome)
    (hfirst : ∀ i, (KeySign.sendCommitments
      (KeySign.session (signCall threshold i))).toOption.isSome = true) :
    SigningCalls config.peers pair node threshold.toNat (fun j => (keysOf threshold j).1)
      (keysOf threshold 0).2 .ed25519 [5] (signCall threshold) where
  injective := config.peers_injective
  small := by decide
  shared := (generation threshold hsigners).shared
  peers _ := rfl
  peersets _ := rfl
  shares i := by
    have hreturns := returnsKey_finish (c := call threshold (node i)) rfl
      (List.mem_ofFn.mpr ⟨node i, rfl⟩) (show 3 < 2 ^ 16 by decide) (keysOf threshold (node i))
    obtain ⟨bytes, hresult⟩ := exists_ok (hstored (node i))
    obtain ⟨material, hmaterial, hread⟩ := hreturns.stored bytes hresult
    exact ⟨_, material, rfl, rfl, hmaterial, hread⟩
  first i := exists_ok (hfirst i)
  second _ := ⟨_, rfl⟩

theorem first_signing : ∀ i, (KeySign.sendCommitments
    (KeySign.session (signCall 2 i))).toOption.isSome = true := by
  decide +kernel

/-- Both parties make their shares. -/
theorem signs_signCall (i : Fin 2) : ∃ share,
    Signs (fun j => (keysOf 2 j).1) node [5] (signCall 2) i (.ok share) :=
  ⟨_, fun _ hm => Schnorr.sign_eq (by decide) hm _ _ (Nat.le_refl 2)⟩

theorem exists_signing :
    ∃ t, SigningReaches pair (signCall 2) t ∧ Returned t 0 (.ok [6, 3, 0]) := by
  have hrun : (run (AgentNet.step pair (signers fun j => KeySign.session (signCall 2 j)))
      (AgentNet.start pair (signers fun j => KeySign.session (signCall 2 j)))
      (signLabels ++ shareLabels)).bind (storedResult · 0) = some (.ok [6, 3, 0]) := by
    decide +kernel
  obtain ⟨t, hrun, hresult⟩ := Option.bind_eq_some_iff.mp hrun
  exact ⟨t, reach_of_run _ hrun, returned_of_storedResult hresult⟩

/-- Two of the three parties sign. -/
theorem signing_verifies_mod7 : ∃ (signature : scheme.Signature) (t : _),
    scheme.verify (keysOf 2 0).2.verifyingKey [5] signature = .ok () ∧
      SigningReaches pair (signCall 2) t ∧ Returned t 0 (.ok [6, 3, 0]) ∧
      KeySign.encodeSignature .ed25519 (keysOf 2 0).2.verifyingKey signature
        = .ok [6, 3, 0] := by
  obtain ⟨t, ht, hr⟩ := exists_signing
  obtain ⟨signature, hverify, hreturns⟩ := signing_verifies (by decide) (by decide)
    (fun _ => rfl) (signingCalls 2 (by decide) (by decide +kernel) first_signing) (by decide)
    signs_signCall
  exact ⟨signature, t, hverify, ht, hr, (hreturns t ht 0 _ hr).symm⟩

/-- Two parties do not sign where three are needed. -/
theorem signing_needs_threshold_mod7 : ∃ t r, SigningReaches pair (signCall 3) t ∧
    Returned t 0 r ∧ r = .error ("failed to generate signature share: " ++
      FrostText.error scheme.incorrectNumberOfCommitments) := by
  have hrun : ((run (AgentNet.step pair (signers fun j => KeySign.session (signCall 3 j)))
      (AgentNet.start pair (signers fun j => KeySign.session (signCall 3 j)))
      signLabels).bind (storedResult · 0)).isSome = true := by
    decide +kernel
  obtain ⟨r, hrun⟩ := Option.isSome_iff_exists.mp hrun
  obtain ⟨t, hrun, hresult⟩ := Option.bind_eq_some_iff.mp hrun
  have ht : SigningReaches pair (signCall 3) t := reach_of_run _ hrun
  have hr := returned_of_storedResult hresult
  exact ⟨t, r, ht, hr, signing_needs_threshold laws (by decide) (by decide) (fun _ => rfl)
    (signingCalls 3 (by decide) (by decide +kernel) (by decide +kernel)) (by decide) ht hr⟩

end FrostMpcTss.Proofs.Mod7
