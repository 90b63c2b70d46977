import FrostMpcTss.Proofs.SigningValidity

/-!
# `FrostMpcTss.Proofs.WalletLifecycle`: from a key generation to a signature

A key generation leaves a file at every node it returns a public key to.
Later some of these nodes sign, in a session of their own, with other
numbers than before. `wallet_signs` puts `KeygenAgreement` and
`SigningValidity` together: if the session has as many parties as the
threshold of the key generation, all of them return one signature, and
it verifies under the public key that the key generation returned.
-/

set_option autoImplicit false

namespace FrostMpcTss.Proofs

open Lib Network Service FrostMpcTss.Session
open Tss
open Lib.Threshold (Scheme)

variable {P κ : Type} {n k : Nat} {S : Scheme Bytes} [DecidableEq P] [FrostText S] [Identifiers]
  [PeerIdText P] [DagCbor] [CborRecord KeygenRequestPayload] [CborRecord SignRequestPayload]
  [CborRecord Signature] [KeyShareJson] [KeyGen.PublicKeyCodec] [KeyCodec S] [KeyPackages S]
  [KeyGen.DkgCodec S.Package1 S.Package2] [KeySign.SigningCodec S.Commitments S.SignatureShare]
  [Blake2s256]

/-- Nodes that have taken part in a key generation sign with its key. Party
`i` of the signing session was party `node i` of the key generation. -/
structure WalletCalls (cfg : Config P κ n) (cfg' : Config P κ k) {threshold : Nat}
    {dealt : Fin n → KeyGenCall P S} (d : GenerationOf threshold dealt) (curve : Curve)
    (message : Bytes) (calls : Fin k → KeySignCall P S) (node : Fin k → Fin n) : Prop where
  peers : ∀ i, cfg'.peers i = cfg.peers (node i)
  peersets : ∀ i, (calls i).peerset = cfg'.peerset i
  curve : ∀ i, (dealt (node i)).curve = curve
  /-- The key generation has returned a public key to the node. -/
  returned : ∀ i, ∃ t bytes, KeygenReaches cfg dealt t ∧ Returned t (node i) (.ok bytes)
  path : ∀ i, (calls i).path = (dealt (node i)).path
  /-- The node's files are those that the key generation has left. -/
  disk : ∀ i, (calls i).disk
    = (KeyGen.finish (dealt (node i)) (d.key (node i), d.publicKeys)).1
  /-- It is asked to sign with the wallet of the key generation. -/
  requests : ∀ i, ∃ request request', decodeKeygenBytes (dealt (node i)).payload = .ok request ∧
    decodeSignBytes (calls i).payload = .ok request' ∧ request'.walletId = request.walletId ∧
    request'.message = message
  first : ∀ i, ∃ out, KeySign.sendCommitments (KeySign.session (calls i)) = .ok out
  second : ∀ share : S.SignatureShare, ∃ body,
    DagCbor.toVec (KeySign.SigningCodec.serializeShare S.Commitments share) = .ok body

variable [LawfulIdentifiers] [LawfulDagCbor] [KeyGen.LawfulRound1Codec S.Package1 S.Package2]
  [KeyGen.LawfulDkgCodec S.Package1 S.Package2] [LawfulKeyPackages S] [LawfulKeyShareJson]
  {cfg : Config P κ n} {cfg' : Config P κ k} {threshold : Nat} {dealt : Fin n → KeyGenCall P S}
  {d : GenerationOf threshold dealt} {curve : Curve} {message : Bytes}
  {calls : Fin k → KeySignCall P S} {node : Fin k → Fin n}

/-- The nodes find their shares of the key. -/
theorem WalletCalls.signingCalls (h : WalletCalls cfg cfg' d curve message calls node)
    (htwo : 2 ≤ n) (hsmall : n < 2 ^ 16) (hhonest : ∀ j, cfg.honest j = true)
    (hdealt : KeygenCalls cfg threshold dealt) :
    SigningCalls cfg.peers cfg' node threshold d.key d.publicKeys curve message calls where
  injective := cfg.peers_injective
  small := hsmall
  shared := d.shared
  peers := h.peers
  peersets := h.peersets
  shares i := by
    obtain ⟨request, request', hrequest, hrequest', hwallet, hmessage⟩ := h.requests i
    obtain ⟨t, bytes, ht, hr⟩ := h.returned i
    obtain ⟨material, hmaterial, hread⟩ :=
      (hdealt.returnsKey htwo hsmall hhonest d ht hr hrequest).stored bytes rfl
    have hthreshold : request.threshold = threshold := by
      obtain ⟨request₁, hrequest₁, hthreshold⟩ := hdealt.requests (node i)
      cases hrequest.symm.trans hrequest₁
      exact hthreshold
    have hpeers : (dealt (node i)).peerset = cfg.peerset (node i) := hdealt.peersets (node i)
    rw [hpeers, h.curve i, hthreshold] at hread
    refine ⟨request', material, hrequest', hmessage, hmaterial, ?_⟩
    rw [h.path i, h.disk i, hwallet, h.peers i]
    exact hread
  first := h.first
  second := h.second

/-- Honest parties generate a key, and at least as many of them as its
threshold sign a message later. If each of these makes its signature
share, there is one signature that all of them return, whatever the order
of the messages in both sessions, and it verifies under the group's
public key, which is the one that the key generation has returned to
every party. The key generation `d` is the one that the laws of the
scheme give. -/
theorem wallet_signs [LawfulPeerIdText P] [LawfulKeyCodec S]
    [KeySign.LawfulSigningCodec S.Commitments S.SignatureShare] (htwo : 2 ≤ n)
    (hsmall : n ≤ 65535) (htwo' : 2 ≤ k) (hsmall' : k ≤ 65535) (hhonest : ∀ j, cfg.honest j = true)
    (hhonest' : ∀ i, cfg'.honest i = true) (hdealt : KeygenCalls cfg threshold dealt)
    (hcalls : WalletCalls cfg cfg' d curve message calls node) (hthreshold : threshold ≤ k)
    (hsigns : ∀ i, ∃ share, Signs d.key node message calls i (.ok share)) :
    ∃ key signature, S.verify key message signature = .ok () ∧
      (∀ t, KeygenReaches cfg dealt t → ∀ j bytes, Returned t j (.ok bytes) →
        ∃ groupBytes, KeyCodec.serializeVerifyingKey key = .ok groupBytes ∧
          KeyGen.PublicKeyCodec.toVec (dealt j).curve groupBytes = .ok bytes) ∧
      ∀ t, SigningReaches cfg' calls t → ∀ i r, Returned t i r →
        r = KeySign.encodeSignature curve key signature := by
  have hsmall : n < 2 ^ 16 := Nat.lt_succ_of_le hsmall
  have hsigning := hcalls.signingCalls htwo hsmall hhonest hdealt
  obtain ⟨signature, hverify, hreturns⟩ := hsigning.exists_signature htwo'
    (Nat.lt_succ_of_le hsmall') hhonest' hthreshold hsigns
  refine ⟨_, signature, hverify, fun t ht j bytes hr => ?_, hreturns⟩
  obtain ⟨request, hrequest, _⟩ := hdealt.requests j
  exact (hdealt.returnsKey htwo hsmall hhonest d ht hr hrequest).publicKey bytes rfl

end FrostMpcTss.Proofs

/-! ### The same parties, from the beginning to the end -/

namespace FrostMpcTss.Proofs.Mod7

open Lib Network Service FrostMpcTss.Session
open Tss Tss.KeyGen

open scoped IdentityHash PlainAgent

/-- The first and the third party sign with the files of the key generation.
-/
theorem walletCalls :
    WalletCalls config pair (generation 2 (by decide)) .ed25519 [5] (signCall 2) node where
  peers _ := rfl
  peersets _ := rfl
  curve _ := rfl
  returned i := by
    obtain ⟨t, ht, hr⟩ := exists_keygen (node i)
    exact ⟨t, _, ht, hr⟩
  path _ := rfl
  disk _ := rfl
  requests _ := ⟨_, _, rfl, rfl, rfl, rfl⟩
  first i := exists_ok (first_signing i)
  second _ := ⟨_, rfl⟩

/-- Three parties generate a key, and two of them sign with it: the values
that both sessions return. -/
theorem wallet_signs_mod7 : ∃ (key : scheme.VerifyingKey) (signature : scheme.Signature),
    scheme.verify key [5] signature = .ok () ∧
    (∃ t, KeygenReaches config (call 2) t ∧ Returned t 0 (.ok [6]) ∧
      KeyCodec.serializeVerifyingKey key = .ok [6]) ∧
    ∃ t, SigningReaches pair (signCall 2) t ∧ Returned t 0 (.ok [6, 3, 0]) ∧
      KeySign.encodeSignature .ed25519 key signature = .ok [6, 3, 0] := by
  obtain ⟨key, signature, hverify, hkey, hsignature⟩ := wallet_signs (by decide) (by decide)
    (by decide) (by decide) (fun _ => rfl) (fun _ => rfl) (keygenCalls 2 first_two) walletCalls
    (by decide) signs_signCall
  obtain ⟨t, ht, hr⟩ := exists_keygen 0
  obtain ⟨t', ht', hr'⟩ := exists_signing
  obtain ⟨groupBytes, hgroup, hbytes⟩ := hkey t ht 0 _ hr
  cases hbytes
  exact ⟨key, signature, hverify, ⟨t, ht, hr, hgroup⟩, t', ht', hr',
    (hsignature t' ht' 0 _ hr').symm⟩

end FrostMpcTss.Proofs.Mod7
