import FrostMpcTss.Lib.Shamir
import FrostMpcTss.Lib.Threshold

/-!
# `FrostMpcTss.Lib.Schnorr`: Schnorr signatures with shared keys

A threshold scheme over any field of scalars and any group it acts on.
Every party deals a polynomial, commits to its coefficients and sends the
others its values. A signing share is the sum of the values at a party's
identifier, so the parties have Shamir's shares of the sum of the
constants. A signature is Schnorr's, with the sum of the signers' nonces
and their shares weighted after Lagrange.

`lawful_scheme` says that this keeps the laws of `Lib.Threshold`, as long
as the identifiers are different scalars. What protects parties from each
other (proofs of knowledge, checks of the values against the commitments,
binding factors) is no matter of those laws and is left out.
-/

set_option autoImplicit false

namespace FrostMpcTss.Lib.Schnorr

open Threshold

/-- A generator of the group, and the hash of a commitment, a key and a
message. -/
structure Suite (F G M : Type) where
  generator : G
  challenge : G → G → M → F

/-- How an operation fails. -/
inductive Error where
  | invalidMinSigners
  | incorrectNumberOfCommitments
  | invalidSignature
deriving Repr, DecidableEq

/-- What a party keeps to itself. -/
structure Secret (F : Type) where
  identifier : Nat
  coefficients : List F
  minSigners : Nat

/-- A signature. -/
structure Signature (F G : Type) where
  commitment : G
  response : F
deriving Repr, DecidableEq

variable {F G M : Type} [Field F] [DecidableEq F] [AddCommGroup G] [DecidableEq G] [Module F G]

/-- The polynomial that is drawn. -/
def draw (rng : Nat → F) (size : Nat) : List F := (List.range size).map rng

/-- A signature share, from the commitments of all signers. -/
def respond (suite : Suite F G M) (m : Std.TreeMap Nat G) (message : M) (nonce : F)
    (key : KeyPackage F G G) : F :=
  nonce + lagrangeCoefficient (m.toList.map fun e => (e.1 : F)) key.identifier
    * key.signingShare * suite.challenge (m.toList.map (·.2)).sum key.verifyingKey message

/-- The signature verifies. -/
def verify (suite : Suite F G M) (key : G) (message : M) (signature : Signature F G) :
    Except Error Unit :=
  if signature.response • suite.generator
      = signature.commitment + suite.challenge signature.commitment key message • key then .ok ()
  else .error .invalidSignature

/-- The group's keys, from all commitments. -/
def publicKeyPackage (F : Type) [Field F] [Module F G] (commitments : List (Nat × List G)) :
    PublicKeyPackage G G where
  verifyingShares := commitments.map fun e =>
    (e.1, (commitments.map fun e' => evalCommitment e'.2 (e.1 : F)).sum)
  verifyingKey := (commitments.map fun e => e.2.headD 0).sum

/-- The keys of a party, from its share. -/
def keyPackage (suite : Suite F G M) (secret : Secret F) (share : F) (verifyingKey : G) :
    KeyPackage F G G where
  identifier := secret.identifier
  signingShare := share
  verifyingShare := share • suite.generator
  verifyingKey := verifyingKey
  minSigners := secret.minSigners

/-- The scheme. A generator of random values is the values it returns. -/
abbrev scheme (suite : Suite F G M) : Scheme M where
  Rng := Nat → F
  Error := Error
  Secret1 := Secret F
  Package1 := List G
  Secret2 := Secret F
  Package2 := F
  SigningShare := F
  VerifyingShare := G
  VerifyingKey := G
  Nonces := F
  Commitments := G
  SignatureShare := F
  Signature := Signature F G
  incorrectNumberOfCommitments := .incorrectNumberOfCommitments
  part1 rng identifier maxSigners minSigners :=
    if 2 ≤ minSigners ∧ minSigners ≤ maxSigners then
      .ok (⟨identifier, draw rng minSigners, minSigners⟩,
        commit suite.generator (draw rng minSigners))
    else .error .invalidMinSigners
  part2 secret packages :=
    .ok (secret, packages.map fun id _ => evalPoly secret.coefficients id)
  part3 secret packages values :=
    let publicKeys := publicKeyPackage F
      (packages.insert secret.identifier (commit suite.generator secret.coefficients)).toList
    let share := ((values.insert secret.identifier
      (evalPoly secret.coefficients secret.identifier)).toList.map (·.2)).sum
    .ok (keyPackage suite secret share publicKeys.verifyingKey, publicKeys)
  commit rng _ := (rng 0, rng 0 • suite.generator)
  sign m message nonce key :=
    if m.size < key.minSigners then .error .incorrectNumberOfCommitments
    else .ok (respond suite m message nonce key)
  aggregate m message shares publicKeys :=
    let signature : Signature F G :=
      { commitment := (m.toList.map (·.2)).sum, response := (shares.toList.map (·.2)).sum }
    match verify suite publicKeys.verifyingKey message signature with
    | .ok _ => .ok signature
    | .error e => .error e
  verify := verify suite

section Sums

variable {ι α N : Type} [AddCommMonoid N] {members : Finset ι} {number : ι → Nat} {v : ι → α}
  {m : Std.TreeMap Nat α}

/-- A sum over the entries of a map. -/
theorem sum_entries (h : Holds members number v m) (hnumber : Function.Injective number)
    (f : Nat × α → N) : (m.toList.map f).sum = ∑ i ∈ members, f (number i, v i) := by
  rw [((h.perm hnumber).map f).sum_eq, List.map_map]
  exact Finset.sum_map_toList _ _

end Sums

section Honest

variable {n : Nat} {suite : Suite F G M} {coefficients : Fin n → List F}

/-- The value of the sum of all polynomials. -/
def groupValue (coefficients : Fin n → List F) (x : F) : F := ∑ j, evalPoly (coefficients j) x

/-- As many values of a sum of polynomials as they have coefficients give
its value at zero. -/
theorem sum_lagrange_groupValue {threshold k : Nat} {points : Fin k → F}
    (hsize : ∀ j, (coefficients j).length = threshold) (hpoints : Function.Injective points)
    (hthreshold : threshold ≤ k) :
    ∑ i, lagrangeCoefficient (Finset.univ.toList.map points) (points i)
        * groupValue coefficients (points i)
      = groupValue coefficients 0 := by
  simp only [groupValue, Finset.mul_sum]
  rw [Finset.sum_comm]
  refine Finset.sum_congr rfl fun j _ => ?_
  have hlength : (coefficients j).length ≤ (Finset.univ.toList.map points).length := by
    rw [hsize j, List.length_map, Finset.length_toList, Finset.card_fin]
    exact hthreshold
  have hone := sum_lagrangeCoefficient (Finset.univ.nodup_toList.map hpoints) hlength
  rwa [List.map_map, Finset.sum_map_toList] at hone

/-- The commitments of all parties. -/
def allCommitments (suite : Suite F G M) (coefficients : Fin n → List F) : List (Nat × List G) :=
  (List.finRange n).map fun j => (identifierOf j, commit suite.generator (coefficients j))

/-- The key packages of all parties. -/
def dealtKey (suite : Suite F G M) (coefficients : Fin n → List F) (threshold : Nat) (j : Fin n) :
    KeyPackage F G G :=
  keyPackage suite ⟨identifierOf j, coefficients j, threshold⟩
    (groupValue coefficients (identifierOf j))
    (publicKeyPackage F (allCommitments suite coefficients)).verifyingKey

omit [DecidableEq F] [DecidableEq G] in
/-- The group's key is that of the sum of the constants. -/
theorem verifyingKey_allCommitments :
    (publicKeyPackage F (allCommitments suite coefficients)).verifyingKey
      = groupValue coefficients 0 • suite.generator := by
  simp only [publicKeyPackage, allCommitments]
  rw [List.map_map, ← List.ofFn_eq_map, List.sum_ofFn, groupValue, Finset.sum_smul]
  refine Finset.sum_congr rfl fun j _ => ?_
  show (commit suite.generator (coefficients j)).headD 0 = _
  rw [← evalCommitment_zero (F := F), evalCommitment_commit]

/-- What a signer makes of the commitments of all signers. -/
theorem sign_eq {k : Nat} {node : Fin k → Fin n} {v : Fin k → G} {m : Std.TreeMap Nat G}
    (hnode : Function.Injective node) (hm : HoldsAll node v m) (message : M) (nonce : F)
    {key : KeyPackage F G G} (hmin : key.minSigners ≤ k) :
    (scheme suite).sign m message nonce key = .ok
      (nonce + lagrangeCoefficient (Finset.univ.toList.map fun i => (identifierOf (node i) : F))
          key.identifier * key.signingShare
        * suite.challenge (∑ i, v i) key.verifyingKey message) := by
  have hnumber := identifierOf_injective.comp hnode
  have hpoints : (m.toList.map fun e => (e.1 : F)).Perm
      (Finset.univ.toList.map fun i => (identifierOf (node i) : F)) := by
    have hperm := (hm.perm hnumber).map fun e => (e.1 : F)
    rwa [List.map_map] at hperm
  have hsize : ¬ m.size < key.minSigners := by
    rw [hm.size_eq hnumber, Finset.card_fin]
    exact Nat.not_lt.mpr hmin
  show (if m.size < key.minSigners then _ else _) = _
  rw [if_neg hsize, respond, lagrangeCoefficient_perm hpoints, sum_entries hm hnumber]

/-- Enough of these parties make a signature. -/
theorem sharedKey_dealtKey {threshold : Nat}
    (hcast : Function.Injective fun j : Fin n => (identifierOf j : F))
    (hsize : ∀ j, (coefficients j).length = threshold) :
    SharedKey (scheme suite) n threshold (dealtKey suite coefficients threshold)
      (publicKeyPackage F (allCommitments suite coefficients)) where
  identifier _ := rfl
  minSigners _ := rfl
  verifyingKey _ := rfl
  known j := by
    simp only [publicKeyPackage, allCommitments, List.map_map]
    exact List.mem_map.mpr ⟨j, List.mem_finRange j, rfl⟩
  signs := by
    intro k node hnode hthreshold rng message share hshare
    have hnumber := identifierOf_injective.comp hnode
    generalize hkey : (publicKeyPackage F (allCommitments suite coefficients)).verifyingKey = key
    generalize hc : suite.challenge (∑ i, rng i 0 • suite.generator) key message = c
    have hsecret := sum_lagrange_groupValue hsize (hcast.comp hnode) hthreshold
    -- the shares add up to the response of one signer with the group's secret
    have hresponse : ∀ m, HoldsAll node (fun i => rng i 0 • suite.generator) m →
        ∑ i, share i = ∑ i, rng i 0 + groupValue coefficients 0 * c := by
      intro m hm
      rw [← hsecret, Finset.sum_mul, ← Finset.sum_add_distrib]
      refine Finset.sum_congr rfl fun i _ => ?_
      have hsigned := hshare i m hm
      rw [sign_eq hnode hm message (rng i 0) hthreshold] at hsigned
      rw [← Except.ok.inj hsigned, ← hc, ← hkey]
      rfl
    have hverify : verify suite key message
        ⟨∑ i, rng i 0 • suite.generator, ∑ i, rng i 0 + groupValue coefficients 0 * c⟩
          = .ok () := by
      rw [verify, if_pos]
      rw [hc, add_smul, Finset.sum_smul, mul_comm, mul_smul, ← verifyingKey_allCommitments, hkey]
    refine ⟨_, hverify, fun m shares hm hshares => ?_⟩
    simp only [sum_entries hm hnumber, sum_entries hshares hnumber, hresponse m hm, hkey, hverify]

/-- The key generation of parties with these generators. -/
def generation {threshold : Nat} (suite : Suite F G M)
    (hcast : Function.Injective fun j : Fin n => (identifierOf j : F))
    (hsigners : 2 ≤ threshold ∧ threshold ≤ n) (rng : Fin n → Nat → F) :
    KeyGeneration (scheme suite) n threshold rng where
  secret1 j := ⟨identifierOf j, draw (rng j) threshold, threshold⟩
  package1 j := commit suite.generator (draw (rng j) threshold)
  secret2 j := ⟨identifierOf j, draw (rng j) threshold, threshold⟩
  package2 i j := evalPoly (draw (rng i) threshold) (identifierOf j : F)
  key := dealtKey suite (fun j => draw (rng j) threshold) threshold
  publicKeys := publicKeyPackage F (allCommitments suite fun j => draw (rng j) threshold)
  part1_eq _ := if_pos hsigners
  part2_eq j m hm := by
    refine ⟨_, rfl, fun id value => ?_⟩
    rw [Std.TreeMap.getElem?_map, Option.map_eq_some_iff]
    constructor
    · rintro ⟨_, hid, rfl⟩
      obtain ⟨i, hi, rfl, _⟩ := (hm id _).mp hid
      exact ⟨i, hi, rfl, rfl⟩
    · rintro ⟨i, hi, rfl, rfl⟩
      exact ⟨_, (hm _ _).mpr ⟨i, hi, rfl, rfl⟩, rfl⟩
  part3_eq j m values hm hvalues := by
    have hshare := sum_entries hvalues.insert (identifierOf_injective.comp Function.injective_id)
      Prod.snd
    simp only [hm.insert.toList_eq, hshare]
    rfl
  shared := sharedKey_dealtKey hcast fun j => by rw [draw, List.length_map, List.length_range]

/-- The scheme keeps the laws. -/
theorem lawful_scheme (suite : Suite F G M)
    (hcast : Function.Injective fun j : Fin n => (identifierOf j : F)) (hn : 0 < n) :
    LawfulScheme (scheme suite) n where
  honest threshold rng h := by
    obtain ⟨out, hout⟩ := h ⟨0, hn⟩
    by_cases hsigners : 2 ≤ threshold ∧ threshold ≤ n
    · exact ⟨generation suite hcast hsigners rng⟩
    · cases (if_neg hsigners).symm.trans hout
  sign_few _ _ _ _ hfew := if_pos hfew

end Honest

end FrostMpcTss.Lib.Schnorr
