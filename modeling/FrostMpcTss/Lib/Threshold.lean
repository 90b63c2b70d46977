import FrostMpcTss.Lib.OrderedKeys

/-!
# `FrostMpcTss.Lib.Threshold`: threshold signature schemes

A scheme is a record of operations over types of its own. `part1`,
`part2` and `part3` generate a key among `n` parties, and `commit`,
`sign` and `aggregate` make a signature with it. Nothing is known of the
operations but `LawfulScheme`, which says what they do among parties who
follow the protocol:

* `honest`: where every party has got through `part1`, the other rounds
  succeed and leave a key that the parties share
  (`KeyGeneration`).
* `SharedKey.signs`: where as many parties as the threshold have made
  signature shares, these are aggregated to a signature that verifies.
* `sign_few`: no signature share is made of fewer commitments.

The laws say nothing about parties who deviate, and nothing about
secrecy. Parties are counted from zero on and identified by numbers from
one on.
-/

set_option autoImplicit false

namespace FrostMpcTss.Lib

/-- The map has a value of each of these, under their numbers, and
nothing else. -/
def Holds {ι α : Type} (members : Finset ι) (number : ι → Nat) (v : ι → α)
    (m : Std.TreeMap Nat α) : Prop :=
  ∀ k a, m[k]? = some a ↔ ∃ i ∈ members, number i = k ∧ v i = a

section Holds

variable {ι α : Type} {members : Finset ι} {number : ι → Nat} {v : ι → α}
  {m : Std.TreeMap Nat α}

/-- The entries of the map, in some order. -/
theorem Holds.perm (h : Holds members number v m) (hnumber : Function.Injective number) :
    m.toList.Perm (members.toList.map fun i => (number i, v i)) := by
  have hentries : m.toList.Nodup := by
    refine List.Nodup.of_map Prod.fst ?_
    rw [Std.TreeMap.map_fst_toList_eq_keys]
    exact nodup_keys m
  have hmembers : (members.toList.map fun i => (number i, v i)).Nodup :=
    members.nodup_toList.map fun i j heq => hnumber (Prod.mk.inj heq).1
  refine (List.perm_ext_iff_of_nodup hentries hmembers).mpr fun e => ?_
  rw [Std.TreeMap.mem_toList_iff_getElem?_eq_some, h, List.mem_map]
  simp only [Finset.mem_toList, Prod.ext_iff]

theorem Holds.size_eq (h : Holds members number v m) (hnumber : Function.Injective number) :
    m.size = members.card := by
  rw [← Std.TreeMap.length_toList, (h.perm hnumber).length_eq, List.length_map,
    Finset.length_toList]

end Holds

namespace Threshold

/-- A party's own result of a key generation. -/
structure KeyPackage (SigningShare VerifyingShare VerifyingKey : Type) where
  identifier : Nat
  signingShare : SigningShare
  verifyingShare : VerifyingShare
  verifyingKey : VerifyingKey
  minSigners : Nat
deriving Repr, DecidableEq

/-- The result that all parties share. -/
structure PublicKeyPackage (VerifyingShare VerifyingKey : Type) where
  /-- By the identifiers, in their order. -/
  verifyingShares : List (Nat × VerifyingShare)
  verifyingKey : VerifyingKey
deriving Repr, DecidableEq

/-- The operations of a scheme for messages of type `M`. Maps are indexed
by identifiers. -/
structure Scheme (M : Type) where
  Rng : Type
  Error : Type
  Secret1 : Type
  Package1 : Type
  Secret2 : Type
  Package2 : Type
  SigningShare : Type
  VerifyingShare : Type
  VerifyingKey : Type
  Nonces : Type
  Commitments : Type
  SignatureShare : Type
  Signature : Type
  incorrectNumberOfCommitments : Error
  part1 : Rng → (identifier maxSigners minSigners : Nat) → Except Error (Secret1 × Package1)
  part2 : Secret1 → Std.TreeMap Nat Package1 → Except Error (Secret2 × Std.TreeMap Nat Package2)
  part3 : Secret2 → Std.TreeMap Nat Package1 → Std.TreeMap Nat Package2 →
    Except Error (KeyPackage SigningShare VerifyingShare VerifyingKey ×
      PublicKeyPackage VerifyingShare VerifyingKey)
  commit : Rng → SigningShare → Nonces × Commitments
  sign : Std.TreeMap Nat Commitments → M → Nonces →
    KeyPackage SigningShare VerifyingShare VerifyingKey → Except Error SignatureShare
  aggregate : Std.TreeMap Nat Commitments → M → Std.TreeMap Nat SignatureShare →
    PublicKeyPackage VerifyingShare VerifyingKey → Except Error Signature
  verify : VerifyingKey → M → Signature → Except Error Unit

variable {M : Type}

/-- The key packages of a scheme. -/
abbrev Scheme.Key (S : Scheme M) : Type :=
  KeyPackage S.SigningShare S.VerifyingShare S.VerifyingKey

/-- Its public key packages. -/
abbrev Scheme.PublicKeys (S : Scheme M) : Type :=
  PublicKeyPackage S.VerifyingShare S.VerifyingKey

/-- The identifier of a party. -/
def identifierOf {n : Nat} (j : Fin n) : Nat := j + 1

theorem identifierOf_injective {n : Nat} : Function.Injective (identifierOf (n := n)) :=
  fun _ _ h => Fin.ext (Nat.succ.inj h)

/-- The map has a value from every party but one. -/
abbrev HoldsOthers {n : Nat} {α : Type} (j : Fin n) (v : Fin n → α) (m : Std.TreeMap Nat α) :
    Prop :=
  Holds ({j}ᶜ : Finset (Fin n)) identifierOf v m

/-- The map has a value from each of these parties. -/
abbrev HoldsAll {n k : Nat} {α : Type} (node : Fin k → Fin n) (v : Fin k → α)
    (m : Std.TreeMap Nat α) : Prop :=
  Holds Finset.univ (identifierOf ∘ node) v m

section Parties

variable {n : Nat} {α : Type} {v : Fin n → α} {m : Std.TreeMap Nat α}

/-- With its own value a party has those of all parties. -/
theorem HoldsOthers.insert {j : Fin n} (h : HoldsOthers j v m) :
    HoldsAll id v (m.insert (identifierOf j) (v j)) := by
  intro k a
  rw [getElem?_insert_eq]
  by_cases hk : k = identifierOf j
  · subst hk
    rw [if_pos rfl, Option.some_inj]
    constructor
    · rintro rfl
      exact ⟨j, Finset.mem_univ j, rfl, rfl⟩
    · rintro ⟨i, _, hi, rfl⟩
      exact congrArg v (identifierOf_injective hi).symm
  · rw [if_neg hk, h]
    constructor
    · rintro ⟨i, _, hi⟩
      exact ⟨i, Finset.mem_univ i, hi⟩
    · rintro ⟨i, _, rfl, hv⟩
      refine ⟨i, ?_, rfl, hv⟩
      rw [Finset.mem_compl, Finset.mem_singleton]
      rintro rfl
      exact hk rfl

/-- The entries are in the order of the parties. -/
theorem HoldsAll.toList_eq (h : HoldsAll id v m) :
    m.toList = (List.finRange n).map fun j => (identifierOf j, v j) := by
  refine toList_eq_of_mem_iff (List.pairwise_map.mpr ?_) fun e => ?_
  · exact (List.pairwise_lt_finRange n).imp fun hlt => Nat.compare_eq_lt.mpr (Nat.succ_lt_succ hlt)
  · rw [h, List.mem_map]
    simp only [Prod.ext_iff, Finset.mem_univ, List.mem_finRange, Function.comp_apply, id]

end Parties

/-- A key that `n` parties share with a threshold. -/
structure SharedKey (S : Scheme M) (n threshold : Nat) (key : Fin n → S.Key)
    (publicKeys : S.PublicKeys) : Prop where
  identifier : ∀ j, (key j).identifier = identifierOf j
  minSigners : ∀ j, (key j).minSigners = threshold
  verifyingKey : ∀ j, (key j).verifyingKey = publicKeys.verifyingKey
  known : ∀ j : Fin n, identifierOf j ∈ publicKeys.verifyingShares.map Prod.fst
  /-- Where enough parties have made their signature shares, the signature
  is made. -/
  signs : ∀ {k : Nat} (node : Fin k → Fin n), Function.Injective node → threshold ≤ k →
    ∀ (rng : Fin k → S.Rng) (message : M) (share : Fin k → S.SignatureShare),
      (∀ i m, HoldsAll node (fun i => (S.commit (rng i) (key (node i)).signingShare).2) m →
        S.sign m message (S.commit (rng i) (key (node i)).signingShare).1 (key (node i))
          = .ok (share i)) →
      ∃ signature, S.verify publicKeys.verifyingKey message signature = .ok () ∧
        ∀ m shares, HoldsAll node (fun i => (S.commit (rng i) (key (node i)).signingShare).2) m →
          HoldsAll node share shares → S.aggregate m message shares publicKeys = .ok signature

/-- A key generation of parties who follow the protocol: what each round
gives each of them. -/
structure KeyGeneration (S : Scheme M) (n threshold : Nat) (rng : Fin n → S.Rng) where
  secret1 : Fin n → S.Secret1
  package1 : Fin n → S.Package1
  secret2 : Fin n → S.Secret2
  /-- From one party to another. -/
  package2 : Fin n → Fin n → S.Package2
  key : Fin n → S.Key
  publicKeys : S.PublicKeys
  part1_eq : ∀ j, S.part1 (rng j) (identifierOf j) n threshold = .ok (secret1 j, package1 j)
  part2_eq : ∀ j m, HoldsOthers j package1 m →
    ∃ packages, S.part2 (secret1 j) m = .ok (secret2 j, packages) ∧
      HoldsOthers j (package2 j) packages
  part3_eq : ∀ j m packages, HoldsOthers j package1 m → HoldsOthers j (package2 · j) packages →
    S.part3 (secret2 j) m packages = .ok (key j, publicKeys)
  shared : SharedKey S n threshold key publicKeys

/-- What `n` parties may rely on. -/
structure LawfulScheme (S : Scheme M) (n : Nat) : Prop where
  honest : ∀ (threshold : Nat) (rng : Fin n → S.Rng),
    (∀ j, ∃ out, S.part1 (rng j) (identifierOf j) n threshold = .ok out) →
      Nonempty (KeyGeneration S n threshold rng)
  sign_few : ∀ (m : Std.TreeMap Nat S.Commitments) (message : M) (nonces : S.Nonces)
    (key : S.Key), m.size < key.minSigners →
      S.sign m message nonces key = .error S.incorrectNumberOfCommitments

end Threshold

end FrostMpcTss.Lib
