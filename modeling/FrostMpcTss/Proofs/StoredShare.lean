import FrostMpcTss.Lib.Transition
import FrostMpcTss.Tss.Wallet

/-!
# `FrostMpcTss.Proofs.StoredShare`: what becomes of a stored key share

`Wallets` is the disk of a node over any sequence of keygen runs, and
beside it the key shares of the successful ones. Wallet ids that differ
in surrounding white space only are the same.

A stored key share can be lost in two ways. Different wallet ids have
one file when they are sanitized or cut to the same name, and a run that
fails after it has created the file has emptied it by then. In runs
without these two, reading the key share of a wallet id returns the one
of the last successful keygen for it (`holdsLast`).
-/

set_option autoImplicit false

namespace FrostMpcTss.Proofs

open Lib Network Tss

/-- The disk, and the wallet ids and key shares of the successful keygen
runs, the last one first. -/
structure Wallets where
  disk : Disk
  stored : List (String × KeyShare)

/-- One run of `KeyGen::compute`. -/
structure KeygenRun where
  payload : KeygenRequestPayload
  share : Except String KeyShare
  faults : Faults

/-- The file of a wallet id. -/
def fileOf (basePath : Path) (walletId : String) : Path :=
  walletKeySharePath basePath (normalizeWalletId walletId)

/-- The key share of the last successful keygen for a wallet id. -/
def Wallets.lastFor (t : Wallets) (walletId : String) : Option KeyShare :=
  (t.stored.find? fun run => trim run.1 = trim walletId).map Prod.snd

/-- The run gets as far as creating the file. -/
def createsFile (run : KeygenRun) : Bool :=
  run.share.isOk && !run.faults.createDirAll && !run.faults.createFile

/-- Surrounding white space does not change the file. -/
theorem fileOf_congr {basePath : Path} {walletId walletId' : String}
    (h : trim walletId = trim walletId') :
    fileOf basePath walletId = fileOf basePath walletId' := by
  rw [fileOf, fileOf, normalizeWalletId, normalizeWalletId, h]

section

variable [KeyShareJson] [KeyGen.PublicKeyCodec]

namespace Wallets

/-- The disk after the run, and its result. -/
def result (basePath : Path) (t : Wallets) (run : KeygenRun) : Disk × Except String Bytes :=
  KeyGen.compute basePath run.payload run.share run.faults t.disk

def step (basePath : Path) (t : Wallets) (run : KeygenRun) : Option Wallets :=
  some
    { disk := (t.result basePath run).1
      stored :=
        match (t.result basePath run).2, run.share with
        | .ok _, .ok share => (run.payload.walletId, share) :: t.stored
        | _, _ => t.stored }

end Wallets

/-- Nothing fails after the file has been created. -/
def completesFile (run : KeygenRun) : Bool :=
  match run.share with
  | .error _ => false
  | .ok share =>
      (KeyShareJson.toVec share).isOk && run.faults.writeAll.isNone &&
        (KeyGen.PublicKeyCodec.toVec share.curve share.groupPublicKey).isOk

/-- The condition on a run: a file it creates holds no key share of
another wallet id, and if it holds one of the same wallet id, nothing
fails after that. -/
def keepsShares (basePath : Path) (t : Wallets) (run : KeygenRun) : Bool :=
  !createsFile run || t.stored.all fun earlier =>
    fileOf basePath earlier.1 ≠ fileOf basePath run.payload.walletId ||
      (trim earlier.1 = trim run.payload.walletId && completesFile run)

omit [KeyGen.PublicKeyCodec] in
/-- Reading the key share of a wallet id returns the one the last
successful keygen for it has written. -/
def HoldsLast (basePath : Path) (t : Wallets) : Prop :=
  ∀ walletId share message, t.lastFor walletId = some share →
    KeySign.keyShareFor basePath { walletId := walletId, message := message } t.disk = .ok share

/-- On the disk stands the encoding of every last key share. -/
def Encoded (basePath : Path) (t : Wallets) : Prop :=
  ∀ walletId share, t.lastFor walletId = some share →
    ∃ bytes, KeyShareJson.toVec share = .ok bytes ∧
      t.disk (fileOf basePath walletId) = some bytes

/-- The ways a run can end. -/
inductive RunEnds (basePath : Path) (disk : Disk) (run : KeygenRun) :
    Disk × Except String Bytes → Prop where
  /-- Before it has created the file. -/
  | early {e : String} : createsFile run = false → RunEnds basePath disk run (disk, .error e)
  /-- After that, with an error. -/
  | late {disk' : Disk} {e : String} : createsFile run = true → completesFile run = false →
      (∀ path, path ≠ fileOf basePath run.payload.walletId → disk' path = disk path) →
      RunEnds basePath disk run (disk', .error e)
  | stored {share : KeyShare} {bytes pkBytes : Bytes} {disk' : Disk} : createsFile run = true →
      run.share = .ok share → KeyShareJson.toVec share = .ok bytes →
      disk' (fileOf basePath run.payload.walletId) = some bytes →
      (∀ path, path ≠ fileOf basePath run.payload.walletId → disk' path = disk path) →
      RunEnds basePath disk run (disk', .ok pkBytes)

/-- How a run can end, by the step that fails. -/
theorem runEnds_compute (basePath : Path) (disk : Disk) (run : KeygenRun) :
    RunEnds basePath disk run
      (KeyGen.compute basePath run.payload run.share run.faults disk) := by
  unfold KeyGen.compute KeyGen.saveKeyShare
  cases hshare : run.share with
  | error e => exact .early (by rw [createsFile, hshare]; rfl)
  | ok share =>
      cases hdir : run.faults.createDirAll with
      | true =>
          simp only [if_true]
          exact .early (by rw [createsFile, hdir, Bool.not_true, Bool.and_false, Bool.false_and])
      | false =>
          cases hfile : run.faults.createFile with
          | true =>
              simp only [Bool.false_eq_true, if_false, if_true]
              exact .early (by rw [createsFile, hfile, Bool.not_true, Bool.and_false])
          | false =>
              have hcreates : createsFile run = true := by
                rw [createsFile, hshare, hdir, hfile]
                rfl
              -- the file is created empty and then written: no other path is touched
              have hother : ∀ first second path, path ≠ fileOf basePath run.payload.walletId →
                  Function.update
                    (Function.update disk (fileOf basePath run.payload.walletId) first)
                    (fileOf basePath run.payload.walletId) second path = disk path := by
                intro first second path hpath
                rw [Function.update_of_ne hpath, Function.update_of_ne hpath]
              simp only [Bool.false_eq_true, if_false]
              cases hvec : KeyShareJson.toVec share with
              | error e =>
                  refine .late hcreates ?_ fun path hpath => Function.update_of_ne hpath _ _
                  simp [completesFile, hshare, hvec, Except.isOk, Except.toBool]
              | ok bytes =>
                  cases hwrite : run.faults.writeAll with
                  | some written =>
                      exact .late hcreates (by simp [completesFile, hshare, hwrite]) (hother _ _)
                  | none =>
                      cases hpk : KeyGen.PublicKeyCodec.toVec share.curve
                          share.groupPublicKey with
                      | error e =>
                          simp only [hpk, mapErr]
                          refine .late hcreates ?_ (hother _ _)
                          simp [completesFile, hshare, hpk, Except.isOk, Except.toBool]
                      | ok pkBytes =>
                          simp only [hpk, mapErr]
                          exact .stored hcreates hshare hvec (Function.update_self ..)
                            (hother _ _)

section Runs

variable {basePath : Path} {t : Wallets}

omit [KeyShareJson] [KeyGen.PublicKeyCodec] in
/-- The last key share comes from a successful run with the same file. -/
theorem stored_of_lastFor (basePath : Path) {walletId : String} {share : KeyShare}
    (h : t.lastFor walletId = some share) :
    ∃ earlier ∈ t.stored, trim earlier.1 = trim walletId ∧
      fileOf basePath earlier.1 = fileOf basePath walletId := by
  obtain ⟨earlier, hfind, _⟩ := Option.map_eq_some_iff.mp h
  have htrim : trim earlier.1 = trim walletId := by simpa using List.find?_some hfind
  exact ⟨earlier, List.mem_of_find?_eq_some hfind, htrim, fileOf_congr htrim⟩

/-- What the condition says of a stored key share that has the file of
the run. -/
theorem sameId_of_keepsShares {run : KeygenRun} {walletId : String} {share : KeyShare}
    (hkeeps : keepsShares basePath t run = true) (hcreates : createsFile run = true)
    (hlast : t.lastFor walletId = some share)
    (hfile : fileOf basePath walletId = fileOf basePath run.payload.walletId) :
    trim walletId = trim run.payload.walletId ∧ completesFile run = true := by
  obtain ⟨earlier, hmem, htrim, hsame⟩ := stored_of_lastFor basePath hlast
  rw [keepsShares, hcreates, Bool.not_true, Bool.false_or] at hkeeps
  have hearlier := List.all_eq_true.mp hkeeps earlier hmem
  rw [hsame, hfile, htrim] at hearlier
  simpa using hearlier

/-- A run keeps every key share but its own. -/
theorem encoded_step {t' : Wallets} {run : KeygenRun} (ht : Encoded basePath t)
    (hkeeps : keepsShares basePath t run = true) (h : t.step basePath run = some t') :
    Encoded basePath t' := by
  cases h
  have hends : RunEnds basePath t.disk run (t.result basePath run) := runEnds_compute ..
  -- the file of a stored key share that is not the one of the run
  have hkept : ∀ disk' : Disk,
      (∀ path, path ≠ fileOf basePath run.payload.walletId → disk' path = t.disk path) →
      ∀ walletId share, t.lastFor walletId = some share →
      fileOf basePath walletId ≠ fileOf basePath run.payload.walletId →
      ∃ bytes, KeyShareJson.toVec share = .ok bytes ∧
        disk' (fileOf basePath walletId) = some bytes := by
    intro disk' hother walletId share hlast hfile
    rw [hother _ hfile]
    exact ht walletId share hlast
  generalize t.result basePath run = result at hends
  cases hends with
  | early _ => exact ht
  | late hcreates hfails hother =>
      intro walletId share hlast
      apply hkept _ hother walletId share hlast
      intro hfile
      have hdone := (sameId_of_keepsShares hkeeps hcreates hlast hfile).2
      rw [hfails] at hdone
      cases hdone
  | @stored share' bytes _ _ hcreates hshare hvec hdisk hother =>
      intro walletId share hlast
      simp only [hshare, Wallets.lastFor, List.find?_cons] at hlast
      by_cases htrim : trim run.payload.walletId = trim walletId
      · -- the run's own key share
        simp only [htrim, decide_true, Option.map_some, Option.some.injEq] at hlast
        subst hlast
        exact ⟨bytes, hvec, by rw [← fileOf_congr htrim]; exact hdisk⟩
      · simp only [htrim, decide_false] at hlast
        apply hkept _ hother walletId share hlast
        intro hfile
        exact htrim (sameId_of_keepsShares hkeeps hcreates hlast hfile).1.symm

omit [KeyGen.PublicKeyCodec] in
/-- What stands on the disk is what is read. -/
theorem holdsLast_of_encoded [LawfulKeyShareJson] (ht : Encoded basePath t) :
    HoldsLast basePath t := by
  intro walletId share message hlast
  obtain ⟨bytes, hvec, hdisk⟩ := ht walletId share hlast
  have hpath : walletKeySharePath basePath
      (decodeSignPayload { walletId := walletId, message := message }).walletId
      = fileOf basePath walletId := rfl
  rw [KeySign.keyShareFor, KeySign.readKeyShare, hpath, hdisk]
  simp only [LawfulKeyShareJson.fromSlice_toVec share bytes hvec]

/-- From any disk that holds the last key shares so far, as that of a node
that has been restarted, over every sequence of keygen runs that meet the
condition: reading the key share of a wallet id returns the one of the
last successful keygen for it. -/
theorem holdsLast [LawfulKeyShareJson] {t₀ t : Wallets} (h₀ : Encoded basePath t₀)
    (h : Reach (Wallets.step basePath) (fun t run => keepsShares basePath t run = true) t₀ t) :
    HoldsLast basePath t :=
  holdsLast_of_encoded
    (h.invariant h₀ fun _ _ _ ht hkeeps hstep => encoded_step ht hkeeps hstep)

end Runs

end

namespace TwoWallets

/-- The key share of a keygen, told apart by the group public key. -/
def share (group : UInt8) : KeyShare where
  signingKey := [7]
  publicKey := [8]
  groupPublicKey := [group]
  publicKeyPackage := [9]
  curve := .ed25519
  identifier := 1
  minSigners := 2
  maxSigners := 3
  participants := []

/-- Key shares as above are written as their group public key. -/
local instance keyShareJson : KeyShareJson where
  toVec keyShare :=
    match keyShare.groupPublicKey with
    | [group] => if keyShare = share group then .ok [group] else .error "unsupported"
    | _ => .error "unsupported"
  fromSlice bytes :=
    match bytes with
    | [group] => .ok (share group)
    | _ => .error "EOF while parsing a value"

theorem lawful_keyShareJson : LawfulKeyShareJson where
  fromSlice_toVec keyShare bytes h := by
    simp only [KeyShareJson.toVec] at h
    split at h
    · next group _ =>
        split at h
        · next hshare =>
            cases h
            exact congrArg Except.ok hshare.symm
        · cases h
    · cases h

local instance publicKeyCodec : KeyGen.PublicKeyCodec where
  toVec _ groupPkBytes := .ok groupPkBytes

def keygen (walletId : String) (group : UInt8) (faults : Faults) : KeygenRun where
  payload := { walletId := walletId, threshold := 2 }
  share := .ok (share group)
  faults := faults

def basePath : Path := ["data", "share.json"]

def noFiles : Wallets where
  disk _ := none
  stored := []

/-- A node that has generated a wallet before. -/
def restarted : Wallets := (noFiles.step basePath (keygen "c" 5 .none)).getD noFiles

theorem encoded_restarted : Encoded basePath restarted :=
  have hnone : Encoded basePath noFiles := fun _ _ hlast => nomatch hlast
  encoded_step hnone (rfl : keepsShares basePath noFiles (keygen "c" 5 .none) = true) rfl

/-- Two more wallets, one of them generated again under an id with a
blank, and a run that cannot create its file: all key shares are there. -/
theorem holdsLast_twoWallets :
    ∃ t, runIf (Wallets.step basePath) (keepsShares basePath) restarted
        [keygen "a" 1 .none, keygen "b" 2 .none, keygen " a" 3 .none,
          keygen "b" 4 { Faults.none with createFile := true }] = some t ∧
      (t.lastFor "a" = some (share 3) ∧ t.lastFor "b" = some (share 2) ∧
        t.lastFor "c" = some (share 5)) ∧ HoldsLast basePath t :=
  ⟨_, rfl, ⟨rfl, rfl, rfl⟩,
    haveI := lawful_keyShareJson
    holdsLast encoded_restarted (reach_of_runIf [keygen "a" 1 .none, keygen "b" 2 .none,
      keygen " a" 3 .none, keygen "b" 4 { Faults.none with createFile := true }] rfl)⟩

/-- A keygen for `a_b` replaces the key share of `a/b`, and a keygen for
`a` whose write fails leaves an empty file in place of the key share. -/
theorem not_holdsLast_lostShares :
    (∃ t, Reach (Wallets.step basePath) Always noFiles t ∧
      t.lastFor "a/b" = some (share 1) ∧
      KeySign.keyShareFor basePath { walletId := "a/b", message := [] } t.disk = .ok (share 2)) ∧
    ∃ t, Reach (Wallets.step basePath) Always noFiles t ∧
      t.lastFor "a" = some (share 1) ∧
      KeySign.keyShareFor basePath { walletId := "a", message := [] } t.disk
        = .error "failed to deserialize local key" :=
  ⟨⟨_, reach_of_run [keygen "a/b" 1 .none, keygen "a_b" 2 .none] rfl, rfl, rfl⟩,
    ⟨_, reach_of_run
      [keygen "a" 1 .none, keygen "a" 2 { Faults.none with writeAll := some 0 }] rfl, rfl, rfl⟩⟩

end TwoWallets

end FrostMpcTss.Proofs
