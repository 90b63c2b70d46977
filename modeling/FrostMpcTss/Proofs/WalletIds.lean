import Mathlib.Logic.Encodable.Basic
import Mathlib.Logic.Equiv.List
import FrostMpcTss.Lib.Except
import FrostMpcTss.Tss.Wallet

/-!
# `FrostMpcTss.Proofs.WalletIds`: wallet ids are canonical

`normalize_wallet_id` runs when a payload is encoded, when it is decoded and
when the path of the key share is made. `sanitize_eq` says what its loop
computes: the characters one by one, with `_` for those that are not safe,
and the first 64 of them. The result is a canonical id (`canonical_normalize`),
and a canonical id is left as it is (`Canonical.normalize_eq`), so further
runs change nothing.
-/

set_option autoImplicit false

namespace FrostMpcTss.Proofs

open Network Tss

/-- The characters a wallet id may have. -/
def WalletChar (ch : Char) : Prop :=
  ('A' ≤ ch ∧ ch ≤ 'Z') ∨ ('a' ≤ ch ∧ ch ≤ 'z') ∨ ('0' ≤ ch ∧ ch ≤ '9') ∨ ch = '-' ∨ ch = '_'

instance (ch : Char) : Decidable (WalletChar ch) :=
  inferInstanceAs (Decidable (_ ∨ _))

/-- The wallet ids that name files. -/
structure Canonical (walletId : String) : Prop where
  nonempty : walletId ≠ ""
  short : walletId.utf8ByteSize ≤ 64
  chars : ∀ ch ∈ walletId.toList, WalletChar ch

/-! ### Safe characters -/

theorem isSafe_iff (ch : Char) : isSafe ch = true ↔ WalletChar ch := by
  simp only [isSafe, Char.isAlphanum, Char.isAlpha, Char.isUpper, Char.isLower, Char.isDigit,
    Bool.or_eq_true, Bool.and_eq_true, decide_eq_true_eq, ge_iff_le, WalletChar, Char.le_def,
    or_assoc]

variable {ch : Char}

/-- The code points of safe characters. -/
theorem WalletChar.toNat_cases (h : WalletChar ch) :
    (65 ≤ ch.toNat ∧ ch.toNat ≤ 90) ∨ (97 ≤ ch.toNat ∧ ch.toNat ≤ 122) ∨
      (48 ≤ ch.toNat ∧ ch.toNat ≤ 57) ∨ ch.toNat = 45 ∨ ch.toNat = 95 := by
  rcases h with h | h | h | rfl | rfl
  · exact .inl h
  · exact .inr (.inl h)
  · exact .inr (.inr (.inl h))
  · exact .inr (.inr (.inr (.inl rfl)))
  · exact .inr (.inr (.inr (.inr rfl)))

theorem WalletChar.not_isWhitespace (h : WalletChar ch) : isWhitespace ch = false := by
  have hcases := h.toNat_cases
  simp only [isWhitespace, Bool.or_eq_false_iff, Bool.and_eq_false_iff, decide_eq_false_iff_not]
  omega

theorem WalletChar.utf8Size (h : WalletChar ch) : ch.utf8Size = 1 := by
  have hcases := h.toNat_cases
  rw [Char.utf8Size_eq_one_iff, UInt32.le_iff_toNat_le]
  show ch.toNat ≤ 127
  omega

/-- Wallet characters take one byte each. -/
theorem utf8Len_eq_length {chars : List Char} (h : ∀ ch ∈ chars, WalletChar ch) :
    String.utf8Len chars = chars.length := by
  induction chars with
  | nil => rfl
  | cons ch rest ih =>
      have hhead := (h ch List.mem_cons_self).utf8Size
      have hrest := ih fun c hc => h c (List.mem_cons_of_mem _ hc)
      rw [String.utf8Len, hrest, hhead, List.length_cons]

variable {walletId : String}

theorem Canonical.length_le (h : Canonical walletId) : walletId.toList.length ≤ 64 := by
  rw [← utf8Len_eq_length h.chars, ← String.utf8ByteSize_ofList, String.ofList_toList]
  exact h.short

/-! ### The loop -/

/-- The character the loop pushes. -/
def safeChar (ch : Char) : Char := if isSafe ch then ch else '_'

theorem walletChar_safeChar (ch : Char) : WalletChar (safeChar ch) := by
  unfold safeChar
  split
  · rename_i hsafe
    exact (isSafe_iff ch).mp hsafe
  · decide

theorem WalletChar.safeChar_eq (h : WalletChar ch) : safeChar ch = ch :=
  if_pos ((isSafe_iff ch).mpr h)

/-- `sanitize` replaces every character and cuts the rest off. -/
theorem sanitize_eq (rest sanitized : List Char) :
    sanitize sanitized rest
      = sanitized ++ (rest.map safeChar).take (maxWalletIdLen - sanitized.length) := by
  induction rest generalizing sanitized with
  | nil => rw [sanitize, List.map_nil, List.take_nil, List.append_nil]
  | cons ch rest ih =>
      rw [sanitize]
      split
      · rename_i hfull
        rw [Nat.sub_eq_zero_of_le hfull, List.take_zero, List.append_nil]
      · rename_i hroom
        have hleft : maxWalletIdLen - sanitized.length
            = maxWalletIdLen - (sanitized ++ [safeChar ch]).length + 1 := by
          rw [List.length_append, List.length_singleton]
          omega
        rw [show (if isSafe ch then ch else '_') = safeChar ch from rfl, ih, List.append_assoc,
          hleft]
        rfl

/-- What `normalize_wallet_id` computes. -/
theorem normalizeWalletId_eq (raw : String) :
    normalizeWalletId raw =
      if trim raw = [] then defaultWalletId
      else String.ofList (((trim raw).map safeChar).take 64) := by
  simp only [normalizeWalletId, sanitize_eq, List.nil_append, List.length_nil]
  by_cases htrim : trim raw = []
  · rw [if_pos htrim, if_pos htrim]
  · -- the loop keeps at least the first character
    rw [if_neg htrim, if_neg htrim, if_neg]
    · rfl
    · rw [List.take_eq_nil_iff, List.map_eq_nil_iff]
      rintro (hzero | hnil)
      · exact absurd hzero (by decide)
      · exact htrim hnil

/-! ### Canonical ids -/

theorem canonical_default : Canonical defaultWalletId where
  nonempty := by decide
  short := by decide
  chars ch hch := by
    have hall : defaultWalletId.toList.all isSafe = true := by decide
    exact (isSafe_iff ch).mp (List.all_eq_true.mp hall ch hch)

/-- Every id becomes canonical. -/
theorem canonical_normalize (raw : String) : Canonical (normalizeWalletId raw) := by
  rw [normalizeWalletId_eq]
  split
  · exact canonical_default
  · rename_i htrim
    have hchars : ∀ ch ∈ ((trim raw).map safeChar).take 64, WalletChar ch := by
      intro ch hch
      obtain ⟨c, -, rfl⟩ := List.mem_map.mp (List.mem_of_mem_take hch)
      exact walletChar_safeChar c
    refine ⟨?_, ?_, ?_⟩
    · intro hempty
      have hnil := congrArg String.toList hempty
      rw [String.toList_ofList, String.toList_empty, List.take_eq_nil_iff,
        List.map_eq_nil_iff] at hnil
      exact htrim (hnil.resolve_left (by decide))
    · rw [String.utf8ByteSize_ofList, utf8Len_eq_length hchars]
      exact List.length_take_le _ _
    · rwa [String.toList_ofList]

/-- There is nothing to trim where no character is white space. -/
theorem trim_eq_toList {raw : String} (h : ∀ ch ∈ raw.toList, isWhitespace ch = false) :
    trim raw = raw.toList := by
  have hkeep : ∀ chars : List Char, (∀ ch ∈ chars, isWhitespace ch = false) →
      chars.dropWhile isWhitespace = chars := by
    intro chars hchars
    rw [List.dropWhile_eq_self_iff]
    intro hpos
    rw [hchars _ (List.getElem_mem hpos)]
    exact Bool.false_ne_true
  unfold trim
  rw [hkeep _ h, hkeep _ (fun ch hch => h ch (List.mem_reverse.mp hch)), List.reverse_reverse]

/-- A canonical id stays as it is. -/
theorem Canonical.normalize_eq (h : Canonical walletId) :
    normalizeWalletId walletId = walletId := by
  have htrim : trim walletId = walletId.toList :=
    trim_eq_toList fun ch hch => (h.chars ch hch).not_isWhitespace
  have hne : walletId.toList ≠ [] := fun hnil => h.nonempty (String.toList_eq_nil_iff.mp hnil)
  have hmap : walletId.toList.map safeChar = walletId.toList :=
    (List.map_congr_left fun ch hch => (h.chars ch hch).safeChar_eq).trans
      (List.map_id' _)
  rw [normalizeWalletId_eq, htrim, if_neg hne, hmap, List.take_of_length_le h.length_le,
    String.ofList_toList]

/-! ### From the raw id to the file -/

/-- A name that stands for a file in the directory it is joined to. -/
structure PlainFileName (name : String) : Prop where
  notEmpty : name ≠ ""
  notHere : name ≠ "."
  notParent : name ≠ ".."
  noSeparator : ∀ ch ∈ name.toList, ch ≠ '/' ∧ ch ≠ '\\'

/-- A canonical id names a file of its own directory. -/
theorem Canonical.plainFileName (h : Canonical walletId) :
    PlainFileName (walletId ++ ".share") := by
  have htoList : (walletId ++ ".share").toList
      = walletId.toList ++ ['.', 's', 'h', 'a', 'r', 'e'] := String.toList_append
  have hlong : 6 ≤ (walletId ++ ".share").toList.length := by
    rw [htoList, List.length_append]
    exact Nat.le_add_left _ _
  refine ⟨?_, ?_, ?_, ?_⟩
  · intro heq
    rw [heq] at hlong
    exact absurd hlong (by decide)
  · intro heq
    rw [heq] at hlong
    exact absurd hlong (by decide)
  · intro heq
    rw [heq] at hlong
    exact absurd hlong (by decide)
  · intro ch hch
    rw [htoList, List.mem_append] at hch
    cases hch with
    | inl hid =>
        have hcases := (h.chars ch hid).toNat_cases
        constructor
        · rintro rfl
          exact absurd hcases (by decide)
        · rintro rfl
          exact absurd hcases (by decide)
    | inr hext =>
        have hall : ['.', 's', 'h', 'a', 'r', 'e'].all (fun c => c ≠ '/' && c ≠ '\\') = true := by
          decide
        simpa using List.all_eq_true.mp hall ch hext

/-- The file is named after the normalized id. -/
theorem walletKeySharePath_eq (basePath : Path) (walletId : String) :
    walletKeySharePath basePath walletId
      = walletDirectory basePath ++ [normalizeWalletId walletId ++ ".share"] := by
  unfold walletKeySharePath walletDirectory
  split
  · rw [List.append_assoc]
    rfl
  · rfl

/-- Normalizing before makes no difference. -/
theorem walletKeySharePath_normalize (basePath : Path) (raw : String) :
    walletKeySharePath basePath (normalizeWalletId raw) = walletKeySharePath basePath raw := by
  rw [walletKeySharePath_eq, walletKeySharePath_eq, (canonical_normalize raw).normalize_eq]

/-- The request is decoded with the id normalized. -/
theorem decodeKeygenBytes_encode [CborRecord KeygenRequestPayload]
    [LawfulCborRecord KeygenRequestPayload] (raw : String) (threshold : Nat) :
    ∃ payload, encodeKeygenPayload raw threshold = .ok payload ∧
      decodeKeygenBytes payload
        = .ok { walletId := normalizeWalletId raw, threshold := threshold } := by
  obtain ⟨bytes, hto, hfrom⟩ := LawfulCborRecord.roundTrip
    ({ walletId := normalizeWalletId raw, threshold := threshold } : KeygenRequestPayload)
  refine ⟨bytes, ?_, ?_⟩
  · rw [encodeKeygenPayload, hto, mapErr]
  · rw [decodeKeygenBytes, hfrom, mapErr, Lib.Except.ok_bind, decodeKeygenPayload,
      (canonical_normalize raw).normalize_eq]
    rfl

/-- What the signing agent decodes is what the RPC call was given, with the
id normalized. -/
theorem decodeSignBytes_encode [CborRecord SignRequestPayload]
    [LawfulCborRecord SignRequestPayload] (raw : String) (message : Bytes) :
    ∃ payload, encodeSignPayload raw message = .ok payload ∧
      decodeSignBytes payload
        = .ok { walletId := normalizeWalletId raw, message := message } := by
  obtain ⟨bytes, hto, hfrom⟩ := LawfulCborRecord.roundTrip
    ({ walletId := normalizeWalletId raw, message := message } : SignRequestPayload)
  refine ⟨bytes, ?_, ?_⟩
  · rw [encodeSignPayload, hto, mapErr]
  · rw [decodeSignBytes, hfrom, mapErr, Lib.Except.ok_bind, decodeSignPayload,
      (canonical_normalize raw).normalize_eq]
    rfl

/-- A wallet id reaches every node in the same form, whatever text the
client gave, and names the same file of the wallet directory there. -/
theorem walletIds_canonical [CborRecord KeygenRequestPayload] [CborRecord SignRequestPayload]
    [LawfulCborRecord KeygenRequestPayload] [LawfulCborRecord SignRequestPayload]
    (raw : String) :
    Canonical (normalizeWalletId raw) ∧
    normalizeWalletId (normalizeWalletId raw) = normalizeWalletId raw ∧
    (∀ threshold, ∃ payload decoded,
      encodeKeygenPayload raw threshold = .ok payload ∧
      decodeKeygenBytes payload = .ok decoded ∧
      decoded.walletId = normalizeWalletId raw ∧ decoded.threshold = threshold ∧
      ∀ basePath, walletKeySharePath basePath decoded.walletId
        = walletKeySharePath basePath raw) ∧
    (∀ message, ∃ payload decoded,
      encodeSignPayload raw message = .ok payload ∧
      decodeSignBytes payload = .ok decoded ∧
      decoded.walletId = normalizeWalletId raw ∧ decoded.message = message ∧
      ∀ basePath, walletKeySharePath basePath decoded.walletId
        = walletKeySharePath basePath raw) ∧
    ∀ basePath, ∃ name, PlainFileName name ∧
      walletKeySharePath basePath raw = walletDirectory basePath ++ [name] := by
  refine ⟨canonical_normalize raw, (canonical_normalize raw).normalize_eq, ?_, ?_, ?_⟩
  · intro threshold
    obtain ⟨payload, hencode, hdecode⟩ := decodeKeygenBytes_encode raw threshold
    exact ⟨payload, _, hencode, hdecode, rfl, rfl, (walletKeySharePath_normalize · raw)⟩
  · intro message
    obtain ⟨payload, hencode, hdecode⟩ := decodeSignBytes_encode raw message
    exact ⟨payload, _, hencode, hdecode, rfl, rfl, (walletKeySharePath_normalize · raw)⟩
  · intro basePath
    exact ⟨_, (canonical_normalize raw).plainFileName, walletKeySharePath_eq basePath raw⟩

namespace CountedBytes

/-- A record as a number of zero bytes. -/
def toVec {α : Type} [Encodable α] (record : α) : Bytes :=
  List.replicate (Encodable.encode record) 0

def fromSlice {α : Type} [Encodable α] (bytes : Bytes) : Except String α :=
  match Encodable.decode bytes.length with
  | some record => .ok record
  | none => .error "unexpected length"

theorem fromSlice_toVec {α : Type} [Encodable α] (record : α) :
    fromSlice (toVec record) = .ok record := by
  rw [fromSlice, toVec, List.length_replicate, Encodable.encodek]

/-- The fields of a payload as numbers. -/
local instance : CborRecord KeygenRequestPayload where
  toVec record := .ok (toVec (record.walletId.toList.map Char.toNat, record.threshold))
  fromSlice bytes := do
    let (chars, threshold) ← (fromSlice bytes : Except String (List Nat × Nat))
    return { walletId := String.ofList (chars.map Char.ofNat), threshold := threshold }

local instance : CborRecord SignRequestPayload where
  toVec record :=
    .ok (toVec (record.walletId.toList.map Char.toNat, record.message.map UInt8.toNat))
  fromSlice bytes := do
    let (chars, message) ← (fromSlice bytes : Except String (List Nat × List Nat))
    return {
      walletId := String.ofList (chars.map Char.ofNat)
      message := message.map UInt8.ofNat }

theorem ofList_chars (text : String) :
    String.ofList ((text.toList.map Char.toNat).map Char.ofNat) = text := by
  have hchars : Char.ofNat ∘ Char.toNat = id := funext Char.ofNat_toNat
  rw [List.map_map, hchars, List.map_id, String.ofList_toList]

theorem map_bytes (bytes : Bytes) : (bytes.map UInt8.toNat).map UInt8.ofNat = bytes := by
  have hbytes : UInt8.ofNat ∘ UInt8.toNat = id := funext fun _ => UInt8.ofNat_toNat
  rw [List.map_map, hbytes, List.map_id]

local instance : LawfulCborRecord KeygenRequestPayload where
  roundTrip record := by
    refine ⟨_, rfl, ?_⟩
    simp only [CborRecord.fromSlice, fromSlice_toVec, Lib.Except.ok_bind, Lib.Except.pure_eq,
      ofList_chars]

local instance : LawfulCborRecord SignRequestPayload where
  roundTrip record := by
    refine ⟨_, rfl, ?_⟩
    simp only [CborRecord.fromSlice, fromSlice_toVec, Lib.Except.ok_bind, Lib.Except.pure_eq,
      ofList_chars, map_bytes]

/-- A path that would lead out of the directory, with white space around it. -/
def hostile : String := " ../é/wallet "

/-- An id with slashes and dots. -/
theorem walletIds_canonical_hostile :
    Canonical (normalizeWalletId hostile) ∧ normalizeWalletId hostile = "_____wallet" ∧
    (∃ payload decoded, encodeKeygenPayload hostile 2 = .ok payload ∧
      decodeKeygenBytes payload = .ok decoded ∧ decoded.walletId = "_____wallet") ∧
    walletKeySharePath ["data", "key.share"] hostile
      = ["data", "wallets", "_____wallet.share"] := by
  obtain ⟨hcanonical, -, hkeygen, -, -⟩ := walletIds_canonical hostile
  obtain ⟨payload, decoded, hencode, hdecode, hid, -, -⟩ := hkeygen 2
  exact ⟨hcanonical, by decide, ⟨payload, decoded, hencode, hdecode, hid.trans (by decide)⟩,
    by decide⟩

end CountedBytes

end FrostMpcTss.Proofs
