import Mathlib

/-!
# `FrostMpcTss.Lib.Leb128`: unsigned LEB128 of a fixed width

Seven bits to a byte, least significant group first, the top bit set
on every byte but the last. `decodeAux` refuses a last group of zero
behind another group. The fuel bounds the number of bytes by `fuel + 1`.

The decoders of a width shift the groups into a number of that width. So
they drop what does not fit, and a number has other spellings beside its
encoding: `[128, 2]` is read as the byte `0`. A spelling is never shorter
than the encoding (`length_of_decode`).
-/

set_option autoImplicit false

namespace FrostMpcTss.Lib.Leb128

/-- The encoding of `n`, in at most `fuel + 1` bytes. -/
def encodeAux : Nat → Nat → List UInt8
  | 0, n => [n.toUInt8]
  | fuel + 1, n =>
      if n < 128 then [n.toUInt8]
      else (n % 128 + 128).toUInt8 :: encodeAux fuel (n / 128)

/-- Read one number and return what follows it. -/
def decodeAux : Nat → List UInt8 → Option (Nat × List UInt8)
  | _, [] => none
  | 0, b :: rest => if b.toNat < 128 then some (b.toNat, rest) else none
  | fuel + 1, b :: rest =>
      if b.toNat < 128 then some (b.toNat, rest)
      else
        match decodeAux fuel rest with
        | none => none
        | some (v, rest') =>
            -- A zero group at the end is a longer spelling of a shorter encoding.
            if v = 0 then none else some (b.toNat - 128 + 128 * v, rest')

theorem toNat_toUInt8_of_lt {n : Nat} (h : n < 256) : n.toUInt8.toNat = n := by
  rw [Nat.toUInt8_eq, UInt8.toNat_ofNat']
  exact Nat.mod_eq_of_lt h

theorem toNat_toUInt64_of_lt {n : Nat} (h : n < 2 ^ 64) : n.toUInt64.toNat = n := by
  rw [Nat.toUInt64_eq, UInt64.toNat_ofNat']
  exact Nat.mod_eq_of_lt h

/-- Reading undoes writing for every number the fuel covers. -/
theorem decodeAux_encodeAux (fuel : Nat) :
    ∀ (n : Nat) (rest : List UInt8), n < 128 ^ (fuel + 1) →
      decodeAux fuel (encodeAux fuel n ++ rest) = some (n, rest) := by
  induction fuel with
  | zero =>
      intro n rest hn
      have hlt : n < 128 := by simpa using hn
      simp [encodeAux, decodeAux, toNat_toUInt8_of_lt (by omega : n < 256), hlt]
  | succ fuel ih =>
      intro n rest hn
      by_cases hlt : n < 128
      · simp [encodeAux, decodeAux, toNat_toUInt8_of_lt (by omega : n < 256), hlt]
      · have hdiv : n / 128 < 128 ^ (fuel + 1) := by
          rw [Nat.div_lt_iff_lt_mul (by decide)]
          calc n < 128 ^ (fuel + 2) := hn
            _ = 128 ^ (fuel + 1) * 128 := Nat.pow_succ _ _
        have hmod : n % 128 < 128 := Nat.mod_lt _ (by decide)
        have hhead := toNat_toUInt8_of_lt (show n % 128 + 128 < 256 by omega)
        have hrec := ih (n / 128) rest hdiv
        simp only [encodeAux, if_neg hlt, List.cons_append, decodeAux, hhead,
          if_neg (show ¬ n % 128 + 128 < 128 by omega), hrec,
          if_neg (show ¬ n / 128 = 0 by omega)]
        congr 2
        omega

theorem length_encodeAux_pos (fuel n : Nat) : 0 < (encodeAux fuel n).length := by
  cases fuel with
  | zero => simp [encodeAux]
  | succ fuel =>
      rw [encodeAux]
      split <;> simp

theorem length_encodeAux_le (fuel : Nat) : ∀ n, (encodeAux fuel n).length ≤ fuel + 1 := by
  induction fuel with
  | zero => intro n; simp [encodeAux]
  | succ fuel ih =>
      intro n
      rw [encodeAux]
      split
      · simp
      · rw [List.length_cons]
        exact Nat.succ_le_succ (ih _)

/-- A number that fits in one group takes one byte. -/
theorem length_encodeAux_of_lt (fuel : Nat) {n : Nat} (h : n < 128) :
    (encodeAux fuel n).length = 1 := by
  cases fuel with
  | zero => rfl
  | succ fuel => rw [encodeAux, if_pos h, List.length_singleton]

theorem length_encodeAux_mono (fuel : Nat) :
    ∀ {m n : Nat}, m ≤ n → (encodeAux fuel m).length ≤ (encodeAux fuel n).length := by
  induction fuel with
  | zero => exact fun _ => Nat.le_refl _
  | succ fuel ih =>
      intro m n h
      by_cases hm : m < 128
      · rw [length_encodeAux_of_lt _ hm]
        exact length_encodeAux_pos _ n
      · rw [encodeAux, if_neg hm, encodeAux, if_neg (by omega)]
        exact Nat.succ_le_succ (ih (Nat.div_le_div_right h))

/-- What is read takes at least the bytes of its encoding. -/
theorem length_of_decodeAux (fuel : Nat) :
    ∀ {b : List UInt8} {n : Nat} {rest : List UInt8}, decodeAux fuel b = some (n, rest) →
      (encodeAux fuel n).length + rest.length ≤ b.length := by
  -- a last byte is its own encoding, at every fuel
  have hlast : ∀ (fuel : Nat) (a : UInt8) (b : List UInt8), a.toNat < 128 →
      (encodeAux fuel a.toNat).length + b.length ≤ (a :: b).length := by
    intro fuel a b hlt
    rw [length_encodeAux_of_lt _ hlt, List.length_cons]
    omega
  induction fuel with
  | zero =>
      intro b n rest h
      cases b with
      | nil => cases h
      | cons a b =>
          obtain ⟨hlt, heq⟩ := Option.ite_none_right_eq_some.mp h
          cases heq
          exact hlast 0 a _ hlt
  | succ fuel ih =>
      intro b n rest h
      cases b with
      | nil => cases h
      | cons a b =>
          simp only [decodeAux] at h
          split at h
          next hlt =>
              cases h
              exact hlast _ a _ hlt
          next hge =>
              split at h
              next => cases h
              next v rest' hrec =>
                  obtain ⟨hv, heq⟩ := Option.ite_none_left_eq_some.mp h
                  cases heq
                  have hdiv : (a.toNat - 128 + 128 * v) / 128 = v := by
                    have := a.toNat_lt
                    omega
                  have hle := ih hrec
                  rw [encodeAux, if_neg (by omega), hdiv, List.length_cons, List.length_cons]
                  omega

/-- An encoding that is cut off: every byte announces another one, and there
is none. -/
theorem decodeAux_cut (fuel : Nat) :
    ∀ (n : Nat) (p : List UInt8), p <+: encodeAux fuel n → p ≠ encodeAux fuel n →
      p.length < fuel + 1 ∧ (∀ b ∈ p, 128 ≤ b.toNat) ∧ decodeAux fuel p = none := by
  have hone : ∀ (fuel : Nat) (x : UInt8) (p : List UInt8), p <+: [x] → p ≠ [x] →
      p.length < fuel + 1 ∧ (∀ b ∈ p, 128 ≤ b.toNat) ∧ decodeAux fuel p = none := by
    intro fuel x p hp hne
    cases p with
    | nil => exact ⟨Nat.succ_pos _, List.forall_mem_nil _, by cases fuel <;> rfl⟩
    | cons b p =>
        obtain ⟨rfl, hnil⟩ := List.cons_prefix_cons.mp hp
        exact absurd (congrArg _ (List.prefix_nil.mp hnil)) hne
  induction fuel with
  | zero => exact fun n p => hone 0 _ p
  | succ fuel ih =>
      intro n p hp hne
      rw [encodeAux] at hp hne
      by_cases hlt : n < 128
      · rw [if_pos hlt] at hp hne
        exact hone _ _ p hp hne
      · rw [if_neg hlt] at hp hne
        cases p with
        | nil => exact ⟨Nat.succ_pos _, List.forall_mem_nil _, rfl⟩
        | cons b p =>
            obtain ⟨rfl, hrest⟩ := List.cons_prefix_cons.mp hp
            obtain ⟨hlength, hall, hnone⟩ := ih _ p hrest fun heq => hne (congrArg _ heq)
            have hmod : n % 128 < 128 := Nat.mod_lt _ (by decide)
            have hbyte := toNat_toUInt8_of_lt (show n % 128 + 128 < 256 by omega)
            refine ⟨Nat.succ_lt_succ hlength, ?_, ?_⟩
            · intro b hb
              rcases List.mem_cons.mp hb with rfl | hb
              · omega
              · exact hall b hb
            · rw [decodeAux, if_neg (by omega), hnone]

/-- The encoding of a 64-bit number. -/
def encode (v : UInt64) : List UInt8 := encodeAux 9 v.toNat

/-- Read a 64-bit number. Of the tenth group one bit is left. -/
def decode (b : List UInt8) : Option (UInt64 × List UInt8) :=
  (decodeAux 9 b).map fun r => (r.1.toUInt64, r.2)

theorem decode_encode (v : UInt64) (rest : List UInt8) :
    decode (encode v ++ rest) = some (v, rest) := by
  have hfuel : v.toNat < 128 ^ (9 + 1) := Nat.lt_trans v.toNat_lt (by norm_num)
  unfold decode encode
  rw [decodeAux_encodeAux 9 _ rest hfuel]
  simp

theorem length_of_decode {b rest : List UInt8} {v : UInt64} (h : decode b = some (v, rest)) :
    (encode v).length + rest.length ≤ b.length := by
  obtain ⟨⟨n, rest'⟩, hread, heq⟩ := Option.map_eq_some_iff.mp h
  cases heq
  have hle := length_of_decodeAux 9 hread
  have hmod : n.toUInt64.toNat ≤ n := by
    rw [Nat.toUInt64_eq, UInt64.toNat_ofNat']
    exact Nat.mod_le _ _
  have hmono := length_encodeAux_mono 9 hmod
  show (encodeAux 9 n.toUInt64.toNat).length + rest'.length ≤ b.length
  omega

/-- The encoding of a byte, in one or two bytes. -/
def encodeU8 (v : UInt8) : List UInt8 := encodeAux 1 v.toNat

/-- Read a byte. Of the second group one bit is left. -/
def decodeU8 (b : List UInt8) : Option (UInt8 × List UInt8) :=
  (decodeAux 1 b).map fun r => (r.1.toUInt8, r.2)

theorem decodeU8_encodeU8 (v : UInt8) (rest : List UInt8) :
    decodeU8 (encodeU8 v ++ rest) = some (v, rest) := by
  have hfuel : v.toNat < 128 ^ (1 + 1) := Nat.lt_trans v.toNat_lt (by norm_num)
  unfold decodeU8 encodeU8
  rw [decodeAux_encodeAux 1 _ rest hfuel]
  simp

example : decodeU8 [128, 2] = some (0, []) := by decide

end FrostMpcTss.Lib.Leb128
