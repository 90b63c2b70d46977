import Mathlib

/-!
# `FrostMpcTss.Lib.Flatten`: when a concatenation determines its parts

Two lists of parts with the same concatenation are equal if and only
if their parts have the same lengths. Since the total length is fixed,
it is enough that the lengths differ in one position at most.
-/

set_option autoImplicit false

namespace FrostMpcTss.Lib

/-- The positions at which two lists differ. -/
def differences {α : Type} (L L' : List α) : Set Nat := {i | L[i]? ≠ L'[i]?}

theorem differences_tail_subsingleton {α : Type} {x y : α} {L L' : List α}
    (h : (differences (x :: L) (y :: L')).Subsingleton) : (differences L L').Subsingleton := by
  intro i hi j hj
  have hi' : i + 1 ∈ differences (x :: L) (y :: L') := hi
  have hj' : j + 1 ∈ differences (x :: L) (y :: L') := hj
  exact Nat.succ.inj (h hi' hj')

/-- Numbers with one sum that differ in one position at most do not
differ. -/
theorem eq_of_sum_eq {a b : List Nat} (hlen : a.length = b.length) (hsum : a.sum = b.sum)
    (hone : (differences a b).Subsingleton) : a = b := by
  induction a generalizing b with
  | nil => exact (List.length_eq_zero_iff.mp hlen.symm).symm
  | cons x a ih =>
      cases b with
      | nil => cases hlen
      | cons y b =>
          have hlen' : a.length = b.length := Nat.succ.inj hlen
          rw [List.sum_cons, List.sum_cons] at hsum
          by_cases hxy : x = y
          · rw [hxy, ih hlen' (by omega) (differences_tail_subsingleton hone)]
          · -- the heads differ, so the tails are equal, and then the heads are
            have hhead : 0 ∈ differences (x :: a) (y :: b) := by
              show some x ≠ some y
              exact fun h => hxy (Option.some.inj h)
            have htail : a = b := by
              refine List.ext_getElem? fun i => ?_
              by_contra hne
              have hi : i + 1 ∈ differences (x :: a) (y :: b) := hne
              exact absurd (hone hi hhead) (Nat.succ_ne_zero i)
            rw [htail] at hsum
            exact absurd (by omega) hxy

/-- Parts with one concatenation whose lengths differ in one position at
most are the same parts. -/
theorem eq_of_flatten_eq {α : Type} {L L' : List (List α)} (hlen : L.length = L'.length)
    (hflat : L.flatten = L'.flatten)
    (hone : (differences (L.map List.length) (L'.map List.length)).Subsingleton) : L = L' := by
  have hsum : (L.map List.length).sum = (L'.map List.length).sum := by
    rw [← List.length_flatten, ← List.length_flatten, hflat]
  have hlengths : L.map List.length = L'.map List.length :=
    eq_of_sum_eq (by rw [List.length_map, List.length_map, hlen]) hsum hone
  exact List.eq_iff_flatten_eq.mpr ⟨hflat, hlengths⟩

end FrostMpcTss.Lib
