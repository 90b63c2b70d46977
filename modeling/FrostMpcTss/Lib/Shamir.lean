import Mathlib

/-!
# `FrostMpcTss.Lib.Shamir`: shared secrets and committed polynomials

A secret in a field is the constant of a polynomial, and a share is the
value of the polynomial at a point. Polynomials are lists of
coefficients, the constant first, so that everything here can be
executed.

* `sum_lagrangeCoefficient`: as many shares as coefficients give the
  secret, weighted with Lagrange's coefficients.
* A polynomial is committed to by multiples of a generator
  (`commit`). Evaluating the commitment gives the multiple of the value
  (`evalCommitment_commit`).
-/

set_option autoImplicit false

namespace FrostMpcTss.Lib

variable {F G : Type} [Field F] [AddCommGroup G] [Module F G]

section Evaluation

/-- The polynomial's value at a point. -/
def evalPoly (coefficients : List F) (x : F) : F :=
  coefficients.foldr (fun a value => a + x * value) 0

/-- The same for coefficients that are committed to. -/
def evalCommitment (commitment : List G) (x : F) : G :=
  commitment.foldr (fun a value => a + x • value) 0

/-- The commitment to a polynomial. -/
def commit (generator : G) (coefficients : List F) : List G :=
  coefficients.map (· • generator)

@[simp] theorem evalCommitment_zero (commitment : List G) :
    evalCommitment commitment (0 : F) = commitment.headD 0 := by
  cases commitment with
  | nil => rfl
  | cons a rest => simp [evalCommitment]

theorem evalCommitment_commit (generator : G) (coefficients : List F) (x : F) :
    evalCommitment (commit generator coefficients) x = evalPoly coefficients x • generator := by
  induction coefficients with
  | nil => simp [commit, evalCommitment, evalPoly]
  | cons a rest ih =>
      have ih : (rest.map (· • generator)).foldr (fun a value => a + x • value) 0
          = evalPoly rest x • generator := ih
      simp only [commit, evalCommitment, evalPoly, List.map_cons, List.foldr_cons] at ih ⊢
      rw [ih, add_smul, mul_smul]

end Evaluation

section Reconstruction

open Polynomial

/-- The polynomial with these coefficients. -/
noncomputable def polynomialOf (coefficients : List F) : F[X] :=
  coefficients.foldr (fun a rest => C a + X * rest) 0

theorem eval_polynomialOf (coefficients : List F) (x : F) :
    (polynomialOf coefficients).eval x = evalPoly coefficients x := by
  induction coefficients with
  | nil => simp [polynomialOf, evalPoly]
  | cons a rest ih =>
      show (C a + X * polynomialOf rest).eval x = a + x * evalPoly rest x
      rw [eval_add, eval_C, eval_mul, eval_X, ih]

theorem degree_polynomialOf_lt (coefficients : List F) :
    (polynomialOf coefficients).degree < coefficients.length := by
  induction coefficients with
  | nil =>
      show (0 : F[X]).degree < ((0 : ℕ) : WithBot ℕ)
      simp
  | cons a rest ih =>
      show (C a + X * polynomialOf rest).degree < ((rest.length + 1 : ℕ) : WithBot ℕ)
      refine lt_of_le_of_lt (degree_add_le _ _) (max_lt ?_ ?_)
      · exact lt_of_le_of_lt degree_C_le (by exact_mod_cast Nat.succ_pos _)
      · rw [mul_comm, degree_mul_X, Nat.cast_add, Nat.cast_one]
        exact WithBot.add_lt_add_right WithBot.one_ne_bot ih

variable [DecidableEq F]

/-- The weight of the share at `x` among the shares at `points`, for the
value at zero. -/
def lagrangeCoefficient (points : List F) (x : F) : F :=
  ((points.filter (· ≠ x)).map fun y => y / (y - x)).prod

/-- The order of the points is of no matter. -/
theorem lagrangeCoefficient_perm {points points' : List F} (h : points.Perm points') (x : F) :
    lagrangeCoefficient points x = lagrangeCoefficient points' x :=
  ((h.filter _).map _).prod_eq

theorem lagrangeCoefficient_eq_eval {points : List F} (hnodup : points.Nodup) (x : F) :
    lagrangeCoefficient points x = (Lagrange.basis points.toFinset id x).eval 0 := by
  have hfinset : points.toFinset.erase x = (points.filter (· ≠ x)).toFinset := by
    ext y
    simp [and_comm]
  rw [Lagrange.basis, eval_prod, hfinset, lagrangeCoefficient,
    List.prod_toFinset _ (hnodup.filter _)]
  refine congrArg List.prod (List.map_congr_left fun y hy => ?_)
  have hne : y ≠ x := by simpa using (List.mem_filter.mp hy).2
  have hsub : y - x ≠ 0 := sub_ne_zero.mpr hne
  have hsub' : x - y ≠ 0 := sub_ne_zero.mpr hne.symm
  simp only [Lagrange.basisDivisor, eval_mul, eval_C, eval_sub, eval_X, id]
  field_simp
  ring

/-- As many shares as the polynomial has coefficients give its value at
zero. -/
theorem sum_lagrangeCoefficient {points coefficients : List F} (hnodup : points.Nodup)
    (hlength : coefficients.length ≤ points.length) :
    (points.map fun x => lagrangeCoefficient points x * evalPoly coefficients x).sum
      = evalPoly coefficients 0 := by
  have hdegree : (polynomialOf coefficients).degree < points.toFinset.card := by
    rw [List.toFinset_card_of_nodup hnodup]
    exact lt_of_lt_of_le (degree_polynomialOf_lt coefficients) (by exact_mod_cast hlength)
  have hinterpolate := Lagrange.eq_interpolate (v := id)
    (Set.injOn_id (points.toFinset : Set F)) hdegree
  have heval := congrArg (Polynomial.eval 0) hinterpolate
  rw [eval_polynomialOf, Lagrange.interpolate_apply, eval_finsetSum,
    List.sum_toFinset _ hnodup] at heval
  rw [heval]
  refine congrArg List.sum (List.map_congr_left fun x _ => ?_)
  rw [eval_mul, eval_C, id, eval_polynomialOf, lagrangeCoefficient_eq_eval hnodup, mul_comm]

end Reconstruction

end FrostMpcTss.Lib
