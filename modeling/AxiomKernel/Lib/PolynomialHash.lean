import Mathlib

/-!
# Polynomial evaluation hashes

A list of coefficients is hashed by evaluating it at a secret point, Horner
fashion, every coefficient being multiplied at least once.  Two different lists
of nonzero coefficients differ by a given constant at no more points than the
longer one has coefficients.
-/

set_option autoImplicit false

namespace PolynomialHash

open Polynomial

variable {F : Type} [Field F]

def horner (x : F) (coefficients : List F) : F :=
  coefficients.foldl (fun acc c => (acc + c) * x) 0

noncomputable def hornerPoly (coefficients : List F) : F[X] :=
  coefficients.foldl (fun q c => (q + C c) * X) 0

theorem horner_snoc (x : F) (front : List F) (last : F) :
    horner x (front ++ [last]) = (horner x front + last) * x := by
  simp [horner]

theorem hornerPoly_snoc (front : List F) (last : F) :
    hornerPoly (front ++ [last]) = (hornerPoly front + C last) * X := by
  simp [hornerPoly]

theorem eval_hornerPoly (x : F) (coefficients : List F) :
    (hornerPoly coefficients).eval x = horner x coefficients := by
  induction coefficients using List.reverseRecOn with
  | nil => simp [hornerPoly, horner]
  | append_singleton front last inductionHypothesis =>
      rw [hornerPoly_snoc, horner_snoc, eval_mul, eval_add, eval_C, eval_X, inductionHypothesis]

theorem coeff_zero_hornerPoly (coefficients : List F) : (hornerPoly coefficients).coeff 0 = 0 := by
  induction coefficients using List.reverseRecOn with
  | nil => simp [hornerPoly]
  | append_singleton front last _ => rw [hornerPoly_snoc, mul_coeff_zero, coeff_X_zero, mul_zero]

theorem natDegree_hornerPoly_le (coefficients : List F) :
    (hornerPoly coefficients).natDegree ≤ coefficients.length := by
  induction coefficients using List.reverseRecOn with
  | nil => simp [hornerPoly]
  | append_singleton front last inductionHypothesis =>
      rw [hornerPoly_snoc, List.length_append, List.length_singleton]
      calc ((hornerPoly front + C last) * X).natDegree
          ≤ (hornerPoly front + C last).natDegree + X.natDegree := natDegree_mul_le
        _ ≤ front.length + 1 := by
            rw [natDegree_add_C, natDegree_X]
            exact Nat.add_le_add_right inductionHypothesis 1

/-- A nonzero last coefficient is the coefficient of `X`. -/
theorem snoc_inj {front front' : List F} {last last' : F}
    (same : hornerPoly (front ++ [last]) = hornerPoly (front' ++ [last'])) :
    last = last' ∧ hornerPoly front = hornerPoly front' := by
  rw [hornerPoly_snoc, hornerPoly_snoc] at same
  have cancelled := mul_right_cancel₀ X_ne_zero same
  have constants := congrArg (fun q : F[X] => q.coeff 0) cancelled
  simp only [coeff_add, coeff_zero_hornerPoly, coeff_C_zero, zero_add] at constants
  rw [constants] at cancelled
  exact ⟨constants, add_right_cancel cancelled⟩

theorem hornerPoly_snoc_ne_zero (front : List F) {last : F} (nonzero : last ≠ 0) :
    hornerPoly (front ++ [last]) ≠ 0 := by
  intro zero
  rw [hornerPoly_snoc] at zero
  have cancelled := (mul_eq_zero.mp zero).resolve_right X_ne_zero
  have constants := congrArg (fun q : F[X] => q.coeff 0) cancelled
  simp only [coeff_add, coeff_zero_hornerPoly, coeff_C_zero, zero_add, coeff_zero] at constants
  exact nonzero constants

theorem hornerPoly_injective {left right : List F} (leftNonzero : ∀ c ∈ left, c ≠ 0)
    (rightNonzero : ∀ c ∈ right, c ≠ 0) (same : hornerPoly left = hornerPoly right) :
    left = right := by
  induction left using List.reverseRecOn generalizing right with
  | nil =>
      rcases right.eq_nil_or_concat with empty | ⟨front, last, nonempty⟩
      · exact empty.symm
      · rw [List.concat_eq_append] at nonempty
        subst nonempty
        exact absurd same.symm (hornerPoly_snoc_ne_zero front (rightNonzero last (by simp)))
  | append_singleton front last inductionHypothesis =>
      rcases right.eq_nil_or_concat with empty | ⟨front', last', nonempty⟩
      · subst empty
        exact absurd same (hornerPoly_snoc_ne_zero front (leftNonzero last (by simp)))
      · rw [List.concat_eq_append] at nonempty
        subst nonempty
        obtain ⟨lastEq, frontEq⟩ := snoc_inj same
        rw [lastEq, inductionHypothesis (fun c member => leftNonzero c (by simp [member]))
          (fun c member => rightNonzero c (by simp [member])) frontEq]

/-- Different lists of nonzero coefficients differ by a given constant at no
more points than the longer list has coefficients. -/
theorem card_difference_le {left right : List F} (leftNonzero : ∀ c ∈ left, c ≠ 0)
    (rightNonzero : ∀ c ∈ right, c ≠ 0) (distinct : left ≠ right) (difference : F)
    (points : Finset F) (differ : ∀ x ∈ points, horner x left - horner x right = difference) :
    points.card ≤ max left.length right.length := by
  have nonzero : hornerPoly left - hornerPoly right - C difference ≠ 0 := by
    intro zero
    have constants := congrArg (fun q : F[X] => q.coeff 0) zero
    simp only [coeff_sub, coeff_zero_hornerPoly, coeff_C_zero, coeff_zero, sub_zero, zero_sub,
      neg_eq_zero] at constants
    rw [constants, C_0, sub_zero, sub_eq_zero] at zero
    exact distinct (hornerPoly_injective leftNonzero rightNonzero zero)
  have roots : points.val ⊆ (hornerPoly left - hornerPoly right - C difference).roots := by
    intro x member
    rw [mem_roots nonzero, IsRoot, eval_sub, eval_sub, eval_C, eval_hornerPoly, eval_hornerPoly,
      differ x member, sub_self]
  calc points.card
      ≤ (hornerPoly left - hornerPoly right - C difference).natDegree :=
        card_le_degree_of_subset_roots roots
    _ ≤ (hornerPoly left - hornerPoly right).natDegree := natDegree_sub_C.le
    _ ≤ max (hornerPoly left).natDegree (hornerPoly right).natDegree := natDegree_sub_le _ _
    _ ≤ max left.length right.length :=
        max_le_max (natDegree_hornerPoly_le left) (natDegree_hornerPoly_le right)

end PolynomialHash
