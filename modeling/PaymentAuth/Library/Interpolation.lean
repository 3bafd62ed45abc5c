import Mathlib.LinearAlgebra.Lagrange

/-! Polynomials over a field given by their coefficients: the value at zero from the
values at enough nodes, and the constant terms that too few nodes leave open. -/

namespace Library

namespace Interpolation

open Polynomial

variable {F : Type*} [Field F]

/-- The polynomial with the given coefficients, constant term first. -/
noncomputable def ofCoefficients : List F → F[X]
  | [] => 0
  | coefficient :: rest => C coefficient + X * ofCoefficients rest

theorem coeff_ofCoefficients (coefficients : List F) (k : ℕ) :
    (ofCoefficients coefficients).coeff k = coefficients[k]?.getD 0 := by
  induction coefficients generalizing k with
  | nil => simp [ofCoefficients]
  | cons coefficient rest ih =>
    cases k with
    | zero => simp [ofCoefficients]
    | succ k => simp [ofCoefficients, ih]

theorem degree_ofCoefficients_lt (coefficients : List F) :
    (ofCoefficients coefficients).degree < coefficients.length := by
  rw [degree_lt_iff_coeff_zero]
  intro k beyond
  rw [coeff_ofCoefficients, List.getElem?_eq_none beyond, Option.getD_none]

@[simp] theorem eval_ofCoefficients_cons (coefficient : F) (rest : List F) (point : F) :
    (ofCoefficients (coefficient :: rest)).eval point = coefficient + point * (ofCoefficients rest).eval point := by
  simp [ofCoefficients]

/-- Horner's rule, from the highest coefficient down. -/
theorem horner_eq_eval (coefficients : List F) (point : F) :
    coefficients.reverse.foldl (fun value coefficient => value * point + coefficient) 0 =
      (ofCoefficients coefficients).eval point := by
  rw [List.foldl_reverse]
  induction coefficients with
  | nil => simp [ofCoefficients]
  | cons coefficient rest ih =>
    rw [List.foldr_cons, ih, eval_ofCoefficients_cons]
    ring

/-- The value at zero of the basis polynomial of a node. -/
def weight [DecidableEq F] (nodes : Finset F) (node : F) : F :=
  ∏ other ∈ nodes.erase node, other * (other - node)⁻¹

variable [DecidableEq F]

theorem eval_basis_zero (nodes : Finset F) (node : F) :
    (Lagrange.basis nodes id node).eval 0 = weight nodes node := by
  rw [Lagrange.basis, eval_prod, weight]
  refine Finset.prod_congr rfl fun other _ => ?_
  have turned : (node - other)⁻¹ = -(other - node)⁻¹ := by rw [← inv_neg, neg_sub]
  simp only [Lagrange.basisDivisor, id, eval_mul, eval_C, eval_sub, eval_X, turned]
  ring

/-- A polynomial of smaller degree than there are nodes takes at zero the weighted sum
of its values at the nodes. -/
theorem eval_zero_eq_sum {polynomial : F[X]} {nodes : Finset F} (small : polynomial.degree < nodes.card) :
    polynomial.eval 0 = ∑ node ∈ nodes, polynomial.eval node * weight nodes node := by
  have interpolated := Lagrange.eq_interpolate (v := id) Function.injective_id.injOn small
  have value := congrArg (eval 0) interpolated
  rw [value, Lagrange.interpolate_apply, eval_finsetSum]
  refine Finset.sum_congr rfl fun node _ => ?_
  rw [eval_mul, eval_C, eval_basis_zero, id]

/-- The weights over a list of distinct nodes, with the node itself passed over. -/
theorem weight_toFinset {nodes : List F} (distinct : nodes.Nodup) (node : F) :
    weight nodes.toFinset node =
      (nodes.map fun other => if other = node then 1 else other * (other - node)⁻¹).prod := by
  rw [← List.prod_toFinset _ distinct, weight]
  calc ∏ other ∈ nodes.toFinset.erase node, other * (other - node)⁻¹
      = ∏ other ∈ nodes.toFinset.erase node, if other = node then 1 else other * (other - node)⁻¹ :=
        Finset.prod_congr rfl fun other inside => (if_neg (Finset.ne_of_mem_erase inside)).symm
    _ = ∏ other ∈ nodes.toFinset, if other = node then 1 else other * (other - node)⁻¹ :=
        Finset.prod_erase _ (if_pos rfl)

theorem eval_zero_eq_list_sum {polynomial : F[X]} {nodes : List F} (distinct : nodes.Nodup)
    (small : polynomial.degree < nodes.length) :
    polynomial.eval 0 = (nodes.map fun node => polynomial.eval node *
      (nodes.map fun other => if other = node then 1 else other * (other - node)⁻¹).prod).sum := by
  have enough : polynomial.degree < nodes.toFinset.card := by rwa [List.toFinset_card_of_nodup distinct]
  rw [eval_zero_eq_sum enough, List.sum_toFinset _ distinct]
  simp only [weight_toFinset distinct]

section Hiding

variable {n : ℕ}

omit [DecidableEq F]

theorem ofCoefficients_ofFn_add (left right : Fin n → F) :
    ofCoefficients (List.ofFn (left + right)) = ofCoefficients (List.ofFn left) + ofCoefficients (List.ofFn right) := by
  ext k
  rw [coeff_add, coeff_ofCoefficients, coeff_ofCoefficients, coeff_ofCoefficients]
  by_cases below : k < n
  · simp [below]
  · simp [below]

/-- A polynomial is given by its coefficients below any bound of its degree. -/
theorem ofCoefficients_ofFn_coeff {polynomial : F[X]} (small : polynomial.degree < n) :
    ofCoefficients (List.ofFn fun k : Fin n => polynomial.coeff k) = polynomial := by
  ext k
  rw [coeff_ofCoefficients]
  by_cases below : k < n
  · simp [below]
  · have beyond : polynomial.coeff k = 0 := degree_lt_iff_coeff_zero _ _ |>.mp small k (Nat.le_of_not_lt below)
    simp [below, beyond]

/-- At no more nonzero nodes than there are higher coefficients, a polynomial has the
values of a polynomial with any other constant term, and one translation of the higher
coefficients does for all polynomials. -/
theorem exists_translation [DecidableEq F] {nodes : Finset F} (nonzero : 0 ∉ nodes) (few : nodes.card ≤ n)
    (left right : F) :
    ∃ shift : Fin n → F, ∀ higher : Fin n → F, ∀ node ∈ nodes,
      (ofCoefficients (left :: List.ofFn higher)).eval node =
        (ofCoefficients (right :: List.ofFn (higher + shift))).eval node := by
  let correction := Lagrange.interpolate nodes id fun node => (left - right) * node⁻¹
  have small : correction.degree < n :=
    (Lagrange.degree_interpolate_lt _ Function.injective_id.injOn).trans_le (by exact_mod_cast few)
  refine ⟨fun k => correction.coeff k, fun higher node inside => ?_⟩
  have value : correction.eval node = (left - right) * node⁻¹ :=
    Lagrange.eval_interpolate_at_node (v := id) _ Function.injective_id.injOn inside
  have invertible : node ≠ 0 := fun zero => nonzero (zero ▸ inside)
  have cancelled : node * ((left - right) * node⁻¹) = left - right := by
    rw [mul_comm (left - right), mul_inv_cancel_left₀ invertible]
  rw [eval_ofCoefficients_cons, eval_ofCoefficients_cons, ofCoefficients_ofFn_add, ofCoefficients_ofFn_coeff small,
    eval_add, value, mul_add, cancelled]
  ring

end Hiding

end Interpolation

end Library
