import Mathlib.LinearAlgebra.Matrix.Symmetric
import Mathlib.Algebra.Order.Field.Basic
import Mathlib.Algebra.Order.BigOperators.Ring.Finset
import Mathlib.Tactic.FieldSimp
import Mathlib.Tactic.LinearCombination
import Mathlib.Tactic.Linarith
import Mathlib.Tactic.Positivity

/-!
# The BFGS update

A quasi-Newton method keeps a matrix `H` in the place of the inverse of the second derivative, and
goes in the direction `-H g` for the gradient `g`. That is downhill if `H` is a `Metric`: symmetric
and positive definite. The update for a step `δ` on which the gradient changes by `γ` gives the
matrix that maps `γ` to `δ` (`bfgs_mulVec`), and it keeps the metric if the step has positive
curvature `δ ⬝ᵥ γ` (`Metric.bfgs`).
-/

open Matrix

namespace QuasiNewton

variable {ι K : Type*} [Fintype ι] [Field K]

/-- The update of `H` for a step `δ` and a change `γ` of the gradient. -/
def bfgs (H : Matrix ι ι K) (δ γ : ι → K) : Matrix ι ι K :=
  H + (((1 + γ ⬝ᵥ H *ᵥ γ / (δ ⬝ᵥ γ)) / (δ ⬝ᵥ γ)) • vecMulVec δ δ -
    (δ ⬝ᵥ γ)⁻¹ • (vecMulVec δ (γ ᵥ* H) + vecMulVec (H *ᵥ γ) δ))

variable {H : Matrix ι ι K} {δ γ g : ι → K}

/-- A symmetric matrix may be applied from either side. -/
theorem vecMul_eq_mulVec (hH : H.IsSymm) (v : ι → K) : v ᵥ* H = H *ᵥ v := by
  rw [← mulVec_transpose, hH.eq]

/-- A symmetric matrix may stand on either side. -/
theorem dotProduct_mulVec_comm (hH : H.IsSymm) (v w : ι → K) : v ⬝ᵥ H *ᵥ w = w ⬝ᵥ H *ᵥ v := by
  rw [dotProduct_mulVec, vecMul_eq_mulVec hH, dotProduct_comm]

/-- The update keeps the matrix symmetric. -/
theorem isSymm_bfgs (hH : H.IsSymm) (δ γ : ι → K) : (bfgs H δ γ).IsSymm := by
  have hpair : (vecMulVec δ (γ ᵥ* H) + vecMulVec (H *ᵥ γ) δ).IsSymm := by
    rw [vecMul_eq_mulVec hH, IsSymm, transpose_add, transpose_vecMulVec, transpose_vecMulVec,
      add_comm]
  have hsquare : (vecMulVec δ δ).IsSymm := transpose_vecMulVec δ δ
  exact hH.add ((hsquare.smul _).sub (hpair.smul _))

/-- The image of a vector under the update. -/
theorem bfgs_mulVec_eq (H : Matrix ι ι K) (δ γ v : ι → K) :
    bfgs H δ γ *ᵥ v = H *ᵥ v + (((1 + γ ⬝ᵥ H *ᵥ γ / (δ ⬝ᵥ γ)) / (δ ⬝ᵥ γ) * (δ ⬝ᵥ v)) • δ -
      (δ ⬝ᵥ γ)⁻¹ • ((γ ⬝ᵥ H *ᵥ v) • δ + (δ ⬝ᵥ v) • H *ᵥ γ)) := by
  have hmove : γ ᵥ* H ⬝ᵥ v = γ ⬝ᵥ H *ᵥ v := (dotProduct_mulVec γ H v).symm
  rw [bfgs, add_mulVec, sub_mulVec, smul_mulVec, smul_mulVec, add_mulVec, vecMulVec_mulVec,
    vecMulVec_mulVec, vecMulVec_mulVec, hmove, op_smul_eq_smul, op_smul_eq_smul, op_smul_eq_smul,
    smul_smul]

/-- **The secant equation.** The update maps the change of the gradient to the step. -/
theorem bfgs_mulVec (H : Matrix ι ι K) (hdg : δ ⬝ᵥ γ ≠ 0) : bfgs H δ γ *ᵥ γ = δ := by
  rw [bfgs_mulVec_eq]
  funext i
  simp only [Pi.add_apply, Pi.sub_apply, Pi.smul_apply, smul_eq_mul]
  field_simp
  ring

/-- The quadratic form of the update, as the one of `H` at another vector and a square. -/
theorem dotProduct_bfgs_mulVec (hH : H.IsSymm) (hdg : δ ⬝ᵥ γ ≠ 0) (v : ι → K) :
    v ⬝ᵥ bfgs H δ γ *ᵥ v =
      (v - ((δ ⬝ᵥ v) / (δ ⬝ᵥ γ)) • γ) ⬝ᵥ H *ᵥ (v - ((δ ⬝ᵥ v) / (δ ⬝ᵥ γ)) • γ) +
        (δ ⬝ᵥ v) ^ 2 / (δ ⬝ᵥ γ) := by
  rw [bfgs_mulVec_eq, mulVec_sub, mulVec_smul]
  simp only [dotProduct_add, dotProduct_sub, sub_dotProduct, dotProduct_smul, smul_dotProduct,
    smul_eq_mul]
  rw [dotProduct_mulVec_comm hH v γ, dotProduct_comm v δ]
  field_simp
  ring

variable [LinearOrder K] [IsStrictOrderedRing K]

/-- A matrix that can stand for the inverse of the second derivative at a minimum. -/
structure Metric (H : Matrix ι ι K) : Prop where
  symm : H.IsSymm
  pos : ∀ v, v ≠ 0 → 0 < v ⬝ᵥ H *ᵥ v

/-- A vector that is not zero has a positive square. -/
theorem dotProduct_self_pos {v : ι → K} (hv : v ≠ 0) : 0 < v ⬝ᵥ v := by
  obtain ⟨i, hi⟩ := Function.ne_iff.1 hv
  exact Finset.sum_pos' (fun j _ => mul_self_nonneg (v j)) ⟨i, Finset.mem_univ i, mul_self_pos.2 hi⟩

/-- A positive multiple of the identity. -/
theorem Metric.diagonal [DecidableEq ι] {c : K} (hc : 0 < c) :
    Metric (Matrix.diagonal fun _ : ι => c) where
  symm := isSymm_diagonal _
  pos v hv := by
    have hmul : (Matrix.diagonal fun _ : ι => c) *ᵥ v = c • v := by
      funext i
      rw [mulVec_diagonal, Pi.smul_apply, smul_eq_mul]
    rw [hmul, dotProduct_smul, smul_eq_mul]
    exact mul_pos hc (dotProduct_self_pos hv)

/-- The identity is a metric. -/
theorem Metric.one [DecidableEq ι] : Metric (1 : Matrix ι ι K) := by
  rw [← diagonal_one]
  exact Metric.diagonal one_pos

/-- **The update keeps the metric**, if the gradient grows along the step. -/
theorem Metric.bfgs (hH : Metric H) (hdg : 0 < δ ⬝ᵥ γ) : Metric (bfgs H δ γ) where
  symm := isSymm_bfgs hH.symm δ γ
  pos v hv := by
    rw [dotProduct_bfgs_mulVec hH.symm hdg.ne']
    by_cases hw : v - ((δ ⬝ᵥ v) / (δ ⬝ᵥ γ)) • γ = 0
    · -- then `v` is a multiple of `γ`, and not orthogonal to the step
      have hvγ : v = ((δ ⬝ᵥ v) / (δ ⬝ᵥ γ)) • γ := sub_eq_zero.1 hw
      have hδv : δ ⬝ᵥ v ≠ 0 := by
        intro h0
        rw [h0, zero_div, zero_smul] at hvγ
        exact hv hvγ
      rw [hw, zero_dotProduct, zero_add]
      positivity
    · have hpos := hH.pos _ hw
      have hsq : 0 ≤ (δ ⬝ᵥ v) ^ 2 / (δ ⬝ᵥ γ) := by positivity
      linarith

/-- The direction `-H g` is downhill. -/
theorem Metric.descent (hH : Metric H) (hg : g ≠ 0) : g ⬝ᵥ -(H *ᵥ g) < 0 := by
  rw [dotProduct_neg]
  exact neg_lt_zero.2 (hH.pos g hg)

end QuasiNewton
