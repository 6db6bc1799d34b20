import Mathlib.Algebra.Order.Star.Real
import Mathlib.Analysis.Matrix.Spectrum
import Mathlib.LinearAlgebra.Matrix.PosDef

/-! For a positive definite `C` the form `v ↦ v ⬝ C⁻¹ v` is the precision that observations with
covariance `C` carry about a common mean. -/

namespace PrecisionForm

open Matrix

section
variable {ι : Type*} [Fintype ι] {C : Matrix ι ι ℝ}

theorem quadratic_nonneg (dfn : C.PosSemidef) (x : ι → ℝ) : 0 ≤ x ⬝ᵥ (C *ᵥ x) := by
  simpa using dfn.dotProduct_mulVec_nonneg x

theorem dotProduct_mulVec_comm (symmetric : C.IsHermitian) (x y : ι → ℝ) :
    x ⬝ᵥ (C *ᵥ y) = y ⬝ᵥ (C *ᵥ x) := by
  have transposed : Cᵀ = C := isHermitian_iff_isSymm.mp symmetric
  rw [dotProduct_mulVec, ← mulVec_transpose, transposed, dotProduct_comm]
end

variable {ι : Type*} [Fintype ι] [DecidableEq ι] {C D S : Matrix ι ι ℝ}

noncomputable def precision (C : Matrix ι ι ℝ) (v : ι → ℝ) : ℝ :=
  v ⬝ᵥ (C⁻¹ *ᵥ v)

theorem precision_nonneg (dfn : C.PosDef) (v : ι → ℝ) : 0 ≤ precision C v :=
  quadratic_nonneg dfn.inv.posSemidef v

theorem mulVec_inv_mulVec (dfn : C.PosDef) (v : ι → ℝ) : C *ᵥ (C⁻¹ *ᵥ v) = v := by
  rw [mulVec_mulVec, mul_nonsing_inv C ((isUnit_iff_isUnit_det C).mp dfn.isUnit), one_mulVec]

/-- `v ⬝ C⁻¹ v` is the largest value of `2 (x ⬝ v) - x ⬝ C x`. -/
theorem le_precision (dfn : C.PosDef) (v x : ι → ℝ) :
    x ⬝ᵥ v + x ⬝ᵥ v - x ⬝ᵥ (C *ᵥ x) ≤ precision C v := by
  -- the square of `x - C⁻¹ v` in the form of `C`
  have square := quadratic_nonneg dfn.posSemidef (x - C⁻¹ *ᵥ v)
  have cross : (C⁻¹ *ᵥ v) ⬝ᵥ (C *ᵥ x) = x ⬝ᵥ v := by
    rw [dotProduct_mulVec_comm dfn.isHermitian, mulVec_inv_mulVec dfn]
  have own : (C⁻¹ *ᵥ v) ⬝ᵥ v = precision C v := dotProduct_comm _ _
  rw [mulVec_sub, mulVec_inv_mulVec dfn, dotProduct_sub, sub_dotProduct, sub_dotProduct, cross, own]
    at square
  linarith

theorem precision_add_le (dfn : C.PosDef) (added : D.PosSemidef) (v : ι → ℝ) :
    precision (C + D) v ≤ precision C v := by
  have larger : (C + D).PosDef := dfn.add_posSemidef added
  -- the maximiser for `C + D` is one candidate for `C`
  have cand := le_precision dfn v ((C + D)⁻¹ *ᵥ v)
  have own : ((C + D)⁻¹ *ᵥ v) ⬝ᵥ v = precision (C + D) v := dotProduct_comm _ _
  have whole : ((C + D)⁻¹ *ᵥ v) ⬝ᵥ ((C + D) *ᵥ ((C + D)⁻¹ *ᵥ v)) = precision (C + D) v := by
    rw [mulVec_inv_mulVec larger, own]
  rw [add_mulVec, dotProduct_add] at whole
  have extra := quadratic_nonneg added ((C + D)⁻¹ *ᵥ v)
  rw [own] at cand
  linarith

/-- The matrix with the same eigenvectors and the eigenvalues raised to `floor`. -/
noncomputable def floorEigenvalues (symmetric : S.IsHermitian) (floor : ℝ) : Matrix ι ι ℝ :=
  (symmetric.eigenvectorUnitary : Matrix ι ι ℝ) *
    diagonal (fun i => max (symmetric.eigenvalues i) floor) *
    star (symmetric.eigenvectorUnitary : Matrix ι ι ℝ)

theorem posDef_floorEigenvalues (symmetric : S.IsHermitian) {floor : ℝ} (pos : 0 < floor) :
    (floorEigenvalues symmetric floor).PosDef := by
  have unitary : IsUnit (symmetric.eigenvectorUnitary : Matrix ι ι ℝ) := Unitary.isUnit_coe
  rw [floorEigenvalues, IsUnit.posDef_star_right_conjugate_iff unitary]
  exact PosDef.diagonal fun i => lt_max_of_lt_right pos

end PrecisionForm
