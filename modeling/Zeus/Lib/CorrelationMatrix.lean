import Mathlib.Algebra.Order.Star.Real
import Mathlib.Analysis.Matrix.PosDef
import Mathlib.Tactic

namespace CorrelationMatrix

open Matrix

variable {ι : Type*} {C : Matrix ι ι ℝ}

structure IsCorrelation (C : Matrix ι ι ℝ) : Prop where
  posSemidef : C.PosSemidef
  diag_eq_one : ∀ i, C i i = 1

namespace IsCorrelation

theorem isSymm (corr : IsCorrelation C) : C.IsSymm :=
  isHermitian_iff_isSymm.mp corr.posSemidef.isHermitian

theorem abs_le_one (corr : IsCorrelation C) (i j : ι) : |C i j| ≤ 1 := by
  -- the determinant of the rows and columns of `i` and `j`
  have minor := (corr.posSemidef.submatrix ![i, j]).det_nonneg
  rw [det_fin_two] at minor
  simp only [submatrix_apply, cons_val_zero, cons_val_one, corr.diag_eq_one,
    corr.isSymm.apply i j] at minor
  rw [abs_le_one_iff_mul_self_le_one]
  linarith

theorem one [DecidableEq ι] : IsCorrelation (1 : Matrix ι ι ℝ) :=
  ⟨PosSemidef.one, fun _ => one_apply_eq _⟩

theorem shrink [DecidableEq ι] (corr : IsCorrelation C) {δ : ℝ} (nn : 0 ≤ δ) (le_one : δ ≤ 1) :
    IsCorrelation ((1 - δ) • C + δ • (1 : Matrix ι ι ℝ)) := by
  refine ⟨(corr.posSemidef.smul (sub_nonneg.mpr le_one)).add (PosSemidef.one.smul nn), fun i => ?_⟩
  simp [corr.diag_eq_one]

end IsCorrelation

theorem isCorrelation_of_gram {κ : Type*} [Fintype κ] [Finite ι] [DecidableEq ι] (U : Matrix κ ι ℝ)
    (short : ∀ i, (Uᵀ * U) i i ≤ 1) (ones : ∀ i, C i i = 1)
    (gram : ∀ i j, i ≠ j → C i j = (Uᵀ * U) i j) : IsCorrelation C := by
  have split : C = Uᵀ * U + diagonal fun i => 1 - (Uᵀ * U) i i := by
    ext i j
    by_cases same : i = j
    · subst same
      simp [ones]
    · simp [gram i j same, diagonal_apply_ne _ same]
  refine ⟨?_, ones⟩
  rw [split]
  refine PosSemidef.add ?_ (PosSemidef.diagonal fun i => sub_nonneg.mpr (short i))
  rw [← conjTranspose_eq_transpose_of_trivial]
  exact posSemidef_conjTranspose_mul_self U

end CorrelationMatrix
