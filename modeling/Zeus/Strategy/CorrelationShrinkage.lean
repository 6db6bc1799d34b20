import Zeus.Lib.CorrelationMatrix

/-! `ledoit_wolf_shrunk_correlation` over the reals. The sample correlation of a constant column is
set to zero off the diagonal and to one on it, and the result is shrunk towards the identity. -/

namespace Zeus.CorrelationShrinkage

open Matrix CorrelationMatrix

inductive Target
  | diagonal | identity | constantCorrelation | singleFactor
  deriving DecidableEq

def Target.text : Target → String
  | .diagonal => "diagonal"
  | .identity => "identity"
  | .constantCorrelation => "constant_correlation"
  | .singleFactor => "single_factor"

structure ShrinkageEstimate (p : ℕ) where
  (sampleCorrelation shrunkCorrelation : Matrix (Fin p) (Fin p) ℝ)
  intensity : ℝ
  targetKind : Target
  (nObservations pDimensions : ℕ)

section
variable {n p : ℕ}

noncomputable def demeaned (residuals : Matrix (Fin n) (Fin p) ℝ) : Matrix (Fin n) (Fin p) ℝ :=
  fun t i =>
  residuals t i - (∑ s, residuals s i) / n

/-- `np.cov(x, rowvar=False)`, which takes the means off once more. -/
noncomputable def cov (x : Matrix (Fin n) (Fin p) ℝ) : Matrix (Fin p) (Fin p) ℝ := fun i j =>
  (∑ t, demeaned x t i * demeaned x t j) / (n - 1)

noncomputable def stdDiag (residuals : Matrix (Fin n) (Fin p) ℝ) (i : Fin p) : ℝ :=
  √(cov (demeaned residuals) i i)

/-- `S`: zero beside a constant column, and one on the diagonal. -/
noncomputable def sampleCorrelation (residuals : Matrix (Fin n) (Fin p) ℝ) :
    Matrix (Fin p) (Fin p) ℝ := fun i j =>
  if i = j then 1
  else if 0 < stdDiag residuals i * stdDiag residuals j then
    cov (demeaned residuals) i j / (stdDiag residuals i * stdDiag residuals j)
  else 0

noncomputable def gamma (S : Matrix (Fin p) (Fin p) ℝ) : ℝ :=
  ∑ i, ∑ j, (S i j - diagonal S.diag i j) ^ 2

noncomputable def piHat (S : Matrix (Fin p) (Fin p) ℝ) (n : ℕ) : ℝ :=
  (p * p + ∑ i, ∑ j, S i j ^ 2) / n

noncomputable def deltaStar (S : Matrix (Fin p) (Fin p) ℝ) (n : ℕ) : ℝ :=
  min (max (piHat S n / (gamma S * n)) 0) 1

noncomputable def ledoitWolfShrunkCorrelation (residuals : Matrix (Fin n) (Fin p) ℝ)
    (target : Target) : Except String (ShrinkageEstimate p) :=
  if target ≠ .diagonal then
    .error ("Only target='diagonal' is currently implemented; got '" ++ target.text ++ "'.")
  else if n < 1 ∨ p < 1 then
    .error ("residuals must have at least 1 row and 1 column; got " ++ toString n ++ "×" ++
        toString p ++ ".")
  else if n = 1 then .ok ⟨1, 1, 1, target, n, p⟩
  else
    let S := sampleCorrelation residuals
    if gamma S = 0 then .ok ⟨S, S, 0, target, n, p⟩
    else .ok ⟨S, (1 - deltaStar S n) • S + deltaStar S n • diagonal S.diag, deltaStar S n, target,
      n, p⟩

/-- The columns with norm one, where their variance is not zero. -/
noncomputable def normalised (residuals : Matrix (Fin n) (Fin p) ℝ) : Matrix (Fin n) (Fin p) ℝ :=
  fun t i =>
  demeaned (demeaned residuals) t i / (stdDiag residuals i * √(n - 1))

theorem gram_normalised (hsev : 1 ≤ n) (res : Matrix (Fin n) (Fin p) ℝ) (i j : Fin p) :
    ((normalised res)ᵀ * normalised res) i j =
      cov (demeaned res) i j / (stdDiag res i * stdDiag res j) := by
  have degrees : √((n : ℝ) - 1) * √((n : ℝ) - 1) = n - 1 :=
    Real.mul_self_sqrt (sub_nonneg.mpr (by exact_mod_cast hsev))
  rw [mul_apply, cov, div_div, Finset.sum_div]
  refine Finset.sum_congr rfl fun t _ => ?_
  rw [transpose_apply, normalised, normalised, div_mul_div_comm, mul_mul_mul_comm, degrees,
    mul_comm (_ - 1)]

theorem cov_self_nonneg (hsev : 1 ≤ n) (x : Matrix (Fin n) (Fin p) ℝ) (i : Fin p) : 0 ≤ cov x i i :=
  div_nonneg (Finset.sum_nonneg fun t _ => mul_self_nonneg _)
    (sub_nonneg.mpr (by exact_mod_cast hsev))

theorem isCorrelation_sampleCorrelation (hsev : 1 ≤ n) (res : Matrix (Fin n) (Fin p) ℝ) :
    IsCorrelation (sampleCorrelation res) := by
  apply isCorrelation_of_gram (normalised res)
  · intro i
    rw [gram_normalised hsev, stdDiag, Real.mul_self_sqrt (cov_self_nonneg hsev _ i)]
    exact div_self_le_one _
  · intro i
    exact if_pos rfl
  · intro i j dif
    rw [gram_normalised hsev, sampleCorrelation, if_neg dif]
    split
    · rfl
    next degenerate =>
      -- a product of roots that is not positive is zero, and so is a quotient by it
      have zero : stdDiag res i * stdDiag res j = 0 :=
        le_antisymm (not_lt.mp degenerate) (mul_nonneg (Real.sqrt_nonneg _) (Real.sqrt_nonneg _))
      rw [zero, div_zero]
end

variable {n p : ℕ}

/-- One observation has no variance, and its sample correlation is the identity. -/
theorem sampleCorrelation_one_row (res : Matrix (Fin 1) (Fin p) ℝ) :
    sampleCorrelation res = 1 := by
  funext i j
  by_cases same : i = j
  · subst same
    simp [sampleCorrelation]
  · simp [sampleCorrelation, same, stdDiag, cov]

/-- The estimate reports the sample correlation of the residuals, and its shrunk matrix is a
correlation matrix at most as far from the identity as `S`. -/
structure Sound (S : Matrix (Fin p) (Fin p) ℝ) (estimate : ShrinkageEstimate p) : Prop where
  sample : estimate.sampleCorrelation = S
  correlation : IsCorrelation estimate.shrunkCorrelation
  nonneg : 0 ≤ estimate.intensity
  le_one : estimate.intensity ≤ 1
  shrinks : ∀ i j, i ≠ j → |estimate.shrunkCorrelation i j| ≤ |S i j|

theorem sound_shrunk {S : Matrix (Fin p) (Fin p) ℝ} (corr : IsCorrelation S) {δ : ℝ}
    (nn : 0 ≤ δ) (le_one : δ ≤ 1) (tgt : Target) (n : ℕ) :
    Sound S ⟨S, (1 - δ) • S + δ • diagonal S.diag, δ, tgt, n, p⟩ := by
  have idn : diagonal S.diag = 1 := by
    rw [← diagonal_one]
    congr 1
    funext i
    exact corr.diag_eq_one i
  refine ⟨rfl, ?_, nn, le_one, fun i j dif => ?_⟩
  · rw [idn]
    exact corr.shrink nn le_one
  · calc |((1 - δ) • S + δ • diagonal S.diag) i j|
        = (1 - δ) * |S i j| := by
          simp [diagonal_apply_ne _ dif, abs_mul, abs_of_nonneg (sub_nonneg.mpr le_one)]
      _ ≤ |S i j| := mul_le_of_le_one_left (abs_nonneg _) (by linarith)

theorem exists_sound (rows : 0 < n) (columns : 0 < p) (res : Matrix (Fin n) (Fin p) ℝ) :
    ∃ estimate, ledoitWolfShrunkCorrelation res .diagonal = .ok estimate ∧
      Sound (sampleCorrelation res) estimate := by
  unfold ledoitWolfShrunkCorrelation
  rw [if_neg (by simp), if_neg (by omega)]
  split
  next single =>
    subst single
    rw [sampleCorrelation_one_row]
    exact ⟨_, rfl, rfl, .one, zero_le_one, le_rfl, fun _ _ _ => le_rfl⟩
  next =>
    have corr := isCorrelation_sampleCorrelation rows res
    simp only
    split
    · exact ⟨_, rfl, rfl, corr, le_rfl, zero_le_one, fun _ _ _ => le_rfl⟩
    · exact ⟨_, rfl, sound_shrunk corr (le_min (le_max_right _ _) zero_le_one)
        (min_le_right _ _) _ _⟩

theorem shrunk_is_correlation (rows : 1 ≤ n) (columns : 1 ≤ p) (res : Matrix (Fin n) (Fin p) ℝ) :
    ∃ est, ledoitWolfShrunkCorrelation res .diagonal = .ok est ∧
      est.sampleCorrelation = sampleCorrelation res ∧
      est.shrunkCorrelation.IsSymm ∧
      (∀ i, est.shrunkCorrelation i i = 1) ∧
      (∀ i j, -1 ≤ est.shrunkCorrelation i j ∧ est.shrunkCorrelation i j ≤ 1) ∧
      est.shrunkCorrelation.PosSemidef ∧
      0 ≤ est.intensity ∧
      est.intensity ≤ 1 ∧
      ∀ i j, i ≠ j → |est.shrunkCorrelation i j| ≤ |sampleCorrelation res i j| := by
  obtain ⟨est, ret, sound⟩ := exists_sound rows columns res
  exact ⟨est, ret, sound.sample, sound.correlation.isSymm, sound.correlation.diag_eq_one,
    fun i j => abs_le.mp (sound.correlation.abs_le_one i j), sound.correlation.posSemidef,
    sound.nonneg, sound.le_one, sound.shrinks⟩

/-- Two observations of three series, the last of them constant. -/
def constantColumn : Matrix (Fin 2) (Fin 3) ℝ := ![![0, 0, 1], ![1, -1, 1]]

theorem constantColumn_posSemidef :
    ∃ est, ledoitWolfShrunkCorrelation constantColumn .diagonal = .ok est ∧
      est.shrunkCorrelation.PosSemidef ∧
      est.shrunkCorrelation 2 2 = 1 ∧
      est.shrunkCorrelation 0 2 = 0 := by
  obtain ⟨est, ret, -, -, ones, -, dfn, -, -, shrinks⟩ :=
    shrunk_is_correlation (by decide) (by decide) constantColumn
  have flat : stdDiag constantColumn 2 = 0 := by
    simp [stdDiag, cov, demeaned, constantColumn]
    norm_num
  have constant : sampleCorrelation constantColumn 0 2 = 0 := by
    simp [sampleCorrelation, flat]
  refine ⟨est, ret, dfn, ones 2, abs_eq_zero.mp (le_antisymm ?_ (abs_nonneg _))⟩
  calc |est.shrunkCorrelation 0 2| ≤ |sampleCorrelation constantColumn 0 2| :=
        shrinks 0 2 (by decide)
    _ = 0 := by rw [constant, abs_zero]

end Zeus.CorrelationShrinkage
