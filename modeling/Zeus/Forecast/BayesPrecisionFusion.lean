import Mathlib.Tactic
import Zeus.Lib.PrecisionForm

/-! `src/forecast/bayes_precision_fusion.py`, over the reals. -/

namespace Zeus.BayesPrecisionFusion

open Matrix PrecisionForm

def minTrain : ℤ := 25

noncomputable def sigmaFloor : ℝ := ((4 / 5 : ℚ) : ℝ)

noncomputable def lownInflate : ℝ := ((3 / 2 : ℚ) : ℝ)

noncomputable def tau0Floor : ℝ := ((4 / 5 : ℚ) : ℝ)

def commonDatesMin : ℕ := 5

def anchorModel : String := "ecmwf_ifs"

/-- The least variance a returned spread is taken from, `1e-4`. -/
noncomputable def leastVar : ℝ := ((1 / 10 ^ 4 : ℚ) : ℝ)

theorem sigmaFloor_pos : 0 < sigmaFloor := by norm_num [sigmaFloor]

theorem lownInflate_pos : 0 < lownInflate := by norm_num [lownInflate]

theorem leastVar_pos : 0 < leastVar := by norm_num [leastVar]

noncomputable def mean (xs : List ℝ) : ℝ := xs.sum / xs.length

/-- The sample variance with `ddof=1`. -/
noncomputable def variance (xs : List ℝ) : ℝ :=
  (xs.map fun x => (x - mean xs) ^ 2).sum / (xs.length - 1)

variable {p : ℕ}

def column (M : List (Fin p → ℝ)) (j : Fin p) : List ℝ := M.map fun row => row j

/-- `np.cov(resid_mat, rowvar=False, ddof=1)`. -/
noncomputable def sampleCov (M : List (Fin p → ℝ)) : Matrix (Fin p) (Fin p) ℝ := fun i j =>
  (M.map fun row => (row i - mean (column M i)) * (row j - mean (column M j))).sum / (M.length - 1)

/-- `delta`, the Ledoit-Wolf weight of the diagonal target. -/
noncomputable def shrinkIntensity (M : List (Fin p → ℝ)) : ℝ :=
  let S := sampleCov M
  let phi : ℝ := (M.map fun row => ∑ i, ∑ j,
    ((row i - mean (column M i)) * (row j - mean (column M j)) - S i j) ^ 2).sum /
      (M.length * M.length)
  let gamma : ℝ := ∑ i, ∑ j, (S i j - diagonal S.diag i j) ^ 2
  if gamma ≤ ((1 / 10 ^ 12 : ℚ) : ℝ) then 0 else max 0 (min 1 (phi / gamma))

/-- `Sig` before its eigenvalues are repaired: the shrunk covariance with a floor on its
diagonal. -/
noncomputable def shrunk (M : List (Fin p → ℝ)) : Matrix (Fin p) (Fin p) ℝ :=
  let S := sampleCov M
  let Sig := shrinkIntensity M • diagonal S.diag + (1 - shrinkIntensity M) • S
  fun i j => if i = j then max (Sig i j) (sigmaFloor ^ 2) else Sig i j

theorem sampleCov_comm (M : List (Fin p → ℝ)) (i j : Fin p) :
    sampleCov M i j = sampleCov M j i := by
  simp only [sampleCov, mul_comm]

theorem isHermitian_shrunk (M : List (Fin p → ℝ)) : (shrunk M).IsHermitian := by
  refine isHermitian_iff_isSymm.mpr (IsSymm.ext fun i j => ?_)
  by_cases same : i = j
  · rw [same]
  · simp [shrunk, same, Ne.symm same, sampleCov_comm M i j]

noncomputable def shrinkCov (M : List (Fin p → ℝ)) : Matrix (Fin p) (Fin p) ℝ :=
  if M.length < 3 ∨ p = 1 then
    diagonal fun j => max (if 1 < M.length then variance (column M j) else 1) (sigmaFloor ^ 2)
  else floorEigenvalues (isHermitian_shrunk M) (sigmaFloor ^ 2 * ((1 / 4 : ℚ) : ℝ))

noncomputable def diagCov (M : List (Fin p → ℝ)) (lown : Fin p → Bool) : Matrix (Fin p) (Fin p) ℝ :=
  diagonal fun j => let sd :=
  √(max (if 1 < M.length then variance (column M j) else sigmaFloor ^ 2) (sigmaFloor ^ 2))
    (if lown j then sd * lownInflate else sd) ^ 2

theorem posDef_shrinkCov (M : List (Fin p → ℝ)) : (shrinkCov M).PosDef := by
  have floored : 0 < sigmaFloor ^ 2 := pow_pos sigmaFloor_pos 2
  rw [shrinkCov]
  split
  · exact PosDef.diagonal fun j => lt_max_of_lt_right floored
  · exact posDef_floorEigenvalues _ (mul_pos floored (by norm_num))

theorem posDef_diagCov (M : List (Fin p → ℝ)) (lown : Fin p → Bool) : (diagCov M lown).PosDef := by
  refine PosDef.diagonal fun j => pow_pos ?_ 2
  have pos : 0 < √(max (if 1 < M.length then variance (column M j) else sigmaFloor ^ 2)
        (sigmaFloor ^ 2)) :=
    Real.sqrt_pos.mpr (lt_max_of_lt_right (pow_pos sigmaFloor_pos 2))
  split
  · exact mul_pos pos lownInflate_pos
  · exact pos

/-- `V*`, the variance of the posterior before the added variance. -/
noncomputable def posteriorVar (Sigma : Matrix (Fin p) (Fin p) ℝ) (tau0 : ℝ) : ℝ :=
  1 / (1 / tau0 ^ 2 + precision Sigma 1)

/-- The pseudo-inverse that stands in for a singular `Sigma` is left out: every `Sigma` built below
is positive definite. -/
noncomputable def bayesFuse (z : Fin p → ℝ) (Sigma : Matrix (Fin p) (Fin p) ℝ)
    (mu0 tau0 extraVar : ℝ) : ℝ × ℝ :=
  if p = 0 then (mu0, √(tau0 ^ 2 + extraVar))
  else (posteriorVar Sigma tau0 * (mu0 / tau0 ^ 2 + 1 ⬝ᵥ (Sigma⁻¹ *ᵥ z)),
    √(max (posteriorVar Sigma tau0 + extraVar) leastVar))

/-- `var_members` of `equal_weight`. -/
noncomputable def varMembers (sds : Fin p → ℝ) (mu0 tau0 : Option ℝ) : List ℝ :=
  (List.ofFn fun j => sds j ^ 2) ++ mu0.toList.map fun _ => tau0.getD tau0Floor ^ 2

noncomputable def equalWeight (z sds : Fin p → ℝ) (extraVar : ℝ) (mu0 tau0 : Option ℝ) : ℝ × ℝ :=
  let members := List.ofFn z ++ mu0.toList
  if members.length = 0 then (mu0.getD 0, √(extraVar + 1))
  else (members.sum / members.length,
    √(max ((varMembers sds mu0 tau0).sum / (members.length * members.length) + extraVar) leastVar))

section
variable {C D : Matrix (Fin p) (Fin p) ℝ} {tau0 tau0' : ℝ}

theorem posteriorVar_le_prior (dfn : C.PosDef) (pos : 0 < tau0) :
    posteriorVar C tau0 ≤ tau0 ^ 2 := by
  have prior : 0 < 1 / tau0 ^ 2 := one_div_pos.mpr (pow_pos pos 2)
  calc posteriorVar C tau0
      ≤ 1 / (1 / tau0 ^ 2) :=
        one_div_le_one_div_of_le prior (le_add_of_nonneg_right (precision_nonneg dfn 1))
    _ = tau0 ^ 2 := one_div_one_div _

theorem posteriorVar_mono (dfn : C.PosDef) (added : D.PosSemidef) (pos : 0 < tau0)
    (wider : tau0 ≤ tau0') : posteriorVar C tau0 ≤ posteriorVar (C + D) tau0' := by
  have prior : 0 < 1 / tau0' ^ 2 := one_div_pos.mpr (pow_pos (pos.trans_le wider) 2)
  have lessPrior : 1 / tau0' ^ 2 ≤ 1 / tau0 ^ 2 :=
    one_div_le_one_div_of_le (pow_pos pos 2) (pow_le_pow_left₀ pos.le wider 2)
  refine one_div_le_one_div_of_le ?_ (add_le_add lessPrior (precision_add_le dfn added 1))
  exact add_pos_of_pos_of_nonneg prior (precision_nonneg (dfn.add_posSemidef added) 1)

theorem bayesFuse_sd_pos (z : Fin p → ℝ) (mu0 : ℝ) (pos : 0 < tau0) {extraVar : ℝ}
    (extra : 0 ≤ extraVar) : 0 < (bayesFuse z C mu0 tau0 extraVar).2 := by
  rw [bayesFuse]
  split
  · exact Real.sqrt_pos.mpr (add_pos_of_pos_of_nonneg (pow_pos pos 2) extra)
  · exact Real.sqrt_pos.mpr (lt_max_of_lt_right leastVar_pos)

theorem bayesFuse_sd_mono (z : Fin p → ℝ) (mu0 : ℝ) (dfn : C.PosDef) (added : D.PosSemidef)
    (pos : 0 < tau0) (wider : tau0 ≤ tau0') {extraVar extraVar' : ℝ}
    (extra : extraVar ≤ extraVar') :
    (bayesFuse z C mu0 tau0 extraVar).2 ≤ (bayesFuse z (C + D) mu0 tau0' extraVar').2 := by
  rw [bayesFuse, bayesFuse]
  split
  · exact Real.sqrt_le_sqrt (add_le_add (pow_le_pow_left₀ pos.le wider 2) extra)
  · exact Real.sqrt_le_sqrt
      (max_le_max (add_le_add (posteriorVar_mono dfn added pos wider) extra) le_rfl)

theorem bayesFuse_sd_sq_le (z : Fin p → ℝ) (mu0 : ℝ) (instruments : p ≠ 0) (dfn : C.PosDef)
    (pos : 0 < tau0) (extraVar : ℝ) :
    (bayesFuse z C mu0 tau0 extraVar).2 ^ 2 ≤ max (tau0 ^ 2 + extraVar) leastVar := by
  rw [bayesFuse, if_neg instruments, Real.sq_sqrt (le_max_of_le_right leastVar_pos.le)]
  exact max_le_max (add_le_add (posteriorVar_le_prior dfn pos) le_rfl) le_rfl
end

theorem equalWeight_sd_pos (z sds : Fin p → ℝ) (mu0 tau0 : Option ℝ) {extraVar : ℝ}
    (extra : 0 ≤ extraVar) : 0 < (equalWeight z sds extraVar mu0 tau0).2 := by
  rw [equalWeight]
  split
  · exact Real.sqrt_pos.mpr (add_pos_of_nonneg_of_pos extra one_pos)
  · exact Real.sqrt_pos.mpr (lt_max_of_lt_right leastVar_pos)

theorem sum_varMembers_mono {sds sds' : Fin p → ℝ} (nn : ∀ j, 0 ≤ sds j)
    (wider : ∀ j, sds j ≤ sds' j) (mu0 : Option ℝ) {tau0 tau0' : ℝ} (prior : 0 ≤ tau0)
    (widerPrior : tau0 ≤ tau0') :
    (varMembers sds mu0 (mu0.map fun _ => tau0)).sum ≤
      (varMembers sds' mu0 (mu0.map fun _ => tau0')).sum := by
  have members : ∑ j, sds j ^ 2 ≤ ∑ j, sds' j ^ 2 :=
    Finset.sum_le_sum fun j _ => pow_le_pow_left₀ (nn j) (wider j) 2
  cases mu0 with
  | none => simpa [varMembers, List.sum_ofFn] using members
  | some mu0 =>
    simpa [varMembers, List.sum_ofFn] using add_le_add members (pow_le_pow_left₀ prior widerPrior 2)

theorem equalWeight_sd_mono (z : Fin p → ℝ) {sds sds' : Fin p → ℝ} {mu0 tau0 tau0' : Option ℝ}
    (members : (varMembers sds mu0 tau0).sum ≤ (varMembers sds' mu0 tau0').sum)
    {extraVar extraVar' : ℝ} (extra : extraVar ≤ extraVar') :
    (equalWeight z sds extraVar mu0 tau0).2 ≤ (equalWeight z sds' extraVar' mu0 tau0').2 := by
  rw [equalWeight, equalWeight]
  split
  · exact Real.sqrt_le_sqrt (add_le_add extra le_rfl)
  · refine Real.sqrt_le_sqrt (max_le_max (add_le_add ?_ extra) le_rfl)
    exact div_le_div_of_nonneg_right members (mul_self_nonneg _)

structure ModelInstrument where
  model : String
  z : ℝ
  trainResiduals : List ℝ
  nTrain : ℤ
  residualsByDate : List (String × ℝ) := []
  isRegional : Bool := false
  sigmaReprSq : ℝ := 0

inductive FusionMethod
  | t2Bayes | anchorFallback | equalWeight
  deriving DecidableEq

structure FusedPosterior where
  (mu sd : ℝ)
  method : FusionMethod
  usedModels : List String
  anchorModel : Option String
  (likelihoodModels regionalModels : List String)
  sd_pos : 0 < sd

def commonDates (instruments : Fin p → ModelInstrument) : List String :=
  let dates := fun j => (instruments j).residualsByDate.map Prod.fst
  (((List.ofFn dates).flatten.dedup).filter fun date => ∀ j, date ∈ dates j).insertionSort (· ≤ ·)

/-- `_common_window_residual_matrix`: rows by common date, or the stack of residual lists of one
length. -/
def commonWindowResidualMatrix (instruments : Fin p → ModelInstrument) :
    Option (List (Fin p → ℝ)) :=
  if ∀ j, (instruments j).residualsByDate ≠ [] then
    if (commonDates instruments).length < 2 then none
    else some ((commonDates instruments).map fun date j =>
        ((instruments j).residualsByDate.lookup date).getD 0)
  else
    match List.ofFn fun j => (instruments j).trainResiduals.length with
    | [] => none
    | n :: others =>
      if 3 ≤ n ∧ ∀ m ∈ others, m = n then
        some ((List.range n).map fun t j => (instruments j).trainResiduals.getD t 0)
      else none

def lown (instrument : ModelInstrument) : Bool := instrument.nTrain < minTrain

/-- `Sigma` as the residual histories give it. -/
noncomputable def residualCov (useCovariance : Bool) (instruments : Fin p → ModelInstrument) :
    Matrix (Fin p) (Fin p) ℝ :=
  match commonWindowResidualMatrix instruments with
  | some M =>
    if useCovariance ∧ commonDatesMin ≤ M.length then shrinkCov M
    else diagCov M fun j => lown (instruments j)
  | none => diagonal fun _ => (sigmaFloor * lownInflate) ^ 2

/-- `Sigma` with the representativeness variances on its diagonal. -/
noncomputable def likelihoodCov (useCovariance : Bool) (instruments : Fin p → ModelInstrument) :
    Matrix (Fin p) (Fin p) ℝ :=
  if ∃ j, 0 < (instruments j).sigmaReprSq then
    residualCov useCovariance instruments + diagonal fun j => (instruments j).sigmaReprSq
  else residualCov useCovariance instruments

noncomputable def residualSd (instrument : ModelInstrument) : ℝ :=
  let s :=
    if 1 < instrument.trainResiduals.length then √(variance instrument.trainResiduals)
    else sigmaFloor
  if lown instrument then s * lownInflate else s

noncomputable def memberSd (instrument : ModelInstrument) : ℝ :=
  max √(residualSd instrument * residualSd instrument + max 0 instrument.sigmaReprSq) sigmaFloor

noncomputable def thinTau0 (anchorSigmaReprSq : ℝ) : ℝ :=
  √((tau0Floor * lownInflate) ^ 2 + max 0 anchorSigmaReprSq)

noncomputable def tau0Eff (anchorTau0 anchorSigmaReprSq : ℝ) : ℝ :=
  √(max tau0Floor anchorTau0 ^ 2 + max 0 anchorSigmaReprSq)

def models (instruments : Fin p → ModelInstrument) : List String :=
  List.ofFn fun j => (instruments j).model

def regionalModels (instruments : Fin p → ModelInstrument) : List String :=
  ((List.ofFn instruments).filter fun instrument => instrument.isRegional).map fun instrument =>
    instrument.model

/-- The construction of `FusedPosterior` with its `__post_init__` check. -/
noncomputable def posterior (center : ℝ × ℝ) (method : FusionMethod) (usedModels : List String)
    (anchor : Option String) (likelihoodModels regional : List String) :
    Except String FusedPosterior :=
  if positive : 0 < center.2 then
    .ok ⟨center.1, center.2, method, usedModels, anchor, likelihoodModels, regional, positive⟩
  else .error "fused sd must be positive finite"

section
variable (likelihood : Fin p → ModelInstrument) (disagreeVar : ℝ) (useCovariance : Bool)
  (anchorSigmaReprSq : ℝ)

noncomputable def anchoredPosterior (mu0 tau0 : ℝ) : Except String FusedPosterior :=
  let center := bayesFuse (fun j => (likelihood j).z) (likelihoodCov useCovariance likelihood) mu0
    (tau0Eff tau0 anchorSigmaReprSq) disagreeVar
  if p = 0 then posterior center .anchorFallback [anchorModel] (some anchorModel) [] []
  else posterior center .t2Bayes (anchorModel :: models likelihood) (some anchorModel)
    (models likelihood) (regionalModels likelihood)

/-- The branch without one; a thin anchor centre joins as one equal member. -/
noncomputable def equalWeightPosterior (anchorCenter : Option ℝ) : Except String FusedPosterior :=
  let center := equalWeight (fun j => (likelihood j).z) (fun j => memberSd (likelihood j))
    disagreeVar anchorCenter (anchorCenter.map fun _ => thinTau0 anchorSigmaReprSq)
  posterior center .equalWeight
    ((anchorCenter.map fun _ => anchorModel).toList ++ models likelihood)
    (anchorCenter.map fun _ => anchorModel) (models likelihood) (regionalModels likelihood)

/-- `fuse_bayes_precision_posterior`; an anchor value that is not finite is absent. -/
noncomputable def fuseBayesPrecisionPosterior (anchorZ anchorTau0 : Option ℝ) :
    Except String FusedPosterior :=
  if anchorZ = none ∧ p = 0 then
    .error "BAYES_PRECISION_FUSION fusion requires at least an anchor prior or one instrument"
  else match anchorZ, anchorTau0 with
  | some mu0, some tau0 =>
    anchoredPosterior likelihood disagreeVar useCovariance anchorSigmaReprSq mu0 tau0
  | anchorCenter, _ => equalWeightPosterior likelihood disagreeVar anchorSigmaReprSq anchorCenter
end

def withRepr (instruments : Fin p → ModelInstrument) (reprSq : Fin p → ℝ) :
    Fin p → ModelInstrument :=
  fun j => { instruments j with sigmaReprSq := reprSq j }

theorem residualCov_withRepr (useCovariance : Bool) (instruments : Fin p → ModelInstrument)
    (reprSq : Fin p → ℝ) :
    residualCov useCovariance (withRepr instruments reprSq) =
      residualCov useCovariance instruments := rfl

theorem posDef_residualCov (useCovariance : Bool) (instruments : Fin p → ModelInstrument) :
    (residualCov useCovariance instruments).PosDef := by
  rw [residualCov]
  split
  · split
    · exact posDef_shrinkCov _
    · exact posDef_diagCov _ _
  · exact PosDef.diagonal fun _ => pow_pos (mul_pos sigmaFloor_pos lownInflate_pos) 2

variable {instruments : Fin p → ModelInstrument}

theorem likelihoodCov_eq (useCovariance : Bool) (nn : ∀ j, 0 ≤ (instruments j).sigmaReprSq) :
    likelihoodCov useCovariance instruments =
      residualCov useCovariance instruments + diagonal fun j => (instruments j).sigmaReprSq := by
  rw [likelihoodCov]
  split
  case isTrue => rfl
  case isFalse noneAdded =>
    have zero : (fun j => (instruments j).sigmaReprSq) = 0 := by
      funext j
      exact le_antisymm (not_lt.mp fun pos => noneAdded ⟨j, pos⟩) (nn j)
    rw [zero, diagonal_zero', add_zero]

theorem posDef_likelihoodCov (useCovariance : Bool) (nn : ∀ j, 0 ≤ (instruments j).sigmaReprSq) :
    (likelihoodCov useCovariance instruments).PosDef := by
  rw [likelihoodCov_eq useCovariance nn]
  exact (posDef_residualCov useCovariance instruments).add_posSemidef (PosSemidef.diagonal nn)

theorem likelihoodCov_withRepr (useCovariance : Bool) {reprSq : Fin p → ℝ}
    (nn : ∀ j, 0 ≤ (instruments j).sigmaReprSq)
    (wider : ∀ j, (instruments j).sigmaReprSq ≤ reprSq j) :
    likelihoodCov useCovariance (withRepr instruments reprSq) =
      likelihoodCov useCovariance instruments +
        diagonal fun j => reprSq j - (instruments j).sigmaReprSq := by
  have widened : ∀ j, 0 ≤ (withRepr instruments reprSq j).sigmaReprSq :=
    fun j => (nn j).trans (wider j)
  rw [likelihoodCov_eq useCovariance widened, likelihoodCov_eq useCovariance nn,
    residualCov_withRepr, add_assoc, diagonal_add]
  simp [withRepr]

theorem sqrt_add_max_mono {base a a' : ℝ} (wider : a ≤ a') :
    √(base + max 0 a) ≤ √(base + max 0 a') :=
  Real.sqrt_le_sqrt (add_le_add le_rfl (max_le_max le_rfl wider))

theorem tau0Eff_sq {anchorTau0 anchorSigmaReprSq : ℝ} (nn : 0 ≤ anchorSigmaReprSq) :
    tau0Eff anchorTau0 anchorSigmaReprSq ^ 2 =
      max tau0Floor anchorTau0 ^ 2 + anchorSigmaReprSq := by
  rw [tau0Eff, Real.sq_sqrt (add_nonneg (sq_nonneg _) (le_max_left _ _)), max_eq_right nn]

theorem tau0Eff_pos (anchorTau0 anchorSigmaReprSq : ℝ) :
    0 < tau0Eff anchorTau0 anchorSigmaReprSq := by
  have prior : 0 < max tau0Floor anchorTau0 := lt_max_of_lt_left (by norm_num [tau0Floor])
  exact Real.sqrt_pos.mpr (add_pos_of_pos_of_nonneg (pow_pos prior 2) (le_max_left _ _))

/-- Both calls answer from one branch, the second with a spread at least as wide. -/
def Widens (fused widened : Except String FusedPosterior) : Prop :=
  ∃ before after, fused = .ok before ∧
    widened = .ok after ∧
    after.method = before.method ∧
    before.sd ≤ after.sd

theorem posterior_widens {center center' : ℝ × ℝ} (pos : 0 < center.2)
    (wider : center.2 ≤ center'.2) (method : FusionMethod) (used used' : List String)
    (anchor : Option String) (liks likelihoods' regional regional' : List String) :
    Widens (posterior center method used anchor liks regional)
      (posterior center' method used' anchor likelihoods' regional') :=
  ⟨_, _, dif_pos pos, dif_pos (pos.trans_le wider), rfl, wider⟩

theorem posterior_ok {center : ℝ × ℝ} {method : FusionMethod} {used : List String}
    {anchor : Option String} {liks regional : List String} {ans : FusedPosterior}
    (hans : posterior center method used anchor liks regional = .ok ans) :
    ans.sd = center.2 ∧ ans.method = method := by
  rw [posterior] at hans
  split at hans
  · cases hans
    exact ⟨rfl, rfl⟩
  · cases hans

section
variable {likelihood : Fin p → ModelInstrument}
  {disagreeVar disagreeVar' anchorReprSq anchorReprSq' : ℝ}
  {reprSq : Fin p → ℝ}

theorem anchoredPosterior_widens (useCovariance : Bool) (mu0 tau0 : ℝ)
    (nn : ∀ j, 0 ≤ (likelihood j).sigmaReprSq) (wider : ∀ j, (likelihood j).sigmaReprSq ≤ reprSq j)
    (anchor : anchorReprSq ≤ anchorReprSq') (disNn : 0 ≤ disagreeVar)
    (dis : disagreeVar ≤ disagreeVar') :
    Widens (anchoredPosterior likelihood disagreeVar useCovariance anchorReprSq mu0 tau0)
      (anchoredPosterior (withRepr likelihood reprSq) disagreeVar' useCovariance anchorReprSq' mu0
          tau0) := by
  have added : (diagonal fun j => reprSq j - (likelihood j).sigmaReprSq).PosSemidef :=
    PosSemidef.diagonal fun j => sub_nonneg.mpr (wider j)
  have pos := bayesFuse_sd_pos (fun j => (likelihood j).z) mu0 (tau0Eff_pos tau0 anchorReprSq) disNn
    (C := likelihoodCov useCovariance likelihood)
  have spread :=
    bayesFuse_sd_mono (fun j => (likelihood j).z) mu0 (posDef_likelihoodCov useCovariance nn) added
    (tau0Eff_pos tau0 anchorReprSq) (sqrt_add_max_mono anchor) dis
  rw [← likelihoodCov_withRepr useCovariance nn wider] at spread
  unfold anchoredPosterior
  by_cases noInstrument : p = 0
  · simp only [if_pos noInstrument]
    exact posterior_widens pos spread ..
  · simp only [if_neg noInstrument]
    exact posterior_widens pos spread ..

theorem equalWeightPosterior_widens (anchorCenter : Option ℝ)
    (wider : ∀ j, (likelihood j).sigmaReprSq ≤ reprSq j) (anchor : anchorReprSq ≤ anchorReprSq')
    (disNn : 0 ≤ disagreeVar) (dis : disagreeVar ≤ disagreeVar') :
    Widens (equalWeightPosterior likelihood disagreeVar anchorReprSq anchorCenter)
      (equalWeightPosterior (withRepr likelihood reprSq) disagreeVar' anchorReprSq'
          anchorCenter) := by
  apply posterior_widens (equalWeight_sd_pos _ _ _ _ disNn)
  apply equalWeight_sd_mono _ _ dis
  apply sum_varMembers_mono
  · intro j
    exact le_max_of_le_right sigmaFloor_pos.le
  · intro j
    exact max_le_max (sqrt_add_max_mono (wider j)) le_rfl
  · exact Real.sqrt_nonneg _
  · exact sqrt_add_max_mono anchor

theorem fuse_widens (anchorZ anchorTau0 : Option ℝ) (useCovariance : Bool)
    (src : ¬(anchorZ = none ∧ p = 0)) (nn : ∀ j, 0 ≤ (likelihood j).sigmaReprSq)
    (wider : ∀ j, (likelihood j).sigmaReprSq ≤ reprSq j) (anchor : anchorReprSq ≤ anchorReprSq')
    (disNn : 0 ≤ disagreeVar) (dis : disagreeVar ≤ disagreeVar') :
    Widens (fuseBayesPrecisionPosterior likelihood disagreeVar useCovariance anchorReprSq anchorZ
        anchorTau0) (fuseBayesPrecisionPosterior (withRepr likelihood reprSq) disagreeVar'
        useCovariance anchorReprSq' anchorZ anchorTau0) := by
  have weighted := equalWeightPosterior_widens anchorZ wider anchor disNn dis
  unfold fuseBayesPrecisionPosterior
  rw [if_neg src, if_neg src]
  cases anchorZ with
  | none => exact weighted
  | some mu0 =>
    cases anchorTau0 with
    | none => exact weighted
    | some tau0 => exact anchoredPosterior_widens useCovariance mu0 tau0 nn wider anchor disNn dis

theorem t2Bayes_sd_sq_le {anchorZ anchorTau0 : Option ℝ} {useCovariance : Bool}
    {ans : FusedPosterior} (nn : ∀ j, 0 ≤ (likelihood j).sigmaReprSq) (anchor : 0 ≤ anchorReprSq)
    (hans : fuseBayesPrecisionPosterior likelihood disagreeVar useCovariance anchorReprSq anchorZ
        anchorTau0 = .ok ans) (bayes : ans.method = .t2Bayes) :
    ∃ tau0, anchorTau0 = some tau0 ∧
      ans.sd ^ 2 ≤ max (max tau0Floor tau0 ^ 2 + anchorReprSq + disagreeVar) leastVar := by
  unfold fuseBayesPrecisionPosterior at hans
  split at hans
  case isTrue => cases hans
  case isFalse =>
    split at hans
    case h_1 mu0 tau0 _ =>
      unfold anchoredPosterior at hans
      simp only at hans
      split at hans
      case isTrue =>
        obtain ⟨-, fallback⟩ := posterior_ok hans
        rw [bayes] at fallback
        cases fallback
      case isFalse instruments =>
        obtain ⟨spread, -⟩ := posterior_ok hans
        refine ⟨tau0, rfl, ?_⟩
        rw [spread, ← tau0Eff_sq anchor]
        exact bayesFuse_sd_sq_le _ _ instruments (posDef_likelihoodCov useCovariance nn)
          (tau0Eff_pos _ _) _
    case h_2 =>
      obtain ⟨-, weighted⟩ := posterior_ok hans
      rw [bayes] at weighted
      cases weighted

/-- More representativeness variance of an instrument or of the anchor, or more disagreement, never
narrows the spread, and a Bayesian update is never wider than its prior. -/
theorem fusion_only_widens (anchorZ anchorTau0 : Option ℝ) (useCovariance : Bool)
    (nn : ∀ j, 0 ≤ (likelihood j).sigmaReprSq) (wider : ∀ j, (likelihood j).sigmaReprSq ≤ reprSq j)
    (anchorNonneg : 0 ≤ anchorReprSq) (anchor : anchorReprSq ≤ anchorReprSq')
    (disNn : 0 ≤ disagreeVar) (dis : disagreeVar ≤ disagreeVar') :
    let fused : Except String FusedPosterior :=
      fuseBayesPrecisionPosterior likelihood disagreeVar useCovariance anchorReprSq anchorZ
        anchorTau0
    let widened := fuseBayesPrecisionPosterior (withRepr likelihood reprSq) disagreeVar'
      useCovariance anchorReprSq' anchorZ anchorTau0
    (anchorZ = none ∧ p = 0 ∧
        fused = .error
            "BAYES_PRECISION_FUSION fusion requires at least an anchor prior or one instrument" ∧
        widened = .error
            "BAYES_PRECISION_FUSION fusion requires at least an anchor prior or one instrument") ∨
      ∃ before after, fused = .ok before ∧
        widened = .ok after ∧
        after.method = before.method ∧
        before.sd ≤ after.sd ∧
        (before.method = .t2Bayes → ∃ tau0, anchorTau0 = some tau0 ∧
          before.sd ^ 2 ≤ max (max tau0Floor tau0 ^ 2 + anchorReprSq + disagreeVar) leastVar) := by
  intro fused widened
  by_cases src : anchorZ = none ∧ p = 0
  · exact .inl ⟨src.1, src.2, if_pos src, if_pos src⟩
  · obtain ⟨before, after, ans, answered', method, spread⟩ :=
      fuse_widens anchorZ anchorTau0 useCovariance src nn wider anchor disNn dis
    exact .inr ⟨before, after, ans, answered', method, spread, t2Bayes_sd_sq_le nn anchorNonneg ans⟩
end

def samplePair : Fin 2 → ModelInstrument := fun j =>
  { model := if j = 0 then "gfs_global" else "icon_d2"
    z := 1
    trainResiduals := [1, -1, 1, -1, 1, if j = 0 then 0 else 1]
    nTrain := 6 }

theorem samplePair_widens :
    ∃ before after, fuseBayesPrecisionPosterior samplePair 0 true 0 (some 1) (some 1) = .ok before ∧
      fuseBayesPrecisionPosterior (withRepr samplePair fun _ => 1) 1 true 1 (some 1) (some 1) =
        .ok after ∧
      before.sd ≤ after.sd := by
  have nn : ∀ j, 0 ≤ (samplePair j).sigmaReprSq := fun _ => le_rfl
  have wider : ∀ j, (samplePair j).sigmaReprSq ≤ (fun _ => 1 : Fin 2 → ℝ) j := fun _ => zero_le_one
  obtain ⟨noAnchor, -⟩ | ⟨before, after, ans, answered', -, spread, -⟩ :=
    fusion_only_widens (some 1) (some 1) true nn wider le_rfl zero_le_one le_rfl zero_le_one
  · cases noAnchor
  · exact ⟨before, after, ans, answered', spread⟩

end Zeus.BayesPrecisionFusion
