import Zeus.Lib.CheckedFold
import Zeus.Lib.LogGrowth
import Zeus.Lib.Refusal
import Zeus.Solve.FillFragments
import Zeus.Solve.GlobalOrder

/-! The certificate looks at one fill only: the full size at the worst unit cost. Floats and
decimals are taken as real numbers. -/

namespace Zeus.GlobalOrder

open CostCurve FillFragments LogGrowth Refusal

inductive BuyPrefixError where
  | decisionNotCoherent | curveMissing | feeRateOutsideBound | unitCostOutsideDomain
  | attributeMissing
  | wealthBoundInvalid | fullSizeNonPositive
  deriving DecidableEq

structure BuyPrefixCertificate where
  executionCurveIdentity : String
  (feeRate worstFeeShape worstFeePerShare worstUnitCost fullWorstCostUsd : ℝ)
  /-- Set on the posterior-mean basis, unset on the robust one. -/
  expectedBasis : Bool
  (fullDeltaLogWealth fullEvUsd : ℝ)

open Classical in
noncomputable def globalBuyRoundingSafeWorstUnitCost (limit rate : ℝ) :
    Except BuyPrefixError ℝ := do
  guardBy (require ((0 < limit ∧ limit < 1) ∧ 0 ≤ rate ∧ rate ≤ (maxFeeRate : ℝ))
      .unitCostOutsideDomain)
  return safeUnitCost limit rate

open Classical in
/-- `_global_buy_rounding_safe_prefix_metrics`: log growth and expected value of a fill of `shares`
at one unit cost. -/
noncomputable def globalBuyRoundingSafePrefixMetrics (q : ℝ) (lossQ : Option ℝ)
    (shares unitCost lossBaseline winBaseline : ℝ) : Except BuyPrefixError (ℝ × ℝ) := do
  let lossProbability := lossQ.getD (1 - q)
  let cost := unitCost * shares
  let lossAfter := lossBaseline - cost
  let winAfter := winBaseline - cost + shares
  guardBy (require
    ((0 ≤ q ∧ q ≤ 1) ∧
      (0 ≤ lossProbability ∧ lossProbability ≤ 1) ∧
      closeToOne (q + lossProbability) ∧
      0 < shares ∧
      (0 < unitCost ∧ unitCost < 1) ∧
      0 < lossBaseline ∧
      0 < winBaseline ∧
      0 < min lossAfter winAfter)
    .wealthBoundInvalid)
  return (lossProbability * Real.log (lossAfter / lossBaseline) +
      q * Real.log (winAfter / winBaseline),
    (q - unitCost) * shares)

def buyProbabilities (expectedBasis : Bool) : Terminal → Except BuyPrefixError (ℝ × ℝ)
  | .expectedBuy wealth =>
    if expectedBasis then .ok (wealth.winProbability, wealth.lossProbability)
    else .error .attributeMissing
  | .binary wealth =>
    if expectedBasis then .error .attributeMissing
    else .ok (wealth.winProbability, wealth.lossProbability)
  | .expectedSell _ => .error .attributeMissing

open Classical in
noncomputable def coherentBuy (decision : Decision) :
    Except BuyPrefixError (BuyCandidate × Terminal) :=
  match decision.candidate, decision.terminal with
  | some (.buy candidate), some terminal =>
    if 0 < decision.shares ∧ 0 < decision.limitPrice ∧ decision.limitPrice < 1 then
      .ok (candidate, terminal)
    else .error .decisionNotCoherent
  | _, _ => .error .decisionNotCoherent

open Classical in
noncomputable def globalBuyFakPrefixCertificate (decision : Decision)
    (executionCurveIdentity : Option String) : Except BuyPrefixError BuyPrefixCertificate := do
  let (candidate, terminal) ← coherentBuy decision
  let curve ← candidate.executableCostCurve.elim (.error .curveMissing) .ok
  let feeRate := curve.feeModel.feeRate
  let limit := decision.limitPrice
  let shares := decision.shares
  guardBy (require (0 ≤ feeRate ∧ feeRate ≤ (maxFeeRate : ℝ)) .feeRateOutsideBound)
  let unitCost ← globalBuyRoundingSafeWorstUnitCost limit feeRate
  let fullCost := unitCost * shares
  let (winQ, lossQ) ← buyProbabilities decision.expectedBuyBasis terminal
  let lossBaseline := terminal.branches.lossBaseline
  let winBaseline := terminal.branches.winBaseline
  guardBy (require
    (closeToOne (winQ + lossQ) ∧
      0 < min (min lossBaseline winBaseline)
          (min (lossBaseline - fullCost) (winBaseline - fullCost + shares)))
    .wealthBoundInvalid)
  let (deltaLogWealth, ev) ←
    globalBuyRoundingSafePrefixMetrics winQ (some lossQ) shares unitCost lossBaseline winBaseline
  guardBy (require (0 < deltaLogWealth ∧ robustEvEpsUsd < ev) .fullSizeNonPositive)
  return {
    executionCurveIdentity :=
      (executionCurveIdentity.filter (· ≠ "")).getD candidate.executionCurveIdentity
    feeRate := feeRate
    worstFeeShape := limit * (1 - limit)
    worstFeePerShare := unitCost - limit
    worstUnitCost := unitCost
    fullWorstCostUsd := fullCost
    expectedBasis := decision.expectedBuyBasis
    fullDeltaLogWealth := deltaLogWealth
    fullEvUsd := ev }

/-- Expected change of log wealth when `shares` are held at `cost`. -/
noncomputable def expectedLogChange (branches : Branches) (shares cost : ℝ) : ℝ :=
  branches.lossProbability * growth branches.lossBaseline (-cost) +
    branches.winProbability * growth branches.winBaseline (shares - cost)

/-- Expected value of `shares` held at `cost`: each share pays one dollar in the winning branch. -/
def expectedValue (branches : Branches) (shares cost : ℝ) : ℝ :=
  branches.winProbability * (shares - cost) + branches.lossProbability * (0 - cost)

structure CertifiedBuy (branches : Branches) (rate limit shares : ℝ) : Prop where
  rate_nonneg : 0 ≤ rate
  rate_le_max : rate ≤ (maxFeeRate : ℝ)
  limit_lt_one : limit < 1
  win_nonneg : 0 ≤ branches.winProbability
  loss_nonneg : 0 ≤ branches.lossProbability
  shares_pos : 0 < shares
  lossBaseline_pos : 0 < branches.lossBaseline
  winBaseline_pos : 0 < branches.winBaseline
  lossAfter_pos : 0 < branches.lossBaseline - safeUnitCost limit rate * shares
  winAfter_pos : 0 < branches.winBaseline - safeUnitCost limit rate * shares + shares
  growth_pos : 0 < expectedLogChange branches shares (safeUnitCost limit rate * shares)
  cost_lt_win : safeUnitCost limit rate < branches.winProbability

theorem coherentBuy_ok {dec : Decision} {hf : BuyCandidate × Terminal}
    (coh : coherentBuy dec = .ok hf) :
    dec.candidate = some (.buy hf.1) ∧
    dec.terminal = some hf.2 ∧
    0 < dec.shares ∧
    0 < dec.limitPrice ∧
    dec.limitPrice < 1 := by
  unfold coherentBuy at coh
  split at coh
  · next cand hterm isCand isTerm =>
    split_ifs at coh with hin
    cases coh
    exact ⟨isCand, isTerm, hin⟩
  · cases coh

theorem buyProbabilities_ok {expectedBasis : Bool} {hterm : Terminal} {probs : ℝ × ℝ}
    (read : buyProbabilities expectedBasis hterm = .ok probs) :
    probs = (hterm.branches.winProbability, hterm.branches.lossProbability) := by
  cases hterm <;> cases expectedBasis <;> cases read <;> rfl

theorem globalBuyFakPrefixCertificate_ok {dec : Decision} {idn : Option String}
    {cert : BuyPrefixCertificate} (ret : globalBuyFakPrefixCertificate dec idn = .ok cert) :
    ∃ cand hterm curve, dec.candidate = some (.buy cand) ∧
      dec.terminal = some hterm ∧
      cand.executableCostCurve = some curve ∧
      CertifiedBuy hterm.branches curve.feeModel.feeRate dec.limitPrice dec.shares := by
  simp only [globalBuyFakPrefixCertificate, globalBuyRoundingSafeWorstUnitCost,
    globalBuyRoundingSafePrefixMetrics, CheckedFold.bind_eq_ok, guardBy_eq_ok, require_eq_none,
    elim_eq_ok] at ret
  obtain ⟨⟨cand, hterm⟩, coh, curve, isCurve, -, rates, unitCost, ⟨-, limits, isUnit⟩, probs,
    read, -, wealth, ⟨delta, ev⟩, ⟨-, metrics, isMetrics⟩, -, positive, -⟩ := ret
  obtain ⟨isCand, isTerm, sharesPos, limitPos, limitLt⟩ := coherentBuy_ok coh
  cases buyProbabilities_ok read
  cases isUnit
  cases isMetrics
  obtain ⟨baselines, afters⟩ := lt_min_iff.mp wealth.2
  obtain ⟨lossBaseline, winBaseline⟩ := lt_min_iff.mp baselines
  obtain ⟨lossAfter, winAfter⟩ := lt_min_iff.mp afters
  refine ⟨cand, hterm, curve, isCand, isTerm, isCurve, rates.1, rates.2, limitLt,
    metrics.1.1, metrics.2.1.1, sharesPos,
    lossBaseline, winBaseline, lossAfter, winAfter, ?_, ?_⟩
  · have logs := positive.1
    simp only [Option.getD_some] at logs
    unfold expectedLogChange growth
    rw [← sub_eq_add_neg, add_sub_left_comm, add_comm dec.shares]
    exact logs
  · have eps : (0 : ℝ) < robustEvEpsUsd := by norm_num [robustEvEpsUsd]
    have v := (mul_pos_iff_of_pos_right sharesPos).mp (eps.trans positive.2)
    exact sub_pos.mp v

section
variable {branches : Branches} {rate limit shares filled cost : ℝ}

theorem CertifiedBuy.logChange_pos (cert : CertifiedBuy branches rate limit shares)
    (hpos : 0 < filled) (most : filled ≤ shares) (cheap : cost ≤ filled * safeUnitCost limit rate) :
    0 < expectedLogChange branches filled cost := by
  have lossGain : -(safeUnitCost limit rate * shares) = shares * -safeUnitCost limit rate := by ring
  have winGain : shares - safeUnitCost limit rate * shares =
      shares * (1 - safeUnitCost limit rate) := by
    ring
  have lossSurvives := cert.lossAfter_pos
  have winSurvives := cert.winAfter_pos
  have gains := cert.growth_pos
  rw [expectedLogChange, lossGain, winGain] at gains
  exact gamble_pos cert.loss_nonneg cert.win_nonneg cert.lossBaseline_pos cert.winBaseline_pos
    (by linarith) (by linarith) hpos most (by linarith) (by linarith) gains

theorem CertifiedBuy.value_pos (cert : CertifiedBuy branches rate limit shares) (hpos : 0 < filled)
    (cheap : cost ≤ filled * safeUnitCost limit rate)
    (compl : branches.winProbability + branches.lossProbability = 1) :
    0 < expectedValue branches filled cost := by
  have dear : filled * safeUnitCost limit rate < filled * branches.winProbability :=
    mul_lt_mul_of_pos_left cert.cost_lt_win hpos
  calc 0 < filled * branches.winProbability - cost := by linarith
    _ = branches.winProbability * filled -
        (branches.winProbability + branches.lossProbability) * cost := by
        rw [compl]
        ring
    _ = expectedValue branches filled cost := by
        unfold expectedValue
        ring
end

/-- Every non-zero partial fill of a certified BUY grows expected log wealth and has positive
value. -/
theorem every_buy_prefix_beneficial {dec : Decision} {idn : Option String}
    {cert : BuyPrefixCertificate} {cand : BuyCandidate} {curve : ExecutableCostCurve ℝ}
    {hterm : Terminal} (ret : globalBuyFakPrefixCertificate dec idn = .ok cert)
    (isCand : dec.candidate = some (.buy cand)) (isCurve : cand.executableCostCurve = some curve)
    (isTerm : dec.terminal = some hterm)
    (compl : hterm.branches.winProbability + hterm.branches.lossProbability = 1)
    {frags : List (Fragment ℝ)} (below : ∀ frag ∈ frags, frag.price ≤ dec.limitPrice)
    (hpos : 0 < totalSize frags) (most : totalSize frags ≤ dec.shares) :
    0 < expectedLogChange hterm.branches (totalSize frags) (buyCost curve.feeModel.feeRate frags) ∧
    0 < expectedValue hterm.branches (totalSize frags) (buyCost curve.feeModel.feeRate frags) := by
  obtain ⟨sameCandidate, sameTerminal, sameCurve, hf, htf, curveFound, hcert⟩ :=
    globalBuyFakPrefixCertificate_ok ret
  cases isCand.symm.trans hf
  cases isTerm.symm.trans htf
  cases isCurve.symm.trans curveFound
  have cheap := buyCost_le hcert.rate_nonneg hcert.rate_le_max hcert.limit_lt_one.le below
  exact ⟨hcert.logChange_pos hpos most cheap, hcert.value_pos hpos cheap compl⟩

noncomputable def sampleBuyWealth : TerminalWealth where
  winProbability := (3 / 4 : ℚ)
  lossProbability := (1 / 4 : ℚ)
  lossPayoffUsd := (-1 : ℚ)
  winPayoffUsd := (1 : ℚ)
  wealthAfterLossUsd := (9 : ℚ)
  wealthAfterWinUsd := (11 : ℚ)
  win_mem := by constructor <;> norm_num
  loss_mem := by constructor <;> norm_num
  lossPayoff_neg := by norm_num
  winPayoff_pos := by norm_num
  wealthAfterLoss_nonneg := by norm_num
  winBaseline_nonneg := by norm_num

noncomputable def sampleBuy : Decision where
  candidate := some (.buy sampleBuyCandidate)
  terminalWealth := some sampleBuyWealth
  expectedTerminalWealth := none
  shares := (2 : ℚ)
  limitPrice := (1 / 2 : ℚ)

noncomputable def sampleFragments : List (Fragment ℝ) :=
  [⟨(1 / 3 : ℚ), (12 / 25 : ℚ), by norm_num, by norm_num, by norm_num⟩,
    ⟨(5 / 4 : ℚ), (2 / 5 : ℚ), by norm_num, by norm_num, by norm_num⟩]

theorem sampleBuy_growth : 0 < 1 / 4 * Real.log (89 / 100) + 3 / 4 * Real.log (109 / 100) := by
  have whole : Real.log (89 / 100 * (109 / 100) ^ 3) =
      Real.log (89 / 100) + 3 * Real.log (109 / 100) := by
    rw [Real.log_mul (by norm_num) (by norm_num), Real.log_pow]
    norm_num
  have pos : 0 < Real.log (89 / 100 * (109 / 100) ^ 3) := Real.log_pos (by norm_num)
  linarith

theorem sampleBuy_certified : ∃ cert, globalBuyFakPrefixCertificate sampleBuy none = .ok cert := by
  have coh : coherentBuy sampleBuy = .ok (sampleBuyCandidate, .binary sampleBuyWealth) := by
    simp only [coherentBuy, sampleBuy, Decision.terminal]
    norm_num
  have read : buyProbabilities sampleBuy.expectedBuyBasis (.binary sampleBuyWealth) =
      .ok (sampleBuyWealth.winProbability, sampleBuyWealth.lossProbability) := rfl
  have unit : safeUnitCost (1 / 2 : ℝ) (1 / 10) = 11 / 20 := by norm_num [safeUnitCost]
  have growth := sampleBuy_growth
  simp only [globalBuyFakPrefixCertificate, globalBuyRoundingSafeWorstUnitCost,
    globalBuyRoundingSafePrefixMetrics, CheckedFold.bind_eq_ok, guardBy_eq_ok, require_eq_none,
    elim_eq_ok]
  refine ⟨_, _, coh, sampleBuyCurve, rfl, (), ?rates, _, ⟨(), ?limits, rfl⟩, _, read, (), ?wealth,
    _, ⟨(), ?metrics, rfl⟩, (), ?positive, rfl⟩
  case rates => norm_num [sampleBuyCurve, maxFeeRate]
  case limits => norm_num [sampleBuyCurve, sampleBuy, maxFeeRate]
  case wealth =>
    norm_num [sampleBuyCurve, sampleBuy, sampleBuyWealth, Terminal.branches,
      TerminalWealth.branches, unit, closeToOne]
  case metrics =>
    norm_num [sampleBuyCurve, sampleBuy, sampleBuyWealth, Terminal.branches,
      TerminalWealth.branches, unit, closeToOne]
  case positive =>
    norm_num [sampleBuyCurve, sampleBuy, sampleBuyWealth, Terminal.branches,
      TerminalWealth.branches, unit, robustEvEpsUsd, growth]

theorem every_buy_prefix_beneficial_sample :
    0 < expectedLogChange sampleBuyWealth.branches (totalSize sampleFragments)
      (buyCost sampleBuyCurve.feeModel.feeRate sampleFragments) ∧
      0 < expectedValue sampleBuyWealth.branches (totalSize sampleFragments)
      (buyCost sampleBuyCurve.feeModel.feeRate sampleFragments) := by
  obtain ⟨cert, ret⟩ := sampleBuy_certified
  have compl : sampleBuyWealth.branches.winProbability + sampleBuyWealth.branches.lossProbability =
      1 := by
    norm_num [TerminalWealth.branches, sampleBuyWealth]
  have below : ∀ frag ∈ sampleFragments, frag.price ≤ sampleBuy.limitPrice := by
    norm_num [sampleFragments, sampleBuy]
  have hpos : 0 < totalSize sampleFragments := by norm_num [totalSize, sampleFragments]
  have most : totalSize sampleFragments ≤ sampleBuy.shares := by
    norm_num [totalSize, sampleFragments, sampleBuy]
  exact every_buy_prefix_beneficial ret rfl rfl rfl compl below hpos most

end Zeus.GlobalOrder
