import Zeus.Lib.CheckedFold
import Zeus.Lib.LogGrowth
import Zeus.Lib.Refusal
import Zeus.Solve.GlobalOrder
import Zeus.Solve.LowerCvar

/-! A BUY of some size is scored from the win probability's lower tail, with wins measured against
the wealth ceiling and losses against the floor. -/

namespace Zeus.SingleOrder

open CostCurve GlobalOrder LogGrowth LowerCvar Refusal

inductive OrderError where
  | belowExecutableMinimum | exceedsExecutableDepth | curveMissing
  deriving DecidableEq

section
variable {α : Type} [Field α] [LinearOrder α]

def shareEps : ℚ := 1 / 10 ^ 18

def singleOrderShareInfeasibility (curve : ExecutableCostCurve α) (shares : α)
    (executionMode : Option ExecutionMode) (enforceVenueMinimum : Bool) : Option OrderError :=
  if shares ≤ 0 then some .belowExecutableMinimum
  else if enforceVenueMinimum = true ∧
        executionMode ≠ some .takerLimit ∧
        shares < curve.minOrderSize then
    some .belowExecutableMinimum
  else if (curve.levels.map BookLevel.size).sum + (shareEps : α) < shares then
    some .exceedsExecutableDepth
  else none

/-- The loop of `_single_order_cost`, cheapest level first. -/
def walkShares (fee : FeeModel α) : List (BookLevel α) → α → α → Option α
  | [], _, _ => none
  | level :: rest, remaining, cost =>
    let take := min remaining level.size
    let cost := if 0 < take then cost + take * fee.allInPrice level.price else cost
    let remaining := if 0 < take then remaining - take else remaining
    if remaining ≤ (shareEps : α) then some cost else walkShares fee rest remaining cost

/-- `_single_order_cost`: the all-in spend for exactly `shares`. -/
def singleOrderCost (curve : ExecutableCostCurve α) (shares : α)
    (executionMode : Option ExecutionMode) (enforceVenueMinimum : Bool) : Except OrderError α := do
  guardBy (singleOrderShareInfeasibility curve shares executionMode enforceVenueMinimum)
  (walkShares curve.feeModel curve.levels shares 0).elim (.error .exceedsExecutableDepth) .ok
end

/-- A tail mean as a float: the empty sample scores minus infinity. -/
noncomputable def score : WithBot ℝ → EReal := WithBot.recBotCoe ⊥ fun value => (value : EReal)

structure Metrics where
  (robustDu robustEv efficiency : EReal)
  cost : ℝ

noncomputable def loseDu (floor cost : ℝ) : ℝ := Real.log ((floor - cost) / floor)

noncomputable def winDu (ceiling cost shares : ℝ) : ℝ :=
  Real.log ((ceiling - cost + shares) / ceiling)

open Classical in
noncomputable def singleOrderMetrics (candidate : BuyCandidate) (qSamples : List ℝ)
    (shares floor ceiling alpha : ℝ) (robustQ : Option EReal) (enforceVenueMinimum : Bool) :
    Except OrderError Metrics := do
  let curve ← candidate.economicCostCurve.elim (.error .curveMissing) .ok
  let cost ← singleOrderCost curve shares (some candidate.executionMode) enforceVenueMinimum
  if floor - cost ≤ 0 ∨ ceiling - cost + shares ≤ 0 then
    return ⟨⊥, ⊥, ⊥, cost⟩
  else
    let q := robustQ.getD (score (lowerCvar (unitWeights qSamples) alpha))
    let robustDu :=
      (loseDu floor cost : EReal) + q * (winDu ceiling cost shares - loseDu floor cost : ℝ)
    return {
      robustDu := robustDu
      robustEv := q * (shares : EReal) - (cost : EReal)
      efficiency := if 0 < cost then robustDu / (cost : EReal) else ⊥
      cost := cost }

@[simp] theorem score_bot : score ⊥ = ⊥ := rfl

@[simp] theorem score_coe (value : ℝ) : score (value : WithBot ℝ) = value := rfl

theorem score_affine {shift slope : ℝ} (rising : 0 < slope) (tail : WithBot ℝ) :
    score (tail.map fun v => shift + slope * v) =
      (shift : EReal) + score tail * (slope : EReal) := by
  cases tail with
  | bot =>
    rw [WithBot.map_bot, score_bot, EReal.bot_mul_coe_of_pos rising, EReal.add_bot]
  | coe v =>
    rw [WithBot.map_coe, score_coe, score_coe, ← EReal.coe_mul, ← EReal.coe_add, mul_comm slope]

theorem affine_score_le {shift slope probability : ℝ} (rising : 0 < slope) {tail : WithBot ℝ}
    (hr : tail ≤ (probability : WithBot ℝ)) :
    (shift : EReal) + score tail * (slope : EReal) ≤
      ((shift + probability * slope : ℝ) : EReal) := by
  cases tail with
  | bot =>
    rw [score_bot, EReal.bot_mul_coe_of_pos rising, EReal.add_bot]
    exact bot_le
  | coe v =>
    have below : v ≤ probability := WithBot.coe_le_coe.mp hr
    rw [score_coe, ← EReal.coe_mul, ← EReal.coe_add]
    exact EReal.coe_le_coe_iff.mpr (by gcongr)

theorem singleOrderMetrics_robustDu {cand : BuyCandidate} {curve : ExecutableCostCurve ℝ}
    {shares floor ceiling cost : ℝ} {enforce : Bool} (isCurve : cand.economicCostCurve = some curve)
    (costed : singleOrderCost curve shares (some cand.executionMode) enforce = .ok cost)
    (solv : ¬ (floor - cost ≤ 0 ∨ ceiling - cost + shares ≤ 0)) (qSamples : List ℝ) (alpha : ℝ)
    (robustQ : Option EReal) :
    ∃ metrics,
      singleOrderMetrics cand qSamples shares floor ceiling alpha robustQ enforce = .ok metrics ∧
      metrics.robustDu = (loseDu floor cost : EReal) +
          robustQ.getD (score (lowerCvar (unitWeights qSamples) alpha)) *
            (winDu ceiling cost shares - loseDu floor cost : ℝ) := by
  simp only [singleOrderMetrics, CheckedFold.bind_eq_ok, elim_eq_ok]
  exact ⟨_, ⟨curve, isCurve, cost, costed, if_neg solv⟩, rfl⟩

theorem loseDu_eq_growth (floor cost : ℝ) : loseDu floor cost = growth floor (-cost) := by
  rw [loseDu, growth, sub_eq_add_neg]

theorem winDu_eq_growth (ceiling cost shares : ℝ) :
    winDu ceiling cost shares = growth ceiling (shares - cost) := by
  rw [winDu, growth, sub_add_comm, add_comm]

theorem loseDu_lt_winDu {floor ceiling cost shares : ℝ} (costs : 0 < cost) (cheap : cost < shares)
    (afford : cost < floor) (ord : floor ≤ ceiling) :
    loseDu floor cost < winDu ceiling cost shares := by
  have solv : 0 < ceiling := by linarith
  have loses : loseDu floor cost < 0 :=
    Real.log_neg (div_pos (by linarith) (by linarith))
      ((div_lt_one (by linarith)).mpr (by linarith))
  have wins : 0 < winDu ceiling cost shares := Real.log_pos ((one_lt_div solv).mpr (by linarith))
  exact loses.trans wins

section
open MeasureTheory

variable {Ω : Type*} [MeasurableSpace Ω] {μ : Measure Ω} [IsProbabilityMeasure μ]
  {background : Ω → ℝ}
  {win : Set Ω} [DecidablePred (· ∈ win)]

/-- The score of an affordable order is the tail mean of its log growth over the samples, and no
joint law of outcome and wealth between floor and ceiling has a smaller expected log growth. -/
theorem robust_score_below_every_coupling {cand : BuyCandidate} {curve : ExecutableCostCurve ℝ}
    {qSamples : List ℝ} {shares floor ceiling alpha cost : ℝ} {robustQ : Option EReal}
    {enforce : Bool} (isCurve : cand.economicCostCurve = some curve)
    (costed : singleOrderCost curve shares (some cand.executionMode) enforce = .ok cost)
    (costs : 0 < cost) (cheap : cost < min shares floor) (pos : 0 < alpha)
    (given : ∀ q ∈ robustQ, q = score (lowerCvar (unitWeights qSamples) alpha))
    (meas : AEMeasurable background μ) (event : MeasurableSet win)
    (bounds : ∀ᵐ ω ∂μ, floor ≤ background ω ∧ background ω ≤ ceiling)
    (hr : lowerCvar (unitWeights qSamples) alpha ≤ (μ.real win : WithBot ℝ)) :
    ∃ metrics,
      singleOrderMetrics cand qSamples shares floor ceiling alpha robustQ enforce = .ok metrics ∧
      metrics.robustDu ≤ ((∫ ω,
            Real.log ((background ω + payoff win (shares - cost) cost ω) / background ω)
              ∂μ : ℝ) : EReal) ∧
      metrics.robustDu = score (lowerCvar (unitWeights
              (qSamples.map fun q => q * winDu ceiling cost shares + (1 - q) * loseDu floor cost))
            alpha) := by
  obtain ⟨belowShares, belowFloor⟩ := lt_min_iff.mp cheap
  obtain ⟨ω, low, high⟩ := bounds.exists
  have slope := sub_pos.mpr (loseDu_lt_winDu costs belowShares belowFloor (low.trans high))
  have solv : ¬ (floor - cost ≤ 0 ∨ ceiling - cost + shares ≤ 0) := by
    rintro (broke | broke) <;> linarith
  have reduced : robustQ.getD (score (lowerCvar (unitWeights qSamples) alpha)) =
      score (lowerCvar (unitWeights qSamples) alpha) := by
    cases robustQ with
    | none => rfl
    | some q => exact given q rfl
  obtain ⟨metrics, scored, isDu⟩ :=
    singleOrderMetrics_robustDu isCurve costed solv qSamples alpha robustQ
  rw [reduced] at isDu
  refine ⟨metrics, scored, ?_, ?_⟩
  · have expd := mixture_le_integral_growth meas event (sub_nonneg.mpr belowShares.le) costs.le
      belowFloor bounds
    rw [← winDu_eq_growth, ← loseDu_eq_growth] at expd
    rw [isDu]
    apply (affine_score_le slope hr).trans
    apply EReal.coe_le_coe_iff.mpr
    calc loseDu floor cost + μ.real win * (winDu ceiling cost shares - loseDu floor cost)
        = μ.real win * winDu ceiling cost shares + (1 - μ.real win) * loseDu floor cost := by ring
      _ ≤ _ := expd
  · have affine : (fun q => q * winDu ceiling cost shares + (1 - q) * loseDu floor cost) =
        fun q => loseDu floor cost + (winDu ceiling cost shares - loseDu floor cost) * q := by
      funext q
      ring
    rw [isDu, affine, lowerCvar_affine pos slope, score_affine slope]
end

noncomputable def sampleBackground : Bool → ℝ := fun won => if won then (12 : ℚ) else (10 : ℚ)

theorem sampleOrder_cost :
    singleOrderCost sampleBuyCurve 2 (some .takerLimit) true = .ok (21 / 20) := by
  have feasible : singleOrderShareInfeasibility sampleBuyCurve 2 (some .takerLimit) true =
      none := by
    norm_num [singleOrderShareInfeasibility, sampleBuyCurve, shareEps]
  have wkd : walkShares sampleBuyCurve.feeModel sampleBuyCurve.levels 2 0 = some (21 / 20) := by
    norm_num [walkShares, sampleBuyCurve, shareEps, FeeModel.allInPrice, FeeModel.feePerShare]
  simp only [singleOrderCost, CheckedFold.bind_eq_ok, guardBy_eq_ok, elim_eq_ok]
  exact ⟨(), feasible, wkd⟩

theorem robust_score_below_every_coupling_sample :
    ∃ metrics,
      singleOrderMetrics sampleBuyCandidate [1 / 2, 2 / 5] 2 10 12 (1 / 2) none true = .ok metrics ∧
      metrics.robustDu ≤ ((∫ won,
            Real.log ((sampleBackground won + payoff {true} (2 - 21 / 20) (21 / 20) won) /
                sampleBackground won)
              ∂(ProbabilityTheory.uniformOn (Set.univ : Set Bool)) : ℝ) : EReal) ∧
      metrics.robustDu = score (lowerCvar (unitWeights (([1 / 2, 2 / 5] : List ℝ).map fun q =>
                q * winDu 12 (21 / 20) 2 + (1 - q) * loseDu 10 (21 / 20))) (1 / 2)) := by
  have meas : AEMeasurable sampleBackground (ProbabilityTheory.uniformOn (Set.univ : Set Bool)) :=
    (measurable_of_finite sampleBackground).aemeasurable
  have bounds : ∀ won, 10 ≤ sampleBackground won ∧ sampleBackground won ≤ 12 := by
    intro won
    cases won <;> norm_num [sampleBackground]
  have half : (ProbabilityTheory.uniformOn (Set.univ : Set Bool)).real {true} = 1 / 2 := by
    rw [MeasureTheory.measureReal_def, ProbabilityTheory.uniformOn_univ]
    simp
  have hr : lowerCvar (unitWeights [1 / 2, 2 / 5]) (1 / 2) ≤
      ((ProbabilityTheory.uniformOn (Set.univ : Set Bool)).real {true} : WithBot ℝ) := by
    have tail : uniformTail [1 / 2, 2 / 5] (1 / 2 : ℝ) = 2 / 5 := by
      norm_num [uniformTail, boundaryIndex, List.insertionSort, List.orderedInsert]
    rw [half, lowerCvar_unitWeights (List.cons_ne_nil _ _), tail]
    norm_num
  exact robust_score_below_every_coupling rfl sampleOrder_cost (by norm_num) (by norm_num)
    (by norm_num)
    (by simp) meas (measurableSet_singleton true) (Filter.Eventually.of_forall bounds) hr

end Zeus.SingleOrder
