import Mathlib

/-! What a gain does to the logarithm of a wealth: it grows with the gain, is concave, and a larger
wealth feels the same gain or loss less. -/

namespace LogGrowth

/-- Change of the logarithm of `wealth` when `gain` is added to it. -/
noncomputable def growth (wealth gain : ℝ) : ℝ := Real.log ((wealth + gain) / wealth)

variable {wealth gain : ℝ}

section
variable (solvent : 0 < wealth) (survives : 0 < wealth + gain)

include solvent survives

theorem growth_eq_sub : growth wealth gain = Real.log (wealth + gain) - Real.log wealth :=
  Real.log_div survives.ne' solvent.ne'

theorem growth_mono {more : ℝ} (le : gain ≤ more) : growth wealth gain ≤ growth wealth more := by
  unfold growth
  gcongr

theorem survives_fraction {frac : ℝ}
    (nonneg : 0 ≤ frac) (le_one : frac ≤ 1) : 0 < wealth + frac * gain := by
  rcases le_total 0 gain with up | down
  · have grows := mul_nonneg nonneg up
    linarith
  · have shrinks := mul_le_mul_of_nonpos_right le_one down
    linarith

theorem fraction_le_growth {frac : ℝ} (nonneg : 0 ≤ frac) (le_one : frac ≤ 1) :
    frac * growth wealth gain ≤ growth wealth (frac * gain) := by
  have concave :=
    strictConcaveOn_log_Ioi.concaveOn.2 (Set.mem_Ioi.mpr survives) (Set.mem_Ioi.mpr solvent)
    nonneg (sub_nonneg.mpr le_one) (add_sub_cancel frac 1)
  have mixed : frac • (wealth + gain) + (1 - frac) • wealth = wealth + frac * gain := by
    simp only [smul_eq_mul]
    ring
  rw [mixed] at concave
  rw [growth_eq_sub solvent survives,
    growth_eq_sub solvent (survives_fraction solvent survives nonneg le_one)]
  simp only [smul_eq_mul] at concave
  linarith

theorem fraction_growth_le {frac more : ℝ}
    (nonneg : 0 ≤ frac) (le_one : frac ≤ 1) (le : frac * gain ≤ more) :
    frac * growth wealth gain ≤ growth wealth more :=
  calc frac * growth wealth gain ≤ growth wealth (frac * gain) :=
        fraction_le_growth solvent survives nonneg le_one
    _ ≤ growth wealth more :=
        growth_mono solvent (survives_fraction solvent survives nonneg le_one) le
end

theorem part_growth_le {part whole unit more : ℝ} (solvent : 0 < wealth)
    (survives : 0 < wealth + whole * unit) (hpos : 0 < part) (most : part ≤ whole)
    (le : part * unit ≤ more) :
    part / whole * growth wealth (whole * unit) ≤ growth wealth more := by
  have pos := hpos.trans_le most
  apply fraction_growth_le solvent survives (div_pos hpos pos).le ((div_le_one pos).mpr most)
  rwa [← mul_assoc, div_mul_cancel₀ _ pos.ne']

theorem gamble_pos {lossCh winCh lossW winW lossUnit winUnit lossPart winPart part whole : ℝ}
    (lossChance_nonneg : 0 ≤ lossCh) (winChance_nonneg : 0 ≤ winCh) (lossSolvent : 0 < lossW)
    (winSolvent : 0 < winW) (lossSurvives : 0 < lossW + whole * lossUnit)
    (winSurvives : 0 < winW + whole * winUnit) (hpos : 0 < part) (most : part ≤ whole)
    (lossLe : part * lossUnit ≤ lossPart) (winLe : part * winUnit ≤ winPart)
    (gains : 0 < lossCh * growth lossW (whole * lossUnit) + winCh * growth winW (whole * winUnit)) :
    0 < lossCh * growth lossW lossPart + winCh * growth winW winPart := by
  have loses := part_growth_le lossSolvent lossSurvives hpos most lossLe
  have wins := part_growth_le winSolvent winSurvives hpos most winLe
  calc 0 < part / whole * (lossCh * growth lossW (whole * lossUnit) +
          winCh * growth winW (whole * winUnit)) :=
        mul_pos (div_pos hpos (hpos.trans_le most)) gains
    _ = lossCh * (part / whole * growth lossW (whole * lossUnit)) +
          winCh * (part / whole * growth winW (whole * winUnit)) := by
        ring
    _ ≤ lossCh * growth lossW lossPart + winCh * growth winW winPart :=
        add_le_add (mul_le_mul_of_nonneg_left loses lossChance_nonneg)
          (mul_le_mul_of_nonneg_left wins winChance_nonneg)

theorem growth_eq_log_one_add (solvent : 0 < wealth) :
    growth wealth gain = Real.log (1 + gain / wealth) := by
  unfold growth
  rw [add_div, div_self solvent.ne']

theorem growth_anti_wealth {more : ℝ} (solvent : 0 < wealth) (le : wealth ≤ more) (up : 0 ≤ gain) :
    growth more gain ≤ growth wealth gain := by
  rw [growth_eq_log_one_add solvent, growth_eq_log_one_add (solvent.trans_le le)]
  have richer : 0 < more := solvent.trans_le le
  gcongr

theorem growth_mono_wealth {more : ℝ} (survives : 0 < wealth + gain) (le : wealth ≤ more)
    (down : gain ≤ 0) : growth wealth gain ≤ growth more gain := by
  have solvent : 0 < wealth := by linarith
  have richer : 0 < more := solvent.trans_le le
  have ratio : gain / wealth ≤ gain / more := by
    rw [div_le_div_iff₀ solvent richer]
    exact mul_le_mul_of_nonpos_left le down
  have kept : 0 < 1 + gain / wealth := by
    rw [← div_self solvent.ne', ← add_div]
    exact div_pos survives solvent
  rw [growth_eq_log_one_add solvent, growth_eq_log_one_add richer]
  exact Real.log_le_log kept (by linarith)

theorem growth_nonneg (solvent : 0 < wealth) (up : 0 ≤ gain) : 0 ≤ growth wealth gain := by
  rw [growth_eq_log_one_add solvent]
  exact Real.log_nonneg (le_add_of_nonneg_right (div_nonneg up solvent.le))

theorem growth_nonpos (survives : 0 < wealth + gain) (down : gain ≤ 0) :
    growth wealth gain ≤ 0 := by
  have solvent : 0 < wealth := by linarith
  unfold growth
  exact Real.log_nonpos (div_pos survives solvent).le ((div_le_one solvent).mpr (by linarith))

section
open MeasureTheory

variable {Ω : Type*} {background : Ω → ℝ} {win : Set Ω} [DecidablePred (· ∈ win)]
  {floor ceiling prize cost : ℝ}

def payoff (win : Set Ω) [DecidablePred (· ∈ win)] (prize cost : ℝ) : Ω → ℝ :=
  win.piecewise (fun _ => prize) fun _ => -cost

theorem branch_le_growth (nonneg : 0 ≤ prize) (costs : 0 ≤ cost) (afford : cost < floor) {ω : Ω}
    (low : floor ≤ background ω) (high : background ω ≤ ceiling) :
    win.piecewise (fun _ => growth ceiling prize) (fun _ => growth floor (-cost)) ω ≤
      growth (background ω) (payoff win prize cost ω) := by
  have solvent : 0 < background ω := by linarith
  by_cases won : ω ∈ win
  · simp only [payoff, Set.piecewise_eq_of_mem _ _ _ won]
    exact growth_anti_wealth solvent high nonneg
  · simp only [payoff, Set.piecewise_eq_of_notMem _ _ _ won]
    exact growth_mono_wealth (by linarith) low (neg_nonpos.mpr costs)

theorem abs_growth_le (nonneg : 0 ≤ prize) (costs : 0 ≤ cost) (afford : cost < floor) {ω : Ω}
    (low : floor ≤ background ω) :
    |growth (background ω) (payoff win prize cost ω)| ≤
      growth floor prize - growth floor (-cost) := by
  have base : 0 < floor := by linarith
  have solvent : 0 < background ω := by linarith
  have best := growth_nonneg base nonneg
  have worst : growth floor (-cost) ≤ 0 := growth_nonpos (by linarith) (neg_nonpos.mpr costs)
  by_cases won : ω ∈ win
  · simp only [payoff, Set.piecewise_eq_of_mem _ _ _ won]
    rw [abs_of_nonneg (growth_nonneg solvent nonneg)]
    linarith [growth_anti_wealth base low nonneg]
  · simp only [payoff, Set.piecewise_eq_of_notMem _ _ _ won]
    have loses : growth (background ω) (-cost) ≤ 0 :=
      growth_nonpos (by linarith) (neg_nonpos.mpr costs)
    rw [abs_of_nonpos loses]
    linarith [growth_mono_wealth (by linarith : 0 < floor + -cost) low (neg_nonpos.mpr costs)]

variable [MeasurableSpace Ω] {μ : Measure Ω} [IsProbabilityMeasure μ]

section
variable (measurable : AEMeasurable background μ) (event : MeasurableSet win) (nonneg : 0 ≤ prize)
  (costs : 0 ≤ cost) (afford : cost < floor)

include measurable event nonneg costs afford

theorem integrable_growth (low : ∀ᵐ ω ∂μ, floor ≤ background ω) :
    Integrable (fun ω => growth (background ω) (payoff win prize cost ω)) μ := by
  have pays : Measurable (payoff win prize cost) :=
    Measurable.piecewise event measurable_const measurable_const
  have grows : AEMeasurable (fun ω => growth (background ω) (payoff win prize cost ω)) μ :=
    Real.measurable_log.comp_aemeasurable ((measurable.add pays.aemeasurable).div measurable)
  apply Integrable.of_bound grows.aestronglyMeasurable (growth floor prize - growth floor (-cost))
  filter_upwards [low] with ω bound
  exact abs_growth_le nonneg costs afford bound

/-- The expected growth of a gamble under any joint law of outcome and wealth: at least the mixture
of a win at the ceiling and a loss at the floor. -/
theorem mixture_le_integral_growth
    (bounds : ∀ᵐ ω ∂μ, floor ≤ background ω ∧ background ω ≤ ceiling) :
    μ.real win * growth ceiling prize + (1 - μ.real win) * growth floor (-cost) ≤ ∫ ω,
    growth (background ω) (payoff win prize cost ω) ∂μ := by
  have low : ∀ᵐ ω ∂μ, floor ≤ background ω := bounds.mono fun ω bound => bound.1
  have mixture : ∫ ω,
    win.piecewise (fun _ => growth ceiling prize) (fun _ => growth floor (-cost)) ω ∂μ =
      μ.real win * growth ceiling prize + (1 - μ.real win) * growth floor (-cost) := by
    rw [integral_piecewise event (integrable_const _).integrableOn
        (integrable_const _).integrableOn,
      setIntegral_const, setIntegral_const, probReal_compl_eq_one_sub event, smul_eq_mul,
      smul_eq_mul]
  have pieces : Integrable
      (win.piecewise (fun _ => growth ceiling prize) fun _ => growth floor (-cost)) μ :=
    Integrable.piecewise event (integrable_const _).integrableOn (integrable_const _).integrableOn
  rw [← mixture]
  apply integral_mono_ae pieces (integrable_growth measurable event nonneg costs afford low)
  filter_upwards [bounds] with ω bound
  exact branch_le_growth nonneg costs afford bound.1 bound.2
end

end

end LogGrowth
