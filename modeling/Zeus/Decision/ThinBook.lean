import Zeus.Decision.PayoffVector
import Zeus.Lib.CheckedFold
import Zeus.Lib.LogGrowth

/-! The lower bound of the search is the minimum order at the best price; where the best level is
too thin that money does not buy the minimum order. -/

namespace Zeus.PayoffVector

open CheckedFold CostCurve LogGrowth Quantile Refusal

section
variable {candidate : NativeSideCandidate ℝ} {curve : ExecutableCostCurve ℝ} {stake less cost : ℝ}
  {terms : ℝ × ℝ}

theorem allInCost_eq_ok :
    allInCost curve stake = .ok cost ↔ curve.avgCost stake false = .ok cost := by
  simp only [allInCost, bind_eq_ok, mapError_eq_ok, guardBy_eq_ok, require_eq_none]
  constructor
  · rintro ⟨hf, hdef, -, -, isCost⟩
    cases isCost
    exact hdef
  · intro hdef
    exact ⟨cost, hdef, (), ExecutableCostCurve.avgCost_mem hdef, rfl⟩

theorem payoffTerms_eq_ok :
    payoffTerms candidate stake = .ok terms ↔
      ∃ curve cost, candidate.isTradeable = true ∧
        candidate.executableCostCurve = some curve ∧
        curve.avgCost stake false = .ok cost ∧
        (stake * (1 - cost) / cost, -stake) = terms := by
  simp only [payoffTerms, bind_eq_ok, guardBy_eq_ok, require_eq_none, elim_eq_ok, allInCost_eq_ok,
    Option.filter_eq_some_iff]
  constructor
  · rintro ⟨-, -, curve, ⟨isCurve, trad⟩, cost, hdef, isTerms⟩
    cases isTerms
    exact ⟨curve, cost, trad, isCurve, hdef, rfl⟩
  · rintro ⟨curve, cost, trad, isCurve, hdef, rfl⟩
    have pos := (ExecutableCostCurve.avgCost_eq_ok.mp hdef).1
    exact ⟨(), pos, curve, ⟨isCurve, trad⟩, cost, hdef, rfl⟩
end

section
variable {candidate : NativeSideCandidate ℝ} {terms larger : ℝ × ℝ} {factor : ℝ}

/-- `terms` pay at least the fraction `factor` of what `larger` pay, win or lose. -/
def PaysFraction (factor : ℝ) (terms larger : ℝ × ℝ) : Prop :=
  factor * larger.1 ≤ terms.1 ∧ factor * larger.2 ≤ terms.2

theorem paysFraction_of_le {curve : ExecutableCostCurve ℝ} {less stake cost dear : ℝ}
    (hdef : curve.avgCost less false = .ok cost) (largeDef : curve.avgCost stake false = .ok dear)
    (le : less ≤ stake) :
    PaysFraction (less / stake) (less * (1 - cost) / cost, -less)
      (stake * (1 - dear) / dear, -stake) := by
  have pos := (ExecutableCostCurve.avgCost_eq_ok.mp hdef).1
  have whole := (ExecutableCostCurve.avgCost_eq_ok.mp largeDef).1.ne'
  have costs := (ExecutableCostCurve.avgCost_mem hdef).1
  have cheaper := ExecutableCostCurve.avgCost_mono hdef largeDef le
  have dearerPos := costs.trans_le cheaper
  constructor
  · calc less / stake * (stake * (1 - dear) / dear) = less * ((1 - dear) / dear) := by
          rw [mul_div_assoc, ← mul_assoc, div_mul_cancel₀ _ whole]
      _ ≤ less * ((1 - cost) / cost) := by
          apply mul_le_mul_of_nonneg_left _ pos.le
          rw [div_le_div_iff₀ dearerPos costs]
          linarith
      _ = less * (1 - cost) / cost := (mul_div_assoc _ _ _).symm
  · simp only [mul_neg, div_mul_cancel₀ _ whole, le_refl]

variable {holding : String × Set.Ioi (0 : ℝ)}

theorem settled_pos (nn : 0 ≤ factor) (le_one : factor ≤ 1)
    (pays : PaysFraction factor terms larger) (surv : 0 < settled candidate larger holding) :
    0 < settled candidate terms holding := by
  have solv : 0 < (holding.2 : ℝ) := holding.2.2
  have part := survives_fraction solv surv nn le_one
  unfold settled
  split_ifs at part ⊢
  · linarith [pays.1]
  · linarith [pays.2]

theorem outcomeGrowth_of_pos (surv : 0 < settled candidate terms holding) :
    outcomeGrowth candidate terms holding =
      growth holding.2 (if candidateWins candidate holding.1 then terms.1 else terms.2) := by
  rw [outcomeGrowth, if_neg surv.not_ge, growth_eq_sub holding.2.2 surv]
  rfl

theorem factor_outcomeGrowth_le (nn : 0 ≤ factor) (le_one : factor ≤ 1)
    (pays : PaysFraction factor terms larger) (surv : 0 < settled candidate larger holding) :
    factor * outcomeGrowth candidate larger holding ≤ outcomeGrowth candidate terms holding := by
  rw [outcomeGrowth_of_pos surv, outcomeGrowth_of_pos (settled_pos nn le_one pays surv)]
  apply fraction_growth_le holding.2.2 surv nn le_one
  split_ifs
  · exact pays.1
  · exact pays.2

theorem scale_drawGrowth_le {prepared : PreparedSizing ℝ} (nn : 0 ≤ factor) (le_one : factor ≤ 1)
    (pays : PaysFraction factor terms larger) (law : Law ℝ) :
    scale factor (prepared.drawGrowth larger law) ≤ prepared.drawGrowth terms law := by
  unfold PreparedSizing.drawGrowth
  by_cases ruined : ∃ holding ∈ prepared.holdings,
      settled prepared.candidate larger holding ≤ 0 ∧ 0 < law.mass holding.1
  · rw [if_pos ruined]
    exact bot_le
  · have surv : ∀ holding ∈ prepared.holdings, 0 < law.mass holding.1 →
        0 < settled prepared.candidate larger holding := by
      intro holding mem possible
      by_contra gone
      exact ruined ⟨holding, mem, not_lt.mp gone, possible⟩
    -- The smaller stake cannot ruin what the larger one does not.
    have solv : ¬ ∃ holding ∈ prepared.holdings,
        settled prepared.candidate terms holding ≤ 0 ∧ 0 < law.mass holding.1 := by
      rintro ⟨holding, mem, broke, possible⟩
      exact broke.not_gt (settled_pos nn le_one pays (surv holding mem possible))
    rw [if_neg ruined, if_neg solv]
    apply WithBot.coe_le_coe.mpr
    change factor * _ ≤ _
    rw [← List.sum_map_mul_left]
    apply List.sum_le_sum
    intro holding mem
    rcases (law.nonneg holding.1).eq_or_lt with impossible | possible
    · rw [← impossible, zero_mul, zero_mul, mul_zero]
    · have keeps := mul_le_mul_of_nonneg_left
        (factor_outcomeGrowth_le nn le_one pays (surv holding mem possible)) possible.le
      linarith
end

variable {prepared : PreparedSizing ℝ}

theorem exists_payoffTerms {stake : ℝ} (gains : 0 < prepared.robustAt stake) :
    ∃ terms, payoffTerms prepared.candidate stake = .ok terms ∧
      0 < quantile (prepared.laws.map (prepared.drawGrowth terms)) prepared.alpha := by
  unfold PreparedSizing.robustAt at gains
  cases priced : payoffTerms prepared.candidate stake with
  | error _ =>
    rw [priced] at gains
    exact absurd gains not_lt_bot
  | ok terms =>
    rw [priced] at gains
    exact ⟨terms, rfl, gains⟩

theorem robustAt_pos_of_le {less stake : ℝ} {terms : ℝ × ℝ}
    (priced : payoffTerms prepared.candidate less = .ok terms) (le : less ≤ stake)
    (gains : 0 < prepared.robustAt stake) : 0 < prepared.robustAt less := by
  obtain ⟨larger, largerPriced, growth⟩ := exists_payoffTerms gains
  obtain ⟨curve, cost, -, isCurve, hdef, rfl⟩ := payoffTerms_eq_ok.mp priced
  obtain ⟨same, dear, -, isSame, largeDef, rfl⟩ := payoffTerms_eq_ok.mp largerPriced
  cases isCurve.symm.trans isSame
  have pos := (ExecutableCostCurve.avgCost_eq_ok.mp hdef).1
  have whole := (ExecutableCostCurve.avgCost_eq_ok.mp largeDef).1
  have share := div_pos pos whole
  have le_one := (div_le_one whole).mpr le
  have pays := paysFraction_of_le hdef largeDef le
  have drawwise : ∀ law ∈ prepared.laws,
        scale (less / stake) (prepared.drawGrowth _ law) ≤ prepared.drawGrowth _ law :=
    fun law _ => scale_drawGrowth_le share.le le_one pays law
  simp only [PreparedSizing.robustAt, priced]
  apply quantile_pos_of_scale_le prepared.alpha.2.1.le share _ growth
  exact List.forall₂_map_left_iff.mpr
    (List.forall₂_map_right_iff.mpr (List.forall₂_same.mpr drawwise))

section
variable {candidate : NativeSideCandidate ℝ} {curve : ExecutableCostCurve ℝ}
  {maxStakeUsd : Option ℝ} {lo hi : ℝ}

noncomputable def minimumStake (curve : ExecutableCostCurve ℝ) : ℝ :=
  curve.feeModel.allInPrice (curve.levels.head curve.levels_ne_nil).price * curve.minOrderSize

/-- The money of the minimum order at the best price walks to the minimum order. -/
def MinimumFillable (curve : ExecutableCostCurve ℝ) : Prop :=
  let walked := curve.feeModel.walkLevels curve.levels ⟨minimumStake curve, 0, 0, 0⟩
  walked.sharesFilled ≠ 0 ∧ curve.minOrderSize - (depthEps : ℝ) ≤ walked.sharesFilled

theorem minimumFillable_iff :
    MinimumFillable curve ↔
      (curve.feeModel.fill curve.levels (minimumStake curve)).1 ≠ 0 ∧
      curve.minOrderSize - (depthEps : ℝ) ≤
        (curve.feeModel.fill curve.levels (minimumStake curve)).1 := by
  obtain ⟨-, shares, -⟩ := curve.feeModel.walkLevels_eq curve.levels ⟨minimumStake curve, 0, 0, 0⟩
  rw [zero_add] at shares
  simp only [MinimumFillable, shares]

section
variable (isCurve : candidate.executableCostCurve = some curve)
  (bounds : feasibleStakeBounds candidate maxStakeUsd = some (lo, hi))

include isCurve bounds

theorem feasibleStakeBounds_eq_some :
    lo = minimumStake curve ∧
    0 < lo ∧
    lo ≤ hi ∧
    hi ≤ (curve.levels.map fun level =>
        curve.feeModel.allInPrice level.price * level.size).sum := by
  simp only [feasibleStakeBounds, isCurve] at bounds
  split_ifs at bounds with refused
  simp only [not_or, not_le, not_lt] at refused
  cases bounds
  refine ⟨rfl, refused.1, refused.2.2, ?_⟩
  cases maxStakeUsd with
  | none => exact le_rfl
  | some cap => exact min_le_left _ _

theorem avgCost_minimum_iff :
    (∃ cost, curve.avgCost lo false = .ok cost) ↔ MinimumFillable curve := by
  obtain ⟨rfl, pos, below, depth⟩ := feasibleStakeBounds_eq_some isCurve bounds
  rw [minimumFillable_iff]
  constructor
  · rintro ⟨cost, hdef⟩
    obtain ⟨-, -, enough, hpos, -⟩ := ExecutableCostCurve.avgCost_eq_ok.mp hdef
    exact ⟨hpos, enough⟩
  · rintro ⟨hpos, enough⟩
    have spent := curve.feeModel.sub_fill_le (below.trans depth)
    exact ⟨_, ExecutableCostCurve.avgCost_eq_ok.mpr ⟨pos, spent, enough, hpos, rfl⟩⟩
end

theorem minimumFillable_of_deep (left : (depthEps : ℝ) < minimumStake curve)
    (deep : curve.minOrderSize ≤ (curve.levels.head curve.levels_ne_nil).size) :
    MinimumFillable curve := by
  have least := curve.minOrderSize_pos
  have tol := depthEps_pos
  have price := curve.feeModel.allInPrice_pos (curve.levels.head curve.levels_ne_nil)
  have hle := mul_le_mul_of_nonneg_left deep price.le
  rw [minimumFillable_iff]
  have whole :=
    curve.feeModel.fill_cons (curve.levels.head curve.levels_ne_nil) curve.levels.tail left
  rw [List.cons_head_tail] at whole
  rcases whole with ⟨-, bought⟩ | ⟨deeper, -⟩
  · have shares : (curve.feeModel.fill curve.levels (minimumStake curve)).1 =
        curve.minOrderSize := by
      rw [bought]
      exact mul_div_cancel_left₀ _ price.ne'
    rw [shares]
    exact ⟨least.ne', by linarith⟩
  · unfold minimumStake at deeper
    linarith
end

section
variable {robust : ℝ → WithBot ℝ}

/-- A property of the best stake so far that every better stake has too. -/
def Improving (robust : ℝ → WithBot ℝ) (P : Best ℝ → Prop) : Prop :=
  ∀ best stake, P best → best.utility < robust stake → P ⟨robust stake, stake⟩

section
variable {P : Best ℝ → Prop} {best : Best ℝ} (step : Improving robust P)

include step

theorem Improving.recordBest (start : P best) (stakes : List ℝ) :
    P (recordBest robust best stakes) := by
  unfold PayoffVector.recordBest
  induction stakes generalizing best with
  | nil => exact start
  | cons stake rest ih =>
    rw [List.foldl_cons]
    split_ifs with better
    · exact ih (step best stake start better)
    · exact ih start

theorem Improving.refineSpans (start : P best) (spans : List (ℝ × ℝ)) :
    P (refineSpans robust spans best).1 := by
  unfold PayoffVector.refineSpans
  generalize sortedSpans spans = sorted
  generalize ([] : List (ℝ × ℝ)) = hf
  induction sorted generalizing best hf with
  | nil => exact start
  | cons span rest ih =>
    rw [List.foldl_cons]
    split_ifs
    · exact ih start hf
    · exact ih (step.recordBest start _) _

theorem Improving.refine (start : P best) (passes : ℕ) (spans : List (ℝ × ℝ)) :
    P (refine robust passes spans best) := by
  induction passes generalizing spans best with
  | zero => exact start
  | succ passes ih =>
    have pass := step.refineSpans start spans
    simp only [PayoffVector.refine]
    split_ifs
    · exact pass
    · exact ih pass _
end

theorem searchStakes_attained (robust : ℝ → WithBot ℝ) (curve : ExecutableCostCurve ℝ) (lo hi : ℝ) :
    (searchStakes robust curve lo hi).utility = ⊥ ∨
    (searchStakes robust curve lo hi).utility = robust (searchStakes robust curve lo hi).stake := by
  have attained : Improving robust fun best => best.utility = ⊥ ∨
      best.utility = robust best.stake := by
    intro best stake _ _
    exact Or.inr rfl
  exact attained.refine (attained.recordBest (Or.inl rfl) _) _ _

theorem improving_above (v : WithBot ℝ) : Improving robust fun best => v ≤ best.utility := by
  intro best stake above better
  exact above.trans better.le

theorem le_recordBest {stake : ℝ} {stakes : List ℝ} (mem : stake ∈ stakes) (best : Best ℝ) :
    robust stake ≤ (recordBest robust best stakes).utility := by
  obtain ⟨before, after, rfl⟩ := List.append_of_mem mem
  rw [recordBest, List.foldl_append, List.foldl_cons]
  -- Once the stake has been compared, what comes after only improves.
  apply (improving_above (robust stake)).recordBest
  split_ifs with better
  · exact le_rfl
  · exact not_lt.mp better

theorem le_searchStakes (robust : ℝ → WithBot ℝ) (curve : ExecutableCostCurve ℝ) (lo hi : ℝ) :
    robust lo ≤ (searchStakes robust curve lo hi).utility := by
  have first : lo ∈ uniformStakeGrid lo hi coarseSteps := by
    refine List.mem_map.mpr ⟨0, List.mem_range.mpr (Nat.succ_pos _), ?_⟩
    rw [Nat.cast_zero, mul_zero, zero_div, add_zero]
  apply (improving_above (robust lo)).refine
  apply le_recordBest
  rw [List.mem_insertionSort, List.mem_dedup]
  exact List.mem_append_left _ first
end

theorem finiteOrZero_pos {value : WithBot ℝ} : 0 < finiteOrZero value ↔ 0 < value := by
  unfold finiteOrZero
  split_ifs with unpriced
  · simp [unpriced]
  · rfl

theorem prepareSizing_ok {candidate : NativeSideCandidate ℝ} {band : JointQBand ℝ}
    {omega : List String} {matrix : FamilyPayoffMatrix} {exposure : PortfolioExposureVector ℝ}
    {level : Set.Ioo (0 : ℝ) 1} {guarded : Option ℝ}
    (ready : prepareSizing candidate band omega matrix exposure level guarded = .ok prepared) :
    prepared.candidate = candidate ∧
    prepared.alpha = level ∧
    candidatePiMatrix candidate band omega matrix guarded = .ok prepared.laws ∧
    ∃ wealth, matrix.outcomes.mapM exposure.a = .ok wealth ∧
      prepared.holdings = matrix.outcomes.zip wealth := by
  simp only [prepareSizing, bind_eq_ok] at ready
  obtain ⟨_, -, wealth, known, laws, made, isPrepared⟩ := ready
  cases isPrepared
  exact ⟨rfl, rfl, made, wealth, known, rfl⟩

theorem searchStakes_stake_pos {curve : ExecutableCostCurve ℝ} {lo hi : ℝ}
    (pos : 0 < (searchStakes prepared.robustAt curve lo hi).utility) :
    0 < (searchStakes prepared.robustAt curve lo hi).stake := by
  rcases searchStakes_attained prepared.robustAt curve lo hi with unpriced | attained
  · rw [unpriced] at pos
    exact absurd pos not_lt_bot
  · rw [attained] at pos
    obtain ⟨terms, priced, -⟩ := exists_payoffTerms pos
    obtain ⟨_, _, -, -, hdef, -⟩ := payoffTerms_eq_ok.mp priced
    exact (ExecutableCostCurve.avgCost_eq_ok.mp hdef).1

section
variable {candidate : NativeSideCandidate ℝ} {band : JointQBand ℝ} {omega : List String}
  {matrix : FamilyPayoffMatrix}
  {exposure : PortfolioExposureVector ℝ} {maxStakeUsd alpha guarded : Option ℝ}
    {curve : ExecutableCostCurve ℝ}
  {lo hi stake : ℝ} {level : Set.Ioo (0 : ℝ) 1} {prepared : PreparedSizing ℝ}

theorem optimizeVectorStake_eq (isCurve : candidate.executableCostCurve = some curve)
    (trad : candidate.isTradeable = true)
    (bounds : feasibleStakeBounds candidate maxStakeUsd = some (lo, hi))
    (isLevel : resolveAlpha band alpha = .ok level)
    (isPrepared : prepareSizing candidate band omega matrix exposure level guarded = .ok prepared) :
    ∃ sizing,
      optimizeVectorStake candidate band omega matrix exposure maxStakeUsd alpha guarded =
        .ok sizing ∧
      sizing.deltaUAtMin = finiteOrZero (prepared.robustAt lo) ∧
      (0 < sizing.deltaUAtMin → sizing.deltaUAtMin ≤ sizing.optimalDeltaU) := by
  have chosen : candidate.executableCostCurve.filter (fun _ => candidate.isTradeable) =
      some curve := by
    rw [isCurve, trad]
    rfl
  simp only [optimizeVectorStake, bounds, chosen, isLevel, isPrepared, bind, Except.bind, pure,
    Except.pure]
  by_cases single : hi = lo
  · rw [if_pos single]
    exact ⟨_, rfl, rfl, fun _ => le_rfl⟩
  · rw [if_neg single]
    have least := le_searchStakes prepared.robustAt curve lo hi
    have stakes := @searchStakes_stake_pos prepared curve lo hi
    generalize searchStakes prepared.robustAt curve lo hi = best at *
    split_ifs with refused
    · refine ⟨_, rfl, rfl, fun pos => absurd refused ?_⟩
      have gains := (finiteOrZero_pos.mp pos).trans_le least
      exact not_or.mpr ⟨gains.not_ge, (stakes gains).not_ge⟩
    · refine ⟨_, rfl, rfl, fun pos => ?_⟩
      rw [finiteOrZero, if_neg (bot_lt_of_lt (finiteOrZero_pos.mp pos)).ne']
      exact least

theorem tradeable_of_gains
    (isPrepared : prepareSizing candidate band omega matrix exposure level guarded = .ok prepared)
    (gains : 0 < prepared.robustAt stake) : candidate.isTradeable = true := by
  obtain ⟨terms, priced, -⟩ := exists_payoffTerms gains
  obtain ⟨_, _, trad, -⟩ := payoffTerms_eq_ok.mp priced
  rwa [(prepareSizing_ok isPrepared).1] at trad

section
variable (isCurve : candidate.executableCostCurve = some curve)
  (bounds : feasibleStakeBounds candidate maxStakeUsd = some (lo, hi))
  (isPrepared : prepareSizing candidate band omega matrix exposure level guarded = .ok prepared)

include isCurve bounds isPrepared

/-- On a book too thin for it the lower bound has no utility, whatever the draws say. -/
theorem robustAt_minimum_eq_bot (thin : ¬ MinimumFillable curve) : prepared.robustAt lo = ⊥ := by
  unfold PreparedSizing.robustAt
  cases priced : payoffTerms prepared.candidate lo with
  | error _ => rfl
  | ok terms =>
    obtain ⟨hf, cost, -, isFound, hdef, -⟩ := payoffTerms_eq_ok.mp priced
    rw [(prepareSizing_ok isPrepared).1] at isFound
    cases isCurve.symm.trans isFound
    exact absurd ((avgCost_minimum_iff isCurve bounds).mp ⟨cost, hdef⟩) thin

theorem robustAt_minimum_pos_iff (above : lo ≤ stake) (gains : 0 < prepared.robustAt stake) :
    0 < prepared.robustAt lo ↔ MinimumFillable curve := by
  constructor
  · intro pos
    by_contra thin
    rw [robustAt_minimum_eq_bot isCurve bounds isPrepared thin] at pos
    exact not_lt_bot pos
  · intro hfill
    obtain ⟨cost, hdef⟩ := (avgCost_minimum_iff isCurve bounds).mpr hfill
    have same := (prepareSizing_ok isPrepared).1
    have trad := tradeable_of_gains isPrepared gains
    have priced := payoffTerms_eq_ok.mpr ⟨curve, cost, same ▸ trad, same ▸ isCurve, hdef, rfl⟩
    exact robustAt_pos_of_le priced above gains
end

/-- Where a feasible stake helps, the sizing reports a gain at the minimum order exactly when the
money of that order at the best price fills it. -/
theorem delta_u_at_min_pos_iff (isCurve : candidate.executableCostCurve = some curve)
    (bounds : feasibleStakeBounds candidate maxStakeUsd = some (lo, hi))
    (isLevel : resolveAlpha band alpha = .ok level)
    (isPrepared : prepareSizing candidate band omega matrix exposure level guarded = .ok prepared)
    (feasible : stake ∈ Set.Icc lo hi) (gains : 0 < prepared.robustAt stake) :
    ∃ sizing,
      optimizeVectorStake candidate band omega matrix exposure maxStakeUsd alpha guarded =
        .ok sizing ∧
      (0 < sizing.deltaUAtMin ↔ MinimumFillable curve) := by
  obtain ⟨sizing, ret, atMin, -⟩ :=
    optimizeVectorStake_eq isCurve (tradeable_of_gains isPrepared gains) bounds isLevel isPrepared
  refine ⟨sizing, ret, ?_⟩
  rw [atMin, finiteOrZero_pos]
  exact robustAt_minimum_pos_iff isCurve bounds isPrepared feasible.1 gains
end

noncomputable section

def sampleCurve (minOrderSize : Set.Ioi (0 : ℝ)) : ExecutableCostCurve ℝ where
  levels := [⟨(11 / 100 : ℚ), (2 : ℚ), by norm_num, by norm_num, by norm_num⟩,
    ⟨(11 / 50 : ℚ), (50 : ℚ), by norm_num, by norm_num, by norm_num⟩]
  feeModel := ⟨0, le_rfl, one_pos⟩
  minTick := (1 / 200 : ℚ)
  minOrderSize := minOrderSize
  levels_ne_nil := List.cons_ne_nil _ _
  minTick_pos := by norm_num
  minOrderSize_pos := minOrderSize.2
  onGrid := by
    intro level member
    rw [List.mem_pair] at member
    rcases member with rfl | rfl
    · exact ⟨22, by norm_num [gridEps]⟩
    · exact ⟨44, by norm_num [gridEps]⟩
  cheapestFirst := by norm_num

def sampleCandidate (minOrderSize : Set.Ioi (0 : ℝ)) : NativeSideCandidate ℝ where
  binId := "20C"
  side := .yes
  qLcb := some 1
  executableCostCurve := some (sampleCurve minOrderSize)
  isTradeable := true
  tradeable_qLcb _ := Option.some_ne_none _
  tradeable_curve _ := Option.some_ne_none _

def sampleMatrix : FamilyPayoffMatrix where
  outcomes := ["20C", outsideOutcome]
  outside_mem := by simp
  nodup := by simp [outsideOutcome]

def sampleBand : JointQBand ℝ where
  width := 1
  samples := [⟨[1], rfl, by simp⟩]
  alpha := (1 / 20 : ℚ)

def sampleWealth : Set.Ioi (0 : ℝ) := ⟨(100 : ℚ), by norm_num⟩

def sampleExposure : PortfolioExposureVector ℝ := ⟨fun _ => some sampleWealth⟩

def sampleLevel : Set.Ioo (0 : ℝ) 1 := ⟨(1 / 20 : ℚ), by norm_num, by norm_num⟩

def samplePrepared (minOrderSize : Set.Ioi (0 : ℝ)) : PreparedSizing ℝ :=
  ⟨sampleCandidate minOrderSize, sampleLevel,
    [("20C", sampleWealth), (outsideOutcome, sampleWealth)],
    sampleBand.samples.map fun draw => draw.law ["20C"] sampleMatrix⟩

theorem sample_level : resolveAlpha sampleBand none = .ok sampleLevel := by
  have hin : 0 < sampleBand.alpha ∧ sampleBand.alpha < 1 := by norm_num [sampleBand]
  exact dif_pos hin

theorem sample_bins : sampleMatrix.bins = ["20C"] := by
  simp [FamilyPayoffMatrix.bins, sampleMatrix, outsideOutcome]

theorem sample_laws (minOrderSize : Set.Ioi (0 : ℝ)) :
    candidatePiMatrix (sampleCandidate minOrderSize) sampleBand ["20C"] sampleMatrix none =
      .ok (sampleBand.samples.map fun draw => draw.law ["20C"] sampleMatrix) := by
  have own : (sampleCandidate minOrderSize).binId ∈ sampleMatrix.outcomes := List.mem_cons_self
  have columns : ∀ out ∈ sampleMatrix.bins, ∀ column ∈ binIndex ["20C"] out,
        column < sampleBand.width := by
    simp [sample_bins, binIndex, sampleBand]
  simp only [candidatePiMatrix, bind_eq_ok, guardBy_eq_ok, elim_eq_ok, require_eq_none]
  refine ⟨1, rfl, (), own, (), ?found, (), columns, none, rfl, ?_⟩
  case found => simp [sample_bins, binIndex]
  exact if_pos ⟨rfl, rfl⟩

theorem sample_prepared (minOrderSize : Set.Ioi (0 : ℝ)) :
    prepareSizing (sampleCandidate minOrderSize) sampleBand ["20C"] sampleMatrix sampleExposure
      sampleLevel none = .ok (samplePrepared minOrderSize) := by
  simp only [prepareSizing, bind_eq_ok]
  exact ⟨none, rfl, [sampleWealth, sampleWealth], rfl, _, sample_laws minOrderSize, rfl⟩

theorem sample_fill (minOrderSize : Set.Ioi (0 : ℝ)) :
    (sampleCurve minOrderSize).feeModel.fill (sampleCurve minOrderSize).levels (22 / 25) =
      (5, 22 / 25) := by
  norm_num [sampleCurve, FeeModel.fill, FeeModel.allInPrice, FeeModel.feePerShare, depthEps]

variable {minOrderSize : Set.Ioi (0 : ℝ)}

theorem sample_terms (small : (minOrderSize : ℝ) ≤ 5) :
    payoffTerms (sampleCandidate minOrderSize) (22 / 25) = .ok (103 / 25, -22 / 25) := by
  have tol := depthEps_pos
  have hdef : (sampleCurve minOrderSize).avgCost (22 / 25) false = .ok (22 / 125) := by
    rw [ExecutableCostCurve.avgCost_eq_ok, sample_fill]
    refine ⟨by norm_num, by linarith, ?_, by norm_num, by norm_num⟩
    change (minOrderSize : ℝ) - depthEps ≤ 5
    linarith
  exact payoffTerms_eq_ok.mpr ⟨_, _, rfl, rfl, hdef, by norm_num⟩

theorem sample_gains (small : (minOrderSize : ℝ) ≤ 5) :
    0 < (samplePrepared minOrderSize).robustAt (22 / 25) := by
  have mass : (Draw.law ⟨[1], rfl, by simp⟩ ["20C"] sampleMatrix : Law ℝ).mass "20C" = 1 := by
    simp [Draw.law, Draw.binMass, binIndex, outsideOutcome]
  have outside : (Draw.law ⟨[1], rfl, by simp⟩ ["20C"] sampleMatrix : Law ℝ).mass outsideOutcome =
      0 := by
    simp [Draw.law, Draw.binMass, binIndex, sample_bins]
  have wins : candidateWins (sampleCandidate minOrderSize) "20C" = true := rfl
  have surv :
      0 < settled (sampleCandidate minOrderSize) (103 / 25, -22 / 25) ("20C", sampleWealth) := by
    norm_num [settled, wins, sampleWealth]
  have grows : 0 <
      outcomeGrowth (sampleCandidate minOrderSize) (103 / 25, -22 / 25) ("20C", sampleWealth) := by
    rw [outcomeGrowth_of_pos surv, wins]
    exact Real.log_pos (by norm_num [sampleWealth])
  simp only [PreparedSizing.robustAt, samplePrepared, sample_terms small]
  rw [sampleBand, List.map_singleton, List.map_singleton, quantile_singleton]
  simp [PreparedSizing.drawGrowth, mass, outside, surv.not_ge, grows]

theorem sample_bounds (small : (minOrderSize : ℝ) ≤ 5) :
    feasibleStakeBounds (sampleCandidate minOrderSize) none =
      some (11 / 100 * (minOrderSize : ℝ), 561 / 50) := by
  have pos : 0 < 11 / 100 * (minOrderSize : ℝ) := mul_pos (by norm_num) minOrderSize.2
  have hle : 11 / 100 * (minOrderSize : ℝ) ≤ 561 / 50 := by linarith
  norm_num [feasibleStakeBounds, sampleCandidate, sampleCurve, FeeModel.allInPrice,
    FeeModel.feePerShare, pos.not_ge, hle.not_gt]

theorem sample_not_fillable : ¬ MinimumFillable (sampleCurve ⟨5, by norm_num⟩) := by
  rw [minimumFillable_iff]
  norm_num [minimumStake, sampleCurve, FeeModel.fill, FeeModel.allInPrice, FeeModel.feePerShare,
    depthEps]

/-- The minimum order is five shares and the best level has two: the sizing reports no gain at the
minimum, and refuses a candidate that eighty-eight cents would help. -/
theorem thin_book_hides_gain :
    feasibleStakeBounds (sampleCandidate ⟨5, by norm_num⟩) none = some (11 / 20, 561 / 50) ∧
    (22 / 25 : ℝ) ∈ Set.Icc (11 / 20) (561 / 50) ∧
    ∃ prepared sizing,
      prepareSizing (sampleCandidate ⟨5, by norm_num⟩) sampleBand ["20C"] sampleMatrix
        sampleExposure sampleLevel none = .ok prepared ∧
      0 < prepared.robustAt (22 / 25) ∧
      optimizeVectorStake (sampleCandidate ⟨5, by norm_num⟩) sampleBand ["20C"] sampleMatrix
        sampleExposure none none none = .ok sizing ∧
      sizing.deltaUAtMin = 0 ∧
      ¬ LiveCandidatePasses ⟨(1 / 2 : ℝ), none, sizing.deltaUAtMin, sizing.optimalDeltaU⟩ true true
          true := by
  have small : ((⟨5, by norm_num⟩ : Set.Ioi (0 : ℝ)) : ℝ) ≤ 5 := le_rfl
  have bounds : feasibleStakeBounds (sampleCandidate ⟨5, by norm_num⟩) none =
      some (11 / 20, 561 / 50) := by
    rw [sample_bounds small]
    norm_num
  have feasible : (22 / 25 : ℝ) ∈ Set.Icc (11 / 20) (561 / 50) := by norm_num
  obtain ⟨sizing, ret, atMin, -⟩ :=
    optimizeVectorStake_eq rfl rfl bounds sample_level (sample_prepared _)
  have unpriced : sizing.deltaUAtMin = 0 := by
    rw [atMin, robustAt_minimum_eq_bot rfl bounds (sample_prepared _) sample_not_fillable]
    exact if_pos rfl
  refine ⟨bounds, feasible, _, sizing, sample_prepared _, sample_gains small, ret, unpriced, ?_⟩
  intro passes
  exact passes.2.1.ne' unpriced

theorem delta_u_at_min_pos_iff_sample :
    ∃ sizing,
      optimizeVectorStake (sampleCandidate ⟨2, by norm_num⟩) sampleBand ["20C"] sampleMatrix
        sampleExposure none none none = .ok sizing ∧
      0 < sizing.deltaUAtMin := by
  have small : ((⟨2, by norm_num⟩ : Set.Ioi (0 : ℝ)) : ℝ) ≤ 5 := by norm_num
  have least : minimumStake (sampleCurve ⟨2, by norm_num⟩) = 11 / 50 := by
    norm_num [minimumStake, sampleCurve, FeeModel.allInPrice, FeeModel.feePerShare]
  have hfill : MinimumFillable (sampleCurve ⟨2, by norm_num⟩) :=
    minimumFillable_of_deep (by norm_num [least, depthEps]) (by norm_num [sampleCurve])
  have feasible : (22 / 25 : ℝ) ∈ Set.Icc (11 / 100 * (2 : ℝ)) (561 / 50) := by norm_num
  obtain ⟨sizing, ret, iff⟩ :=
    delta_u_at_min_pos_iff rfl (sample_bounds small) sample_level (sample_prepared _) feasible
      (sample_gains small)
  exact ⟨sizing, ret, iff.mpr hfill⟩
end

end Zeus.PayoffVector
