import Zeus.Contracts.ExecutableCostCurve
import Zeus.Lib.CheckedFold

/-! `marginal_cost` is the price of the deepest level that a stake touches, `max_fillable` the
notional of the levels within a limit. -/

namespace Zeus.CostCurve

section
variable {α : Type*} [Field α] [LinearOrder α]

def ExecutableCostCurve.marginalCost (curve : ExecutableCostCurve α) (stakeUsd : α) :
    Except CurveError α :=
  (curve.walkForStake stakeUsd curve.feeModel).map StakeWalk.lastAllInPrice

/-- The loop of `max_fillable`: the first level past the limit ends it. -/
def FeeModel.fillableLoop (fee : FeeModel α) (limit : α) : List (BookLevel α) → α → α
  | [], fillableUsd => fillableUsd
  | level :: rest, fillableUsd =>
    let allIn := fee.allInPrice level.price
    if limit + (gridEps : α) < allIn then fillableUsd
    else fee.fillableLoop limit rest (fillableUsd + allIn * level.size)

def ExecutableCostCurve.maxFillable (curve : ExecutableCostCurve α) (limitPrice : α) : α :=
  curve.feeModel.fillableLoop limitPrice curve.levels 0
end

section
variable {fee : FeeModel ℝ} {levels : List (BookLevel ℝ)} {limit : ℝ}

theorem FeeModel.fillableLoop_eq (levels : List (BookLevel ℝ)) (hfill : ℝ) :
    fee.fillableLoop limit levels hfill = hfill + fee.fillableLoop limit levels 0 := by
  induction levels generalizing hfill with
  | nil => exact (add_zero hfill).symm
  | cons lv rest ih =>
    simp only [FeeModel.fillableLoop]
    split_ifs
    · exact (add_zero hfill).symm
    · rw [ih, ih (0 + _)]
      ring

theorem FeeModel.fillableLoop_cons_of_le {lv : BookLevel ℝ} (rest : List (BookLevel ℝ))
    (hle : fee.allInPrice lv.price ≤ limit + (gridEps : ℝ)) :
    fee.fillableLoop limit (lv :: rest) 0 =
      lv.size * fee.allInPrice lv.price + fee.fillableLoop limit rest 0 := by
  simp only [FeeModel.fillableLoop, if_neg hle.not_gt]
  rw [fillableLoop_eq]
  ring

theorem FeeModel.fillableLoop_nonneg (levels : List (BookLevel ℝ)) :
    0 ≤ fee.fillableLoop limit levels 0 := by
  induction levels with
  | nil => exact le_rfl
  | cons lv rest ih =>
    rcases le_or_gt (fee.allInPrice lv.price) (limit + (gridEps : ℝ)) with hle | past
    · rw [fee.fillableLoop_cons_of_le rest hle]
      exact add_nonneg (mul_pos lv.size_pos (fee.allInPrice_pos lv)).le ih
    · simp [FeeModel.fillableLoop, if_pos past]

theorem FeeModel.fillableLoop_of_past
    (past : ∀ lv ∈ levels, limit + (gridEps : ℝ) < fee.allInPrice lv.price) :
    fee.fillableLoop limit levels 0 = 0 := by
  cases levels with
  | nil => rfl
  | cons lv rest => exact if_pos (past lv List.mem_cons_self)
end

section
variable {fee : FeeModel ℝ} {levels : List (BookLevel ℝ)} {walked : StakeWalk ℝ} {limit : ℝ}

theorem FeeModel.walkLevels_of_done (levels : List (BookLevel ℝ))
    (done : walked.remainingUsd ≤ (depthEps : ℝ)) : fee.walkLevels levels walked = walked := by
  cases levels with
  | nil => rfl
  | cons lv rest => exact if_pos done

theorem FeeModel.walkLevels_cons (lv : BookLevel ℝ) (rest : List (BookLevel ℝ))
    (left : (depthEps : ℝ) < walked.remainingUsd) :
    ∃ take, 0 < take ∧
      (take * fee.allInPrice lv.price = walked.remainingUsd ∧ take ≤ lv.size ∨
        take = lv.size ∧ take * fee.allInPrice lv.price < walked.remainingUsd) ∧
      fee.walkLevels (lv :: rest) walked = fee.walkLevels rest {
        remainingUsd := walked.remainingUsd - take * fee.allInPrice lv.price
        sharesFilled := walked.sharesFilled + take
        usdSpent := walked.usdSpent + take * fee.allInPrice lv.price
        lastAllInPrice := fee.allInPrice lv.price } := by
  have price := fee.allInPrice_pos lv
  have hpos : 0 < min lv.size (walked.remainingUsd / fee.allInPrice lv.price) :=
    lt_min lv.size_pos (div_pos (depthEps_pos.trans left) price)
  refine ⟨_, hpos, ?_, ?_⟩
  · rcases le_or_gt (walked.remainingUsd / fee.allInPrice lv.price) lv.size with last | deeper
    · rw [min_eq_right last]
      exact .inl ⟨div_mul_cancel₀ _ price.ne', last⟩
    · rw [min_eq_left deeper.le]
      exact .inr ⟨rfl, (lt_div_iff₀ price).mp deeper⟩
  · simp only [FeeModel.walkLevels, if_neg left.not_ge, if_neg hpos.not_ge]

/-- A walk that spends its stake ends within a limit exactly when the limit lets the stake
through. -/
theorem FeeModel.last_le_iff
    (asc : levels.Pairwise fun cheaper dear =>
        fee.allInPrice cheaper.price ≤ fee.allInPrice dear.price)
    (left : (depthEps : ℝ) < walked.remainingUsd)
    (spent : (fee.walkLevels levels walked).remainingUsd ≤ (depthEps : ℝ)) :
    (fee.walkLevels levels walked).lastAllInPrice ≤ limit + (gridEps : ℝ) ↔
      walked.remainingUsd ≤ fee.fillableLoop limit levels 0 + (depthEps : ℝ) := by
  induction levels generalizing walked with
  | nil => exact absurd spent left.not_ge
  | cons lv rest ih =>
    obtain ⟨take, -, taken, step⟩ := fee.walkLevels_cons lv rest left
    rw [step] at spent ⊢
    have deeper := @FeeModel.fillableLoop_nonneg fee limit rest
    have tol := depthEps_pos
    have hbe (past : limit + (gridEps : ℝ) < fee.allInPrice lv.price) :
        fee.fillableLoop limit (lv :: rest) 0 = 0 := if_pos past
    rcases le_or_gt (walked.remainingUsd - take * fee.allInPrice lv.price) (depthEps : ℝ)
      with done | more
    · -- the level is the last one that the stake touches
      rw [fee.walkLevels_of_done rest done]
      rcases le_or_gt (fee.allInPrice lv.price) (limit + (gridEps : ℝ)) with hle | past
      · refine iff_of_true hle ?_
        rw [fee.fillableLoop_cons_of_le rest hle]
        rcases taken with ⟨whole, fits⟩ | ⟨rfl, -⟩
        · have bound := mul_le_mul_of_nonneg_right fits (fee.allInPrice_pos lv).le
          linarith
        · linarith
      · refine iff_of_false past.not_ge ?_
        rw [hbe past]
        linarith
    · obtain rfl : take = lv.size := by
        rcases taken with ⟨whole, -⟩ | ⟨same, -⟩
        · linarith
        · exact same
      rw [ih asc.of_cons more spent]
      rcases le_or_gt (fee.allInPrice lv.price) (limit + (gridEps : ℝ)) with hle | past
      · rw [fee.fillableLoop_cons_of_le rest hle]
        constructor <;> intro le <;> linarith
      · have pastRest : ∀ other ∈ rest, limit + (gridEps : ℝ) < fee.allInPrice other.price :=
          fun other mem =>
          past.trans_le (List.rel_of_pairwise_cons asc mem)
        rw [hbe past, fee.fillableLoop_of_past pastRest]
        exact iff_of_false (by linarith) (by linarith)

theorem FeeModel.walkLevels_last_nonneg (levels : List (BookLevel ℝ))
    (nn : 0 ≤ walked.lastAllInPrice) : 0 ≤ (fee.walkLevels levels walked).lastAllInPrice := by
  induction levels generalizing walked with
  | nil => exact nn
  | cons lv rest ih =>
    rcases le_or_gt walked.remainingUsd (depthEps : ℝ) with done | left
    · rwa [fee.walkLevels_of_done _ done]
    · obtain ⟨take, -, -, step⟩ := fee.walkLevels_cons lv rest left
      rw [step]
      exact ih (fee.allInPrice_pos lv).le

theorem FeeModel.spent_le_last
    (asc : levels.Pairwise fun cheaper dear =>
        fee.allInPrice cheaper.price ≤ fee.allInPrice dear.price)
    (behind : ∀ lv ∈ levels, walked.lastAllInPrice ≤ fee.allInPrice lv.price)
    (shares : 0 ≤ walked.sharesFilled)
    (paid : walked.usdSpent ≤ walked.lastAllInPrice * walked.sharesFilled) :
    (fee.walkLevels levels walked).usdSpent ≤
      (fee.walkLevels levels walked).lastAllInPrice *
        (fee.walkLevels levels walked).sharesFilled := by
  induction levels generalizing walked with
  | nil => exact paid
  | cons lv rest ih =>
    rcases le_or_gt walked.remainingUsd (depthEps : ℝ) with done | left
    · rwa [fee.walkLevels_of_done _ done]
    · obtain ⟨take, hpos, -, step⟩ := fee.walkLevels_cons lv rest left
      rw [step]
      refine ih asc.of_cons (fun other mem => List.rel_of_pairwise_cons asc mem)
        (add_nonneg shares hpos.le) ?_
      have dear := mul_le_mul_of_nonneg_right (behind lv List.mem_cons_self) shares
      simp only
      linarith
end

section
variable {curve : ExecutableCostCurve ℝ} {stake more : ℝ} {walked deeper : StakeWalk ℝ}

section
variable (accepted : curve.walkForStake stake curve.feeModel = .ok walked)

include accepted

theorem ExecutableCostCurve.walkForStake_ok :
    0 < stake ∧
    walked.remainingUsd ≤ (depthEps : ℝ) ∧
    curve.feeModel.walkLevels curve.levels ⟨stake, 0, 0, 0⟩ = walked := by
  unfold ExecutableCostCurve.walkForStake at accepted
  dsimp only at accepted
  split_ifs at accepted with pos spent short
  cases accepted
  exact ⟨not_le.mp pos, not_lt.mp spent, rfl⟩

theorem ExecutableCostCurve.last_le_limit_iff (left : (depthEps : ℝ) < stake) (limit : ℝ) :
    walked.lastAllInPrice ≤ limit + (gridEps : ℝ) ↔
      stake ≤ curve.maxFillable limit + (depthEps : ℝ) := by
  obtain ⟨-, spent, rfl⟩ := walkForStake_ok accepted
  exact @FeeModel.last_le_iff _ _ ⟨stake, 0, 0, 0⟩ limit curve.allIn_ascending left spent

theorem ExecutableCostCurve.last_nonneg : 0 ≤ walked.lastAllInPrice := by
  obtain ⟨-, -, rfl⟩ := walkForStake_ok accepted
  exact FeeModel.walkLevels_last_nonneg curve.levels le_rfl

theorem ExecutableCostCurve.walked_of_dust (dust : stake ≤ (depthEps : ℝ)) :
    walked = ⟨stake, 0, 0, 0⟩ := by
  obtain ⟨-, -, rfl⟩ := walkForStake_ok accepted
  exact @FeeModel.walkLevels_of_done _ ⟨stake, 0, 0, 0⟩ curve.levels dust
end

section
variable (accepted : curve.walkForStake stake curve.feeModel = .ok walked)

include accepted

theorem ExecutableCostCurve.last_mono
    (moreAcc : curve.walkForStake more curve.feeModel = .ok deeper) (le : stake ≤ more) :
    walked.lastAllInPrice ≤ deeper.lastAllInPrice := by
  have own : deeper.lastAllInPrice = deeper.lastAllInPrice - (gridEps : ℝ) + (gridEps : ℝ) := by
    ring
  rcases le_or_gt stake (depthEps : ℝ) with dust | left
  · rw [walked_of_dust accepted dust]
    exact last_nonneg moreAcc
  · -- the last price of the larger stake, as a limit, lets both through
    have through := (last_le_limit_iff moreAcc (left.trans_le le) _).mp own.le
    rw [own]
    exact (last_le_limit_iff accepted left _).mpr (le.trans through)

theorem ExecutableCostCurve.avgCost_defined_iff :
    (∃ average, curve.avgCost stake false = .ok average) ↔ (depthEps : ℝ) < stake := by
  obtain ⟨pos, spent, enough, -⟩ := walkForStake_eq_ok.mp accepted
  constructor
  · rintro ⟨average, hdef⟩
    obtain ⟨-, -, -, hne, -⟩ := avgCost_eq_ok.mp hdef
    by_contra dust
    exact hne (congrArg Prod.fst (curve.feeModel.fill_of_done curve.levels (not_lt.mp dust)))
  · intro left
    refine ⟨_, avgCost_eq_ok.mpr ⟨pos, spent, enough, ?_, rfl⟩⟩
    intro hno
    rcases curve.feeModel.fill_cases curve.levels stake with empty | ⟨shares, -⟩
    · rw [empty] at spent
      simp only [sub_zero] at spent
      exact spent.not_gt left
    · exact shares.ne' hno

theorem ExecutableCostCurve.avgCost_le_last {average : ℝ}
    (hdef : curve.avgCost stake false = .ok average) : average ≤ walked.lastAllInPrice := by
  obtain ⟨-, -, -, hne, rfl⟩ := avgCost_eq_ok.mp hdef
  obtain ⟨-, -, rfl⟩ := walkForStake_ok accepted
  have paid :=
    @FeeModel.spent_le_last curve.feeModel curve.levels ⟨stake, 0, 0, 0⟩ curve.allIn_ascending
    (fun lv _ => (curve.feeModel.allInPrice_pos lv).le) le_rfl (by simp)
  obtain ⟨-, shares, dollars⟩ := curve.feeModel.walkLevels_eq curve.levels ⟨stake, 0, 0, 0⟩
  rw [shares, dollars, zero_add, zero_add] at paid
  exact (div_le_iff₀ (curve.feeModel.fill_shares_pos hne)).mpr paid
end

/-- Every accepted stake has a marginal cost, and past the tolerance an average cost below it; both
rise with the stake. The marginal cost is within a limit exactly when the stake is within what the
limit lets through, but for stakes that touch no level and limits below zero. -/
theorem cost_adjoint_to_fillable (curve : ExecutableCostCurve ℝ) :
    (∀ stake walked, curve.walkForStake stake curve.feeModel = .ok walked →
        ∃ marginal, curve.marginalCost stake = .ok marginal ∧
          ((∃ average, curve.avgCost stake false = .ok average) ↔ (depthEps : ℝ) < stake) ∧
          (∀ average, curve.avgCost stake false = .ok average → average ≤ marginal) ∧
          ∀ limit,
            (marginal ≤ limit + (gridEps : ℝ) ↔ stake ≤ curve.maxFillable limit + (depthEps : ℝ)) ↔
              (depthEps : ℝ) < stake ∨ -(gridEps : ℝ) ≤ limit) ∧
    ∀ stake more, stake ≤ more →
      (∀ marginal dearer, curve.marginalCost stake = .ok marginal →
          curve.marginalCost more = .ok dearer → marginal ≤ dearer) ∧
      ∀ average dearer, curve.avgCost stake false = .ok average →
        curve.avgCost more false = .ok dearer → average ≤ dearer := by
  refine ⟨fun stake walked accepted => ?_,
    fun stake more le => ⟨fun marginal dearer isMarginal isDearer => ?_,
    fun average dearer hdef moreDefined => ExecutableCostCurve.avgCost_mono hdef moreDefined le⟩⟩
  · refine ⟨walked.lastAllInPrice, CheckedFold.map_eq_ok.mpr ⟨walked, accepted, rfl⟩,
      ExecutableCostCurve.avgCost_defined_iff accepted,
      fun average hdef => ExecutableCostCurve.avgCost_le_last accepted hdef, fun limit => ?_⟩
    rcases le_or_gt stake (depthEps : ℝ) with dust | left
    · have hfill : 0 ≤ curve.maxFillable limit := FeeModel.fillableLoop_nonneg curve.levels
      have through : stake ≤ curve.maxFillable limit + (depthEps : ℝ) := by linarith
      rw [ExecutableCostCurve.walked_of_dust accepted dust, iff_true_right through,
        or_iff_right dust.not_gt, neg_le_iff_add_nonneg]
    · exact iff_of_true (ExecutableCostCurve.last_le_limit_iff accepted left limit) (.inl left)
  · obtain ⟨walked, accepted, rfl⟩ := CheckedFold.map_eq_ok.mp isMarginal
    obtain ⟨deeper, moreAcc, rfl⟩ := CheckedFold.map_eq_ok.mp isDearer
    exact ExecutableCostCurve.last_mono accepted moreAcc le
end

def dustCurve : ExecutableCostCurve ℝ where
  levels := [⟨(3 / 8 : ℚ), (7 : ℚ), by norm_num, by norm_num, by norm_num⟩]
  feeModel := ⟨(1 / 50 : ℚ), by norm_num, by norm_num⟩
  minTick := (1 / 8 : ℚ)
  minOrderSize := (depthEps : ℚ)
  levels_ne_nil := List.cons_ne_nil _ _
  minTick_pos := by norm_num
  minOrderSize_pos := depthEps_pos
  onGrid := by
    intro level member
    rw [List.mem_singleton.mp member]
    exact ⟨3, by norm_num [gridEps]⟩
  cheapestFirst := List.pairwise_singleton _ _

theorem dust_stake_costs_nothing :
    dustCurve.walkForStake depthEps dustCurve.feeModel = .ok ⟨depthEps, 0, 0, 0⟩ ∧
    dustCurve.avgCost depthEps false = .error .divisionUndefined ∧
    dustCurve.marginalCost depthEps = .ok 0 ∧
    ¬ (0 : ℝ) ≤ -1 + (gridEps : ℝ) ∧
    (depthEps : ℝ) ≤ dustCurve.maxFillable (-1) + (depthEps : ℝ) := by
  have walk : dustCurve.walkForStake depthEps dustCurve.feeModel = .ok ⟨depthEps, 0, 0, 0⟩ := by
    norm_num [ExecutableCostCurve.walkForStake, dustCurve, FeeModel.walkLevels, depthEps]
  refine ⟨walk, ?_, ?_, by norm_num [gridEps], ?_⟩
  · simp only [ExecutableCostCurve.avgCost, ExecutableCostCurve.effectiveFeeModel,
      if_neg Bool.false_ne_true, walk, if_true]
  · rw [ExecutableCostCurve.marginalCost, walk]
    rfl
  · have hfill : 0 ≤ dustCurve.maxFillable (-1) := FeeModel.fillableLoop_nonneg dustCurve.levels
    linarith

end Zeus.CostCurve
