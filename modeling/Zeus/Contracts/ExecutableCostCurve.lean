import Mathlib

/-! The native ask ladder, its taker fee and the walk of a stake through it. Prices, sizes and fees
live in an arbitrary ordered field; decimal arithmetic is taken as exact. -/

namespace Zeus.CostCurve

variable {α : Type*} [Field α] [LinearOrder α]

def gridEps : ℚ := 1 / 10 ^ 9

def depthEps : ℚ := 1 / 10 ^ 9

section
variable (α)

structure FeeModel where
  feeRate : α
  feeRate_nonneg : 0 ≤ feeRate
  feeRate_lt_one : feeRate < 1

structure BookLevel where
  (price size : α)
  price_pos : 0 < price
  price_lt_one : price < 1
  size_pos : 0 < size

/-- The asks of one native side, cheapest first, every price on the tick grid. -/
structure ExecutableCostCurve where
  levels : List (BookLevel α)
  feeModel : FeeModel α
  (minTick minOrderSize : α)
  levels_ne_nil : levels ≠ []
  minTick_pos : 0 < minTick
  minOrderSize_pos : 0 < minOrderSize
  onGrid : ∀ level ∈ levels, ∃ ticks : ℤ, |level.price / minTick - ticks| ≤ (gridEps : α)
  cheapestFirst : levels.Pairwise fun cheaper dearer => cheaper.price ≤ dearer.price

structure BidBookLevel where
  (price size : α)
  price_pos : 0 < price
  price_le_one : price ≤ 1
  size_pos : 0 < size
end

def FeeModel.feePerShare (fee : FeeModel α) (price : α) : α := fee.feeRate * price * (1 - price)

def FeeModel.allInPrice (fee : FeeModel α) (price : α) : α := price + fee.feePerShare price

inductive CurveError where
  | stakeNotPositive | exceedsExecutableDepth | belowMinOrderSize | divisionUndefined
  | priceNotProbability
  deriving DecidableEq

structure StakeWalk (α : Type*) where
  (remainingUsd sharesFilled usdSpent lastAllInPrice : α)

/-- The loop of `_walk_for_stake`: it stops once no more than the tolerance is left to spend. -/
def FeeModel.walkLevels (fee : FeeModel α) : List (BookLevel α) → StakeWalk α → StakeWalk α
  | [], walked => walked
  | level :: rest, walked =>
    if walked.remainingUsd ≤ (depthEps : α) then walked
    else
      let allIn := fee.allInPrice level.price
      let take := min level.size (walked.remainingUsd / allIn)
      if take ≤ 0 then fee.walkLevels rest walked
      else fee.walkLevels rest {
        remainingUsd := walked.remainingUsd - take * allIn
        sharesFilled := walked.sharesFilled + take
        usdSpent := walked.usdSpent + take * allIn
        lastAllInPrice := allIn }

def ExecutableCostCurve.walkForStake (curve : ExecutableCostCurve α) (stakeUsd : α)
    (feeModel : FeeModel α) : Except CurveError (StakeWalk α) :=
  if stakeUsd ≤ 0 then .error .stakeNotPositive
  else
    let walked := feeModel.walkLevels curve.levels ⟨stakeUsd, 0, 0, 0⟩
    if (depthEps : α) < walked.remainingUsd then .error .exceedsExecutableDepth
    else if walked.sharesFilled < curve.minOrderSize - (depthEps : α) then .error .belowMinOrderSize
    else .ok walked

def ExecutableCostCurve.effectiveFeeModel [IsStrictOrderedRing α] (curve : ExecutableCostCurve α)
    (makerResting : Bool) : FeeModel α :=
  if makerResting then ⟨0, le_rfl, zero_lt_one⟩ else curve.feeModel

/-- `avg_cost`, with the range check of the typed price. -/
def ExecutableCostCurve.avgCost [IsStrictOrderedRing α] (curve : ExecutableCostCurve α)
    (stakeUsd : α) (makerResting : Bool) : Except CurveError α :=
  match curve.walkForStake stakeUsd (curve.effectiveFeeModel makerResting) with
  | .error error => .error error
  | .ok walked =>
    let allInPerShare := walked.usdSpent / walked.sharesFilled
    if walked.sharesFilled = 0 then .error .divisionUndefined
    else if allInPerShare < 0 ∨ 1 < allInPerShare then .error .priceNotProbability
    else .ok allInPerShare

section
variable [IsStrictOrderedRing α]

theorem FeeModel.allInPrice_mono (fee : FeeModel α) {price dear : α} (le : price ≤ dear)
    (hin : dear ≤ 1) : fee.allInPrice price ≤ fee.allInPrice dear := by
  have gap : fee.allInPrice dear - fee.allInPrice price =
      (dear - price) * (1 + fee.feeRate * (1 - price - dear)) := by
    unfold FeeModel.allInPrice FeeModel.feePerShare
    ring
  have slope : 0 ≤ 1 + fee.feeRate * (1 - price - dear) := by
    nlinarith [fee.feeRate_nonneg, fee.feeRate_lt_one]
  have rises := mul_nonneg (sub_nonneg.mpr le) slope
  linarith

theorem FeeModel.allInPrice_pos (fee : FeeModel α) (lv : BookLevel α) :
    0 < fee.allInPrice lv.price := by
  have charged : 0 ≤ fee.feePerShare lv.price :=
    mul_nonneg (mul_nonneg fee.feeRate_nonneg lv.price_pos.le) (sub_nonneg.mpr lv.price_lt_one.le)
  exact add_pos_of_pos_of_nonneg lv.price_pos charged
end

section
variable {fee : FeeModel ℝ} {levels : List (BookLevel ℝ)} {stake more : ℝ}

/-- What a stake buys on a ladder: shares and dollars, without the running totals. -/
noncomputable def FeeModel.fill (fee : FeeModel ℝ) : List (BookLevel ℝ) → ℝ → ℝ × ℝ
  | [], _ => (0, 0)
  | level :: rest, stake =>
    if stake ≤ (depthEps : ℝ) then (0, 0)
    else
      let take := min level.size (stake / fee.allInPrice level.price)
      let deeper := fee.fill rest (stake - take * fee.allInPrice level.price)
      (take + deeper.1, take * fee.allInPrice level.price + deeper.2)

theorem FeeModel.allInPrice_lt_one (fee : FeeModel ℝ) (lv : BookLevel ℝ) :
    fee.allInPrice lv.price < 1 := by
  have slope : fee.feeRate * lv.price < 1 := by
    nlinarith [fee.feeRate_nonneg, fee.feeRate_lt_one, lv.price_pos, lv.price_lt_one]
  have room := mul_pos (sub_pos.mpr lv.price_lt_one) (sub_pos.mpr slope)
  unfold FeeModel.allInPrice FeeModel.feePerShare
  linarith

theorem depthEps_pos : (0 : ℝ) < depthEps := by norm_num [depthEps]

theorem FeeModel.walkLevels_eq (levels : List (BookLevel ℝ)) (wkd : StakeWalk ℝ) :
    (fee.walkLevels levels wkd).remainingUsd =
      wkd.remainingUsd - (fee.fill levels wkd.remainingUsd).2 ∧
    (fee.walkLevels levels wkd).sharesFilled =
      wkd.sharesFilled + (fee.fill levels wkd.remainingUsd).1 ∧
    (fee.walkLevels levels wkd).usdSpent = wkd.usdSpent + (fee.fill levels wkd.remainingUsd).2 := by
  induction levels generalizing wkd with
  | nil => simp [FeeModel.walkLevels, FeeModel.fill]
  | cons lv rest ih =>
    by_cases done : wkd.remainingUsd ≤ (depthEps : ℝ)
    · simp [FeeModel.walkLevels, FeeModel.fill, done]
    · have left := depthEps_pos.trans (not_le.mp done)
      have hpos : ¬ min lv.size (wkd.remainingUsd / fee.allInPrice lv.price) ≤ 0 :=
        (lt_min lv.size_pos (div_pos left (fee.allInPrice_pos lv))).not_ge
      obtain ⟨rem, shares, spent⟩ := ih {
        remainingUsd := wkd.remainingUsd -
          min lv.size (wkd.remainingUsd / fee.allInPrice lv.price) * fee.allInPrice lv.price
        sharesFilled := wkd.sharesFilled + min lv.size (wkd.remainingUsd / fee.allInPrice lv.price)
        usdSpent := wkd.usdSpent +
          min lv.size (wkd.remainingUsd / fee.allInPrice lv.price) * fee.allInPrice lv.price
        lastAllInPrice := fee.allInPrice lv.price }
      simp only [FeeModel.walkLevels, FeeModel.fill, if_neg done, if_neg hpos, rem, shares, spent]
      exact ⟨by ring, by ring, by ring⟩

theorem FeeModel.fill_of_done (fee : FeeModel ℝ) (levels : List (BookLevel ℝ))
    (done : stake ≤ (depthEps : ℝ)) : fee.fill levels stake = (0, 0) := by
  cases levels with
  | nil => rfl
  | cons lv rest => exact if_pos done

theorem FeeModel.fill_cons (fee : FeeModel ℝ) (lv : BookLevel ℝ) (rest : List (BookLevel ℝ))
    (left : (depthEps : ℝ) < stake) :
    (stake ≤ lv.size * fee.allInPrice lv.price ∧
      fee.fill (lv :: rest) stake = (stake / fee.allInPrice lv.price, stake)) ∨
    (lv.size * fee.allInPrice lv.price < stake ∧
      fee.fill (lv :: rest) stake =
        (lv.size + (fee.fill rest (stake - lv.size * fee.allInPrice lv.price)).1,
          lv.size * fee.allInPrice lv.price +
            (fee.fill rest (stake - lv.size * fee.allInPrice lv.price)).2)) := by
  have price := fee.allInPrice_pos lv
  rcases le_or_gt stake (lv.size * fee.allInPrice lv.price) with last | deeper
  · have taken : min lv.size (stake / fee.allInPrice lv.price) = stake / fee.allInPrice lv.price :=
      min_eq_right ((div_le_iff₀ price).mpr last)
    left
    refine ⟨last, ?_⟩
    simp [FeeModel.fill, if_neg left.not_ge, taken, div_mul_cancel₀ _ price.ne',
      fee.fill_of_done rest depthEps_pos.le]
  · have taken : min lv.size (stake / fee.allInPrice lv.price) = lv.size :=
      min_eq_left ((le_div_iff₀ price).mpr deeper.le)
    right
    refine ⟨deeper, ?_⟩
    simp only [FeeModel.fill, if_neg left.not_ge, taken]

theorem FeeModel.fill_cases (fee : FeeModel ℝ) (levels : List (BookLevel ℝ)) (stake : ℝ) :
    fee.fill levels stake = (0, 0) ∨
    0 < (fee.fill levels stake).1 ∧
    0 < (fee.fill levels stake).2 ∧
    (fee.fill levels stake).2 < (fee.fill levels stake).1 := by
  induction levels generalizing stake with
  | nil => exact Or.inl rfl
  | cons lv rest ih =>
    have price := fee.allInPrice_pos lv
    have cheap := fee.allInPrice_lt_one lv
    rcases le_or_gt stake (depthEps : ℝ) with done | left
    · exact Or.inl (fee.fill_of_done _ done)
    · have spend : 0 < stake := depthEps_pos.trans left
      rcases fee.fill_cons lv rest left with ⟨-, bought⟩ | ⟨-, bought⟩
      · rw [bought]
        exact Or.inr ⟨div_pos spend price, spend,
          (lt_div_iff₀ price).mpr (mul_lt_of_lt_one_right spend cheap)⟩
      · have size := lv.size_pos
        have paid := mul_pos size price
        have discount := mul_lt_of_lt_one_right size cheap
        rw [bought]
        right
        rcases ih (stake - lv.size * fee.allInPrice lv.price) with hno | ⟨shares, dollars, less⟩
        · rw [hno]
          simp only [add_zero]
          exact ⟨size, paid, discount⟩
        · exact ⟨by linarith, by linarith, by linarith⟩

theorem FeeModel.fill_shares_pos (fee : FeeModel ℝ) (hpos : (fee.fill levels stake).1 ≠ 0) :
    0 < (fee.fill levels stake).1 := by
  rcases fee.fill_cases levels stake with hno | ⟨shares, -⟩
  · exact absurd (congrArg Prod.fst hno) hpos
  · exact shares

theorem FeeModel.sub_fill_le (fee : FeeModel ℝ)
    (depth : stake ≤ (levels.map fun lv => fee.allInPrice lv.price * lv.size).sum) :
    stake - (fee.fill levels stake).2 ≤ (depthEps : ℝ) := by
  have tol := depthEps_pos
  induction levels generalizing stake with
  | nil =>
    rw [List.map_nil, List.sum_nil] at depth
    simp only [FeeModel.fill]
    linarith
  | cons lv rest ih =>
    rw [List.map_cons, List.sum_cons] at depth
    rcases le_or_gt stake (depthEps : ℝ) with done | left
    · simpa [fee.fill_of_done _ done] using done
    · rcases fee.fill_cons lv rest left with ⟨-, bought⟩ | ⟨-, bought⟩
      · rw [bought]
        linarith
      · have deeper := @ih (stake - lv.size * fee.allInPrice lv.price) (by linarith)
        rw [bought]
        linarith

theorem FeeModel.mul_fill_le {chp : ℝ} (above : ∀ lv ∈ levels, chp ≤ fee.allInPrice lv.price)
    (stake : ℝ) : chp * (fee.fill levels stake).1 ≤ (fee.fill levels stake).2 := by
  induction levels generalizing stake with
  | nil => simp [FeeModel.fill]
  | cons lv rest ih =>
    have price := fee.allInPrice_pos lv
    have first := above lv List.mem_cons_self
    have deeper := ih fun lv mem => above lv (List.mem_cons_of_mem _ mem)
    rcases le_or_gt stake (depthEps : ℝ) with done | left
    · simp [fee.fill_of_done _ done]
    · have spend : 0 ≤ stake := (depthEps_pos.trans left).le
      rcases fee.fill_cons lv rest left with ⟨-, bought⟩ | ⟨-, bought⟩
      · rw [bought]
        calc chp * (stake / fee.allInPrice lv.price)
            ≤ fee.allInPrice lv.price * (stake / fee.allInPrice lv.price) :=
              mul_le_mul_of_nonneg_right first (div_nonneg spend price.le)
          _ = stake := mul_div_cancel₀ _ price.ne'
      · rw [bought]
        have whole := mul_le_mul_of_nonneg_left first lv.size_pos.le
        have others := deeper (stake - lv.size * fee.allInPrice lv.price)
        simp only
        linarith

theorem FeeModel.fill_excess_mono {chp : ℝ} (above : ∀ lv ∈ levels, chp ≤ fee.allInPrice lv.price)
    (le : stake ≤ more) : (fee.fill levels stake).2 - chp * (fee.fill levels stake).1 ≤
      (fee.fill levels more).2 - chp * (fee.fill levels more).1 := by
  induction levels generalizing stake more with
  | nil => simp [FeeModel.fill]
  | cons lv rest ih =>
    have price := fee.allInPrice_pos lv
    have first := sub_nonneg.mpr (above lv List.mem_cons_self)
    have aboveRest : ∀ lv ∈ rest, chp ≤ fee.allInPrice lv.price := fun lv mem =>
      above lv (List.mem_cons_of_mem _ mem)
    rcases le_or_gt stake (depthEps : ℝ) with done | left
    · have least := fee.mul_fill_le above more
      rw [fee.fill_of_done _ done]
      linarith
    · -- The last level for the stake is paid in proportion; otherwise both stakes take it whole.
      rcases fee.fill_cons lv rest left with ⟨last, bought⟩ | ⟨deeper, bought⟩
      · have excess : stake - chp * (stake / fee.allInPrice lv.price) =
            (fee.allInPrice lv.price - chp) * (stake / fee.allInPrice lv.price) := by
          rw [sub_mul, mul_div_cancel₀ _ price.ne']
        rcases fee.fill_cons lv rest (left.trans_le le) with ⟨-, more_bought⟩ | ⟨-, more_bought⟩
        · have proportion : stake / fee.allInPrice lv.price ≤ more / fee.allInPrice lv.price := by
            gcongr
          have paid := mul_le_mul_of_nonneg_left proportion first
          rw [sub_mul _ _ (more / fee.allInPrice lv.price), mul_div_cancel₀ _ price.ne'] at paid
          rw [bought, more_bought]
          linarith
        · have hle : stake / fee.allInPrice lv.price ≤ lv.size := (div_le_iff₀ price).mpr last
          have paid := mul_le_mul_of_nonneg_left hle first
          have others := fee.mul_fill_le aboveRest (more - lv.size * fee.allInPrice lv.price)
          rw [bought, more_bought]
          linarith
      · rcases fee.fill_cons lv rest (left.trans_le le) with ⟨last, -⟩ | ⟨-, more_bought⟩
        · linarith
        · have others := ih aboveRest (sub_le_sub_right le (lv.size * fee.allInPrice lv.price))
          rw [bought, more_bought]
          linarith

theorem FeeModel.fill_average_mono
    (asc : levels.Pairwise fun cheaper dear =>
        fee.allInPrice cheaper.price ≤ fee.allInPrice dear.price) (le : stake ≤ more) :
    (fee.fill levels stake).2 * (fee.fill levels more).1 ≤
      (fee.fill levels more).2 * (fee.fill levels stake).1 := by
  induction levels generalizing stake more with
  | nil => simp [FeeModel.fill]
  | cons lv rest ih =>
    have price := fee.allInPrice_pos lv
    have aboveRest : ∀ other ∈ rest, fee.allInPrice lv.price ≤ fee.allInPrice other.price :=
      fun other =>
      List.rel_of_pairwise_cons asc
    have above : ∀ other ∈ lv :: rest, fee.allInPrice lv.price ≤ fee.allInPrice other.price := by
      intro other mem
      rcases List.mem_cons.mp mem with rfl | deeper
      · exact le_rfl
      · exact aboveRest other deeper
    rcases le_or_gt stake (depthEps : ℝ) with done | left
    · simp [fee.fill_of_done _ done]
    · have spend : 0 ≤ stake := (depthEps_pos.trans left).le
      rcases fee.fill_cons lv rest left with ⟨-, bought⟩ | ⟨deeper, bought⟩
      · have least :=
          mul_le_mul_of_nonneg_left (fee.mul_fill_le above more) (div_nonneg spend price.le)
        rw [bought]
        calc stake * (fee.fill (lv :: rest) more).1
            = stake / fee.allInPrice lv.price *
              (fee.allInPrice lv.price * (fee.fill (lv :: rest) more).1) := by
              rw [← mul_assoc, div_mul_cancel₀ _ price.ne']
          _ ≤ stake / fee.allInPrice lv.price * (fee.fill (lv :: rest) more).2 := least
          _ = _ := mul_comm _ _
      · rcases fee.fill_cons lv rest (left.trans_le le) with ⟨last, -⟩ | ⟨-, more_bought⟩
        · linarith
        · have less := sub_le_sub_right le (lv.size * fee.allInPrice lv.price)
          have others := ih asc.of_cons less
          have excess :=
            mul_le_mul_of_nonneg_left (fee.fill_excess_mono aboveRest less) lv.size_pos.le
          rw [bought, more_bought]
          nlinarith

variable {curve : ExecutableCostCurve ℝ} {cost : ℝ}

theorem ExecutableCostCurve.walkForStake_eq_ok {walked : StakeWalk ℝ} :
    curve.walkForStake stake fee = .ok walked ↔
      0 < stake ∧
      stake - (fee.fill curve.levels stake).2 ≤ (depthEps : ℝ) ∧
      curve.minOrderSize - (depthEps : ℝ) ≤ (fee.fill curve.levels stake).1 ∧
      fee.walkLevels curve.levels ⟨stake, 0, 0, 0⟩ = walked := by
  obtain ⟨rem, shares, -⟩ := fee.walkLevels_eq curve.levels ⟨stake, 0, 0, 0⟩
  rw [zero_add] at shares
  simp only [walkForStake, rem, shares]
  split_ifs with refused shallow short
  · simp [refused.not_gt]
  · simp [shallow.not_ge]
  · simp [short.not_ge]
  · simp [not_le.mp refused, not_lt.mp shallow, not_lt.mp short]

theorem ExecutableCostCurve.avgCost_eq_ok :
    curve.avgCost stake false = .ok cost ↔
      0 < stake ∧
      stake - (curve.feeModel.fill curve.levels stake).2 ≤ (depthEps : ℝ) ∧
      curve.minOrderSize - (depthEps : ℝ) ≤ (curve.feeModel.fill curve.levels stake).1 ∧
      (curve.feeModel.fill curve.levels stake).1 ≠ 0 ∧
      cost = (curve.feeModel.fill curve.levels stake).2 /
          (curve.feeModel.fill curve.levels stake).1 := by
  obtain ⟨-, shares, dollars⟩ := curve.feeModel.walkLevels_eq curve.levels ⟨stake, 0, 0, 0⟩
  rw [zero_add] at shares dollars
  constructor
  · intro hdef
    unfold avgCost at hdef
    split at hdef
    · cases hdef
    · next wkd isWalk =>
      obtain ⟨pos, spent, enough, rfl⟩ := walkForStake_eq_ok.mp isWalk
      rw [effectiveFeeModel, if_neg Bool.false_ne_true] at *
      simp only [shares, dollars] at hdef
      split_ifs at hdef with hno outside
      cases hdef
      exact ⟨pos, spent, enough, hno, rfl⟩
  · rintro ⟨pos, spent, enough, hpos, rfl⟩
    have isWalk := walkForStake_eq_ok.mpr ⟨pos, spent, enough, rfl⟩
    have hin : ¬ ((curve.feeModel.fill curve.levels stake).2 /
            (curve.feeModel.fill curve.levels stake).1 < 0 ∨
        1 < (curve.feeModel.fill curve.levels stake).2 /
            (curve.feeModel.fill curve.levels stake).1) := by
      rcases curve.feeModel.fill_cases curve.levels stake with hno | ⟨filled, paid, less⟩
      · exact absurd (congrArg Prod.fst hno) hpos
      · have low := div_pos paid filled
        have high := (div_lt_one filled).mpr less
        rintro (negative | large) <;> linarith
    simp only [avgCost, effectiveFeeModel, if_neg Bool.false_ne_true, isWalk, shares, dollars,
      if_neg hpos, if_neg hin]

theorem ExecutableCostCurve.avgCost_mem (hdef : curve.avgCost stake false = .ok cost) :
    0 < cost ∧ cost < 1 := by
  obtain ⟨-, -, -, hpos, rfl⟩ := avgCost_eq_ok.mp hdef
  rcases curve.feeModel.fill_cases curve.levels stake with hno | ⟨shares, dollars, less⟩
  · exact absurd (congrArg Prod.fst hno) hpos
  · exact ⟨div_pos dollars shares, (div_lt_one shares).mpr less⟩

theorem ExecutableCostCurve.allIn_ascending (curve : ExecutableCostCurve ℝ) :
    curve.levels.Pairwise fun cheaper dearer =>
      curve.feeModel.allInPrice cheaper.price ≤ curve.feeModel.allInPrice dearer.price :=
  curve.cheapestFirst.imp fun {_ dearer} le =>
    curve.feeModel.allInPrice_mono le dearer.price_lt_one.le

theorem ExecutableCostCurve.avgCost_mono {dearer : ℝ} (hdef : curve.avgCost stake false = .ok cost)
    (moreDefined : curve.avgCost more false = .ok dearer) (le : stake ≤ more) : cost ≤ dearer := by
  obtain ⟨-, -, -, hpos, rfl⟩ := avgCost_eq_ok.mp hdef
  obtain ⟨-, -, -, moreSome, rfl⟩ := avgCost_eq_ok.mp moreDefined
  rw [div_le_div_iff₀ (curve.feeModel.fill_shares_pos hpos)
      (curve.feeModel.fill_shares_pos moreSome)]
  exact curve.feeModel.fill_average_mono curve.allIn_ascending le
end

end Zeus.CostCurve
