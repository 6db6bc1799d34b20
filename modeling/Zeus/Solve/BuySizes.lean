import Zeus.Lib.Grid
import Zeus.Solve.SingleOrder

/-! A BUY is a limit order at the deepest ask it consumes: it has to be worth the venue's minimum at
that price, and cash has to cover it there, fee included. Decimals are exact rationals. -/

namespace Zeus.SingleOrder

open CostCurve

def sizeQuantum : ℚ := 1 / 100

/-- `POLYMARKET_MARKETABLE_BUY_MIN_NOTIONAL_USD`. -/
def marketableBuyMinNotionalUsd : ℚ := 1

theorem sizeQuantum_pos : 0 < sizeQuantum := by norm_num [sizeQuantum]

/-- The loop of `_single_order_max_shares`. -/
def maxSharesLoop (fee : FeeModel ℚ) (spendLimit : ℚ) : List (BookLevel ℚ) → ℚ → ℚ → ℚ
  | [], _, shares => shares
  | level :: rest, priorCumulative, shares =>
    let cumulative := priorCumulative + level.size
    let affordableAtLimit := spendLimit / fee.allInPrice level.price
    if affordableAtLimit < priorCumulative then shares
    else
      let shares := min cumulative affordableAtLimit
      if shares < cumulative then shares else maxSharesLoop fee spendLimit rest cumulative shares

def singleOrderMaxShares (curve : ExecutableCostCurve ℚ) (spendLimit : ℚ) (quantize : Bool) : ℚ :=
  let shares := maxSharesLoop curve.feeModel spendLimit curve.levels 0 0
  if quantize then Grid.floorTo sizeQuantum shares else shares

/-- The smallest size of the grid that a level admits: worth the minimum at its price, and past its
start. -/
def requiredAt (level : BookLevel ℚ) (levelStart : ℚ) : ℚ :=
  let required := Grid.ceilTo sizeQuantum
    (max (max sizeQuantum (marketableBuyMinNotionalUsd / level.price)) levelStart)
  if 0 < levelStart ∧ required ≤ levelStart then required + sizeQuantum else required

/-- The loop of `_single_order_min_marketable_shares`. -/
def minMarketableLoop : List (BookLevel ℚ) → ℚ → Option ℚ
  | [], _ => none
  | level :: rest, levelStart =>
    let levelEnd := levelStart + level.size
    if requiredAt level levelStart ≤ levelEnd then some (requiredAt level levelStart)
    else minMarketableLoop rest levelEnd

def singleOrderMinMarketableShares (curve : ExecutableCostCurve ℚ) : Option ℚ :=
  minMarketableLoop curve.levels 0

def liveUnitPriceInBand (price : ℚ) : Prop := 5 / 100 ≤ price ∧ price ≤ 95 / 100

instance (price : ℚ) : Decidable (liveUnitPriceInBand price) := inferInstanceAs (Decidable (_ ∧ _))

inductive BoundaryError where
  | sharesNotPositive | outsideLiveBand | exceedsExecutableDepth
  deriving DecidableEq

structure BoundaryWalk where
  remaining : ℚ
  limitPrice : Option ℚ := none
  rawCost : ℚ := 0

/-- The loop of `_single_order_execution_boundary`. -/
def boundaryLoop (enforceLiveFillBand : Bool) :
    List (BookLevel ℚ) → BoundaryWalk → Except BoundaryError BoundaryWalk
  | [], walk => .ok walk
  | level :: rest, walk =>
    let take := min level.size walk.remaining
    if 0 < take ∧ enforceLiveFillBand = true ∧ ¬ liveUnitPriceInBand level.price then
      .error .outsideLiveBand
    else
      let walk : BoundaryWalk :=
        if 0 < take then
          ⟨walk.remaining - take, some level.price, walk.rawCost + take * level.price⟩
        else walk
      if walk.remaining ≤ shareEps then .ok walk else boundaryLoop enforceLiveFillBand rest walk

structure ExecutionBoundary where
  (limitPrice rawVwap maxSpendUsd : ℚ)

def singleOrderExecutionBoundary (curve : ExecutableCostCurve ℚ) (shares : ℚ)
    (enforceLiveFillBand : Bool) : Except BoundaryError ExecutionBoundary :=
  if shares ≤ 0 then .error .sharesNotPositive
  else
    match boundaryLoop enforceLiveFillBand curve.levels { remaining := shares } with
    | .error error => .error error
    | .ok walk =>
      match walk.limitPrice with
      | none => .error .exceedsExecutableDepth
      | some limitPrice =>
        if shareEps < walk.remaining then .error .exceedsExecutableDepth
        else .ok ⟨limitPrice, walk.rawCost / shares, shares * curve.feeModel.allInPrice limitPrice⟩

def reachedLevel (tolerance : ℚ) : List (BookLevel ℚ) → ℚ → Option (BookLevel ℚ)
  | [], _ => none
  | level :: rest, shares =>
    if shares - level.size ≤ tolerance then some level
    else reachedLevel tolerance rest (shares - level.size)

def depth (levels : List (BookLevel ℚ)) : ℚ := (levels.map BookLevel.size).sum

section
variable {fee : FeeModel ℚ} {levels rest : List (BookLevel ℚ)} {level : BookLevel ℚ}
  {tolerance shares : ℚ}

theorem depth_cons (level : BookLevel ℚ) (rest : List (BookLevel ℚ)) :
    depth (level :: rest) = level.size + depth rest :=
  List.sum_cons

theorem reachedLevel_here (close : shares - level.size ≤ tolerance) :
    reachedLevel tolerance (level :: rest) shares = some level := if_pos close

theorem reachedLevel_later (far : tolerance < shares - level.size) :
    reachedLevel tolerance (level :: rest) shares =
      reachedLevel tolerance rest (shares - level.size) :=
  if_neg (not_le.mpr far)

theorem reachedLevel_mem (hr : reachedLevel tolerance levels shares = some level) :
    level ∈ levels := by
  induction levels generalizing shares with
  | nil => exact absurd hr (by simp [reachedLevel])
  | cons first rest ih =>
    rw [reachedLevel] at hr
    split_ifs at hr
    · exact Option.some.inj hr ▸ List.mem_cons_self
    · exact List.mem_cons_of_mem _ (ih hr)

theorem exists_reachedLevel (nn : 0 ≤ tolerance) (pos : 0 < shares) (fits : shares ≤ depth levels) :
    ∃ level, reachedLevel tolerance levels shares = some level := by
  induction levels generalizing shares with
  | nil => exact absurd fits (not_le.mpr pos)
  | cons first rest ih =>
    rw [reachedLevel]
    split_ifs with close
    · exact ⟨first, rfl⟩
    · rw [depth_cons] at fits
      exact ih (by linarith) (by linarith)

theorem reachedLevel_price_le (asc : levels.Pairwise fun cheaper dear => cheaper.price ≤ dear.price)
    {larger : ℚ} (le : tolerance ≤ larger) {early : BookLevel ℚ}
    (hr : reachedLevel tolerance levels shares = some level)
    (isEarly : reachedLevel larger levels shares = some early) : early.price ≤ level.price := by
  induction levels generalizing shares with
  | nil => exact absurd hr (by simp [reachedLevel])
  | cons first rest ih =>
    rw [reachedLevel] at hr isEarly
    split_ifs at isEarly with close
    · obtain rfl := Option.some.inj isEarly
      split_ifs at hr
      · exact (Option.some.inj hr) ▸ le_rfl
      · exact List.rel_of_pairwise_cons asc (reachedLevel_mem hr)
    · rw [if_neg fun hle => close (hle.trans le)] at hr
      exact ih asc.of_cons hr isEarly

theorem reachedLevel_eq {larger : ℚ} (le : tolerance ≤ larger)
    (clear : ∀ front, front ≠ [] → front <+: levels → shares - depth front ≤ larger →
        shares - depth front ≤ tolerance) :
    reachedLevel larger levels shares = reachedLevel tolerance levels shares := by
  induction levels generalizing shares with
  | nil => rfl
  | cons first rest ih =>
    have here : shares - first.size ≤ larger ↔ shares - first.size ≤ tolerance := by
      refine ⟨fun close => ?_, fun close => close.trans le⟩
      have single := clear [first] (by simp) ⟨rest, rfl⟩
      rw [depth, List.map_singleton, List.sum_singleton] at single
      exact single close
    rw [reachedLevel, reachedLevel]
    refine if_ctx_congr here (fun _ => rfl) fun _ => ih fun front ne isFront close => ?_
    have longer := clear (first :: front) (by simp) (List.prefix_cons_inj first |>.mpr isFront)
    rw [depth_cons, ← sub_sub] at longer
    exact longer close
end

section
variable {level : BookLevel ℚ} {start shares : ℚ}

theorem requiredAt_le_iff (grid : Grid.On sizeQuantum shares) (pos : 0 < shares)
    (past : start < shares) :
    requiredAt level start ≤ shares ↔ marketableBuyMinNotionalUsd ≤ level.price * shares := by
  have worth : marketableBuyMinNotionalUsd / level.price ≤ shares ↔
      marketableBuyMinNotionalUsd ≤ level.price * shares := div_le_iff₀' level.price_pos
  have base : Grid.ceilTo sizeQuantum
      (max (max sizeQuantum (marketableBuyMinNotionalUsd / level.price)) start) ≤ shares ↔
      marketableBuyMinNotionalUsd ≤ level.price * shares := by
    rw [Grid.ceilTo_le_iff sizeQuantum_pos grid, max_le_iff, max_le_iff, worth]
    exact ⟨fun all => all.1.2,
      fun enough => ⟨⟨grid.quantum_le sizeQuantum_pos pos, enough⟩, past.le⟩⟩
  unfold requiredAt
  dsimp only
  split_ifs with atStart
  · -- the level begins on the grid and past the minimum
    have below := atStart.2.trans_lt past
    exact ⟨fun _ => base.mp below.le,
      fun _ => ((Grid.on_ceilTo _ _).add_le_iff sizeQuantum_pos grid).mpr below⟩
  · exact base

theorem requiredAt_worth (level : BookLevel ℚ) (start : ℚ) :
    marketableBuyMinNotionalUsd ≤ level.price * requiredAt level start := by
  have enough : marketableBuyMinNotionalUsd / level.price ≤ requiredAt level start := by
    have base := (le_max_right sizeQuantum (marketableBuyMinNotionalUsd / level.price)).trans
      ((le_max_left _ start).trans (Grid.le_ceilTo sizeQuantum_pos _))
    unfold requiredAt
    dsimp only
    split_ifs
    · exact base.trans (le_add_of_nonneg_right sizeQuantum_pos.le)
    · exact base
  exact (div_le_iff₀' level.price_pos).mp enough

theorem lt_requiredAt (nn : 0 ≤ start) : start < requiredAt level start := by
  have base := (le_max_right (max sizeQuantum (marketableBuyMinNotionalUsd / level.price))
      start).trans (Grid.le_ceilTo sizeQuantum_pos _)
  unfold requiredAt
  dsimp only
  split_ifs with atStart
  · exact base.trans_lt (lt_add_of_pos_right _ sizeQuantum_pos)
  · rcases nn.eq_or_lt with rfl | pos
    · exact sizeQuantum_pos.trans_le
        ((le_max_left _ _).trans ((le_max_left _ _).trans (Grid.le_ceilTo sizeQuantum_pos _)))
    · exact lt_of_not_ge fun hle => atStart ⟨pos, hle⟩
end

section
variable {fee : FeeModel ℚ} {levels : List (BookLevel ℚ)} {start shares size spendLimit : ℚ}

theorem allInPrice_le_of_cons {level deeper : BookLevel ℚ} {rest : List (BookLevel ℚ)}
    (asc : (level :: rest).Pairwise fun cheaper dear => cheaper.price ≤ dear.price)
    (mem : deeper ∈ rest) : fee.allInPrice level.price ≤ fee.allInPrice deeper.price :=
  fee.allInPrice_mono (List.rel_of_pairwise_cons asc mem) deeper.price_lt_one.le

theorem le_maxSharesLoop (hle : size ≤ start) :
    size ≤ maxSharesLoop fee spendLimit levels start size := by
  induction levels generalizing start size with
  | nil => exact le_rfl
  | cons level rest ih =>
    have further : size ≤ start + level.size := hle.trans (le_add_of_nonneg_right level.size_pos.le)
    rw [maxSharesLoop]
    dsimp only
    split_ifs with short cut
    · exact le_rfl
    · exact le_min further (hle.trans (not_lt.mp short))
    · exact (le_min further (hle.trans (not_lt.mp short))).trans (ih (min_le_left _ _))

theorem le_maxSharesLoop_iff (asc : levels.Pairwise fun cheaper dear => cheaper.price ≤ dear.price)
    (nn : 0 ≤ start) (hle : size ≤ start) (past : start < shares) :
    shares ≤ maxSharesLoop fee spendLimit levels start size ↔
      ∃ level, reachedLevel 0 levels (shares - start) = some level ∧
      fee.allInPrice level.price * shares ≤ spendLimit := by
  induction levels generalizing start size with
  | nil => simpa [maxSharesLoop, reachedLevel] using hle.trans_lt past
  | cons level rest ih =>
    have price := fee.allInPrice_pos level
    have afford : shares ≤ spendLimit / fee.allInPrice level.price ↔
        fee.allInPrice level.price * shares ≤ spendLimit :=
      le_div_iff₀' price
    -- a deeper level asks for at least as much
    have deeper {other : BookLevel ℚ}
      (hr : reachedLevel 0 rest (shares - start - level.size) = some other)
        (cov : fee.allInPrice other.price * shares ≤ spendLimit) :
        shares ≤ spendLimit / fee.allInPrice level.price := by
      refine afford.mpr (le_trans ?_ cov)
      exact mul_le_mul_of_nonneg_right (allInPrice_le_of_cons asc (reachedLevel_mem hr))
        (nn.trans past.le)
    rw [maxSharesLoop]
    dsimp only
    rcases le_or_gt shares (start + level.size) with here | hbe
    · rw [reachedLevel_here (by linarith)]
      simp only [Option.some.injEq, exists_eq_left', ← afford]
      split_ifs with short cut
      · exact ⟨fun le => by linarith, fun le => by linarith⟩
      · rw [le_min_iff]
        exact ⟨And.right, fun le => ⟨here, le⟩⟩
      · have whole : start + level.size ≤ spendLimit / fee.allInPrice level.price :=
          (not_lt.mp cut).trans (min_le_right _ _)
        rw [min_eq_left whole]
        exact ⟨fun _ => here.trans whole, fun _ => here.trans (le_maxSharesLoop le_rfl)⟩
    · rw [reachedLevel_later (by linarith)]
      split_ifs with short cut
      · refine ⟨fun le => by linarith, ?_⟩
        rintro ⟨other, hr, cov⟩
        linarith [deeper hr cov]
      · refine ⟨fun le => by linarith, ?_⟩
        rintro ⟨other, hr, cov⟩
        have enough := deeper hr cov
        exact absurd cut (not_lt.mpr (le_min le_rfl (hbe.le.trans enough)))
      · rw [sub_sub]
        exact ih asc.of_cons (by linarith [level.size_pos]) (min_le_left _ _) hbe

theorem lt_minMarketableLoop {least : ℚ} (nn : 0 ≤ start)
    (is : minMarketableLoop levels start = some least) : start < least := by
  induction levels generalizing start with
  | nil => exact absurd is (by simp [minMarketableLoop])
  | cons level rest ih =>
    rw [minMarketableLoop] at is
    split_ifs at is
    · exact Option.some.inj is ▸ lt_requiredAt nn
    · have size := level.size_pos
      linarith [ih (by linarith) is]

theorem minMarketableLoop_le_iff
    (asc : levels.Pairwise fun cheaper dear => cheaper.price ≤ dear.price) (nn : 0 ≤ start)
    (grid : Grid.On sizeQuantum shares) (past : start < shares)
    (fits : shares ≤ start + depth levels) :
    (∃ least, minMarketableLoop levels start = some least ∧ least ≤ shares) ↔
      ∃ level, reachedLevel 0 levels (shares - start) = some level ∧
        marketableBuyMinNotionalUsd ≤ level.price * shares := by
  induction levels generalizing start with
  | nil => exact absurd fits (by simpa [depth] using past)
  | cons level rest ih =>
    have size := level.size_pos
    have pos := nn.trans_lt past
    rw [depth_cons] at fits
    rw [minMarketableLoop]
    rcases le_or_gt shares (start + level.size) with here | hbe
    · rw [reachedLevel_here (by linarith)]
      simp only [Option.some.injEq, exists_eq_left', ← requiredAt_le_iff grid pos past]
      split_ifs with hf
      · simp
      · refine ⟨?_, fun le => absurd (le.trans here) hf⟩
        rintro ⟨least, is, le⟩
        linarith [lt_minMarketableLoop (by linarith) is]
    · rw [reachedLevel_later (by linarith)]
      split_ifs with hf
      · refine ⟨fun _ => ?_, fun _ => ⟨_, rfl, hf.trans hbe.le⟩⟩
        obtain ⟨deeper, hr⟩ := exists_reachedLevel le_rfl (sub_pos.mpr hbe)
          (show shares - (start + level.size) ≤ depth rest by linarith)
        rw [← sub_sub] at hr
        refine ⟨deeper, hr, (requiredAt_worth level start).trans ?_⟩
        exact mul_le_mul (List.rel_of_pairwise_cons asc (reachedLevel_mem hr)) (hf.trans hbe.le)
          (nn.trans (lt_requiredAt nn).le) deeper.price_pos.le
      · rw [sub_sub]
        exact ih asc.of_cons (by linarith) hbe (by linarith)
end

theorem shareEps_pos : 0 < shareEps := by norm_num [shareEps]

theorem boundaryLoop_reached {levels : List (BookLevel ℚ)} {walk : BoundaryWalk}
    {level : BookLevel ℚ} (left : 0 < walk.remaining)
    (hr : reachedLevel shareEps levels walk.remaining = some level) :
    ∃ rem rawCost, rem ≤ shareEps ∧
      boundaryLoop false levels walk = .ok ⟨rem, some level.price, rawCost⟩ := by
  induction levels generalizing walk with
  | nil => exact absurd hr (by simp [reachedLevel])
  | cons first rest ih =>
    have takes : 0 < min first.size walk.remaining := lt_min first.size_pos left
    simp only [boundaryLoop, Bool.false_eq_true, false_and, and_false, if_false, if_pos takes]
    rcases le_or_gt (walk.remaining - first.size) shareEps with close | far
    · rw [reachedLevel_here close] at hr
      obtain rfl := Option.some.inj hr
      have ends : walk.remaining - min first.size walk.remaining ≤ shareEps := by
        rcases le_total first.size walk.remaining with whole | part
        · rwa [min_eq_left whole]
        · rw [min_eq_right part, sub_self]
          exact shareEps_pos.le
      rw [if_pos ends]
      exact ⟨_, _, ends, rfl⟩
    · rw [reachedLevel_later far] at hr
      have whole : first.size ≤ walk.remaining := by linarith [shareEps_pos]
      rw [min_eq_left whole, if_neg (not_le.mpr far)]
      exact @ih ⟨_, _, _⟩ (shareEps_pos.trans far) hr

theorem executionBoundary_limitPrice {curve : ExecutableCostCurve ℚ} {shares : ℚ}
    {level : BookLevel ℚ} (pos : 0 < shares)
    (hr : reachedLevel shareEps curve.levels shares = some level) :
    ∃ bnd, singleOrderExecutionBoundary curve shares false = .ok bnd ∧
      bnd.limitPrice = level.price := by
  obtain ⟨remaining, rawCost, ends, is⟩ :=
    @boundaryLoop_reached curve.levels { remaining := shares } level pos hr
  rw [singleOrderExecutionBoundary, if_neg (not_le.mpr pos), is]
  simp only [if_neg (not_lt.mpr ends)]
  exact ⟨_, rfl, rfl⟩

def ExecutableAt (curve : ExecutableCostCurve ℚ) (spendLimit shares limit : ℚ) : Prop :=
  marketableBuyMinNotionalUsd ≤ limit * shares ∧
  curve.feeModel.allInPrice limit * shares ≤ spendLimit

def BetweenBounds (curve : ExecutableCostCurve ℚ) (spendLimit shares : ℚ) : Prop :=
  ∃ least, singleOrderMinMarketableShares curve = some least ∧
    least ≤ shares ∧
    shares ≤ singleOrderMaxShares curve spendLimit true

theorem betweenBounds_iff {curve : ExecutableCostCurve ℚ} {spendLimit shares : ℚ}
    {deepest : BookLevel ℚ} (grid : Grid.On sizeQuantum shares) (pos : 0 < shares)
    (fits : shares ≤ depth curve.levels) (hr : reachedLevel 0 curve.levels shares = some deepest) :
    BetweenBounds curve spendLimit shares ↔ ExecutableAt curve spendLimit shares deepest.price := by
  have least := minMarketableLoop_le_iff curve.cheapestFirst le_rfl grid pos (by simpa using fits)
  have largest := @le_maxSharesLoop_iff curve.feeModel curve.levels 0 shares 0 spendLimit
    curve.cheapestFirst le_rfl le_rfl pos
  rw [sub_zero, hr] at least largest
  simp only [Option.some.injEq, exists_eq_left'] at least largest
  rw [ExecutableAt, ← least, ← largest, BetweenBounds, singleOrderMaxShares, if_pos rfl]
  simp only [Grid.le_floorTo_iff sizeQuantum_pos grid, ← and_assoc, exists_and_right]
  rfl

/-- The bounds enclose the sizes executable at their deepest price. The boundary reports the price
of the level reached within the tolerance, which is the deepest unless a level ends below the size
by at most the tolerance; the sizes executable at it are those between the bounds exactly when the
two prices do not fall on two sides of a bound. -/
theorem executable_sizes_between_bounds_iff (curve : ExecutableCostCurve ℚ) (spendLimit shares : ℚ)
    (grid : Grid.On sizeQuantum shares) (pos : 0 < shares)
    (fits : shares ≤ depth curve.levels) :
    ∃ bnd early deepest,
      singleOrderExecutionBoundary curve shares false = .ok bnd ∧
      reachedLevel shareEps curve.levels shares = some early ∧
      bnd.limitPrice = early.price ∧
      reachedLevel 0 curve.levels shares = some deepest ∧
      (BetweenBounds curve spendLimit shares ↔ ExecutableAt curve spendLimit shares deepest.price) ∧
      ((∀ front, front ≠ [] → front <+: curve.levels →
          shares - depth front ≤ shareEps → shares ≤ depth front) →
        early.price = deepest.price) ∧
      ((ExecutableAt curve spendLimit shares bnd.limitPrice ↔
          BetweenBounds curve spendLimit shares) ↔
        ¬ (early.price * shares < marketableBuyMinNotionalUsd ∧
          ExecutableAt curve spendLimit shares deepest.price) ∧
        ¬ (ExecutableAt curve spendLimit shares early.price ∧
          spendLimit < curve.feeModel.allInPrice deepest.price * shares)) := by
  obtain ⟨deepest, hr⟩ := exists_reachedLevel le_rfl pos fits
  obtain ⟨early, isEarly⟩ := exists_reachedLevel shareEps_pos.le pos fits
  obtain ⟨bnd, isBoundary, isLimit⟩ := executionBoundary_limitPrice pos isEarly
  have between := @betweenBounds_iff curve spendLimit shares deepest grid pos fits hr
  have le : early.price ≤ deepest.price :=
    reachedLevel_price_le curve.cheapestFirst shareEps_pos.le hr isEarly
  refine ⟨bnd, early, deepest, isBoundary, isEarly, isLimit, hr, between, fun clear => ?_, ?_⟩
  · have same :=
      @reachedLevel_eq curve.levels 0 shares shareEps shareEps_pos.le fun front ne isFront close =>
      sub_nonpos.mpr (clear front ne isFront close)
    rw [isEarly, hr] at same
    rw [Option.some.inj same]
  · -- a lower limit is worth less and asks for less cash
    have worth : early.price * shares ≤ deepest.price * shares :=
      mul_le_mul_of_nonneg_right le pos.le
    have cash : curve.feeModel.allInPrice early.price * shares ≤
        curve.feeModel.allInPrice deepest.price * shares :=
      mul_le_mul_of_nonneg_right (curve.feeModel.allInPrice_mono le deepest.price_lt_one.le) pos.le
    rw [between, isLimit]
    unfold ExecutableAt
    constructor
    · intro agree
      refine ⟨fun ⟨low, enough⟩ => ?_, fun ⟨enough, dear⟩ => ?_⟩
      · exact absurd (agree.mpr enough).1 (not_le.mpr low)
      · exact absurd (agree.mp enough).2 (not_le.mpr dear)
    · rintro ⟨noneLow, noneDear⟩
      refine ⟨fun enough => ⟨enough.1.trans worth, ?_⟩, fun enough => ⟨?_, cash.trans enough.2⟩⟩
      · exact not_lt.mp fun dear => noneDear ⟨enough, dear⟩
      · exact not_lt.mp fun low => noneLow ⟨low, enough⟩

def noFee : FeeModel ℚ := ⟨0, le_rfl, zero_lt_one⟩

def twoLevels (size : ℚ) (positive : 0 < size) : ExecutableCostCurve ℚ where
  levels := [⟨6 / 10, size, by norm_num, by norm_num, positive⟩,
    ⟨7 / 10, 5, by norm_num, by norm_num, by norm_num⟩]
  feeModel := noFee
  minTick := 1 / 100
  minOrderSize := 5
  levels_ne_nil := List.cons_ne_nil _ _
  minTick_pos := by norm_num
  minOrderSize_pos := by norm_num
  onGrid := by
    simp only [List.forall_mem_cons]
    exact ⟨⟨60, by norm_num [gridEps]⟩, ⟨70, by norm_num [gridEps]⟩, by simp⟩
  cheapestFirst := by
    simp only [List.pairwise_cons, List.mem_singleton, forall_eq]
    norm_num

/-- Three shares of which the third costs 70 cents, with cash for them. -/
theorem three_shares_between_bounds : BetweenBounds (twoLevels 2 (by norm_num)) 3 3 ∧
      ∃ bnd deepest, singleOrderExecutionBoundary (twoLevels 2 (by norm_num)) 3 false = .ok bnd ∧
      reachedLevel 0 (twoLevels 2 (by norm_num)).levels 3 = some deepest ∧
      (BetweenBounds (twoLevels 2 (by norm_num)) 3 3 ↔
      ExecutableAt (twoLevels 2 (by norm_num)) 3 3 deepest.price) := by
  refine ⟨⟨167 / 100, by decide +kernel, by decide +kernel, by decide +kernel⟩, ?_⟩
  obtain ⟨bnd, -, deepest, isBoundary, -, -, hr, between, -⟩ :=
    executable_sizes_between_bounds_iff (twoLevels 2 (by norm_num)) 3 3
      ⟨300, by norm_num [sizeQuantum]⟩ (by norm_num) (by decide +kernel)
  exact ⟨bnd, deepest, isBoundary, hr, between⟩

/-- The first level ends a tenth of the tolerance below two shares: the boundary reports 60 cents,
at which $1.30 would do, and the largest size is 1.99. -/
theorem reported_limit_past_max_shares :
    ((singleOrderExecutionBoundary (twoLevels (2 - 1 / 10 ^ 19) (by norm_num)) 2 false).toOption.map
        ExecutionBoundary.limitPrice) = some (6 / 10) ∧
    ExecutableAt (twoLevels (2 - 1 / 10 ^ 19) (by norm_num)) (13 / 10) 2 (6 / 10) ∧
    2 ≤ depth (twoLevels (2 - 1 / 10 ^ 19) (by norm_num)).levels ∧
    singleOrderMaxShares (twoLevels (2 - 1 / 10 ^ 19) (by norm_num)) (13 / 10) true =
      199 / 100 := by
  unfold ExecutableAt
  decide +kernel

end Zeus.SingleOrder
