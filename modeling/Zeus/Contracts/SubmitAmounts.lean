import Zeus.Lib.Decimal
import Zeus.Lib.Grid

/-! An immediate BUY is signed with a maker amount of two decimals and a taker amount of four. The
SDK's arithmetic is taken as exact. -/

namespace Zeus.SubmitAmounts

open DecimalContext (roundHalfEven)

inductive ExecutionDirection where
  | buyYes | buyNo | sellYes | sellNo
  deriving DecidableEq

def ExecutionDirection.isBuy : ExecutionDirection → Bool
  | .buyYes | .buyNo => true
  | .sellYes | .sellNo => false

inductive OrderType where
  | gtc | gtd | fok | fak
  deriving DecidableEq

def OrderType.immediate : OrderType → Bool
  | .fok | .fak => true
  | .gtc | .gtd => false

/-- A tick below one, normalized: no trailing zero in the coefficient. -/
structure TickSize where
  coefficient : ℕ
  /-- `_sdk_price_decimals_for_tick`, the number of decimals. -/
  decimals : ℕ
  normal : ¬ 10 ∣ coefficient

def TickSize.value (tick : TickSize) : ℚ := tick.coefficient / 10 ^ tick.decimals

def HasDecimals (value : ℚ) (decimals : ℕ) : Prop := (value * 10 ^ decimals).den = 1

instance (value : ℚ) (decimals : ℕ) : Decidable (HasDecimals value decimals) :=
  inferInstanceAs (Decidable (_ = _))

def sdkRoundDown (value : ℚ) (decimals : ℕ) : ℚ := ⌊value * 10 ^ decimals⌋ / 10 ^ decimals

def sdkRoundNormal (value : ℚ) (decimals : ℕ) : ℚ :=
  roundHalfEven (value * 10 ^ decimals) / 10 ^ decimals

def sdkRoundUp (value : ℚ) (decimals : ℕ) : ℚ := ⌈value * 10 ^ decimals⌉ / 10 ^ decimals

def sdkMarketSizeDecimals : ℕ := 2

def sdkMakerVenueDecimals : ℕ := 2

def sdkTakerVenueDecimals : ℕ := 4

structure SdkAmounts where
  (rawMaker rawTaker : ℚ)

def sdkMarketBuyMakerTaker (submittedShares finalLimitPrice : ℚ) (tick : TickSize) : SdkAmounts :=
  let amountDecimals := tick.decimals + 2
  let rawPrice := sdkRoundNormal finalLimitPrice tick.decimals
  let rawTaker := sdkRoundDown submittedShares sdkMarketSizeDecimals
  let rawMaker := rawTaker * rawPrice
  if HasDecimals rawMaker amountDecimals then ⟨rawMaker, rawTaker⟩
  else
    let rescued := sdkRoundUp rawMaker (amountDecimals + 4)
    if HasDecimals rescued amountDecimals then ⟨rescued, rawTaker⟩
    else ⟨sdkRoundDown rescued amountDecimals, rawTaker⟩

inductive AmountPrecisionError where
  | takerAmount (submittedShares : ℚ)
  | sdkTakerAmount (submittedShares sdkTaker : ℚ)
  | sdkMakerAmount (finalLimitPrice submittedShares sdkMaker sdkTaker : ℚ)
  deriving DecidableEq

def venueSubmitAmountPrecisionError (direction : ExecutionDirection)
    (finalLimitPrice submittedShares : ℚ) (orderType : OrderType) (tick : TickSize) :
    Option AmountPrecisionError :=
  if direction.isBuy && orderType.immediate then
    let amounts := sdkMarketBuyMakerTaker submittedShares finalLimitPrice tick
    if ¬ HasDecimals submittedShares sdkTakerVenueDecimals then some (.takerAmount submittedShares)
    else if ¬ HasDecimals amounts.rawTaker sdkTakerVenueDecimals then
      some (.sdkTakerAmount submittedShares amounts.rawTaker)
    else if ¬ HasDecimals amounts.rawMaker sdkMakerVenueDecimals then
      some (.sdkMakerAmount finalLimitPrice submittedShares amounts.rawMaker amounts.rawTaker)
    else none
  else none

def shareQuantum : ℚ := 1 / 100

theorem shareQuantum_pos : 0 < shareQuantum := by norm_num [shareQuantum]

def quantizeSubmitShares (direction : ExecutionDirection) (shares : ℚ) : Option ℚ :=
  if shares ≤ 0 then none
  else
    let quantized :=
      if direction.isBuy then Grid.ceilTo shareQuantum shares else Grid.floorTo shareQuantum shares
    if quantized ≤ 0 then none else some quantized

/-- The bounded loop of `quantize_submit_shares_for_venue`. -/
def searchUp (legal : ℚ → Bool) : ℕ → ℚ → Option ℚ
  | 0, _ => none
  | tries + 1, quantized =>
    if legal quantized then some quantized else searchUp legal tries (quantized + shareQuantum)

/-- The loop of `quantize_submit_shares_for_venue_at_most`, down to one quantum. -/
def searchDown (legal : ℚ → Bool) : ℕ → Option ℚ
  | 0 => none
  | units + 1 =>
    if legal ((units + 1 : ℕ) * shareQuantum) then some ((units + 1 : ℕ) * shareQuantum)
    else searchDown legal units

def accepted (direction : ExecutionDirection) (finalLimitPrice : ℚ) (orderType : OrderType)
    (tick : TickSize) (shares : ℚ) : Bool :=
  (venueSubmitAmountPrecisionError direction finalLimitPrice shares orderType tick).isNone

/-- `quantize_submit_shares_for_venue`; nothing where it raises. -/
def quantizeSubmitSharesForVenue (direction : ExecutionDirection) (shares finalLimitPrice : ℚ)
    (orderType : OrderType) (tick : TickSize) : Option ℚ :=
  (quantizeSubmitShares direction shares).bind fun quantized =>
    if direction.isBuy && orderType.immediate then
      searchUp (accepted direction finalLimitPrice orderType tick) 10000 quantized
    else some quantized

/-- `quantize_submit_shares_for_venue_at_most`; nothing where it raises. -/
def quantizeSubmitSharesForVenueAtMost (direction : ExecutionDirection) (shares finalLimitPrice : ℚ)
    (orderType : OrderType) (tick : TickSize) : Option ℚ :=
  if shares ≤ 0 ∨ Grid.floorTo shareQuantum shares ≤ 0 then none
  else if direction.isBuy && orderType.immediate then
    searchDown (accepted direction finalLimitPrice orderType tick) ⌊shares / shareQuantum⌋.toNat
  else some (Grid.floorTo shareQuantum shares)

section
variable {direction : ExecutionDirection} {orderType : OrderType} {tick : TickSize}
  {shares price value : ℚ}

theorem hasDecimals_iff {decimals : ℕ} :
    HasDecimals value decimals ↔ ∃ n : ℤ, value * 10 ^ decimals = n :=
  ⟨fun whole => ⟨_, (Rat.den_eq_one_iff _).mp whole |>.symm⟩,
    fun ⟨n, is⟩ => by rw [HasDecimals, is, Rat.den_intCast]⟩

theorem sdkMarketBuyMakerTaker_exact (grid : Grid.On shareQuantum shares)
    (hal : HasDecimals price tick.decimals) :
    sdkMarketBuyMakerTaker shares price tick = ⟨shares * price, shares⟩ := by
  obtain ⟨units, rfl⟩ := grid
  obtain ⟨ticks, isTicks⟩ := hasDecimals_iff.mp hal
  have scale : (10 : ℚ) ^ tick.decimals ≠ 0 := by positivity
  have exactPrice : sdkRoundNormal price tick.decimals = price := by
    rw [sdkRoundNormal, isTicks, DecimalContext.roundHalfEven_intCast, ← isTicks,
      mul_div_cancel_right₀ _ scale]
  have hundred : units * shareQuantum * 10 ^ sdkMarketSizeDecimals = units := by
    rw [shareQuantum, sdkMarketSizeDecimals]
    ring
  have exactShares : sdkRoundDown (units * shareQuantum) sdkMarketSizeDecimals =
      units * shareQuantum := by
    rw [sdkRoundDown, hundred, Int.floor_intCast, shareQuantum, sdkMarketSizeDecimals]
    ring
  have whole : HasDecimals (units * shareQuantum * price) (tick.decimals + 2) := by
    refine hasDecimals_iff.mpr ⟨units * ticks, ?_⟩
    push_cast
    rw [← isTicks, pow_add, shareQuantum]
    ring
  simp only [sdkMarketBuyMakerTaker, exactPrice, exactShares, if_pos whole]

theorem accepted_iff (buys : direction.isBuy) (immd : orderType.immediate)
    (grid : Grid.On shareQuantum shares) (hal : HasDecimals price tick.decimals) :
    accepted direction price orderType tick shares ↔
      HasDecimals (shares * price) sdkMakerVenueDecimals := by
  have four : HasDecimals shares sdkTakerVenueDecimals := by
    obtain ⟨units, rfl⟩ := grid
    refine hasDecimals_iff.mpr ⟨units * 100, ?_⟩
    rw [shareQuantum, sdkTakerVenueDecimals]
    push_cast
    ring
  simp only [accepted, venueSubmitAmountPrecisionError, buys, immd, Bool.and_self, if_true,
    sdkMarketBuyMakerTaker_exact grid hal, four, not_true, if_false]
  split_ifs with cents
  · simpa using cents
  · simpa using cents

theorem searchUp_some {legal : ℚ → Bool} {tries : ℕ} {start found : ℚ}
    (grid : Grid.On shareQuantum start) (is : searchUp legal tries start = some found) :
    legal found ∧ Grid.On shareQuantum found ∧ start ≤ found := by
  induction tries generalizing start with
  | zero => exact absurd is (by simp [searchUp])
  | succ tries ih =>
    rw [searchUp] at is
    split_ifs at is with here
    · obtain rfl := Option.some.inj is
      exact ⟨here, grid, le_rfl⟩
    · have next : Grid.On shareQuantum (start + shareQuantum) := by
        obtain ⟨units, rfl⟩ := grid
        exact ⟨units + 1, by push_cast; ring⟩
      obtain ⟨isLegal, on, le⟩ := ih next is
      exact ⟨isLegal, on, by linarith [shareQuantum_pos]⟩

theorem searchDown_some {legal : ℚ → Bool} {units : ℕ} {hf : ℚ}
    (is : searchDown legal units = some hf) :
    legal hf ∧ Grid.On shareQuantum hf ∧ 0 < hf ∧ hf ≤ units * shareQuantum := by
  induction units with
  | zero => exact absurd is (by simp [searchDown])
  | succ units ih =>
    rw [searchDown] at is
    split_ifs at is with here
    · obtain rfl := Option.some.inj is
      exact ⟨here, ⟨(units + 1 : ℕ), by push_cast; rfl⟩, mul_pos (by positivity) shareQuantum_pos,
        le_rfl⟩
    · obtain ⟨isLegal, on, pos, le⟩ := ih is
      refine ⟨isLegal, on, pos, le.trans (mul_le_mul_of_nonneg_right ?_ shareQuantum_pos.le)⟩
      exact_mod_cast units.le_succ

theorem quantizeSubmitSharesForVenue_some (buys : direction.isBuy) (immd : orderType.immediate)
    {found : ℚ}
    (is : quantizeSubmitSharesForVenue direction shares price orderType tick = some found) :
    accepted direction price orderType tick found ∧
    Grid.On shareQuantum found ∧
    0 < found ∧
    shares ≤ found := by
  obtain ⟨quantized, isQuantized, srch⟩ := Option.bind_eq_some_iff.mp is
  simp only [quantizeSubmitShares, buys, if_true, Option.ite_none_left_eq_some, Option.some.injEq,
    not_le] at isQuantized
  obtain ⟨pos, hpos, rfl⟩ := isQuantized
  simp only [buys, immd, Bool.and_self, if_true] at srch
  obtain ⟨legal, on, le⟩ := searchUp_some (Grid.on_ceilTo _ _) srch
  exact ⟨legal, on, hpos.trans_le le, (Grid.le_ceilTo shareQuantum_pos shares).trans le⟩

theorem quantizeSubmitSharesForVenueAtMost_some (buys : direction.isBuy)
    (immd : orderType.immediate) {hf : ℚ}
    (is : quantizeSubmitSharesForVenueAtMost direction shares price orderType tick = some hf) :
    accepted direction price orderType tick hf ∧
    Grid.On shareQuantum hf ∧
    0 < hf ∧
    hf ≤ shares := by
  simp only [quantizeSubmitSharesForVenueAtMost, buys, immd, Bool.and_self, if_true,
    Option.ite_none_left_eq_some, not_or, not_le] at is
  obtain ⟨⟨pos, hpos⟩, srch⟩ := is
  obtain ⟨legal, on, hf, le⟩ := searchDown_some srch
  refine ⟨legal, on, hf, le.trans (le_trans ?_ (Grid.floorTo_le shareQuantum_pos shares))⟩
  have nn : 0 ≤ ⌊shares / shareQuantum⌋ :=
    Int.floor_nonneg.mpr (div_nonneg pos.le shareQuantum_pos.le)
  refine mul_le_mul_of_nonneg_right ?_ shareQuantum_pos.le
  exact_mod_cast (Int.toNat_of_nonneg nn).le
end

end Zeus.SubmitAmounts
