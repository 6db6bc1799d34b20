import Zeus.RiskAllocator.Governor

/-! Admission compares a request with the weighted total, in which an optimistic lot counts at the
policy's weight. -/

namespace Zeus.RiskAllocator

open Zeus.Lots (LotState)

def Intent.lot (intent : Intent) : ExposureLot where
  marketId := intent.keys.market
  eventId := intent.keys.event
  resolutionWindow := intent.keys.resolution
  exposureMicro := intent.notionalMicro
  state := .optimisticExposure
  correlationKey := some intent.keys.correlation

def ExposureLot.confirm (lot : ExposureLot) : ExposureLot :=
  if isOptimisticExposure lot.state then { lot with state := .confirmedExposure } else lot

def ExposureLot.close (closed : LotState) (lot : ExposureLot) : ExposureLot :=
  if isClosedExposure closed then { lot with state := closed } else lot

inductive Step where
  | request (intent : Intent) (state : GovernorState)
  | confirm (index : ℕ)
  | close (index : ℕ) (closed : LotState)

def step (policy : CapPolicy) (lots : List ExposureLot) : Step → List ExposureLot
  | .request intent state =>
    if (canAllocate policy lots intent state).allowed then lots ++ [intent.lot] else lots
  | .confirm index => lots.modify index ExposureLot.confirm
  | .close index closed => lots.modify index (ExposureLot.close closed)

def run (policy : CapPolicy) (steps : List Step) : List ExposureLot := steps.foldl (step policy) []

def activeExposure (lots : List ExposureLot) (scope : Scope) : ℤ :=
  exposureIn lots scope countsAsActiveExposure ExposureLot.exposureMicro

theorem firstExceeded_eq_none {dec : AllocationDecision} {exceeds : ℤ → Bool} :
    dec.firstExceeded exceeds = none ↔ ∀ capy ∈ dec.capacities, exceeds capy.1 = false := by
  simp [AllocationDecision.firstExceeded]

def Keys.capacities (policy : CapPolicy) (lots : List ExposureLot) (keys : Keys) : List ℤ := [
  remainingCapacity policy lots (.market keys.market) policy.maxPerMarketMicro,
  remainingCapacity policy lots (.event keys.event) policy.maxPerEventMicro,
  remainingResolution policy lots keys.resolution,
  remainingCapacity policy lots (.correlation keys.correlation) policy.maxCorrelatedExposureMicro]

variable {policy : CapPolicy} {lots : List ExposureLot} {state : GovernorState} {rate slack : ℚ}

theorem auctionCapacity_allowed {keys : Keys}
    (allowed : (auctionCapacity policy lots keys).allowed = true) :
    keys.correlation ≠ "" ∧
    (auctionCapacity policy lots keys).capacities.map Prod.fst = keys.capacities policy lots ∧
    ∀ capacity ∈ keys.capacities policy lots, 0 < capacity := by
  unfold auctionCapacity at allowed ⊢
  split_ifs at allowed ⊢ with missing
  dsimp only at allowed ⊢
  cases hf : AllocationDecision.firstExceeded _ fun rem => decide (rem ≤ 0) with
  | some why =>
    rw [hf] at allowed
    cases allowed
  | none =>
    have room := firstExceeded_eq_none.mp hf
    refine ⟨fun empty => missing (.inr (.inr empty)), rfl, ?_⟩
    simpa [AllocationDecision.capacities, Keys.capacities] using room

theorem entryCapacity_allowed {keys : Keys} {reduceOnly : Bool}
    (allowed : (entryCapacity policy lots keys state reduceOnly).allowed = true) :
    (auctionCapacity policy lots keys).allowed = true ∧
    (entryCapacity policy lots keys state reduceOnly).capacities =
      (auctionCapacity policy lots keys).capacities := by
  unfold entryCapacity at allowed ⊢
  cases kill : killSwitchReason policy state with
  | some text =>
    simp only [kill] at allowed ⊢
    split_ifs at allowed ⊢
    exact ⟨allowed, rfl⟩
  | none =>
    simp only [kill] at allowed ⊢
    split_ifs at allowed ⊢ <;> exact ⟨allowed, rfl⟩

theorem canAllocate_allowed {itt : Intent}
    (allowed : (canAllocate policy lots itt state).allowed = true) :
    itt.keys.correlation ≠ "" ∧
    ∀ capacity ∈ itt.keys.capacities policy lots, 0 < capacity ∧ itt.notionalMicro ≤ capacity := by
  unfold canAllocate at allowed
  dsimp only at allowed
  split_ifs at allowed with refused
  · simp_all
  have entered : (entryCapacity policy lots itt.keys state itt.isReduceOnly).allowed = true := by
    simpa using refused
  obtain ⟨auctioned, same⟩ := entryCapacity_allowed entered
  obtain ⟨correlated, listed, room⟩ := auctionCapacity_allowed auctioned
  cases hf : (entryCapacity policy lots itt.keys state itt.isReduceOnly).firstExceeded
      fun rem => decide (rem < itt.notionalMicro) with
  | some why => simp [hf] at allowed
  | none =>
    refine ⟨correlated, fun capacity mem => ⟨room capacity mem, ?_⟩⟩
    rw [← listed, ← same] at mem
    obtain ⟨entry, hp, rfl⟩ := List.mem_map.mp mem
    simpa using firstExceeded_eq_none.mp hf entry hp

theorem fits_of_remaining {scope : Scope} {cap notl : ℤ}
    (room : 0 < remainingCapacity policy lots scope cap)
    (fits : notl ≤ remainingCapacity policy lots scope cap) :
    notl + weightedExposure policy lots scope ≤ cap := by
  unfold remainingCapacity at room fits
  omega

theorem admitted_fits {itt : Intent} (allowed : (canAllocate policy lots itt state).allowed = true)
    {scope : Scope} (inScope : scope.includes itt.lot = true) {cap : ℤ}
    (capped : scope.cap policy = some cap) :
    itt.notionalMicro + weightedExposure policy lots scope ≤ cap := by
  obtain ⟨correlated, room⟩ := canAllocate_allowed allowed
  simp only [Keys.capacities, List.forall_mem_cons] at room
  obtain ⟨market, event, resolution, correlation, -⟩ := room
  cases scope with
  | market marketId =>
    obtain rfl : itt.keys.market = marketId := by simpa [Scope.includes, Intent.lot] using inScope
    obtain rfl : policy.maxPerMarketMicro = cap := by simpa [Scope.cap] using capped
    exact fits_of_remaining market.1 market.2
  | event eventId =>
    obtain rfl : itt.keys.event = eventId := by simpa [Scope.includes, Intent.lot] using inScope
    obtain rfl : policy.maxPerEventMicro = cap := by simpa [Scope.cap] using capped
    exact fits_of_remaining event.1 event.2
  | resolution window =>
    obtain rfl : itt.keys.resolution = window := by simpa [Scope.includes, Intent.lot] using inScope
    simp only [remainingResolution, capped, Option.elim_some] at resolution
    exact fits_of_remaining resolution.1 resolution.2
  | correlation key =>
    obtain rfl : itt.keys.correlation = key := by
      simpa [Scope.includes, Intent.lot, ExposureLot.correlation, orText, correlated] using inScope
    obtain rfl : policy.maxCorrelatedExposureMicro = cap := by simpa [Scope.cap] using capped
    exact fits_of_remaining correlation.1 correlation.2

/-- Every request up to the market cap is weighted at `rate` of its notional at least, up to
`slack`. -/
structure Discounts (policy : CapPolicy) (rate slack : ℚ) : Prop where
  rateNonneg : 0 ≤ rate
  rateLeOne : rate ≤ 1
  slackNonneg : 0 ≤ slack
  weighs : ∀ exposure : ℤ, 0 ≤ exposure → exposure ≤ policy.maxPerMarketMicro →
    rate * exposure - slack ≤
      weightedLotExposureMicro .optimisticExposure exposure policy.optimisticExposureWeight

theorem weightedLotExposureMicro_optimistic (expo : ℤ) (weight : ℚ) :
    weightedLotExposureMicro .optimisticExposure expo weight =
      DecimalContext.roundHalfEven (Binary64.mul (Binary64.round expo) weight) := rfl

theorem discounts_weight (policy : CapPolicy) :
    Discounts policy ((1 - 1 / 2 ^ 53) ^ 2 * policy.optimisticExposureWeight) (1 / 2) where
  rateNonneg := mul_nonneg (by norm_num) policy.weightNonneg
  rateLeOne := mul_le_one₀ (by norm_num) policy.weightNonneg policy.weightLeOne
  slackNonneg := by norm_num
  weighs := by
    intro exposure nn _
    have nonnegQ : (0 : ℚ) ≤ exposure := by exact_mod_cast nn
    have asDouble := Binary64.le_round nonnegQ
    have weight := policy.weightNonneg
    have product := Binary64.le_round (mul_nonneg (Binary64.round_nonneg nonnegQ) weight)
    have nearest := (DecimalContext.roundHalfEven_near
      (Binary64.mul (Binary64.round exposure) policy.optimisticExposureWeight)).2
    rw [weightedLotExposureMicro_optimistic]
    calc (1 - 1 / 2 ^ 53) ^ 2 * policy.optimisticExposureWeight * exposure - 1 / 2
        = exposure * (1 - 1 / 2 ^ 53) * policy.optimisticExposureWeight * (1 - 1 / 2 ^ 53) -
            1 / 2 := by ring
      _ ≤ Binary64.round exposure * policy.optimisticExposureWeight * (1 - 1 / 2 ^ 53) - 1 / 2 := by
        gcongr
      _ ≤ Binary64.mul (Binary64.round exposure) policy.optimisticExposureWeight - 1 / 2 := by
        unfold Binary64.mul
        gcongr
      _ ≤ _ := nearest

theorem discounts_one (full : policy.optimisticExposureWeight = 1)
    (small : policy.maxPerMarketMicro < 2 ^ 53) : Discounts policy 1 0 where
  rateNonneg := zero_le_one
  rateLeOne := le_rfl
  slackNonneg := le_rfl
  weighs := by
    intro exposure nn within
    have exactFills : Binary64.round (exposure : ℚ) = exposure :=
      Binary64.round_intCast nn (within.trans_lt small)
    rw [weightedLotExposureMicro_optimistic, full, exactFills, Binary64.mul, mul_one, exactFills,
      DecimalContext.roundHalfEven_intCast]
    simp

@[simp] theorem exposureIn_nil (scope : Scope) (counts : LotState → Bool)
    (measure : ExposureLot → ℤ) : exposureIn [] scope counts measure = 0 := rfl

theorem exposureIn_concat (lots : List ExposureLot) (lot : ExposureLot) (scope : Scope)
    (counts : LotState → Bool) (measure : ExposureLot → ℤ) :
    exposureIn (lots ++ [lot]) scope counts measure =
      exposureIn lots scope counts measure +
        if counts lot.state && scope.includes lot then measure lot else 0 := by
  simp [exposureIn]

theorem exposureIn_cons (lots : List ExposureLot) (lot : ExposureLot) (scope : Scope)
    (counts : LotState → Bool) (measure : ExposureLot → ℤ) :
    exposureIn (lot :: lots) scope counts measure =
      (if counts lot.state && scope.includes lot then measure lot else 0) +
        exposureIn lots scope counts measure := by
  simp [exposureIn]

def Bounded (policy : CapPolicy) (lot : ExposureLot) : Prop :=
  0 ≤ lot.exposureMicro ∧ lot.exposureMicro ≤ policy.maxPerMarketMicro

theorem active_eq_not_closed (state : LotState) :
    countsAsActiveExposure state = !isClosedExposure state := by
  cases state <;> rfl

theorem weightedLotExposureMicro_nonneg {lot : ExposureLot} (hbd : Bounded policy lot) :
    0 ≤ weightedLotExposureMicro lot.state lot.exposureMicro policy.optimisticExposureWeight := by
  unfold weightedLotExposureMicro
  split_ifs
  · have nn : (0 : ℚ) ≤ lot.exposureMicro := by exact_mod_cast hbd.1
    have product := mul_nonneg (Binary64.round_nonneg nn) policy.weightNonneg
    have rounded := DecimalContext.roundHalfEven_mono (Binary64.round_nonneg product)
    rwa [← Int.cast_zero, DecimalContext.roundHalfEven_intCast] at rounded
  · exact hbd.1
  · exact le_rfl

theorem weightedExposure_nonneg (hbd : ∀ lot ∈ lots, Bounded policy lot) (scope : Scope) :
    0 ≤ weightedExposure policy lots scope := by
  apply List.sum_nonneg
  intro share mem
  obtain ⟨lot, hp, rfl⟩ := List.mem_map.mp mem
  dsimp only
  split_ifs
  · exact weightedLotExposureMicro_nonneg (hbd lot hp)
  · exact le_rfl

theorem Discounts.lot (discounts : Discounts policy rate slack)
    {lot : ExposureLot} (hbd : Bounded policy lot) (act : countsAsActiveExposure lot.state = true) :
    rate * lot.exposureMicro - slack ≤
      weightedLotExposureMicro lot.state lot.exposureMicro policy.optimisticExposureWeight := by
  by_cases opt : lot.state = .optimisticExposure
  · rw [opt]
    exact discounts.weighs lot.exposureMicro hbd.1 hbd.2
  have full : weightedLotExposureMicro lot.state lot.exposureMicro policy.optimisticExposureWeight =
      lot.exposureMicro := by
    simp [weightedLotExposureMicro, isOptimisticExposure, opt, act]
  have nn : (0 : ℚ) ≤ lot.exposureMicro := by exact_mod_cast hbd.1
  have discounted := mul_le_of_le_one_left nn discounts.rateLeOne
  rw [full]
  linarith [discounts.slackNonneg]

theorem Discounts.total (discounts : Discounts policy rate slack) (scope : Scope)
    (lots : List ExposureLot) (hbd : ∀ lot ∈ lots, Bounded policy lot) :
    rate * activeExposure lots scope - lots.length * slack ≤
      weightedExposure policy lots scope := by
  induction lots with
  | nil => simp [activeExposure, weightedExposure]
  | cons lot rest ih =>
    have tail := ih fun other mem => hbd other (List.mem_cons_of_mem _ mem)
    have head := discounts.lot (hbd lot (List.mem_cons_self ..))
    have slackNonneg := discounts.slackNonneg
    unfold activeExposure weightedExposure at tail ⊢
    simp only [exposureIn_cons, List.length_cons, active_eq_not_closed] at tail head ⊢
    push_cast
    split_ifs with counted
    · have counts := head (by simp_all)
      linarith
    · linarith

theorem exposureIn_modify_le {scope : Scope} {counts : LotState → Bool} {measure : ExposureLot → ℤ}
    {change : ExposureLot → ExposureLot}
    (lowers : ∀ lot ∈ lots,
        exposureIn [change lot] scope counts measure ≤ exposureIn [lot] scope counts measure)
    (index : ℕ) :
    exposureIn (lots.modify index change) scope counts measure ≤
      exposureIn lots scope counts measure := by
  induction lots generalizing index with
  | nil => simp
  | cons lot rest ih =>
    cases index with
    | zero =>
      have head := lowers lot (List.mem_cons_self ..)
      simp only [List.modify_zero_cons, exposureIn_cons, exposureIn_nil, add_zero] at head ⊢
      omega
    | succ index =>
      have tail := ih (fun other mem => lowers other (List.mem_cons_of_mem _ mem)) index
      simp only [List.modify_succ_cons, exposureIn_cons]
      omega

theorem forall_mem_modify {α : Type*} {keeps : α → Prop} {change : α → α} {items : List α}
    (kept : ∀ item ∈ items, keeps item) (pres : ∀ item, keeps item → keeps (change item))
    (index : ℕ) : ∀ item ∈ items.modify index change, keeps item := by
  induction items generalizing index with
  | nil => simp
  | cons head rest ih =>
    obtain ⟨first, others⟩ := List.forall_mem_cons.mp kept
    cases index with
    | zero => exact List.forall_mem_cons.mpr ⟨pres head first, others⟩
    | succ index => exact List.forall_mem_cons.mpr ⟨first, ih others index⟩

structure Within (policy : CapPolicy) (rate slack : ℚ) (lots : List ExposureLot) : Prop where
  bounded : ∀ lot ∈ lots, Bounded policy lot
  capped : ∀ (scope : Scope) (cap : ℤ), scope.cap policy = some cap →
    rate * activeExposure lots scope ≤ cap + lots.length * slack

theorem Scope.cap_nonneg {scope : Scope} {cap : ℤ} (capped : scope.cap policy = some cap) :
    0 ≤ cap := by
  cases scope with
  | market => exact (Option.some.inj capped) ▸ policy.marketPositive.le
  | event => exact (Option.some.inj capped) ▸ policy.eventPositive.le
  | resolution window =>
    obtain ⟨before, after, split, -⟩ := List.lookup_eq_some_iff.mp capped
    exact (policy.windowsPositive (window, cap) (by simp [split])).2.le
  | correlation => exact (Option.some.inj capped) ▸ policy.correlatedPositive.le

theorem Scope.includes_confirm (scope : Scope) (lot : ExposureLot) :
    scope.includes lot.confirm = scope.includes lot := by
  unfold ExposureLot.confirm
  split_ifs <;> cases scope <;> rfl

theorem active_confirm (lot : ExposureLot) :
    countsAsActiveExposure lot.confirm.state = countsAsActiveExposure lot.state := by
  unfold ExposureLot.confirm
  split_ifs with opt
  · have state : lot.state = .optimisticExposure := by simpa [isOptimisticExposure] using opt
    rw [state]
    rfl
  · rfl

theorem exposureMicro_confirm (lot : ExposureLot) :
    lot.confirm.exposureMicro = lot.exposureMicro := by
  unfold ExposureLot.confirm
  split_ifs <;> rfl

theorem exposureMicro_close (hcl : LotState) (lot : ExposureLot) :
    (lot.close hcl).exposureMicro = lot.exposureMicro := by
  unfold ExposureLot.close
  split_ifs <;> rfl

theorem active_confirm_le (lot : ExposureLot) (scope : Scope) :
    activeExposure [lot.confirm] scope ≤ activeExposure [lot] scope := by
  simp [activeExposure, exposureIn, active_confirm, Scope.includes_confirm, exposureMicro_confirm]

theorem active_close_le {lot : ExposureLot} (nn : 0 ≤ lot.exposureMicro) (hcl : LotState)
    (scope : Scope) : activeExposure [lot.close hcl] scope ≤ activeExposure [lot] scope := by
  unfold ExposureLot.close
  split_ifs with isClosed
  · have gone : countsAsActiveExposure hcl = false := by simp [active_eq_not_closed, isClosed]
    simp only [activeExposure, exposureIn_cons, exposureIn_nil, gone, Bool.false_and,
      Bool.false_eq_true, if_false, add_zero]
    split_ifs <;> omega
  · exact le_rfl

section
variable (within : Within policy rate slack lots) (discounts : Discounts policy rate slack)

include within discounts

theorem Within.modify
    {change : ExposureLot → ExposureLot}
      (same : ∀ lot, (change lot).exposureMicro = lot.exposureMicro)
    (lowers : ∀ lot scope, 0 ≤ lot.exposureMicro →
      activeExposure [change lot] scope ≤ activeExposure [lot] scope) (index : ℕ) :
    Within policy rate slack (lots.modify index change) where
  bounded := forall_mem_modify within.bounded
    (fun lot bounded => by simpa only [Bounded, same] using bounded) index
  capped := by
    intro scope cap capped
    have lowered : activeExposure (lots.modify index change) scope ≤ activeExposure lots scope :=
      exposureIn_modify_le (fun lot mem => lowers lot scope (within.bounded lot mem).1) index
    have loweredQ : (activeExposure (lots.modify index change) scope : ℚ) ≤
        activeExposure lots scope := by
      exact_mod_cast lowered
    rw [List.length_modify]
    exact (mul_le_mul_of_nonneg_left loweredQ discounts.rateNonneg).trans
      (within.capped scope cap capped)

theorem Within.admitted {itt : Intent}
    (nn : 0 ≤ itt.targetSizeUsd) (allowed : (canAllocate policy lots itt state).allowed = true) :
    Within policy rate slack (lots ++ [itt.lot]) := by
  have notl : 0 ≤ itt.notionalMicro :=
    Int.ceil_nonneg (DecimalContext.mul_nonneg_of nn (by norm_num))
  have notionalQ : (0 : ℚ) ≤ itt.notionalMicro := by exact_mod_cast notl
  have extended : ∀ scope, (activeExposure (lots ++ [itt.lot]) scope : ℚ) =
      activeExposure lots scope +
        if scope.includes itt.lot then (itt.notionalMicro : ℚ) else 0 := by
    intro scope
    rw [activeExposure, exposureIn_concat]
    push_cast
    rfl
  refine ⟨?_, ?_⟩
  · have inMarket : (Scope.market itt.keys.market).includes itt.lot = true := by
      simp [Scope.includes, Intent.lot]
    have fits := admitted_fits allowed inMarket rfl
    have existing := weightedExposure_nonneg within.bounded (.market itt.keys.market)
    have last : Bounded policy itt.lot := ⟨notl, by simp only [Intent.lot]; omega⟩
    simpa [or_imp, forall_and] using And.intro within.bounded last
  · intro scope cap capped
    have before := within.capped scope cap capped
    rw [extended, List.length_append, List.length_singleton]
    push_cast
    split_ifs with inScope
    · have fits : (itt.notionalMicro : ℚ) + weightedExposure policy lots scope ≤ cap := by
        exact_mod_cast admitted_fits allowed inScope capped
      have weighted := discounts.total scope lots within.bounded
      have discounted := mul_le_of_le_one_left notionalQ discounts.rateLeOne
      linarith [discounts.slackNonneg]
    · linarith [discounts.slackNonneg]

theorem Within.step (taken : Step)
    (nn : ∀ itt state, taken = .request itt state → 0 ≤ itt.targetSizeUsd) :
    Within policy rate slack (RiskAllocator.step policy lots taken) := by
  cases taken with
  | request itt state =>
    rw [RiskAllocator.step]
    split_ifs with allowed
    · exact within.admitted discounts (nn itt state rfl) allowed
    · exact within
  | confirm index =>
    exact within.modify discounts exposureMicro_confirm
      (fun lot scope _ => active_confirm_le lot scope) index
  | close index hcl =>
    exact within.modify discounts (exposureMicro_close hcl)
      (fun lot scope pos => active_close_le pos hcl scope) index
end

theorem Within.run (discounts : Discounts policy rate slack)
    (steps : List Step) (nn : ∀ itt state, .request itt state ∈ steps → 0 ≤ itt.targetSizeUsd) :
    Within policy rate slack (RiskAllocator.run policy steps) := by
  induction steps using List.reverseRecOn with
  | nil =>
    refine ⟨by simp [RiskAllocator.run], fun scope cap capped => ?_⟩
    have capNonneg : (0 : ℚ) ≤ cap := by exact_mod_cast Scope.cap_nonneg capped
    simpa [RiskAllocator.run, activeExposure] using capNonneg
  | append_singleton steps last ih =>
    have before := ih fun itt state mem => nn itt state (by simp [mem])
    rw [RiskAllocator.run, List.foldl_concat]
    exact before.step discounts last fun itt state isLast => nn itt state (by simp [isLast])

theorem confirmed_le_active (hbd : ∀ lot ∈ lots, Bounded policy lot) (scope : Scope) :
    confirmedExposure lots scope ≤ activeExposure lots scope := by
  apply List.sum_le_sum
  intro lot hp
  have nn := (hbd lot hp).1
  dsimp only
  split_ifs with conf act
  · exact le_rfl
  · simp_all
  · exact nn
  · exact le_rfl

/-- In every run, a scope's confirmed exposure discounted by the optimistic weight is within
its cap, up to half a micro-dollar for each lot; at full weight the exposure itself is. -/
theorem confirmed_within_discounted_cap (policy : CapPolicy) (steps : List Step)
    (nn : ∀ itt state, .request itt state ∈ steps → 0 ≤ itt.targetSizeUsd) (scope : Scope) (cap : ℤ)
    (capped : scope.cap policy = some cap) :
    (1 - 1 / 2 ^ 53) ^ 2 * policy.optimisticExposureWeight *
      confirmedExposure (run policy steps) scope ≤ cap + (run policy steps).length * (1 / 2) ∧
    (policy.optimisticExposureWeight = 1 → policy.maxPerMarketMicro < 2 ^ 53 →
      confirmedExposure (run policy steps) scope ≤ cap) := by
  constructor
  · have discounts := discounts_weight policy
    have within := Within.run discounts steps nn
    have conf : (confirmedExposure (run policy steps) scope : ℚ) ≤
        activeExposure (run policy steps) scope := by
      exact_mod_cast confirmed_le_active within.bounded scope
    exact (mul_le_mul_of_nonneg_left conf discounts.rateNonneg).trans
      (within.capped scope cap capped)
  · intro full small
    have within := Within.run (discounts_one full small) steps nn
    have act : activeExposure (run policy steps) scope ≤ cap := by
      have bound := within.capped scope cap capped
      rw [one_mul, mul_zero, add_zero] at bound
      exact_mod_cast bound
    exact (confirmed_le_active within.bounded scope).trans act

/-- Two intents of one market, admitted while optimistic and then both confirmed. -/
def twoConfirmed : List Step := [
  .request { marketId := "m", targetSizeUsd := 200 } {},
  .request { marketId := "m", targetSizeUsd := 150 } {},
  .confirm 0,
  .confirm 1]

theorem confirmed_within_discounted_cap_sample :
    confirmedExposure (run {} twoConfirmed) (.market "m") = 350000000 ∧
    (1 - 1 / 2 ^ 53) ^ 2 * ({} : CapPolicy).optimisticExposureWeight *
      confirmedExposure (run {} twoConfirmed) (.market "m") ≤
      (250000000 : ℤ) + (run {} twoConfirmed).length * (1 / 2) := by
  have nn : ∀ itt state, .request itt state ∈ twoConfirmed → 0 ≤ itt.targetSizeUsd := by
    intro itt state mem
    simp only [twoConfirmed, List.mem_cons, Step.request.injEq, reduceCtorEq, List.not_mem_nil,
      or_false] at mem
    obtain ⟨rfl, -⟩ | ⟨rfl, -⟩ := mem <;> norm_num
  exact ⟨by decide +kernel,
    (confirmed_within_discounted_cap {} twoConfirmed nn (.market "m") 250000000 rfl).1⟩

/-- The first lot leaves half of its notional as room; confirmed, the two lots exceed the cap. -/
theorem confirmation_exceeds_market_cap :
    ¬ confirmedExposure (run {} twoConfirmed) (.market "m") ≤
        ({} : CapPolicy).maxPerMarketMicro := by
  decide +kernel

end Zeus.RiskAllocator
