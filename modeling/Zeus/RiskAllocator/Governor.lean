import Zeus.Lib.Binary64
import Zeus.State.PositionLots

/-! `RiskAllocator.can_allocate` over the exposure lots it was built from. Optimistic lots count at
the policy's weight: the exposure is made a double, multiplied and rounded to the nearest integer,
ties to even. -/

namespace Zeus.RiskAllocator

open Zeus.Collateral (strip)
open Zeus.Lots (LotState)

structure ExposureLot where
  (marketId eventId resolutionWindow : String)
  exposureMicro : ℤ
  state : LotState
  correlationKey : Option String := none
  deriving DecidableEq

def isOptimisticExposure (state : LotState) : Bool := state == .optimisticExposure

def countsAsActiveExposure (state : LotState) : Bool :=
  [.optimisticExposure, .confirmedExposure, .exitPending].contains state

def isClosedExposure (state : LotState) : Bool :=
  [.economicallyClosedOptimistic, .economicallyClosedConfirmed, .settled].contains state

def weightedLotExposureMicro (state : LotState) (exposureMicro : ℤ) (optimisticWeight : ℚ) : ℤ :=
  if isOptimisticExposure state then
    DecimalContext.roundHalfEven (Binary64.mul (Binary64.round exposureMicro) optimisticWeight)
  else if countsAsActiveExposure state then exposureMicro
  else 0

/-- `first or second` on text. -/
def orText (text fallback : String) : String := if text = "" then fallback else text

def ExposureLot.correlation (lot : ExposureLot) : String :=
  orText (lot.correlationKey.getD "") lot.eventId

/-- `CapPolicy`, as far as admission reads it; the checks of `__post_init__` are fields. -/
structure CapPolicy where
  maxPerMarketMicro : ℤ := 250000000
  maxPerEventMicro : ℤ := 500000000
  maxPerResolutionWindowMicro : List (String × ℤ) := []
  maxCorrelatedExposureMicro : ℤ := 1000000000
  wsGapSecondsLimit : ℤ := 15
  optimisticExposureWeight : ℚ := 1 / 2
  marketPositive : 0 < maxPerMarketMicro := by decide
  eventPositive : 0 < maxPerEventMicro := by decide
  correlatedPositive : 0 < maxCorrelatedExposureMicro := by decide
  wsGapNonneg : 0 ≤ wsGapSecondsLimit := by decide
  windowsPositive : ∀ window ∈ maxPerResolutionWindowMicro, window.1 ≠ "" ∧ 0 < window.2 := by simp
  weightNonneg : 0 ≤ optimisticExposureWeight := by norm_num
  weightLeOne : optimisticExposureWeight ≤ 1 := by norm_num

inductive Scope where
  | market (marketId : String)
  | event (eventId : String)
  | resolution (window : String)
  | correlation (key : String)
  deriving DecidableEq

def Scope.includes : Scope → ExposureLot → Bool
  | .market marketId, lot => lot.marketId == marketId
  | .event eventId, lot => lot.eventId == eventId
  | .resolution window, lot => lot.resolutionWindow == window
  | .correlation key, lot => lot.correlation == key

/-- Only a configured resolution window has a cap. -/
def Scope.cap (policy : CapPolicy) : Scope → Option ℤ
  | .market _ => some policy.maxPerMarketMicro
  | .event _ => some policy.maxPerEventMicro
  | .resolution window => policy.maxPerResolutionWindowMicro.lookup window
  | .correlation _ => some policy.maxCorrelatedExposureMicro

/-- The exposure of the lots in a scope and in the given states, counted by `measure`. -/
def exposureIn (lots : List ExposureLot) (scope : Scope) (counts : LotState → Bool)
    (measure : ExposureLot → ℤ) : ℤ :=
  (lots.map fun lot => if counts lot.state && scope.includes lot then measure lot else 0).sum

def weightedExposure (policy : CapPolicy) (lots : List ExposureLot) (scope : Scope) : ℤ :=
  exposureIn lots scope (fun state => !isClosedExposure state) fun lot =>
    weightedLotExposureMicro lot.state lot.exposureMicro policy.optimisticExposureWeight

/-- The first component of `_market_exposure`, in any scope. -/
def confirmedExposure (lots : List ExposureLot) (scope : Scope) : ℤ :=
  exposureIn lots scope (fun state => !isOptimisticExposure state && countsAsActiveExposure state)
    ExposureLot.exposureMicro

def optimisticExposure (lots : List ExposureLot) (scope : Scope) : ℤ :=
  exposureIn lots scope isOptimisticExposure ExposureLot.exposureMicro

inductive RiskLevel where
  | green | dataDegraded | yellow | orange | red
  deriving DecidableEq

structure GovernorState where
  killSwitchArmed : Bool := false
  manualReason : Option String := none
  wsGapActive : Bool := false
  wsGapSeconds : ℤ := 0
  m5ReconcileRequired : Bool := false
  riskLevel : RiskLevel := .green
  unknownSideEffectCount : ℤ := 0
  unknownSideEffectMarkets : List String := []
  systemicUnknownSideEffectCount : ℤ := 0
  reconcileFindingCount : ℤ := 0
  reconcileFindingMarkets : List String := []
  systemicReconcileFindingCount : ℤ := 0

def systemicUnknownPresent (state : GovernorState) : Bool :=
  decide (0 < state.systemicUnknownSideEffectCount) ||
    (decide (0 < state.unknownSideEffectCount) && state.unknownSideEffectMarkets.isEmpty)

def systemicReconcileFindingPresent (state : GovernorState) : Bool :=
  decide (0 < state.systemicReconcileFindingCount) ||
    (decide (0 < state.reconcileFindingCount) && state.reconcileFindingMarkets.isEmpty)

def killSwitchReason (policy : CapPolicy) (state : GovernorState) : Option String :=
  if state.killSwitchArmed then some (orText (state.manualReason.getD "") "kill_switch_armed")
  else if state.wsGapActive ∧ policy.wsGapSecondsLimit < state.wsGapSeconds then
    some "ws_gap_threshold"
  else none

def reduceOnlyModeActive (policy : CapPolicy) (state : GovernorState) : Bool :=
  state.killSwitchArmed || state.m5ReconcileRequired ||
    (state.wsGapActive && decide (policy.wsGapSecondsLimit < state.wsGapSeconds)) ||
    systemicReconcileFindingPresent state || systemicUnknownPresent state ||
      state.riskLevel != .green

inductive Reason where
  | allowed | allocationScopeMissing | perMarketCapExceeded | perEventCapExceeded
  | perResolutionWindowCapExceeded
  | correlatedMarketCapExceeded
  | killSwitch (text : String)
  | unknownSideEffectSameMarket | reconcileFindingSameMarket | reduceOnlyModeActive
  deriving DecidableEq

structure AllocationDecision where
  allowed : Bool
  reason : Reason
  requestedMicro : ℤ := 0
  availableCapacityMicro : ℤ := 0
  remainingMarketCapacityMicro : ℤ := 0
  remainingEventCapacityMicro : ℤ := 0
  remainingResolutionCapacityMicro : ℤ := 0
  remainingCorrelatedCapacityMicro : ℤ := 0
  confirmedExposureMicro : ℤ := 0
  optimisticExposureMicro : ℤ := 0
  weightedExistingExposureMicro : ℤ := 0
  reduceOnly : Bool := false
  deriving DecidableEq

structure Keys where
  (market event resolution correlation : String)
  deriving DecidableEq

/-- The keys as `auction_capacity` normalises them. -/
def Keys.normalised (marketId eventId resolutionWindow correlationKey : String) : Keys :=
  let market := strip marketId
  let event := strip (orText eventId market)
  { market
    event
    resolution := orText (strip (orText resolutionWindow "default")) "default"
    correlation := strip (orText correlationKey event) }

def remainingCapacity (policy : CapPolicy) (lots : List ExposureLot) (scope : Scope) (cap : ℤ) :
    ℤ :=
  max (cap - weightedExposure policy lots scope) 0

/-- A window without a cap of its own does not constrain. -/
def remainingResolution (policy : CapPolicy) (lots : List ExposureLot) (window : String) : ℤ :=
  ((Scope.resolution window).cap policy).elim (2 ^ 63 - 1)
    (remainingCapacity policy lots (.resolution window))

def AllocationDecision.capacities (decision : AllocationDecision) : List (ℤ × Reason) := [
  (decision.remainingMarketCapacityMicro, .perMarketCapExceeded),
  (decision.remainingEventCapacityMicro, .perEventCapExceeded),
  (decision.remainingResolutionCapacityMicro, .perResolutionWindowCapExceeded),
  (decision.remainingCorrelatedCapacityMicro, .correlatedMarketCapExceeded)]

def AllocationDecision.firstExceeded (decision : AllocationDecision) (exceeds : ℤ → Bool) :
    Option Reason :=
  (decision.capacities.find? fun capacity => exceeds capacity.1).map Prod.snd

def auctionCapacity (policy : CapPolicy) (lots : List ExposureLot) (keys : Keys) :
    AllocationDecision :=
  if keys.market = "" ∨ keys.event = "" ∨ keys.correlation = "" then
    { allowed := false, reason := .allocationScopeMissing }
  else
    let market := remainingCapacity policy lots (.market keys.market) policy.maxPerMarketMicro
    let event := remainingCapacity policy lots (.event keys.event) policy.maxPerEventMicro
    let resolution := remainingResolution policy lots keys.resolution
    let correlated :=
      remainingCapacity policy lots (.correlation keys.correlation)
        policy.maxCorrelatedExposureMicro
    let decision : AllocationDecision := {
      allowed := true
      reason := .allowed
      availableCapacityMicro := min (min market event) (min resolution correlated)
      remainingMarketCapacityMicro := market
      remainingEventCapacityMicro := event
      remainingResolutionCapacityMicro := resolution
      remainingCorrelatedCapacityMicro := correlated
      confirmedExposureMicro := confirmedExposure lots (.market keys.market)
      optimisticExposureMicro := optimisticExposure lots (.market keys.market)
      weightedExistingExposureMicro := weightedExposure policy lots (.market keys.market) }
    (decision.firstExceeded fun remaining => remaining ≤ 0).elim decision fun reason =>
      { decision with allowed := false, reason }

def entryCapacity (policy : CapPolicy) (lots : List ExposureLot) (keys : Keys)
    (state : GovernorState) (reduceOnly : Bool) : AllocationDecision :=
  let capacity := auctionCapacity policy lots keys
  if capacity.reason = .allocationScopeMissing then capacity
  else
    match killSwitchReason policy state with
    | some text => { capacity with allowed := false, reason := .killSwitch text, reduceOnly }
    | none =>
      if keys.market ∈ state.unknownSideEffectMarkets then
        { capacity with allowed := false, reason := .unknownSideEffectSameMarket, reduceOnly }
      else if keys.market ∈ state.reconcileFindingMarkets then
        { capacity with allowed := false, reason := .reconcileFindingSameMarket, reduceOnly }
      else if reduceOnlyModeActive policy state && !reduceOnly then
        { capacity with allowed := false, reason := .reduceOnlyModeActive, reduceOnly := false }
      else { capacity with reduceOnly }

structure Intent where
  marketId : String
  eventId : String := ""
  resolutionWindow : String := "default"
  correlationKey : String := ""
  targetSizeUsd : ℚ
  reduceOnly : Bool := false
  intentKind : String := ""

/-- `_intent_notional_micro`. -/
def Intent.notionalMicro (intent : Intent) : ℤ := ⌈DecimalContext.mul intent.targetSizeUsd 1000000⌉

/-- `_is_reduce_only_intent`. -/
def Intent.isReduceOnly (intent : Intent) : Bool :=
  intent.reduceOnly || ["EXIT", "SELL", "REDUCE_ONLY"].contains intent.intentKind

def Intent.keys (intent : Intent) : Keys :=
  let event := orText intent.eventId intent.marketId
  Keys.normalised intent.marketId event (orText intent.resolutionWindow "default")
    (orText intent.correlationKey event)

def canAllocate (policy : CapPolicy) (lots : List ExposureLot) (intent : Intent)
    (state : GovernorState) : AllocationDecision :=
  let requested := intent.notionalMicro
  let capacity := entryCapacity policy lots intent.keys state intent.isReduceOnly
  let answered := { capacity with requestedMicro := requested, reduceOnly := intent.isReduceOnly }
  if !capacity.allowed then answered
  else (capacity.firstExceeded fun remaining => remaining < requested).elim answered fun reason =>
    { answered with allowed := false, reason }

end Zeus.RiskAllocator
