import Zeus.Lib.PrefixCover
import Zeus.State.PartialExitJournal

/-! Recovery books what the canonical fills of an exit order prove beyond what the journal already
holds. The chain observation that may follow is no partial exit event, and is left out. -/

namespace Zeus.PartialExit

def economicNotionalStorageTolerance : ℚ := 1 / 1000000000

def economicNotionalStorageEqual (left right : ℚ) : Prop :=
  |left - right| ≤ economicNotionalStorageTolerance

instance (left right : ℚ) : Decidable (economicNotionalStorageEqual left right) :=
  inferInstanceAs (Decidable (_ ≤ _))

structure Slice where
  fill : EconomicExitFill
  delta : Economics
  correctionOnly : Bool
  deriving DecidableEq

/-- The part of a fill that cursor and receipt account for: the larger of the two, which must agree
when they are equal. -/
def accounted (prior covered : Economics) : Option Economics :=
  if covered.1 < prior.1 then some prior
  else if prior.1 < covered.1 then some covered
  else if prior.1 ≠ 0 ∧ prior.2 ≠ covered.2 then none
  else some prior

def sliceFill (cursors : Cursors) (remaining : Economics) (fill : EconomicExitFill) :
    Except DebtError (Economics × Option Slice) :=
  let prior := (cursors fill.identity).getD 0
  if fill.quantity < prior.1 ∨ (prior.1 < fill.quantity ∧ fill.notional ≤ prior.2) then
    .error (.canonicalFillRegressed fill.identity)
  else
    let coveredQty := min remaining.1 fill.quantity
    let coveredNotional := if 0 < coveredQty then fill.notional * coveredQty / fill.quantity else 0
    if remaining.2 < coveredNotional ∧
        ¬ economicNotionalStorageEqual remaining.2 coveredNotional then
      .error (.statusReceiptCannotCover fill.identity)
    else
      let left := remaining - (coveredQty, coveredNotional)
      match accounted prior (coveredQty, coveredNotional) with
      | none => .error (.statusCanonicalDisagree fill.identity)
      | some known =>
        let delta := fill.economics - known
        if delta.1 = 0 then .ok (left, if delta.2 ≠ 0 then some ⟨fill, delta, true⟩ else none)
        else if delta.2 ≤ 0 then .error (.canonicalFillNonpositiveEconomics fill.identity)
        else .ok (left, some ⟨fill, delta, false⟩)

def sliceFills (cursors : Cursors) (remaining : Economics) :
    List EconomicExitFill → Except DebtError (Economics × List Slice)
  | [] => .ok (remaining, [])
  | fill :: rest => do
      let (left, slice) ← sliceFill cursors remaining fill
      let (final, slices) ← sliceFills cursors left rest
      return (final, slice.toList ++ slices)

def canonicalTotal (fills : List EconomicExitFill) : Economics :=
  (fills.map EconomicExitFill.economics).sum

/-- Whether a booked receipt contradicts the canonical totals. -/
def receiptContradicts (receipt canonical : Economics) : Prop :=
  receipt.1 ≠ 0 ∧
    (canonical.1 < receipt.1 ∨
      (canonical.2 < receipt.2 ∧ ¬ economicNotionalStorageEqual canonical.2 receipt.2) ∨
      (canonical.1 = receipt.1 ∧ ¬ economicNotionalStorageEqual canonical.2 receipt.2))

instance (receipt canonical : Economics) : Decidable (receiptContradicts receipt canonical) :=
  inferInstanceAs (Decidable (_ ∧ _))

def unrecordedSlices (order : ExitOrder) (cursors : Cursors) (fills : List EconomicExitFill) :
    Except DebtError (List Slice) :=
  let receipt := (cursors order.statusIdentity).getD 0
  if receiptContradicts receipt (canonicalTotal fills) then
    .error .canonicalDoesNotReconcileStatusReceipt
  else do
    let (left, slices) ← sliceFills cursors receipt fills
    if left.1 ≠ 0 ∨ ¬ economicNotionalStorageEqual left.2 0 then
      .error .statusReceiptRemainsUnmatched
    else return slices

inductive Phase
  | active | day0Window | pendingExit | other
  deriving DecidableEq

/-- The row of `position_current`; an unreadable number is `none`. -/
structure PositionCurrent where
  phase : Phase
  (shares costBasisUsd chainShares chainCostBasisUsd : Option ℚ)
  deriving DecidableEq

structure ConservationProof where
  (baselineShares exchangeResidualShares matchedSellShares : Option ℚ)
  deriving DecidableEq

structure RecoveredBaseline where
  (baselineShares baselineCostBasisUsd baselineEntryPrice matchedSellShares : Option ℚ)
  firstConservationProof : Option ConservationProof
  deriving DecidableEq

def positiveOrNone (value : Option ℚ) : Option ℚ := value.filter fun number => decide (0 < number)

/-- `_decimal_matches`: two readable and equal numbers. -/
def decimalMatches (left right : Option ℚ) : Bool := left.isSome && left == right

def basisTolerance : ℚ := 1 / 1000000

structure BookingBasis where
  (residualShares residualCost chainShares : ℚ)
  baseline : Option (ℚ × ℚ)
  deriving DecidableEq

def residualBasis (order : ExitOrder) (current : PositionCurrent) : Option (ℚ × ℚ × ℚ) := do
  let residualShares ← positiveOrNone current.shares
  let residualCost ← current.costBasisUsd
  let chainShares ← positiveOrNone current.chainShares
  let chainCost ← current.chainCostBasisUsd
  if order.positionId = "" ∨ current.phase = .other ∨ residualCost < 0 ∨ chainCost < 0 ∨
      basisTolerance < |residualShares - chainShares| ∨
      basisTolerance < |residualCost - chainCost| then none
  else some (residualShares, residualCost, chainShares)

def provenBaseline (recovered : RecoveredBaseline) : Option (ℚ × ℚ) := do
  let shares ← positiveOrNone recovered.baselineShares
  let cost ← recovered.baselineCostBasisUsd
  let _entry ← positiveOrNone recovered.baselineEntryPrice
  let evidence ← recovered.firstConservationProof
  let exchange ← evidence.exchangeResidualShares
  let matched ← evidence.matchedSellShares
  if cost < 0 ∨ !decimalMatches evidence.baselineShares (some shares) ∨
      !decimalMatches evidence.matchedSellShares recovered.matchedSellShares ∨
      shares ≠ exchange + matched then none
  else some (shares, cost)

def bookingBasis (order : ExitOrder) (current : PositionCurrent)
    (recovered : Option RecoveredBaseline) : Except DebtError BookingBasis :=
  match residualBasis order current with
  | none => .error .residualBasisMissingOrDivergent
  | some (residualShares, residualCost, chainShares) =>
    match recovered with
    | none => .ok ⟨residualShares, residualCost, chainShares, none⟩
    | some certificate =>
      match provenBaseline certificate with
      | none => .error .baselineProofInvalid
      | some baseline => .ok ⟨residualShares, residualCost, chainShares, some baseline⟩

def BookingBasis.unitCost (basis : BookingBasis) : ℚ :=
  match basis.baseline with
  | some (shares, cost) => cost / shares
  | none => basis.residualCost / basis.residualShares

def BookingBasis.mismatches (basis : BookingBasis) (sold residual : ℚ) : Prop :=
  ∃ baseline ∈ basis.baseline, baseline.1 - sold < -basisTolerance ∨
    basisTolerance < |baseline.1 - sold - residual|

instance (basis : BookingBasis) (sold residual : ℚ) : Decidable (basis.mismatches sold residual) :=
  inferInstanceAs (Decidable (∃ baseline ∈ basis.baseline, _))

def BookingBasis.oversold (basis : BookingBasis) (sold : ℚ) : Prop :=
  ∃ baseline ∈ basis.baseline, baseline.1 - sold < -basisTolerance ∨
    baseline.2 - sold * basis.unitCost < -basisTolerance

instance (basis : BookingBasis) (sold : ℚ) : Decidable (basis.oversold sold) :=
  inferInstanceAs (Decidable (∃ baseline ∈ basis.baseline, _))

structure BookingState where
  (cumulativeRealized remainingQuantity remainingCost priorSold : ℚ)
  deriving DecidableEq

def repairEvent (order : ExitOrder) (basis : BookingBasis) (state : BookingState) (slice : Slice) :
    PartialExitEvent × BookingState :=
  let allocatedCost := if slice.correctionOnly then 0 else slice.delta.1 * basis.unitCost
  let pnlDelta := slice.delta.2 - allocatedCost
  let next : BookingState :=
    { cumulativeRealized := state.cumulativeRealized + pnlDelta
      remainingQuantity := state.remainingQuantity - slice.delta.1
      remainingCost := state.remainingCost - allocatedCost
      priorSold := state.priorSold + slice.delta.1 }
  ({ eventId :=
       if slice.correctionOnly then
         .correction order.positionId slice.fill.identity slice.fill.notional
       else .repair order.positionId slice.fill.identity
     causedBy := .partialExitEconomicsRepair
     economicFillIdentity := some slice.fill.identity
     economicFillCumulativeShares := slice.fill.quantity
     economicFillCumulativeNotionalUsd := slice.fill.notional
     filledShares := slice.delta.1
     filledNotionalUsd := slice.delta.2
     fillPrice :=
       if slice.correctionOnly then slice.fill.unitPrice else slice.delta.2 / slice.delta.1
     allocatedCostBasisUsd := allocatedCost
     realizedPnlDeltaUsd := pnlDelta
     cumulativeRealizedPnlUsd := next.cumulativeRealized
     remainingShares :=
       basis.baseline.elim (basis.residualShares + next.remainingQuantity) fun baseline =>
         baseline.1 - next.priorSold
     remainingCostBasisUsd :=
       basis.baseline.elim next.remainingCost fun baseline =>
         baseline.2 - next.priorSold * basis.unitCost
     economicCorrectionOnly := slice.correctionOnly
     repairedLegacyEventId := none }, next)

def repairEvents (order : ExitOrder) (basis : BookingBasis) :
    BookingState → List Slice → List PartialExitEvent × BookingState
  | state, [] => ([], state)
  | state, slice :: rest =>
    let (event, next) := repairEvent order basis state slice
    let (events, final) := repairEvents order basis next rest
    (event :: events, final)

/-- `append_many_and_project`: the batch is rolled back when an id is taken. -/
def appendMany (journal : Journal) : List PartialExitEvent → Except DebtError Journal
  | [] => .ok journal
  | event :: rest =>
    match journal.tryInsert event with
    | none => .error (.duplicateEventId event.eventId)
    | some longer => appendMany longer rest

structure Projection where
  (shares costBasisUsd realizedPnlUsd : ℚ)
  deriving DecidableEq

structure Booking where
  journal : Journal
  appended : ℕ
  projection : Option Projection

def BookingBasis.projection (basis : BookingBasis) (sold realized : ℚ) : Projection :=
  match basis.baseline with
  | some (shares, cost) => ⟨max (shares - sold) 0, max (cost - sold * basis.unitCost) 0, realized⟩
  | none => ⟨basis.residualShares, basis.residualCost, realized⟩

def bookSlices (order : ExitOrder) (basis : BookingBasis) (sold realized : ℚ) (slices : List Slice)
    (journal : Journal) : Except DebtError Booking :=
  if slices = [] then
    if basis.mismatches sold basis.residualShares then .error .residualDoesNotMatchBaseline
    else return ⟨journal, 0, none⟩
  else if basis.mismatches sold basis.chainShares then .error .residualDoesNotMatchBaseline
  else if basis.oversold sold then .error .oversoldBaseline
  else do
    let unrecorded := (slices.map fun slice => slice.delta.1).sum
    let start : BookingState :=
      { cumulativeRealized := realized
        remainingQuantity := unrecorded
        remainingCost := basis.residualCost + unrecorded * basis.unitCost
        priorSold := basis.baseline.elim 0 fun _ => sold - unrecorded }
    let booked := repairEvents order basis start slices
    let longer ← appendMany journal booked.1
    let _total ← partialExitRealizedPnlFold false longer
    return ⟨longer, booked.1.length, some (basis.projection sold booked.2.cumulativeRealized)⟩

def appendUnrecordedPartialExitEconomics (order : ExitOrder) (current : PositionCurrent)
    (recovered : Option RecoveredBaseline) (fills : List EconomicExitFill) (expectedFilledSize : ℚ)
    (journal : Journal) : Except DebtError Booking := do
  let basis ← bookingBasis order current recovered
  if (canonicalTotal fills).1 ≠ expectedFilledSize then .error .canonicalNotEqualToAuthenticatedFill
  else
    let cursors ← recordedPartialExitFillCursors journal
    let slices ← unrecordedSlices order cursors fills
    let realized ← partialExitRealizedPnlFold false journal
    bookSlices order basis (canonicalTotal fills).1 realized slices journal

end Zeus.PartialExit
