import Zeus.State.PositionCurrent

/-! `plan_fill_up`, `presubmit_reread_aborts` and the advance of a lease. Instants are microseconds;
`datetime` reads them to the second. -/

namespace Zeus.FamilyRebalance

open Zeus.Collateral (Time strip)
open Zeus.PositionCurrent (openPhases TemperatureMetric)

inductive FillUpReason where
  | notRedecisionEvent | noHeldExposure | unownedPendingOrUnknownEntry
  | notSameTokenSiblingIsShiftBin
  | entryQLcbMissing | beliefNotStrengthened | noResidualAtOrOverTarget | residualBelowVenueMin
  | fillUpResidual
  deriving DecidableEq

structure FillUpDecision where
  allow : Bool
  deltaEntryUsd : ℚ
  reason : FillUpReason

structure Leg where
  (tokenId binId direction : String)
  deriving DecidableEq

structure FillUpInputs where
  isRedecisionEvent : Bool
  (selected held : Leg)
  (qCurrentLcb qEntryLcb : Option ℚ)
  (targetTotalExposureUsd currentLiveExposureUsd sameTokenPendingEntryUsd venueMinIncrementUsd : ℚ)
  hasUnownedPendingOrUnknownEntry : Bool
  qStrengtheningFloor : ℚ := 0

def FillUpDecision.deny (deltaEntryUsd : ℚ) (reason : FillUpReason) : FillUpDecision :=
  { allow := false, deltaEntryUsd, reason }

/-- `decide_fill_up`: the residual to the fresh target, never a full stake. -/
def decideFillUp (inputs : FillUpInputs) : FillUpDecision :=
  if !inputs.isRedecisionEvent then .deny 0 .notRedecisionEvent
  else if inputs.held.tokenId = "" then .deny 0 .noHeldExposure
  else if inputs.hasUnownedPendingOrUnknownEntry then .deny 0 .unownedPendingOrUnknownEntry
  else if inputs.selected ≠ inputs.held then .deny 0 .notSameTokenSiblingIsShiftBin
  else
    match inputs.qEntryLcb, inputs.qCurrentLcb with
    | some entry, some current =>
      let delta := inputs.targetTotalExposureUsd - inputs.currentLiveExposureUsd -
        inputs.sameTokenPendingEntryUsd
      if current ≤ entry + inputs.qStrengtheningFloor then .deny 0 .beliefNotStrengthened
      else if delta ≤ 0 then .deny delta .noResidualAtOrOverTarget
      else if delta < inputs.venueMinIncrementUsd then .deny delta .residualBelowVenueMin
      else { allow := true, deltaEntryUsd := delta, reason := .fillUpResidual }
    | _, _ => .deny 0 .entryQLcbMissing

inductive Operation where
  | fillUp | shiftBin
  deriving DecidableEq

inductive LeaseStatus where
  | planned | exitSubmitted | exitUnknown | exitPartial | entrySubmitted | entryUnknown
  | entryPartial
  | reviewRequired | complete | aborted | exitOnlyComplete
  deriving DecidableEq

def terminalLeaseStatuses : List LeaseStatus := [.complete, .aborted, .exitOnlyComplete]

inductive SubmitStatus where
  | submitted | rejected | timeoutUnknown | preSubmitError | postSubmitUnknown
  deriving DecidableEq

inductive RereadAbort where
  | noExposureConn | positionTruthUnavailable
  | newUnownedSameFamilyEntry (positionId binLabel : String)
  deriving DecidableEq

inductive AbortReason where
  | denied (reason : FillUpReason)
  | fillUpPlannedStaleNoDurableCommand | shiftBinExitUnknownNoDurableCommand
  | presubmitReread (abort : RereadAbort)
  | ackMissingDurableCommandId
  | reconcileRequired (status : SubmitStatus)
  | submitNoAck (status : SubmitStatus)
  deriving DecidableEq

/-- A row of `family_rebalance_intents`. -/
structure Lease where
  (intentId familyKey : String)
  operation : Operation
  heldPositionId : Option String
  deltaEntryUsd : Option ℚ := none
  oldExitCommandId : Option String := none
  newEntryCommandId : Option String := none
  status : LeaseStatus := .planned
  abortReason : Option AbortReason := none
  updatedAt : Time
  deriving DecidableEq

def Lease.Active (lease : Lease) : Prop := lease.status ∉ terminalLeaseStatuses

instance (lease : Lease) : Decidable lease.Active := inferInstanceAs (Decidable (¬ _))

/-- The partial unique index on the family over the active statuses. -/
def OneActive (rows : List Lease) : Prop :=
  ∀ first ∈ rows, ∀ second ∈ rows, first.Active → second.Active →
    first.familyKey = second.familyKey → first = second

instance (rows : List Lease) : Decidable (OneActive rows) :=
  inferInstanceAs (Decidable (∀ _ ∈ _, _))

structure Leases where
  table : KeyedTable Lease.intentId
  oneActive : OneActive table.rows

def Leases.find (leases : Leases) (intentId : String) : Option Lease := leases.table.find intentId

/-- A write goes through unless it breaks the index. -/
def Leases.checked (table : KeyedTable Lease.intentId) : Option Leases :=
  if one : OneActive table.rows then some ⟨table, one⟩ else none

def Lease.advance (status : LeaseStatus) (now : Time) (reason : Option AbortReason)
    (newEntryCommandId : Option String) (lease : Lease) : Lease :=
  { lease with
    status := status
    updatedAt := now
    abortReason := reason.or lease.abortReason
    newEntryCommandId := newEntryCommandId.or lease.newEntryCommandId }

theorem Lease.advance_key (status : LeaseStatus) (now : Time) (why : Option AbortReason)
    (newEntryCommandId : Option String) (lease : Lease) :
    (lease.advance status now why newEntryCommandId).intentId = lease.intentId := rfl

/-- `advance_rebalance_lease`: the update asks nothing of the status before it. -/
def advanceRebalanceLease (leases : Leases) (intentId : String) (status : LeaseStatus) (now : Time)
    (reason : Option AbortReason) (newEntryCommandId : Option String) : Leases :=
  (Leases.checked (leases.table.modify intentId (Lease.advance status now reason newEntryCommandId)
    (Lease.advance_key status now reason newEntryCommandId))).getD leases

/-- `datetime(updated_at) <= datetime(now, '-1200 seconds')`. -/
def Stale (updatedAt now : Time) : Prop := updatedAt / 1000000 ≤ now / 1000000 - 1200

instance (updatedAt now : Time) : Decidable (Stale updatedAt now) :=
  inferInstanceAs (Decidable (_ ≤ _))

/-- A fill-up that was planned long ago and has no command. -/
def Lease.StalePlanned (familyKey : String) (now : Time) (lease : Lease) : Prop :=
  lease.familyKey = familyKey ∧
    lease.operation = .fillUp ∧
    lease.status = .planned ∧
    lease.newEntryCommandId.getD "" = "" ∧
    Stale lease.updatedAt now

instance (familyKey : String) (now : Time) (lease : Lease) :
    Decidable (lease.StalePlanned familyKey now) :=
  inferInstanceAs (Decidable (_ ∧ _))

def Lease.release (now : Time) (lease : Lease) : Lease :=
  { lease with
    status := .aborted
    updatedAt := now
    abortReason := lease.abortReason.or (some .fillUpPlannedStaleNoDurableCommand) }

theorem Lease.release_key (now : Time) (lease : Lease) :
    (lease.release now).intentId = lease.intentId := rfl

/-- `_release_stale_planned_fill_up_without_command`. -/
def releaseStalePlannedFillUp (familyKey : String) (now : Time) (leases : Leases) : Leases :=
  (Leases.checked (leases.table.modifyWhere (fun lease => lease.StalePlanned familyKey now)
        (Lease.release now)
    (Lease.release_key now))).getD leases

/-- `_release_shift_unknown_without_durable_command`, given what `_shift_exit_command_exists`
answers about a position. -/
def releaseShiftUnknown (commandExists : Option String → Option Bool) (familyKey : String)
    (now : Time) (leases : Leases) : Leases :=
  let unknown := leases.table.rows.filter fun lease =>
    lease.familyKey = familyKey ∧
      lease.operation = .shiftBin ∧
      lease.status = .exitUnknown ∧
      lease.oldExitCommandId.getD "" = ""
  let released := unknown.filter fun lease => commandExists lease.heldPositionId = some false
  (released.map Lease.intentId).foldl
    (fun leases intentId => advanceRebalanceLease leases intentId .aborted now
      (some .shiftBinExitUnknownNoDurableCommand) none) leases

def insertLease (leases : Leases) (lease : Lease) : Option Leases :=
  (leases.table.tryInsert lease).bind Leases.checked

structure HeldSameTokenExposure where
  positionId : String
  entryQLcb : Option ℚ
  currentLiveUsd : ℚ

/-- The arguments of `plan_fill_up`, with the uuid it draws and what it reads of the commands. -/
structure PlanCall where
  isRedecisionEvent : Bool := true
  familyKey : String
  selected : Leg
  held : Option HeldSameTokenExposure
  qCurrentLcb : Option ℚ
  targetTotalExposureUsd : ℚ
  sameTokenPendingEntryUsd : ℚ := 0
  venueMinIncrementUsd : ℚ := 0
  hasUnownedPendingOrUnknownEntry : Bool := false
  qStrengtheningFloor : ℚ := 0
  now : Time
  intentId : String
  shiftExitCommandExists : Option String → Option Bool := fun _ => none

inductive FillUpPlan where
  | noop
  | abort (lease : Option String) (reason : Option FillUpReason)
  | apply (residualStakeUsd : ℚ) (lease : String)
  deriving DecidableEq

def PlanCall.owned (call : PlanCall) : Option HeldSameTokenExposure :=
  if call.isRedecisionEvent then call.held.filter fun held => held.positionId ≠ "" else none

def PlanCall.lease (call : PlanCall) (held : HeldSameTokenExposure) : Lease where
  intentId := call.intentId
  familyKey := call.familyKey
  operation := .fillUp
  heldPositionId := some held.positionId
  updatedAt := call.now

/-- The part of `acquire_rebalance_lease` before its INSERT. -/
def PlanCall.released (call : PlanCall) (leases : Leases) : Leases :=
  releaseShiftUnknown call.shiftExitCommandExists call.familyKey call.now
    (releaseStalePlannedFillUp call.familyKey call.now leases)

/-- `acquire_rebalance_lease`: no lease when the INSERT breaks a key. -/
def acquireRebalanceLease (call : PlanCall) (held : HeldSameTokenExposure) (leases : Leases) :
    Option Leases :=
  insertLease (call.released leases) (call.lease held)

def PlanCall.decision (call : PlanCall) (held : HeldSameTokenExposure) : FillUpDecision :=
  decideFillUp {
    isRedecisionEvent := call.isRedecisionEvent, selected := call.selected, held := call.selected
    qCurrentLcb := call.qCurrentLcb, qEntryLcb := held.entryQLcb
    targetTotalExposureUsd := call.targetTotalExposureUsd,
    currentLiveExposureUsd := held.currentLiveUsd
    sameTokenPendingEntryUsd := call.sameTokenPendingEntryUsd,
    venueMinIncrementUsd := call.venueMinIncrementUsd
    hasUnownedPendingOrUnknownEntry := call.hasUnownedPendingOrUnknownEntry
    qStrengtheningFloor := call.qStrengtheningFloor }

def Lease.bind (deltaEntryUsd : ℚ) (now : Time) (lease : Lease) : Lease :=
  { lease with deltaEntryUsd := some deltaEntryUsd, updatedAt := now }

theorem Lease.bind_key (deltaEntryUsd : ℚ) (now : Time) (lease : Lease) :
    (lease.bind deltaEntryUsd now).intentId = lease.intentId := rfl

def bindResidual (leases : Leases) (intentId : String) (deltaEntryUsd : ℚ) (now : Time) : Leases :=
  (Leases.checked (leases.table.modify intentId (Lease.bind deltaEntryUsd now)
    (Lease.bind_key deltaEntryUsd now))).getD leases

/-- `plan_fill_up`: the lease first, then the decision under it. -/
def planFillUp (call : PlanCall) (leases : Leases) : FillUpPlan × Leases :=
  match call.owned with
  | none => (.noop, leases)
  | some held =>
    match acquireRebalanceLease call held leases with
    | none => (.abort none none, call.released leases)
    | some acquired =>
      let decision := call.decision held
      if decision.allow then
        let planned := advanceRebalanceLease acquired call.intentId .planned call.now none none
        (.apply decision.deltaEntryUsd call.intentId,
          bindResidual planned call.intentId decision.deltaEntryUsd call.now)
      else
        (.abort (some call.intentId) (some decision.reason),
          advanceRebalanceLease acquired call.intentId .aborted call.now
            (some (.denied decision.reason)) none)

structure FillUpLeasePayload where
  (intentId ownedPositionId ownedTokenId city targetDate metric : String)

inductive PositionTruth where
  | noConnection | unavailable
  | rows (rows : List PositionCurrent.Row)

def normMetric (text : String) : Option TemperatureMetric :=
  let metric := PyText.onString PyText.lower (strip text)
  if metric ∈ ["high", "tmax", "max", "maximum", "highest"] then some .high
  else if metric ∈ ["low", "tmin", "min", "minimum", "lowest"] then some .low
  else none

/-- An open row, or one that the chain still shows, with a positive cost. -/
def liveExposure (row : PositionCurrent.Row) : Prop :=
  (row.phase ∈ openPhases ∨ 1 / 1000000 < row.chain.chainShares.getD 0) ∧
    (0 < row.chain.chainCostBasisUsd.getD 0 ∨
      0 < row.entry.costBasisUsd.getD 0 ∨
      0 < row.entry.sizeUsd.getD 0)

instance (row : PositionCurrent.Row) : Decidable (liveExposure row) :=
  inferInstanceAs (Decidable (_ ∧ _))

def orUnknown (text : String) : String := if text = "" then "unknown" else text

/-- `presubmit_reread_aborts`: another live position of the family; the lease is not read. -/
def presubmitRereadAborts (truth : PositionTruth) (payload : FillUpLeasePayload) :
    Option RereadAbort :=
  match truth with
  | .noConnection => some .noExposureConn
  | .unavailable => some .positionTruthUnavailable
  | .rows rows =>
    let owned := strip payload.ownedPositionId
    let ownedToken := strip payload.ownedTokenId
    (rows.find? fun row =>
      liveExposure row ∧
        row.city = some payload.city ∧
        row.targetDate = some payload.targetDate ∧
        some row.temperatureMetric = normMetric payload.metric ∧
        ¬ (row.positionId ≠ "" ∧ row.positionId = owned) ∧
        ¬ (ownedToken ≠ "" ∧ row.entry.tokenId.getD "" = ownedToken)).map fun row =>
      .newUnownedSameFamilyEntry (orUnknown row.positionId) (orUnknown (row.binLabel.getD ""))

structure SubmitResult where
  status : SubmitStatus
  reconciliationFollowupRequired : Bool := false
  venueCallStarted : Bool := true
  venueAckReceived : Bool := false
  sideEffectKnown : Bool := true
  entryCommandId : String := ""

def SubmitResult.requiresReconcile (result : SubmitResult) : Bool :=
  result.venueCallStarted && (result.reconciliationFollowupRequired || !result.sideEffectKnown ||
    result.status == .timeoutUnknown || result.status == .postSubmitUnknown)

def SubmitResult.knownSubmitted (result : SubmitResult) : Bool :=
  result.venueAckReceived && result.status == .submitted

/-- `_advance_family_rebalance_lease_after_submit`. -/
def advanceAfterSubmit (leases : Leases) (intentId : String) (result : SubmitResult) (now : Time) :
    Leases :=
  let command := if result.entryCommandId = "" then none else some result.entryCommandId
  if result.knownSubmitted then
    match command with
    | some id => advanceRebalanceLease leases intentId .complete now none (some id)
    | none =>
      advanceRebalanceLease leases intentId .entryUnknown now (some .ackMissingDurableCommandId)
        none
  else if result.requiresReconcile then
    advanceRebalanceLease leases intentId .entryUnknown now
      (some (.reconcileRequired result.status)) command
  else advanceRebalanceLease leases intentId .aborted now (some (.submitNoAck result.status)) none

def SubmitResult.leavesUnknown (result : SubmitResult) : Bool :=
  if result.knownSubmitted then result.entryCommandId == "" else result.requiresReconcile

end Zeus.FamilyRebalance
