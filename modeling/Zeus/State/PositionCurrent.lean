import Zeus.State.VenueCommandValidators

/-! `upsert_position_current` merges a projection with the row that the position has, checks and
writes it. Five merges keep columns of the old row, depending on the type of the event. Columns are
grouped as the merges move them; a text outside a column's vocabulary is not written down. -/

namespace Zeus.PositionCurrent

open Refusal
open Zeus.VenueCommands (upper)

inductive LifecyclePhase where
  | pendingEntry | active | day0Window | pendingExit | economicallyClosed | settled | voided
  | adminClosed | unknown
  deriving DecidableEq

def legalLifecycleFolds : List (Option LifecyclePhase × List LifecyclePhase) := [
  (none, [.pendingEntry]),
  (some .pendingEntry, [.pendingEntry, .active, .day0Window, .voided]),
  (some .active, [.active, .day0Window, .pendingExit, .settled, .voided]),
  (some .day0Window, [.day0Window, .pendingExit, .settled, .voided]),
  (some .pendingExit,
    [.pendingExit, .active, .day0Window, .economicallyClosed, .settled, .adminClosed, .voided]),
  (some .economicallyClosed, [.economicallyClosed, .settled, .voided]),
  (some .settled, [.settled]),
  (some .voided, [.voided]),
  (some .adminClosed, [.adminClosed]),
  (some .unknown, [.unknown, .voided])]

/-- `TERMINAL_STATES`: the phases that fold to themselves only. -/
def terminalStates : List LifecyclePhase :=
  legalLifecycleFolds.filterMap fun fold => fold.1.filter fun phase => fold.2 == [phase]

def openPhases : List LifecyclePhase :=
  [.pendingEntry, .active, .day0Window, .pendingExit, .unknown]

def conditionIdRequiredPhases : List LifecyclePhase := openPhases

def realizedPnlRequiredPhases : List LifecyclePhase := [.economicallyClosed, .settled]

def absorbingPositionPhases : List LifecyclePhase := terminalStates ++ [.economicallyClosed]

variable {phase : LifecyclePhase}

theorem mem_openPhases_iff : phase ∈ openPhases ↔ phase ∉ absorbingPositionPhases := by
  cases phase <;> decide

theorem absorbing_of_terminal (hterm : phase ∈ terminalStates) :
    phase ∈ absorbingPositionPhases := List.mem_append_left _ hterm

inductive PositionEventType where
  | positionOpenIntent | entryOrderPosted | entryOrderFilled | entryOrderVoided | entryOrderRejected
  | day0WindowEntered | chainSynced | chainSizeCorrected | monitorRefreshed | exitIntent
  | exitOrderPosted
  | exitOrderFilled | exitOrderVoided | exitOrderRejected | exitRetryReleased | settled
  | adminVoided
  | manualOverrideApplied | venuePositionObserved | reviewRequired | positionIdentitySuperseded
  | positionTokenSplitReconstructed
  deriving DecidableEq

def chainProjectionEventTypes : List PositionEventType := [.chainSizeCorrected, .chainSynced]

def pendingExitAuthorityPreservingEventTypes : List PositionEventType :=
  .monitorRefreshed :: chainProjectionEventTypes

inductive Direction where
  | buyYes | buyNo | unknown
  deriving DecidableEq

inductive TemperatureUnit where
  | fahrenheit | celsius
  deriving DecidableEq

inductive TemperatureMetric where
  | high | low
  deriving DecidableEq

structure ChainObservation where
  chainState : Option String := none
  chainShares : Option ℚ := none
  chainAvgPrice : Option ℚ := none
  chainCostBasisUsd : Option ℚ := none
  chainSeenAt : Option String := none
  chainAbsenceAt : Option String := none

/-- With the chain observation, `realized_pnl_usd` and `exit_price`, the columns of
`_MONITOR_REFRESH_PRESERVED_COLUMNS`. -/
structure EntryRecord where
  marketId : Option String := none
  tokenId : Option String := none
  noTokenId : Option String := none
  conditionId : Option String := none
  orderId : Option String := none
  sizeUsd : Option ℚ := none
  shares : Option ℚ := none
  costBasisUsd : Option ℚ := none
  entryPrice : Option ℚ := none
  pPosterior : Option ℚ := none
  entryCiWidth : Option ℚ := none
  decisionSnapshotId : Option String := none
  entryMethod : Option String := none
  fillAuthority : Option String := none
  recoveryAuthority : Option String := none

structure MonitorBelief where
  lastMonitorProb : Option ℚ := none
  lastMonitorProbIsFresh : Option Bool := none
  lastMonitorEdge : Option ℚ := none

structure MonitorQuote where
  lastMonitorMarketPrice : Option ℚ := none
  lastMonitorMarketPriceIsFresh : Option Bool := none
  lastMonitorBestBid : Option ℚ := none
  lastMonitorBestAsk : Option ℚ := none
  lastMonitorMarketVig : Option ℚ := none

/-- With the phase, `_MONITOR_REFRESH_PROTECTED_PENDING_EXIT_COLUMNS`. -/
structure ExitControl where
  orderStatus : Option String := none
  exitReason : Option String := none
  exitRetryCount : Option ℤ := none
  nextExitRetryAt : Option String := none

structure Columns where
  (positionId strategyKey : String)
  city : Option String := none
  targetDate : Option String := none
  binLabel : Option String := none
  unit : Option TemperatureUnit := none
  temperatureMetric : TemperatureMetric := .high
  updatedAt : String := ""
  direction : Option Direction := none
  entry : EntryRecord := {}
  chain : ChainObservation := {}
  belief : MonitorBelief := {}
  quote : MonitorQuote := {}
  exit : ExitControl := {}
  realizedPnlUsd : Option ℚ := none
  exitPrice : Option ℚ := none
  settlementPrice : Option ℚ := none
  decisionLawId : Option String := none
  positionOrigin : Option String := none

structure Projection extends Columns where
  phase : Option LifecyclePhase

structure Row extends Columns where
  phase : LifecyclePhase

def Row.key (row : Row) : String := row.positionId

abbrev Table := KeyedTable Row.key

def blank (text : Option String) : Prop := text.getD "" = ""

instance (text : Option String) : Decidable (blank text) := inferInstanceAs (Decidable (_ = _))

/-- `_has_positive_chain_observation`. -/
def ChainObservation.positive (chain : ChainObservation) : Prop :=
  0 < chain.chainShares.getD 0 ∧
    blank chain.chainAbsenceAt ∧
    (¬ blank chain.chainSeenAt ∨
        (0 < chain.chainAvgPrice.getD 0 ∧ 0 < chain.chainCostBasisUsd.getD 0))

instance (chain : ChainObservation) : Decidable chain.positive :=
  inferInstanceAs (Decidable (_ ∧ _))

def protectedPendingExitStatuses : List String :=
  ["exit_intent", "retry_pending", "backoff_exhausted", "sell_pending", "sell_placed",
    "sell_pending_confirmation"]

/-- The stored row is waiting for an exit order. -/
def Row.exitProtected (row : Row) : Prop :=
  row.phase = .pendingExit ∧ row.exit.orderStatus.getD "" ∈ protectedPendingExitStatuses

instance (row : Row) : Decidable row.exitProtected := inferInstanceAs (Decidable (_ ∧ _))

section
variable (current : Row) (eventType : Option PositionEventType) (projection : Projection)

/-- The protected columns of the stored row; a forced exit keeps its reason through a monitor
refresh (`_preserve_pending_exit_column`). -/
def preservePendingExitColumns : Projection :=
  let forced :=
    eventType = some .monitorRefreshed ∧
    upper (projection.exit.exitReason.getD "") = "RED_FORCE_EXIT"
  { projection with
    phase := some current.phase
    exit := { current.exit with
      exitReason := if forced then projection.exit.exitReason else current.exit.exitReason } }

def preserveExistingPartialExitRealizedPnl : Projection :=
  { projection with realizedPnlUsd := projection.realizedPnlUsd.or current.realizedPnlUsd }

def preserveExistingMonitorRefreshAuthority : Projection :=
  if eventType = some .monitorRefreshed then
    let preserved : Projection := { projection with
      entry := current.entry
      chain := current.chain
      realizedPnlUsd := projection.realizedPnlUsd.or current.realizedPnlUsd
      exitPrice := current.exitPrice }
    let merged :=
      if current.exitProtected then preservePendingExitColumns current eventType preserved
      else preserved
    if merged.chain.positive ∧ merged.chain.chainState.getD "" ∈ ["", "unknown", "local_only"] then
      { merged with chain := { merged.chain with chainState := some "synced" } }
    else merged
  else projection

def preserveExistingChainAuthorityWithoutNewObservation : Projection :=
  if (projection.phase.any fun phase => phase ∈ openPhases) ∧
      blank projection.chain.chainSeenAt ∧
      blank projection.chain.chainAbsenceAt ∧
      current.chain.positive then
    { projection with chain := current.chain }
  else projection

def preserveExistingPendingExitAuthority : Projection :=
  if (eventType.any fun type => type ∈ pendingExitAuthorityPreservingEventTypes) ∧
      current.exitProtected then
    preservePendingExitColumns current eventType projection
  else projection

def preserveExistingMonitorSnapshotForChainProjection : Projection :=
  if eventType.any fun type => type ∈ chainProjectionEventTypes then
    { projection with
      belief :=
        if current.belief.lastMonitorProbIsFresh = some true then current.belief
        else projection.belief
      quote :=
        if current.quote.lastMonitorMarketPriceIsFresh = some true then current.quote
        else projection.quote }
  else projection

def mergeExisting : Projection :=
  preserveExistingMonitorSnapshotForChainProjection current eventType <|
    preserveExistingPendingExitAuthority current eventType <|
      preserveExistingChainAuthorityWithoutNewObservation current <|
        preserveExistingMonitorRefreshAuthority current eventType <|
          preserveExistingPartialExitRealizedPnl current projection
end

def merged (table : Table) (eventType : Option PositionEventType) (projection : Projection) :
    Projection :=
  if projection.positionId = "" then projection
  else (table.find projection.positionId).elim projection fun current =>
    mergeExisting current eventType projection

inductive UpsertError where
  | invalidSettlementPrice (positionId : String) (phase : Option LifecyclePhase) (price : Option ℚ)
  | absorbingPhaseReopened (positionId : String) (existing : LifecyclePhase)
    (candidate : Option LifecyclePhase)
  | nullConditionIdOnOpenPhase (positionId : String) (phase : Option LifecyclePhase)
  | missingRealizedPnlOnClose (positionId : String) (phase : Option LifecyclePhase)
  | duplicatePositionOpen (attempted existing token : String)
  | integrityError
  deriving DecidableEq

def settlementPriceValid (phase : Option LifecyclePhase) (price : Option ℚ) : Prop :=
  if phase = some .settled then price = some 0 ∨ price = some 1 else price = none

instance (phase : Option LifecyclePhase) (price : Option ℚ) :
    Decidable (settlementPriceValid phase price) :=
  inferInstanceAs (Decidable (ite _ _ _))

def settlementPriceRefusal (projection : Projection) : Option UpsertError :=
  require (settlementPriceValid projection.phase projection.settlementPrice)
    (.invalidSettlementPrice projection.positionId projection.phase projection.settlementPrice)

/-- `_projection_allows_terminal_restore_exposure`. -/
def allowsTerminalRestoreExposure (eventType : Option PositionEventType) (projection : Projection) :
    Prop :=
  (projection.phase = some .active ∨ projection.phase = some .pendingExit) ∧
  eventType = some .reviewRequired ∧
    (1 / 100 < projection.chain.chainShares.getD 0 ∨ 1 / 100 < projection.entry.shares.getD 0)

instance (eventType : Option PositionEventType) (projection : Projection) :
    Decidable (allowsTerminalRestoreExposure eventType projection) :=
  inferInstanceAs (Decidable (_ ∧ _))

def reopenRefusal (table : Table) (eventType : Option PositionEventType) (projection : Projection) :
    Option UpsertError :=
  if projection.positionId ≠ "" ∧
      ¬ (projection.phase.any fun phase => phase ∈ absorbingPositionPhases) then
    (table.find projection.positionId).bind fun existing =>
      require (existing.phase ∈ absorbingPositionPhases →
        allowsTerminalRestoreExposure eventType projection)
        (.absorbingPhaseReopened projection.positionId existing.phase projection.phase)
  else none

def conditionIdRefusal (projection : Projection) : Option UpsertError :=
  require ((projection.phase.any fun phase => phase ∈ conditionIdRequiredPhases) →
      ¬ blank projection.entry.conditionId)
    (.nullConditionIdOnOpenPhase projection.positionId projection.phase)

/-- Only the first write into a close phase has to carry the realized result. -/
def realizedPnlRefusal (table : Table) (projection : Projection) : Option UpsertError :=
  if (projection.phase.any fun phase => phase ∈ realizedPnlRequiredPhases) ∧
    projection.realizedPnlUsd = none ∧
      projection.positionId ≠ "" then
    require ((table.find projection.positionId).any fun prior =>
        prior.phase ∈ absorbingPositionPhases)
      (.missingRealizedPnlOnClose projection.positionId projection.phase)
  else none

def nonBlank (text : Option String) : List String := (text.filter fun id => id ≠ "").toList

/-- `_projection_held_tokens`: a row of unknown direction may own either token, and an empty id is
no token. -/
def Columns.heldTokens (columns : Columns) : List String :=
  match columns.direction with
  | some .buyNo => nonBlank columns.entry.noTokenId
  | some .buyYes => nonBlank columns.entry.tokenId
  | _ => (nonBlank columns.entry.tokenId ++ nonBlank columns.entry.noTokenId).dedup

/-- The WHERE of `_find_existing_open_row`. -/
def Row.occupies (row : Row) (token excluded : String) : Prop :=
  ((row.direction = some .buyYes ∧ row.entry.tokenId = some token) ∨
    (row.direction = some .buyNo ∧ row.entry.noTokenId = some token) ∨
    (row.direction ≠ some .buyYes ∧ row.direction ≠ some .buyNo ∧
      (row.entry.tokenId = some token ∨ row.entry.noTokenId = some token))) ∧
    row.positionId ≠ excluded ∧
    row.phase ∈ openPhases

instance (row : Row) (token excluded : String) : Decidable (row.occupies token excluded) :=
  inferInstanceAs (Decidable (_ ∧ _))

def findExistingOpenRow (table : Table) (token excluded : String) : Option String :=
  (table.rows.find? fun row => row.occupies token excluded).map Row.key

def duplicateRefusal (table : Table) (projection : Projection) : Option UpsertError :=
  if (projection.phase.any fun phase => phase ∈ openPhases) ∧ projection.positionId ≠ "" then
    projection.heldTokens.findSome? fun token =>
      (findExistingOpenRow table token projection.positionId).map fun existing =>
        .duplicatePositionOpen projection.positionId existing token
  else none

def Projection.row (projection : Projection) : Option Row :=
  (projection.phase.filter fun phase => phase ≠ .unknown).map fun phase =>
    { projection with phase := phase }

def Row.overwrite (row old : Row) : Row :=
  { row with
    positionId := old.positionId
    decisionLawId := old.decisionLawId.or row.decisionLawId
    positionOrigin := old.positionOrigin.or row.positionOrigin }

theorem Row.overwrite_key (row old : Row) : (row.overwrite old).key = old.key := rfl

def upsertPositionCurrent (table : Table) (eventType : Option PositionEventType)
    (projection : Projection) : Except UpsertError Table := do
  let candidate := merged table eventType projection
  guardBy (first [
    settlementPriceRefusal candidate, reopenRefusal table eventType candidate,
    conditionIdRefusal candidate,
    realizedPnlRefusal table candidate, duplicateRefusal table candidate])
  let row ← candidate.row.elim (.error .integrityError) .ok
  return table.upsert row row.overwrite row.overwrite_key

/-- The columns that no merge replaces. -/
def Columns.unmerged (columns : Columns) : Columns :=
  { columns with
    entry := {}, chain := {}, belief := {}, quote := {}, exit := {}, realizedPnlUsd := none,
    exitPrice := none }

section
variable {current : Row} {eventType : Option PositionEventType} {projection : Projection}

theorem monitorRefresh_phase :
    (preserveExistingMonitorRefreshAuthority current eventType projection).phase =
      if eventType = some .monitorRefreshed ∧ current.exitProtected then some current.phase
      else projection.phase := by
  unfold preserveExistingMonitorRefreshAuthority
  by_cases refr : eventType = some .monitorRefreshed
  · by_cases held : current.exitProtected
    · simp only [refr, held, if_true, and_self]
      split_ifs <;> rfl
    · simp only [refr, held, if_true, if_false, and_false]
      split_ifs <;> rfl
  · simp [refr]

@[simp] theorem chainAuthority_phase :
    (preserveExistingChainAuthorityWithoutNewObservation current projection).phase =
      projection.phase := by
  unfold preserveExistingChainAuthorityWithoutNewObservation
  split_ifs <;> rfl

@[simp] theorem monitorSnapshot_phase :
    (preserveExistingMonitorSnapshotForChainProjection current eventType projection).phase =
      projection.phase := by
  unfold preserveExistingMonitorSnapshotForChainProjection
  split_ifs <;> rfl

theorem mergeExisting_phase :
    (mergeExisting current eventType projection).phase =
      if (eventType.any fun type => type ∈ pendingExitAuthorityPreservingEventTypes) ∧
          current.exitProtected then some .pendingExit
      else projection.phase := by
  rw [mergeExisting, monitorSnapshot_phase, preserveExistingPendingExitAuthority]
  split_ifs with pres
  · exact congrArg some pres.2.1
  · rw [chainAuthority_phase, monitorRefresh_phase, if_neg]
    · rfl
    · rintro ⟨refr, held⟩
      exact pres ⟨by rw [refr]; rfl, held⟩

theorem monitorRefresh_unmerged :
    (preserveExistingMonitorRefreshAuthority current eventType projection).unmerged =
      projection.unmerged := by
  unfold preserveExistingMonitorRefreshAuthority
  by_cases held : current.exitProtected
  · simp only [held, if_true]
    split_ifs <;> rfl
  · simp only [held, if_false]
    split_ifs <;> rfl

theorem chainAuthority_unmerged :
    (preserveExistingChainAuthorityWithoutNewObservation current projection).unmerged =
      projection.unmerged := by
  unfold preserveExistingChainAuthorityWithoutNewObservation
  split_ifs <;> rfl

theorem pendingExit_unmerged :
    (preserveExistingPendingExitAuthority current eventType projection).unmerged =
      projection.unmerged := by
  unfold preserveExistingPendingExitAuthority
  split_ifs <;> rfl

theorem monitorSnapshot_unmerged :
    (preserveExistingMonitorSnapshotForChainProjection current eventType projection).unmerged =
      projection.unmerged := by
  unfold preserveExistingMonitorSnapshotForChainProjection
  split_ifs <;> rfl

theorem mergeExisting_unmerged :
    (mergeExisting current eventType projection).unmerged = projection.unmerged := by
  rw [mergeExisting, monitorSnapshot_unmerged, pendingExit_unmerged, chainAuthority_unmerged,
    monitorRefresh_unmerged]
  rfl
end

variable {table after : Table} {eventType : Option PositionEventType}
  {projection candidate : Projection}

theorem merged_of_blank (anon : projection.positionId = "") :
    merged table eventType projection = projection := if_pos anon

theorem merged_of_found {current : Row} (named : projection.positionId ≠ "")
    (hf : table.find projection.positionId = some current) :
    merged table eventType projection = mergeExisting current eventType projection := by
  rw [merged, if_neg named, hf]
  rfl

section
variable (table : Table) (eventType : Option PositionEventType) (projection : Projection)

theorem merged_unmerged : (merged table eventType projection).unmerged = projection.unmerged := by
  unfold merged
  split_ifs
  · rfl
  · cases table.find projection.positionId with
    | none => rfl
    | some current => exact mergeExisting_unmerged

theorem merged_positionId :
    (merged table eventType projection).positionId = projection.positionId := by
  have same := congrArg Columns.positionId (merged_unmerged table eventType projection)
  exact same

theorem merged_settlementPrice :
    (merged table eventType projection).settlementPrice = projection.settlementPrice := by
  have same := congrArg Columns.settlementPrice (merged_unmerged table eventType projection)
  exact same
end

structure Passes (table : Table) (eventType : Option PositionEventType) (candidate : Projection) :
    Prop where
  settlement : settlementPriceValid candidate.phase candidate.settlementPrice
  reopen : reopenRefusal table eventType candidate = none
  condition : conditionIdRefusal candidate = none
  realized : realizedPnlRefusal table candidate = none
  duplicate : duplicateRefusal table candidate = none

structure Written (table : Table) (candidate : Projection) (row : Row) (after : Table) : Prop where
  phase : candidate.phase = some row.phase
  known : row.phase ≠ .unknown
  held : row.heldTokens = candidate.heldTokens
  find : ∀ position,
    after.find position = if position = candidate.positionId then some row else table.find position

theorem upsert_inv (acc : upsertPositionCurrent table eventType projection = .ok after) :
    Passes table eventType (merged table eventType projection) ∧
      ∃ phase, (merged table eventType projection).phase = some phase ∧
        phase ≠ .unknown ∧
        ∀ posn, after.find posn = if posn = projection.positionId then
            let row : Row := { merged table eventType projection with phase }
            some ((table.find posn).elim row row.overwrite)
          else table.find posn := by
  rw [← merged_positionId table eventType projection]
  simp only [upsertPositionCurrent, CheckedFold.bind_eq_ok, guardBy_eq_ok, first_cons, elim_eq_ok,
    settlementPriceRefusal, require_eq_none] at acc
  generalize merged table eventType projection = candidate at acc ⊢
  obtain ⟨_, ⟨setl, reopen, cond, realized, duplicate, -⟩, row, isRow, wrote⟩ := acc
  obtain rfl := Except.ok.inj wrote
  simp only [Projection.row, Option.map_eq_some_iff, Option.filter_eq_some_iff, decide_eq_true_eq]
    at isRow
  obtain ⟨phase, ⟨isPhase, known⟩, rfl⟩ := isRow
  refine ⟨⟨setl, reopen, cond, realized, duplicate⟩, phase, isPhase, known, fun posn => ?_⟩
  exact KeyedTable.find_upsert _ _ _ _ posn

theorem upsert_ok (acc : upsertPositionCurrent table eventType projection = .ok after) :
    Passes table eventType (merged table eventType projection) ∧
      ∃ row, Written table (merged table eventType projection) row after := by
  obtain ⟨passes, phase, isPhase, known, find⟩ := upsert_inv acc
  rw [← merged_positionId table eventType projection] at find
  refine ⟨passes, ?_⟩
  generalize merged table eventType projection = candidate at isPhase find ⊢
  cases hf : table.find candidate.positionId with
  | none =>
    refine ⟨{ candidate with phase }, isPhase, known, rfl, fun posn => ?_⟩
    rw [find]
    split_ifs with own
    · rw [own, hf]
      rfl
    · rfl
  | some old =>
    refine ⟨Row.overwrite { candidate with phase } old, isPhase, known, rfl, fun posn => ?_⟩
    rw [find]
    split_ifs with own
    · rw [own, hf]
      rfl
    · rfl

theorem upsert_accepts (passes : Passes table eventType (merged table eventType projection))
    (isPhase : (merged table eventType projection).phase = some phase) (known : phase ≠ .unknown) :
    ∃ after, upsertPositionCurrent table eventType projection = .ok after := by
  simp only [upsertPositionCurrent, CheckedFold.bind_eq_ok, guardBy_eq_ok, first_cons, elim_eq_ok,
    settlementPriceRefusal, require_eq_none]
  refine ⟨_, (),
    ⟨passes.settlement, passes.reopen, passes.condition, passes.realized, passes.duplicate, rfl⟩,
    { merged table eventType projection with phase }, ?_, rfl⟩
  simp [Projection.row, isPhase, known]

structure Upsert where
  eventType : Option PositionEventType
  projection : Projection

def Upsert.apply (table : Table) (call : Upsert) : Table :=
  (upsertPositionCurrent table call.eventType call.projection).toOption.getD table

def runUpserts (table : Table) (calls : List Upsert) : Table := calls.foldl Upsert.apply table

theorem Upsert.apply_cases (table : Table) (call : Upsert) : call.apply table = table ∨
      ∃ row, upsertPositionCurrent table call.eventType call.projection = .ok (call.apply table) ∧
      Passes table call.eventType (merged table call.eventType call.projection) ∧
      Written table (merged table call.eventType call.projection) row (call.apply table) := by
  unfold Upsert.apply
  cases ans : upsertPositionCurrent table call.eventType call.projection with
  | error error => exact .inl rfl
  | ok after =>
    obtain ⟨passes, row, hw⟩ := upsert_ok ans
    exact .inr ⟨row, rfl, passes, hw⟩

theorem Upsert.apply_find_other {call : Upsert} {posn : String}
    (other : call.projection.positionId ≠ posn) :
    (call.apply table).find posn = table.find posn := by
  rcases call.apply_cases table with kept | ⟨row, -, -, hw⟩
  · rw [kept]
  · rw [hw.find, merged_positionId, if_neg (Ne.symm other)]

end Zeus.PositionCurrent
