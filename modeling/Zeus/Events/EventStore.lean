import Zeus.Lib.Glob
import Zeus.Events.LiveOrderAggregate

/-! The processing rows of the reactor (`edli_reactor_v1`) and of its winner pointer
(`edli_reactor_v1:global_winner_v1`), one table in the source, are two tables here. Timestamps are
text, compared as the database compares text. `processed_at`, `updated_at`, the dead-letter evidence
and the winner hints are left out. An operation that raises is rolled back by its caller. -/

namespace Zeus.EventStore

open Zeus.Collateral (strip)
open Zeus.LiveOrder (LiveOrderEventType)

inductive ProcessingStatus where
  | pending | processing | processed | failed | deadLetter | expired | ignored
  deriving DecidableEq

/-- A row of `opportunity_event_processing` for one consumer. -/
structure ProcessingRow where
  eventId : String
  processingStatus : ProcessingStatus
  attemptCount : ℕ
  (claimedAt lastError : Option String)
  deriving DecidableEq

namespace ProcessingRow

def claimed (claimedAt : String) (row : ProcessingRow) : ProcessingRow :=
  { row with
    processingStatus := .processing, attemptCount := row.attemptCount + 1,
    claimedAt := some claimedAt }

/-- Back in the queue, with `claimed_at` as the retry floor. -/
def requeued (notBefore lastError : Option String) (row : ProcessingRow) : ProcessingRow :=
  { row with processingStatus := .pending, claimedAt := notBefore, lastError := lastError }

def marked (status : ProcessingStatus) (error : Option String) (row : ProcessingRow) :
    ProcessingRow :=
  { row with processingStatus := status, lastError := error }

theorem claimed_eventId (cat : String) (row : ProcessingRow) :
    (row.claimed cat).eventId = row.eventId := rfl

theorem requeued_eventId (nbf lerr : Option String) (row : ProcessingRow) :
    (row.requeued nbf lerr).eventId = row.eventId := rfl

theorem marked_eventId (status : ProcessingStatus) (error : Option String) (row : ProcessingRow) :
    (row.marked status error).eventId = row.eventId := rfl

end ProcessingRow

abbrev ProcessingTable := KeyedTable ProcessingRow.eventId

structure OpportunityEvent where
  (eventId idempotencyKey source receivedAt : String)
  deriving DecidableEq

/-- A row of `edli_live_order_events` as the claim queries read it. -/
structure LiveOrderEvent where
  aggregateId : String
  eventType : LiveOrderEventType
  /-- `pre_submit_rejection` of the payload equals 1. -/
  preSubmitRejection : Bool
  /-- `venue_call_started` of the payload differs from 0. -/
  venueCallStarted : Bool
  deriving DecidableEq

structure Store where
  (main pointer : ProcessingTable)
  opportunityEvents : KeyedTable OpportunityEvent.eventId
  liveOrderEvents : List LiveOrderEvent

def globalWinnerTargetedClaim : String := "GLOBAL_WINNER_TARGETED_CLAIM"
def globalWinnerSubmitFenced : String := "GLOBAL_WINNER_SUBMIT_FENCED"
def globalWinnerTargetSuperseded : String := "GLOBAL_WINNER_TARGET_SUPERSEDED"

/-- `last_error in _GLOBAL_WINNER_CLAIM_REASONS`. -/
def isClaimReason (lastError : Option String) : Bool :=
  decide (lastError = some globalWinnerTargetedClaim ∨ lastError = some globalWinnerSubmitFenced)

/-- `aggregate_id GLOB event_id || ':*'`. -/
def ofCarrier (eventId aggregateId : String) : Bool :=
  Glob.glob ((eventId.toList ++ [':']) ++ ['*']) aggregateId.toList

def durableCommand (orders : List LiveOrderEvent) (eventId : String) : Bool :=
  orders.any fun order =>
    decide (order.eventType = .executionCommandCreated ∨ order.eventType = .venueSubmitAttempted) &&
      ofCarrier eventId order.aggregateId

/-- A carrier that lost to another winner; `claimed_at` stays. -/
def ProcessingRow.superseded (row : ProcessingRow) : ProcessingRow :=
  row.marked .expired (some globalWinnerTargetSuperseded)

def ProcessingRow.terminalized (row : ProcessingRow) : ProcessingRow :=
  { row.superseded with claimedAt := none }

def ProcessingRow.fenced (row : ProcessingRow) : ProcessingRow :=
  { row with lastError := some globalWinnerSubmitFenced }

/-- A claim whose owner died; a fenced one counts as targeted again. -/
def ProcessingRow.released (row : ProcessingRow) : ProcessingRow :=
  row.requeued none
    (if isClaimReason row.lastError then some globalWinnerTargetedClaim
      else some "PROCESS_OWNER_RESTARTED")

theorem ProcessingRow.superseded_eventId (row : ProcessingRow) :
    row.superseded.eventId = row.eventId := rfl

theorem ProcessingRow.terminalized_eventId (row : ProcessingRow) :
    row.terminalized.eventId = row.eventId := rfl

theorem ProcessingRow.fenced_eventId (row : ProcessingRow) : row.fenced.eventId = row.eventId := rfl

theorem ProcessingRow.released_eventId (row : ProcessingRow) : row.released.eventId = row.eventId :=
  rfl

/-- `insert_or_ignore` of an event the reactor works on: a row is written only where its keys
are free. -/
def insertOrIgnore (store : Store) (event : OpportunityEvent) : Store :=
  { store with
    opportunityEvents :=
      if store.opportunityEvents.rows.any fun stored =>
            stored.idempotencyKey == event.idempotencyKey then
        store.opportunityEvents
      else (store.opportunityEvents.tryInsert event).getD store.opportunityEvents
    main := (store.main.tryInsert ⟨event.eventId, .pending, 0, none, none⟩).getD store.main }

/-- The row is pending, or its lease ran out and no command of a global winner hangs on it. -/
def claimable (orders : List LiveOrderEvent) (leaseCutoff : String) (row : ProcessingRow) : Bool :=
  match row.processingStatus, row.claimedAt with
  | .pending, _ => true
  | .processing, some claimedAt =>
    decide (claimedAt ≤ leaseCutoff) && decide (row.lastError ≠ some globalWinnerSubmitFenced) &&
      (decide (row.lastError ≠ some globalWinnerTargetedClaim) ||
          !durableCommand orders row.eventId)
  | _, _ => false

/-- `claim`; `none` when no row was updated. `leaseCutoff` is `claimed_at` less the lease. -/
def claim (store : Store) (eventId claimedAt leaseCutoff : String) : Option Store :=
  match store.main.find eventId with
  | none => none
  | some row =>
    if claimable store.liveOrderEvents leaseCutoff row then
      some { store with
        main := store.main.modify eventId (ProcessingRow.claimed claimedAt)
          (ProcessingRow.claimed_eventId claimedAt) }
    else none

def attemptCount (store : Store) (eventId : String) : ℕ :=
  ((store.main.find eventId).map ProcessingRow.attemptCount).getD 0

def supersededTargetIds (store : Store) (eventId : String) : List String :=
  (store.pointer.rows.filter fun row =>
    decide (row.processingStatus = .pending ∧ row.eventId ≠ eventId ∧ row.eventId ≠ "")).map
      ProcessingRow.eventId

/-- Superseded carriers without a command are expired, except those of the running epoch. -/
def terminalizeSuperseded (store : Store) (eventId : String) (preserve : List String) :
    ProcessingTable :=
  store.main.modifyWhere
    (fun row => decide ((row.processingStatus = .pending ∨ row.processingStatus = .processing) ∧
        row.eventId ∈ supersededTargetIds store eventId ∧
        row.eventId ∉ preserve) &&
        !durableCommand store.liveOrderEvents row.eventId)
    ProcessingRow.terminalized ProcessingRow.terminalized_eventId

def bindWinnerPointer (store : Store) (eventId : String) (preserve : List String) : Store :=
  let expired := store.pointer.modifyWhere
    (fun row => decide (row.processingStatus = .pending ∧ row.eventId ≠ eventId))
    ProcessingRow.superseded ProcessingRow.superseded_eventId
  { store with
    main := terminalizeSuperseded store eventId preserve
    pointer := expired.upsert ⟨eventId, .pending, 0, none, some globalWinnerTargetedClaim⟩
      (ProcessingRow.requeued none (some globalWinnerTargetedClaim))
      (ProcessingRow.requeued_eventId _ _) }

/-- `max(candidates, key=(received_at, event_id))`. -/
def winnerOf : List OpportunityEvent → Option OpportunityEvent
  | [] => none
  | event :: rest => some (rest.foldl (fun best event =>
    if best.receivedAt < event.receivedAt ∨
        best.receivedAt = event.receivedAt ∧
        best.eventId < event.eventId then event else best) event)

def expireLosers (store : Store) (losers : List String) : Store :=
  { store with
    main := store.main.modifyWhere
      (fun row => decide (row.processingStatus = .pending ∧
        row.lastError = some globalWinnerTargetedClaim ∧
        row.eventId ∈ losers))
      ProcessingRow.superseded ProcessingRow.superseded_eventId }

inductive StoreError where
  | legacyTargetEventsMissing
  | claimGenerationMissing (eventId : String)
  | claimFenceLost (eventId : String)
  deriving DecidableEq

def emptyPointerRow : ProcessingRow :=
  ⟨"__global_winner_none__", .pending, 0, none, some "GLOBAL_WINNER_POINTER_BOOTSTRAPPED_EMPTY"⟩

/-- `_bootstrap_legacy_winner_pointer`: once, while the pointer consumer has no row. -/
def bootstrapLegacyWinnerPointer (store : Store) : Except StoreError Store :=
  if store.pointer.rows ≠ [] then .ok store
  else
    let legacyIds := (store.main.rows.filter fun row =>
      decide (row.processingStatus = .pending ∧ row.lastError = some globalWinnerTargetedClaim ∧
        row.eventId ≠ "")).map ProcessingRow.eventId
    if legacyIds = [] then
      .ok { store with pointer := (store.pointer.tryInsert emptyPointerRow).getD store.pointer }
    else
      match winnerOf (store.opportunityEvents.rows.filter fun event =>
          decide (event.eventId ∈ legacyIds ∧ event.receivedAt ≠ "")) with
      | none => .error .legacyTargetEventsMissing
      | some winner =>
        .ok (bindWinnerPointer
          (expireLosers store (legacyIds.filter fun eventId => eventId ≠ winner.eventId))
          winner.eventId [])

def bootCandidate (main : ProcessingTable) (event : OpportunityEvent) : Bool :=
  match main.find event.eventId with
  | none => false
  | some row => decide (row.processingStatus = .pending ∧ row.claimedAt = none ∧
      row.lastError = some globalWinnerTargetedClaim ∧
      event.eventId ≠ "" ∧
      event.receivedAt ≠ "")

def reconcileBootWinnerPointer (store : Store) : Except StoreError Store :=
  let candidates := store.opportunityEvents.rows.filter (bootCandidate store.main)
  match winnerOf candidates with
  | none => bootstrapLegacyWinnerPointer store
  | some winner =>
    let losers :=
      (candidates.map OpportunityEvent.eventId).filter fun eventId => eventId ≠ winner.eventId
    .ok (bindWinnerPointer (expireLosers store losers) winner.eventId [])

def releaseBefore (main : ProcessingTable) (boundary : String) : ProcessingTable :=
  main.modifyWhere
    (fun row => decide (row.processingStatus = .processing) &&
      (match row.claimedAt with
        | some claimedAt => decide (claimedAt < boundary)
        | none => false))
    ProcessingRow.released ProcessingRow.released_eventId

def requeueProcessingBeforeBoot (store : Store) (boundary : String) : Except StoreError Store :=
  reconcileBootWinnerPointer { store with main := releaseBefore store.main boundary }

structure Claim where
  (eventId claimedAt : String)
  attemptCount : ℕ
  deriving DecidableEq

def markTerminal (store : Store) (eventId : String) (status : ProcessingStatus)
    (error : Option String) : Store :=
  { store with
    main := store.main.modify eventId (ProcessingRow.marked status error)
      (ProcessingRow.marked_eventId status error) }

def markProcessed (store : Store) (eventId : String) : Store :=
  markTerminal store eventId .processed none

def markFailed (store : Store) (eventId error : String) : Store :=
  markTerminal store eventId .failed (some error)

def markDeadLetter (store : Store) (eventId errorMessage : String) : Store :=
  markTerminal store eventId .deadLetter (some errorMessage)

def requeuePending (store : Store) (eventId : String) (notBefore lastError : Option String) :
    Store :=
  let requeued := { store with
    main := store.main.modify eventId (ProcessingRow.requeued notBefore lastError)
      (ProcessingRow.requeued_eventId notBefore lastError) }
  if isClaimReason lastError ∧ (store.opportunityEvents.find eventId).isSome then
    bindWinnerPointer requeued eventId []
  else requeued

def ownedBy (claim : Claim) (row : ProcessingRow) : Bool :=
  decide (row.processingStatus = .processing ∧ row.claimedAt = some claim.claimedAt ∧
    row.attemptCount = claim.attemptCount)

/-- A command of the carrier was rejected before any venue call, and no venue attempt exists. -/
def sideEffectFreeRejectedCommand (orders : List LiveOrderEvent) (eventId : String) : Bool :=
  (orders.any fun rejected =>
    decide (rejected.eventType = .submitRejected) && ofCarrier eventId rejected.aggregateId &&
      rejected.preSubmitRejection && !rejected.venueCallStarted &&
      orders.any fun command =>
        decide (command.eventType = .executionCommandCreated ∧
          command.aggregateId = rejected.aggregateId)) &&
    !orders.any fun attempted =>
      decide (attempted.eventType = .venueSubmitAttempted) &&
        ofCarrier eventId attempted.aggregateId

def pointerCurrent (store : Store) (eventId : String) : Bool :=
  match store.pointer.find eventId with
  | none => false
  | some pointer => decide (pointer.processingStatus = .pending)

/-- `requeue_claim_if_current`, with its answer. -/
def requeueClaimIfCurrent (store : Store) (claim : Claim) (notBefore lastError : Option String) :
    Store × Bool :=
  match store.main.find claim.eventId with
  | none => (store, false)
  | some row =>
    if ownedBy claim row then
      let targeted := isClaimReason row.lastError
      if targeted && sideEffectFreeRejectedCommand store.liveOrderEvents claim.eventId ||
          targeted && !pointerCurrent store claim.eventId then
        ({ store with
          main := store.main.modify claim.eventId ProcessingRow.terminalized
            ProcessingRow.terminalized_eventId }, true)
      else
        let lastError := if targeted then some globalWinnerTargetedClaim else lastError
        ({ store with
          main := store.main.modify claim.eventId (ProcessingRow.requeued notBefore lastError)
            (ProcessingRow.requeued_eventId notBefore lastError) }, true)
    else (store, false)

inductive Disposition where
  | requeuePending (notBefore lastError : Option String)
  | requeueClaimIfCurrent (notBefore lastError : Option String)
  | markProcessed
  | markFailed (error : String)
  | markDeadLetter (errorMessage : String)
  deriving DecidableEq

def dispose (store : Store) (claim : Claim) : Disposition → Store
  | .requeuePending notBefore lastError => requeuePending store claim.eventId notBefore lastError
  | .requeueClaimIfCurrent notBefore lastError =>
    (requeueClaimIfCurrent store claim notBefore lastError).1
  | .markProcessed => markProcessed store claim.eventId
  | .markFailed error => markFailed store claim.eventId error
  | .markDeadLetter errorMessage => markDeadLetter store claim.eventId errorMessage

/-- `str(event.source or "").startswith("global_auction_winner_target:")`. -/
def isGlobalTarget (event : OpportunityEvent) : Bool :=
  "global_auction_winner_target:".toList.isPrefixOf event.source.toList

/-- The claim still owns its row, the pointer still names it, and it has no command yet. -/
def fenceHolds (store : Store) (eventId generation : String) (attemptCount : ℕ) : Bool :=
  match store.main.find eventId, store.pointer.find eventId with
  | some row, some pointer =>
    decide (row.processingStatus = .processing ∧ row.claimedAt = some generation ∧
      row.attemptCount = attemptCount ∧
      row.lastError = some globalWinnerTargetedClaim ∧
      pointer.processingStatus = .pending ∧
      pointer.lastError = some globalWinnerTargetedClaim) &&
      !durableCommand store.liveOrderEvents eventId
  | _, _ => false

def fenceGlobalTargetClaimBeforeCommand (store : Store) (event : OpportunityEvent)
    (claimedAt : Option String) (attemptCount : Option ℕ) : Except StoreError Store :=
  if isGlobalTarget event then
    let generation := strip (claimedAt.getD "")
    match attemptCount with
    | none => .error (.claimGenerationMissing event.eventId)
    | some attempts =>
      if generation = "" then .error (.claimGenerationMissing event.eventId)
      else if fenceHolds store event.eventId generation attempts then
        .ok { store with
          main := store.main.modify event.eventId ProcessingRow.fenced
            ProcessingRow.fenced_eventId }
      else .error (.claimFenceLost event.eventId)
  else .ok store

def liveOrderAggregateId (eventId finalIntentId : String) : String :=
  eventId ++ ":" ++ finalIntentId

def liveOrderStateEvents (eventId finalIntentId : String) : List LiveOrderEvent :=
  [.decisionProofAccepted, .submitPlanBuilt, .preSubmitRevalidated, .liveCapReserved,
    .executionCommandCreated].map fun eventType =>
      ⟨liveOrderAggregateId eventId finalIntentId, eventType, false, false⟩

/-- `_append_live_order_state` for the event of a claim: the fence, then the order events. -/
def appendLiveOrderState (store : Store) (event : OpportunityEvent) (claim : Claim)
    (finalIntentId : String) : Except StoreError Store :=
  match fenceGlobalTargetClaimBeforeCommand store event (some claim.claimedAt)
    (some claim.attemptCount) with
  | .error error => .error error
  | .ok fenced =>
    .ok { fenced with
      liveOrderEvents :=
        fenced.liveOrderEvents ++ liveOrderStateEvents event.eventId finalIntentId }

/-- The submit transaction of a worker on its claim; `none` when it does not commit. -/
def submit (store : Store) (claim : Claim) (finalIntentId : String) : Option Store :=
  match store.opportunityEvents.find claim.eventId with
  | none => none
  | some event => (appendLiveOrderState store event claim finalIntentId).toOption

inductive Step where
  | insertOrIgnore (event : OpportunityEvent)
  | claim (eventId claimedAt leaseCutoff : String)
  | dispose (claim : Claim) (how : Disposition)
  | requeueProcessingBeforeBoot (boundary : String)
  | changePointer (pointer : ProcessingTable)
  | appendLiveOrderEvent (order : LiveOrderEvent)
  | submit (claim : Claim) (finalIntentId : String)

structure History where
  store : Store
  (claims commits : List Claim)

def History.start (store : Store) : History := ⟨store, [], []⟩

def History.step (history : History) : Step → History
  | .insertOrIgnore event => { history with store := EventStore.insertOrIgnore history.store event }
  | .claim eventId claimedAt leaseCutoff =>
    match EventStore.claim history.store eventId claimedAt leaseCutoff with
    | none => history
    | some store =>
      { history with
        store, claims := history.claims ++ [⟨eventId, claimedAt, attemptCount store eventId⟩] }
  | .dispose claim how => { history with store := EventStore.dispose history.store claim how }
  | .requeueProcessingBeforeBoot boundary =>
    match EventStore.requeueProcessingBeforeBoot history.store boundary with
    | .error _ => history
    | .ok store => { history with store }
  | .changePointer pointer => { history with store := { history.store with pointer } }
  | .appendLiveOrderEvent order =>
    { history with
      store := { history.store with liveOrderEvents := history.store.liveOrderEvents ++ [order] } }
  | .submit claim finalIntentId =>
    match EventStore.submit history.store claim finalIntentId with
    | none => history
    | some store => { history with store, commits := history.commits ++ [claim] }

def History.run (history : History) (steps : List Step) : History :=
  steps.foldl History.step history

theorem History.run_concat (hist : History) (steps : List Step) (step : Step) :
    hist.run (steps ++ [step]) = (hist.run steps).step step := by
  simp [History.run, List.foldl_append]

end Zeus.EventStore
