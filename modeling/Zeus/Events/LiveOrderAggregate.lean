import Zeus.Lib.CheckedFold
import Zeus.Lib.Latest
import Zeus.Lib.Refusal
import Zeus.State.CollateralLedger

/-! `append_event` over the event log, the projection table and the user-channel dedup table. It
runs inside a savepoint: it returns the new tables, or an error and no change. A payload is read
through the fields the ledger reads; the rest is one text. The hashes, the pre-submit validator and
the profit audit are parameters. A call says what its payload becomes in the table (`json.loads` of
its canonical JSON). The stamps, `schema_version` and the lookup at the next sequence are left out:
the latest row has the greatest one. -/

namespace Zeus.LiveOrder

open Refusal
open Zeus.Collateral (strip)

inductive LiveOrderEventType where
  | decisionProofAccepted | submitPlanBuilt | preSubmitRevalidated | liveCapReserved
  | executionCommandCreated | venueSubmitAttempted | venueSubmitAcknowledged | submitRejected
  | submitUnknown | userOrderObserved | userTradeObserved | reconciled | capTransitioned
  | orderLifecycleProjected
  deriving DecidableEq

inductive SourceAuthority where
  | decisionKernel | engineAdapter | liveCapLedger | existingExecutor | userChannel
  | explicitReconcile
  deriving DecidableEq

inductive EqClass where
  | none
  | number (value : ℚ)
  | text (value : String)
  | other (key : String)
  deriving DecidableEq

/-- A value of a payload. What is not a scalar is an object: the text `str` gives for it, its truth
value, and a key that equal objects share. -/
inductive Value where
  | null
  | bool (value : Bool)
  | int (value : ℤ)
  | float (value : ℚ) (shown : String)
  | str (value : String)
  | object (key : String) (nonempty : Bool) (shown : String)
  deriving DecidableEq

namespace Value

def eqClass : Value → EqClass
  | null => .none
  | bool value => .number (if value then 1 else 0)
  | int value => .number value
  | float value _ => .number value
  | str value => .text value
  | object key _ _ => .other key

/-- Python's `==`. -/
def same (value other : Value) : Prop := value.eqClass = other.eqClass

instance (value other : Value) : Decidable (value.same other) :=
  inferInstanceAs (Decidable (value.eqClass = other.eqClass))

def truthy : Value → Bool
  | null => false
  | bool value => value
  | int value => value != 0
  | float value _ => value != 0
  | str value => value != ""
  | object _ nonempty _ => nonempty

/-- `str(value)`. -/
def text : Value → String
  | null => "None"
  | bool value => if value then "True" else "False"
  | int value => toString value
  | float _ shown => shown
  | str value => value
  | object _ _ shown => shown

/-- `str(value or "")`. -/
def orEmpty (value : Value) : String := if value.truthy then value.text else ""

/-- `None if value is None else str(value)`. -/
def optionalText : Value → Option String
  | null => none
  | value => some value.text

/-- What `json_extract` finds of a string; other values never equal a text. -/
def sqlText : Value → Option String
  | str value => some value
  | _ => none

/-- `_optional_posterior_id`; `parse` is `int` on text. -/
def posteriorId (parse : String → Option ℤ) : Value → Option ℤ
  | null => none
  | bool value => some (if value then 1 else 0)
  | int value => some value
  | float value _ => some (value.num.tdiv value.den)
  | str value => parse value
  | object _ _ _ => none

end Value

structure DecisionAudit where
  posteriorId : Value := .null
  probabilityAuthority : Value := .null
  /-- `qkernel_execution_economics` where it is a mapping, as text. -/
  qkernelExecutionEconomics : Option String := none

structure Payload where
  eventId : Value := .null
  finalIntentId : Value := .null
  executionCommandId : Value := .null
  preSubmitEventHash : Value := .null
  liveCapReservedEventHash : Value := .null
  venueOrderId : Value := .null
  reasonCode : Value := .null
  rejectReason : Value := .null
  submitStatus : Value := .null
  preSubmitRejection : Value := .null
  venueCallStarted : Value := .null
  toStatus : Value := .null
  executionReceiptHash : Value := .null
  orderLifecycleState : Value := .null
  exposureCreated : Value := .null
  pendingReconcile : Value := .null
  rawUserChannelMessageHash : Value := .null
  /-- `decision_audit` where it is a dict. -/
  decisionAudit : Option DecisionAudit := none
  /-- The members nothing here reads. -/
  rest : String := ""

/-- `_is_pre_submit_rejection_payload`. -/
def isPreSubmitRejection (payload : Payload) : Bool :=
  decide (payload.preSubmitRejection = .bool true ∧
    payload.submitStatus.same (.str "PRE_SUBMIT_ERROR") ∧
    payload.venueCallStarted = .bool false)

structure EventIdentity where
  aggregateId : String
  eventSequence : ℕ
  eventType : LiveOrderEventType
  parentEventHash : Option String
  payloadHash : String
  sourceAuthority : SourceAuthority
  occurredAt : String

/-- A row of `edli_live_order_events`. -/
structure EventRow extends EventIdentity where
  (aggregateEventId eventHash : String)
  payload : Payload

/-- The event log, in the order it was written: within an aggregate that is sequence order. -/
structure LiveOrderEvents where
  rows : List EventRow
  ascending : rows.Pairwise fun row later =>
    row.aggregateId = later.aggregateId → row.eventSequence < later.eventSequence

def LiveOrderEvents.empty : LiveOrderEvents := ⟨[], List.Pairwise.nil⟩

/-- `_latest_row` and `_latest_row_of_type`, by what the query asks of a row. -/
def LiveOrderEvents.latest (events : LiveOrderEvents) (aggregateId : String) (p : EventRow → Bool) :
    Option EventRow :=
  Log.latest (fun row => decide (row.aggregateId = aggregateId) && p row) events.rows

def LiveOrderEvents.nextSequence (events : LiveOrderEvents) (aggregateId : String) : ℕ :=
  match events.latest aggregateId fun _ => true with
  | some latest => latest.eventSequence + 1
  | none => 1

def LiveOrderEvents.ofAggregate (events : LiveOrderEvents) (aggregateId : String) : List EventRow :=
  events.rows.filter fun row => row.aggregateId = aggregateId

theorem LiveOrderEvents.latest_eq (evs : LiveOrderEvents) (agg : String) (p : EventRow → Bool) :
    evs.latest agg p = Log.latest p (evs.ofAggregate agg) := by
  simp only [latest, ofAggregate, Log.latest, List.filter_filter]
  congr 2
  funext row
  exact Bool.and_comm _ _

theorem LiveOrderEvents.ofAggregate_ascending (evs : LiveOrderEvents) (agg : String) :
    (evs.ofAggregate agg).Pairwise fun row later => row.eventSequence < later.eventSequence := by
  refine (evs.ascending.filter _).imp_of_mem ?_
  intro row later mem memberLater less
  have own := (List.mem_filter.mp mem).2
  have ownLater := (List.mem_filter.mp memberLater).2
  simp only [decide_eq_true_eq] at own ownLater
  exact less (own.trans ownLater.symm)

theorem LiveOrderEvents.lt_nextSequence (evs : LiveOrderEvents) {row : EventRow} {agg : String}
    (mem : row ∈ evs.rows) (own : row.aggregateId = agg) :
    row.eventSequence < evs.nextSequence agg := by
  have ord := evs.ofAggregate_ascending agg
  have hin : row ∈ evs.ofAggregate agg := List.mem_filter.mpr ⟨mem, by simpa using own⟩
  unfold LiveOrderEvents.nextSequence
  rw [LiveOrderEvents.latest_eq]
  rcases List.eq_nil_or_concat (evs.ofAggregate agg) with empty | ⟨front, last, split⟩
  · rw [empty] at hin
    cases hin
  · rw [List.concat_eq_append] at split
    rw [split] at hin ord ⊢
    rw [Log.latest_concat_pos rfl]
    rcases List.mem_append.mp hin with early | same
    · have before := (List.pairwise_append.mp ord).2.2 row early last (List.mem_singleton_self last)
      dsimp only
      omega
    · rw [List.mem_singleton.mp same]
      exact Nat.lt_succ_self _

def LiveOrderEvents.append (events : LiveOrderEvents) (row : EventRow)
    (next : row.eventSequence = events.nextSequence row.aggregateId) : LiveOrderEvents where
  rows := events.rows ++ [row]
  ascending := by
    rw [List.pairwise_append]
    refine ⟨events.ascending, List.pairwise_singleton _ _, ?_⟩
    intro old member new isNew same
    rw [List.mem_singleton.mp isNew] at same ⊢
    rw [next]
    exact events.lt_nextSequence member same

structure ProjectionState where
  eventId : String
  finalIntentId : Option String := none
  currentState : String := "UNKNOWN"
  pendingReconcile : Bool := false
  venueOrderId : Option String := none
  posteriorId : Option ℤ := none
  probabilityAuthority : Option String := none
  deriving DecidableEq

/-- A row of `edli_live_order_projection`. A `last_event_type` that names no event type reads as
missing. -/
structure ProjectionRow where
  aggregateId : String
  state : ProjectionState
  lastSequence : ℤ
  lastEventType : Option LiveOrderEventType
  (lastEventHash projectionStateHash : Option String)
  deriving DecidableEq

inductive MessageType where
  | order | trade
  deriving DecidableEq

/-- A row of `edli_user_channel_message_dedup`. -/
structure DedupRow where
  (messageHash aggregateId venueOrderId : String)
  messageType : MessageType
  deriving DecidableEq

structure Db where
  events : LiveOrderEvents
  projections : KeyedTable ProjectionRow.aggregateId
  dedup : KeyedTable DedupRow.messageHash

def Db.empty : Db := ⟨.empty, .empty, .empty⟩

def Db.eventsOf (db : Db) (aggregateId : String) : List EventRow :=
  db.events.ofAggregate aggregateId

def Db.latestRow (db : Db) (aggregateId : String) : Option EventRow :=
  db.events.latest aggregateId fun _ => true

def Db.latestRowOfType (db : Db) (aggregateId : String) (eventType : LiveOrderEventType) :
    Option EventRow :=
  db.events.latest aggregateId fun row => decide (row.eventType = eventType)

def Db.latestRowOfTypeAfter (db : Db) (aggregateId : String) (eventType : LiveOrderEventType)
    (minEventSequence : ℕ) : Option EventRow :=
  db.events.latest aggregateId fun row =>
    decide (row.eventType = eventType ∧ minEventSequence < row.eventSequence)

def Db.withProjection (db : Db) (row : ProjectionRow) : Db :=
  { db with
    projections :=
      db.projections.upsert row (fun old => { row with aggregateId := old.aggregateId })
      fun _ => rfl }

structure Externals where
  payloadHash : Payload → String
  /-- `stable_hash` of the event's identity. -/
  eventHash : EventIdentity → String
  /-- `_projection_state_hash`. -/
  stateHash : ProjectionState → String
  parseInt : String → Option ℤ
  /-- `_validate_pre_submit_revalidation_payload` accepts, given the decision's economics. -/
  preSubmitValid : Payload → Option String → Bool
  /-- `record_edli_live_profit_audit_from_aggregate` does not raise. -/
  profitAuditPasses : List EventRow → Bool

inductive LedgerError where
  | aggregateIdRequired | payloadRequiresEventId | eventIdDrift | projectionEventIdMissing
  | projectionWithoutEvents | emptyAggregate | projectionRecoveryFailed | preSubmitRefused
  | commandRequiresAuthorisation
  | requiresPreceding (event required : LiveOrderEventType)
  | mustMatch (event : LiveOrderEventType) (field : String) (row : LiveOrderEventType)
  | requiresField (event : LiveOrderEventType) (field : String)
  | attemptAlreadyExists | afterTerminalReconciled | occurredBeforeCommand
  | requiresSubmit (event : LiveOrderEventType)
  | duplicateMessage | messageHashDrift | reconciledRequiresUnknownOrPending
  | capTransitionRequires (toStatus : String)
  | lifecycleStateNotTerminal | exposureNotFalse | terminalNoFillAfterTrade | parentHashMismatch
  | payloadNotSerializable | integrityError | concurrentInsert | casMismatch | profitAuditFailed
  deriving DecidableEq

structure Call where
  aggregateId : String
  eventType : LiveOrderEventType
  payload : Payload
  /-- `json.loads(canonical_json(payload))`; `none` where the encoding raises. -/
  stored : Option Payload
  occurredAt : String
  sourceAuthority : SourceAuthority
  expectedParentEventHash : Option String := none

def Call.IsJson (call : Call) : Prop := call.stored = some call.payload

variable (ext : Externals)

def eventState : LiveOrderEventType → String
  | .decisionProofAccepted => "DECISION_PROOF_ACCEPTED"
  | .submitPlanBuilt => "SUBMIT_PLAN_BUILT"
  | .preSubmitRevalidated => "PRE_SUBMIT_REVALIDATED"
  | .liveCapReserved => "LIVE_CAP_RESERVED"
  | .executionCommandCreated => "EXECUTION_COMMAND_CREATED"
  | .venueSubmitAttempted => "VENUE_SUBMIT_ATTEMPTED"
  | .venueSubmitAcknowledged => "VENUE_SUBMIT_ACKED"
  | .submitRejected => "SUBMIT_REJECTED"
  | .submitUnknown => "PENDING_RECONCILE"
  | .userOrderObserved => "USER_ORDER_OBSERVED"
  | .userTradeObserved => "USER_TRADE_OBSERVED"
  | .reconciled => "RECONCILED"
  | .capTransitioned => "CAP_TRANSITIONED"
  | .orderLifecycleProjected => "ORDER_LIFECYCLE_PROJECTED"

/-- `current_state` and `pending_reconcile` after an event. -/
def advancePhase (phase : String × Bool) (eventType : LiveOrderEventType) (payload : Payload) :
    String × Bool :=
  match eventType with
  | .submitUnknown => (eventState eventType, true)
  | .capTransitioned =>
    let toStatus := payload.toStatus.orEmpty
    if toStatus = "PENDING_RECONCILE" then ("PENDING_RECONCILE", true)
    else if toStatus = "CONSUMED" then
      (if phase.1 = "UNKNOWN" then "VENUE_SUBMIT_ACKED" else phase.1, phase.2)
    else (eventState eventType, phase.2)
  | .reconciled => (eventState eventType, payload.pendingReconcile.truthy)
  | .orderLifecycleProjected =>
    (if payload.orderLifecycleState.truthy then payload.orderLifecycleState.text
      else eventState eventType, payload.pendingReconcile.truthy)
  | eventType => (eventState eventType, phase.2)

def advanceProjectionState (state : Option ProjectionState) (eventType : LiveOrderEventType)
    (payload : Payload) : Except LedgerError ProjectionState :=
  let eventId := payload.eventId.orEmpty
  let old := state.getD { eventId }
  if eventId = "" then .error .projectionEventIdMissing
  else if old.eventId ≠ eventId then .error .eventIdDrift
  else
    let audit := payload.decisionAudit
    let phase := advancePhase (old.currentState, old.pendingReconcile) eventType payload
    .ok {
      eventId
      finalIntentId := payload.finalIntentId.optionalText.or old.finalIntentId
      currentState := phase.1
      pendingReconcile := phase.2
      venueOrderId := payload.venueOrderId.optionalText.or old.venueOrderId
      posteriorId :=
        (audit.bind fun audit => audit.posteriorId.posteriorId ext.parseInt).or old.posteriorId
      probabilityAuthority :=
        (audit.bind fun audit => audit.probabilityAuthority.optionalText).or
          old.probabilityAuthority }

def projectionRow (aggregateId : String) (state : ProjectionState) (eventSequence : ℕ)
    (eventType : LiveOrderEventType) (eventHash : String) : ProjectionRow where
  aggregateId
  state
  lastSequence := eventSequence
  lastEventType := some eventType
  lastEventHash := some eventHash
  projectionStateHash := some (ext.stateHash state)

/-- The loop of `rebuild_projection`. -/
def foldState (rows : List EventRow) : Except LedgerError (Option ProjectionState) :=
  rows.foldlM
    (fun state row => (advanceProjectionState ext state row.eventType row.payload).map some) none

/-- `rebuild_projection`: the row it writes. -/
def rebuildRow (aggregateId : String) (rows : List EventRow) : Except LedgerError ProjectionRow :=
  match rows.getLast? with
  | none => .error .emptyAggregate
  | some last =>
    match foldState ext rows with
    | .error error => .error error
    | .ok none => .error .emptyAggregate
    | .ok (some state) =>
      .ok (projectionRow ext aggregateId state last.eventSequence last.eventType last.eventHash)

def projectionCurrent (latest : EventRow) (row : ProjectionRow) : Bool :=
  decide (row.projectionStateHash.getD "" = ext.stateHash row.state ∧
    row.lastSequence = latest.eventSequence ∧
    row.lastEventType = some latest.eventType ∧
    row.lastEventHash.getD "" = latest.eventHash ∧
    row.state.eventId = latest.payload.eventId.text)

def projectionRowForAppend (db : Db) (aggregateId : String) :
    Except LedgerError (Option ProjectionRow) :=
  match db.latestRow aggregateId with
  | none =>
    if (db.projections.find aggregateId).isSome then .error .projectionWithoutEvents else .ok none
  | some latest =>
    match (db.projections.find aggregateId).filter (projectionCurrent ext latest) with
    | some row => .ok (some row)
    | none =>
      match rebuildRow ext aggregateId (db.eventsOf aggregateId) with
      | .error error => .error error
      | .ok row =>
        if projectionCurrent ext latest row then .ok (some row)
        else .error .projectionRecoveryFailed

def Db.readied (db : Db) (projection : Option ProjectionRow) : Db :=
  match projection with
  | none => db
  | some row => db.withProjection row

/-- The compare-and-swap of `_project_appended_event` finds the row it read. -/
def casHolds (current : Option ProjectionRow) (old : ProjectionRow) : Bool :=
  match current with
  | none => false
  | some row => decide (row.lastSequence = old.lastSequence ∧ row.lastEventType.isSome ∧
      row.lastEventType = old.lastEventType ∧
      row.lastEventHash = some (old.lastEventHash.getD "None") ∧
      row.projectionStateHash = some (old.projectionStateHash.getD "None"))

def projectAppendedEvent (db : Db) (projection : Option ProjectionRow) (payload : Payload)
    (row : EventRow) : Except LedgerError Db :=
  match advanceProjectionState ext (projection.map ProjectionRow.state) row.eventType payload with
  | .error error => .error error
  | .ok state =>
    let new := projectionRow ext row.aggregateId state row.eventSequence row.eventType row.eventHash
    match projection with
    | none =>
      if (db.projections.find row.aggregateId).isSome then .error .concurrentInsert
      else .ok (db.withProjection new)
    | some old =>
      if casHolds (db.projections.find row.aggregateId) old then .ok (db.withProjection new)
      else .error .casMismatch

def decisionQkernelEconomics (db : Db) (aggregateId : String) : Option String :=
  match db.latestRowOfType aggregateId .decisionProofAccepted with
  | none => none
  | some row =>
    if row.sourceAuthority = .decisionKernel then
      row.payload.decisionAudit.bind DecisionAudit.qkernelExecutionEconomics
    else none

/-- `_validate_pre_submit_revalidation_payload` on the aggregate's economics. -/
def revalidationRefusal (db : Db) (aggregateId : String) (payload : Payload) : Option LedgerError :=
  require (ext.preSubmitValid payload (decisionQkernelEconomics db aggregateId) = true)
    .preSubmitRefused

/-- `ExecutionCommandCreated`: the checks against the reservation. -/
def reservationRefusal (payload : Payload) (liveCap : EventRow) : Option LedgerError :=
  first [
    require (payload.finalIntentId.same liveCap.payload.finalIntentId)
      (.mustMatch .executionCommandCreated "final_intent_id" .liveCapReserved),
    require (payload.eventId.same liveCap.payload.eventId)
      (.mustMatch .executionCommandCreated "event_id" .liveCapReserved),
    require (payload.liveCapReservedEventHash.same (.str liveCap.eventHash))
      (.mustMatch .executionCommandCreated "live_cap_reserved_event_hash" .liveCapReserved)]

/-- `ExecutionCommandCreated`: the revalidation checked again, and the checks against it. -/
def authorisationRefusal (db : Db) (aggregateId : String) (payload : Payload)
    (revalidation : EventRow) : Option LedgerError :=
  first [
    revalidationRefusal ext db aggregateId revalidation.payload,
    require (payload.finalIntentId.same revalidation.payload.finalIntentId)
      (.mustMatch .executionCommandCreated "final_intent_id" .preSubmitRevalidated),
    require (payload.eventId.same revalidation.payload.eventId)
      (.mustMatch .executionCommandCreated "event_id" .preSubmitRevalidated),
    require (payload.preSubmitEventHash.same (.str revalidation.eventHash))
      (.mustMatch .executionCommandCreated "pre_submit_event_hash" .preSubmitRevalidated),
    match db.latestRowOfType aggregateId .liveCapReserved with
    | none => some (.requiresPreceding .executionCommandCreated .liveCapReserved)
    | some liveCap => reservationRefusal payload liveCap]

def commandRefusal (db : Db) (aggregateId : String) (payload : Payload) : Option LedgerError :=
  match db.latestRow aggregateId with
  | none => some .commandRequiresAuthorisation
  | some latest =>
    match latest.eventType with
    | .preSubmitRevalidated => authorisationRefusal ext db aggregateId payload latest
    | .liveCapReserved =>
      match db.latestRowOfType aggregateId .preSubmitRevalidated with
      | none => some (.requiresPreceding .executionCommandCreated .preSubmitRevalidated)
      | some revalidation => authorisationRefusal ext db aggregateId payload revalidation
    | _ => some .commandRequiresAuthorisation

/-- `_require_command_binding`. -/
def bindingRefusal (eventType : LiveOrderEventType) (payload : Payload) (command : EventRow) :
    Option LedgerError :=
  first [
    require (payload.eventId.same command.payload.eventId)
      (.mustMatch eventType "event_id" .executionCommandCreated),
    require (payload.finalIntentId.same command.payload.finalIntentId)
      (.mustMatch eventType "final_intent_id" .executionCommandCreated),
    require (payload.executionCommandId = .null ∨
      payload.executionCommandId.same command.payload.executionCommandId)
      (.mustMatch eventType "execution_command_id" .executionCommandCreated)]

/-- `_latest_row_of_type_after` with a requiring event type: the row has to be there. -/
def attemptRefusal (db : Db) (aggregateId : String) (eventType : LiveOrderEventType)
    (command : EventRow) : Option LedgerError :=
  require ((db.latestRowOfTypeAfter aggregateId .venueSubmitAttempted
        command.eventSequence).isSome = true)
    (.requiresPreceding eventType .venueSubmitAttempted)

/-- The order id the user channel is checked against: of the latest acknowledgement, or where
there is none of the latest unknown. -/
def boundOrderId (ack unknown : Option EventRow) : Value :=
  match ack, unknown with
  | some row, _ => row.payload.venueOrderId
  | none, some row => row.payload.venueOrderId
  | none, none => .null

def messageHash (payload : Payload) : String := strip payload.rawUserChannelMessageHash.orEmpty

def userChannelOrderId (payload : Payload) : String := strip payload.venueOrderId.orEmpty

def duplicateMessage (db : Db) (aggregateId hash : String) : Bool :=
  (db.eventsOf aggregateId).any fun row =>
    decide ((row.eventType = .userOrderObserved ∨ row.eventType = .userTradeObserved) ∧
      row.payload.rawUserChannelMessageHash.sqlText = some hash)

def terminallyReconciled (projection : Option ProjectionRow) : Bool :=
  match projection with
  | none => false
  | some row => decide (row.state.currentState = "RECONCILED") && !row.state.pendingReconcile

def submitTypes : List LiveOrderEventType :=
  [.venueSubmitAttempted, .venueSubmitAcknowledged, .submitUnknown]

/-- `_require_user_channel_submit_binding`. -/
def userChannelRefusal (db : Db) (aggregateId : String) (eventType : LiveOrderEventType)
    (payload : Payload) (command : EventRow) (occurredAt : String) : Option LedgerError :=
  let orderId := userChannelOrderId payload
  let bound := boundOrderId (db.latestRowOfType aggregateId .venueSubmitAcknowledged)
    (db.latestRowOfType aggregateId .submitUnknown)
  first [
    bindingRefusal eventType payload command,
    require (terminallyReconciled (db.projections.find aggregateId) = false)
      .afterTerminalReconciled,
    require (¬ occurredAt < command.occurredAt) .occurredBeforeCommand,
    require (submitTypes.any (fun submit => (db.latestRowOfType aggregateId submit).isSome) = true)
      (.requiresSubmit eventType),
    require (orderId ≠ "") (.requiresField eventType "venue_order_id"),
    require (bound.truthy = true → orderId = bound.text)
      (.mustMatch eventType "venue_order_id" .venueSubmitAcknowledged),
    require (messageHash payload ≠ "") (.requiresField eventType "raw_user_channel_message_hash"),
    require (duplicateMessage db aggregateId (messageHash payload) = false) .duplicateMessage]

def pendingReconcile (projection : Option ProjectionRow) : Bool :=
  match projection with
  | none => false
  | some row => row.state.pendingReconcile

/-- `CapTransitioned`: the evidence each target status asks for. -/
def capTransitionRefusal (db : Db) (aggregateId : String) (payload : Payload) (command : EventRow) :
    Option LedgerError :=
  let toStatus := payload.toStatus.orEmpty
  let after :=
    fun eventType => (db.latestRowOfTypeAfter aggregateId eventType command.eventSequence).isSome
  first [
    bindingRefusal .capTransitioned payload command,
    require (strip payload.executionReceiptHash.orEmpty ≠ "")
      (.requiresField .capTransitioned "execution_receipt_hash"),
    require (toStatus = "PENDING_RECONCILE" → after .submitUnknown = true)
      (.capTransitionRequires "PENDING_RECONCILE"),
    require (toStatus = "CONSUMED" → after .venueSubmitAcknowledged = true)
      (.capTransitionRequires "CONSUMED"),
    require (toStatus = "RELEASED" → after .submitRejected = true ∨
        (db.latestRowOfType aggregateId .reconciled).isSome = true)
      (.capTransitionRequires "RELEASED")]

/-- The checks of `_validate_event_append` that a command of the aggregate has to be there for. -/
def commandedRefusal (db : Db) (call : Call) (command : EventRow) : Option LedgerError :=
  let payload := call.payload
  let binding := bindingRefusal call.eventType payload command
  let attempted := attemptRefusal db call.aggregateId call.eventType command
  let namesOrder := require (strip payload.venueOrderId.orEmpty ≠ "")
    (LedgerError.requiresField call.eventType "venue_order_id")
  match call.eventType with
  | .venueSubmitAttempted => first [
      binding,
      require ((db.latestRowOfTypeAfter call.aggregateId .venueSubmitAttempted
            command.eventSequence).isSome =
        false) .attemptAlreadyExists]
  | .venueSubmitAcknowledged => first [attempted, binding, namesOrder]
  | .submitRejected => first [
      if isPreSubmitRejection payload then none else attempted,
      binding,
      require (strip (if payload.reasonCode.truthy then payload.reasonCode.text
          else payload.rejectReason.orEmpty) ≠ "")
        (.requiresField call.eventType "reason_code")]
  | .submitUnknown => first [attempted, binding]
  | .userOrderObserved | .userTradeObserved =>
    userChannelRefusal db call.aggregateId call.eventType payload command call.occurredAt
  | .reconciled =>
    require ((db.latestRowOfType call.aggregateId .submitUnknown).isSome = true ∨
        pendingReconcile (db.projections.find call.aggregateId) = true)
      .reconciledRequiresUnknownOrPending
  | .capTransitioned => capTransitionRefusal db call.aggregateId payload command
  | .orderLifecycleProjected => first [
      binding,
      require (payload.orderLifecycleState.orEmpty = "TERMINAL_NO_FILL") .lifecycleStateNotTerminal,
      require (payload.exposureCreated = .bool false) .exposureNotFalse,
      namesOrder,
      require ((db.latestRowOfType call.aggregateId .userTradeObserved).isSome = false)
        .terminalNoFillAfterTrade]
  | _ => none

/-- `_validate_event_append`. -/
def appendRefusal (db : Db) (call : Call) : Option LedgerError :=
  match call.eventType with
  | .decisionProofAccepted | .submitPlanBuilt | .liveCapReserved => none
  | .preSubmitRevalidated => revalidationRefusal ext db call.aggregateId call.payload
  | .executionCommandCreated => commandRefusal ext db call.aggregateId call.payload
  | _ =>
    match db.latestRowOfType call.aggregateId .executionCommandCreated with
    | none => some (.requiresPreceding call.eventType .executionCommandCreated)
    | some command => commandedRefusal db call command

def Db.rowFor (db : Db) (call : Call) (stored : Payload) : EventRow :=
  let identity : EventIdentity := {
    aggregateId := call.aggregateId
    eventSequence := db.events.nextSequence call.aggregateId
    eventType := call.eventType
    parentEventHash := (db.latestRow call.aggregateId).map EventRow.eventHash
    payloadHash := ext.payloadHash stored
    sourceAuthority := call.sourceAuthority
    occurredAt := call.occurredAt }
  let hash := ext.eventHash identity
  { identity with
    aggregateEventId := "edli_live_order_event:" ++ String.ofList (hash.toList.take 32)
    eventHash := hash
    payload := stored }

/-- `_reserve_user_channel_message_hash`, for the two user-channel event types. -/
def reserveMessageHash (dedup : KeyedTable DedupRow.messageHash) (call : Call) :
    Except LedgerError (KeyedTable DedupRow.messageHash) :=
  let reserve (messageType : MessageType) : Except LedgerError (KeyedTable DedupRow.messageHash) :=
    let row : DedupRow :=
      ⟨messageHash call.payload, call.aggregateId, userChannelOrderId call.payload, messageType⟩
    match dedup.find row.messageHash with
    | some existing =>
      if existing.aggregateId ≠ row.aggregateId ∨ existing.venueOrderId ≠ row.venueOrderId ∨
          existing.messageType ≠ row.messageType then .error .messageHashDrift
      else .error .duplicateMessage
    | none => match dedup.tryInsert row with
        | some dedup => .ok dedup
        | none => .error .integrityError
  match call.eventType with
  | .userOrderObserved => reserve .order
  | .userTradeObserved => reserve .trade
  | _ => .ok dedup

def Db.admits (db : Db) (row : EventRow) : Bool :=
  db.events.rows.all fun old =>
    decide (old.eventHash ≠ row.eventHash ∧ old.aggregateEventId ≠ row.aggregateEventId)

/-- `PROFIT_AUDIT_TRIGGER_EVENTS`. -/
def triggersProfitAudit : LiveOrderEventType → Bool
  | .venueSubmitAcknowledged | .submitRejected | .submitUnknown | .userTradeObserved | .reconciled
  | .capTransitioned | .orderLifecycleProjected => true
  | _ => false

/-- The checks `append_event` makes before it touches a table. -/
def callRefusal (db : Db) (call : Call) : Option LedgerError :=
  first [
    require (call.aggregateId ≠ "") .aggregateIdRequired,
    require (call.payload.eventId.truthy = true) .payloadRequiresEventId,
    match db.latestRow call.aggregateId with
    | none => none
    | some latest => require (call.payload.eventId.same latest.payload.eventId) .eventIdDrift]

def parentRefusal (db : Db) (call : Call) : Option LedgerError :=
  match call.expectedParentEventHash with
  | none => none
  | some expected =>
    require ((db.latestRow call.aggregateId).map EventRow.eventHash = some expected)
      .parentHashMismatch

def Db.insertEvent (db : Db) (call : Call) (stored : Payload) : Db :=
  { db with events := db.events.append (db.rowFor ext call stored) rfl }

def appendEvent (db : Db) (call : Call) : Except LedgerError Db := do
  guardBy (callRefusal db call)
  let projection ← projectionRowForAppend ext db call.aggregateId
  let ready := db.readied projection
  guardBy (appendRefusal ext ready call)
  guardBy (parentRefusal ready call)
  let stored ← call.stored.elim (.error .payloadNotSerializable) .ok
  let dedup ← reserveMessageHash ready.dedup call
  let row := ready.rowFor ext call stored
  guardBy (require (ready.admits row = true) .integrityError)
  let written := { ready.insertEvent ext call stored with dedup }
  let projected ← projectAppendedEvent ext written projection call.payload row
  guardBy (require (triggersProfitAudit call.eventType = true →
    ext.profitAuditPasses (projected.eventsOf call.aggregateId) = true) .profitAuditFailed)
  return projected

/-- A call, or damage to the projection row of an aggregate from outside the ledger. -/
inductive Step where
  | append (call : Call)
  | tamper (aggregateId : String) (row : Option ProjectionRow)

def Db.tampered (db : Db) (aggregateId : String) (row : Option ProjectionRow) : Db :=
  match row with
  | none => { db with projections := db.projections.erase aggregateId }
  | some row => db.withProjection { row with aggregateId }

def Db.step (db : Db) : Step → Db
  | .append call => match appendEvent ext db call with
      | .ok next => next
      | .error _ => db
  | .tamper aggregateId row => db.tampered aggregateId row

def Db.run (db : Db) (steps : List Step) : Db := steps.foldl (Db.step ext) db

theorem Db.run_concat (db : Db) (steps : List Step) (step : Step) :
    db.run ext (steps ++ [step]) = (db.run ext steps).step ext step := by
  simp [Db.run, List.foldl_append]

end Zeus.LiveOrder
