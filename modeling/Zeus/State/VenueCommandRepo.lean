import Zeus.Lib.Savepoint
import Zeus.State.CollateralSteps
import Zeus.State.VenueCommandValidators

/-! `append_event` as the sequence of its statements inside one savepoint. A call says what the
validators that are not modelled raise: the clearances that prove the absence of a venue side effect
or exposure, the confirmed-fill clearance, the reassertion of a cancel, and the admission gates of
`insert_command`. -/

namespace Zeus.VenueCommands

open Refusal Savepoint
open Zeus.Collateral

inductive AppendError where
  | unknownCommandId (commandId : String)
  | illegalTransition (state : CommandState) (eventType : CommandEventType)
  | entrySubmit (refusal : EntrySubmitRefusal)
  | liveOrder (refusal : LiveOrderRefusal)
  | lateFill (refusal : LateFillRefusal)
  | terminalPartial (refusal : TerminalPartialRefusal)
  | unmodelled (text : String)
  | invalidDecimal
  | collateralRestoreFailed (error : LedgerError)
  | integrityError | subjectIdRequired | observedAtRequired
  deriving DecidableEq

/-- The arguments of `append_event`, with the event id, the clock of the ledger, and the verdict of
the validators that are not modelled. -/
structure Call where
  commandId : String
  eventType : CommandEventType
  occurredAt : String
  payload : Option Payload := none
  eventId : String
  now : Time
  otherRefusal : Option String := none

abbrev Tx := EStateM AppendError Db

def validateReviewClearancePayload (readers : Readers) (db : Db) (currentState : CommandState)
    (call : Call) : Option AppendError :=
  match call.eventType with
  | .reviewClearedNoVenueExposure | .reviewClearedNoVenueSideEffect =>
    call.otherRefusal.map .unmodelled
  | .reviewClearedVenueOrderLive =>
    (validateReviewVenueOrderLivePayload readers db currentState call.payload call.commandId).map
      .liveOrder
  | .fillConfirmed =>
    if currentState = .reviewRequired then call.otherRefusal.map .unmodelled else none
  | _ => none

/-- `_validate_genuine_cancel_reassertion`, where it is called. -/
def reassertionRefusal (currentState : CommandState) (call : Call) : Option AppendError :=
  if currentState = .partiallyFilled ∧ call.eventType = .cancelAcked then
    call.otherRefusal.map .unmodelled
  else none

/-- A fill after a genuine cancel, as `state_after` tests for it. -/
def genuineCancelFill (eventType : CommandEventType) (payload : Option Payload) : Prop :=
  eventType = .partialFillObserved ∧
    (payload.any fun payload => decide (payload.reads "reason" genuineCancelReason)) = true

instance (eventType : CommandEventType) (payload : Option Payload) :
    Decidable (genuineCancelFill eventType payload) := inferInstanceAs (Decidable (_ ∧ _))

/-- `state_after`. -/
def stateAfterCall (currentState target : CommandState) (call : Call) : CommandState :=
  if currentState = .cancelled ∧ genuineCancelFill call.eventType call.payload then .cancelled
  else target

def restoresCollateral (currentState : CommandState) (call : Call) : Bool :=
  terminalLateFill currentState call.eventType &&
    !(call.payload.any fun payload => (payload.get "reason").orEmpty == genuineCancelReason)

def canonicalFilledSize (readers : Readers) (call : Call) : Option ℚ :=
  call.payload.bind fun payload => readers.decimal (payload.get "canonical_filled_size")

/-- The late-fill branch. A restore that raises has written; the savepoint takes it back. -/
def restoreForLateFill (readers : Readers) (currentState : CommandState) (call : Call)
    (terminalLatePartial : Bool) : Tx PUnit := fun db =>
  if restoresCollateral currentState call then
    match canonicalFilledSize readers call with
    | none => .error .invalidDecimal db
    | some filledSize =>
      match restoreReservationForLateFill db.ledger call.commandId filledSize terminalLatePartial
        call.now with
      | (.ok (), ledger) => .ok ⟨⟩ (db.withLedger ledger)
      | (.error error, ledger) => .error (.collateralRestoreFailed error) (db.withLedger ledger)
  else .ok ⟨⟩ db

/-- INSERT INTO `venue_command_events`, under the primary key and the unique sequence number. -/
def insertEvent (event : CommandEvent) (db : Db) : Except AppendError Db :=
  if db.events.any fun row => row.eventId == event.eventId ||
      (row.commandId == event.commandId && row.sequenceNo == event.sequenceNo) then
    .error .integrityError
  else .ok { db with events := db.events ++ [event] }

def nextSequenceNo (db : Db) (commandId : String) : ℕ :=
  Journal.nextNumber CommandEvent.commandId CommandEvent.sequenceNo db.events commandId

def Call.event (call : Call) (sequenceNo : ℕ) (stateAfter : CommandState) : CommandEvent where
  eventId := call.eventId
  commandId := call.commandId
  sequenceNo := sequenceNo
  eventType := call.eventType
  occurredAt := call.occurredAt
  payload := call.payload
  stateAfter := stateAfter

/-- The two UPDATEs of the command row; a payload without an order id keeps the bound one. -/
def Command.advance (event : CommandEvent) (command : Command) : Command :=
  { command with
    state := event.stateAfter
    lastEventId := some event.eventId
    updatedAt := event.occurredAt
    venueOrderId := (event.payload.bind venueOrderIdFromPayload).or command.venueOrderId }

theorem Command.advance_key (event : CommandEvent) (cmd : Command) :
    (cmd.advance event).key = cmd.key := rfl

def updateCommand (event : CommandEvent) (db : Db) : Db :=
  { db with
    commands :=
      db.commands.modify event.commandId (Command.advance event) (Command.advance_key event) }

def appendCommandProvenanceEvent (event : CommandEvent) (db : Db) : Except AppendError Db :=
  let subjectId := strip event.commandId
  if subjectId = "" then .error .subjectIdRequired
  else if strip event.occurredAt = "" then .error .observedAtRequired
  else .ok { db with
    provenance := db.provenance ++ [{
      subjectId := subjectId
      eventType := event.eventType
      stateAfter := event.stateAfter
      payload := event.payload
      observedAt := strip event.occurredAt
      localSequence :=
        Journal.nextNumber ProvenanceEvent.subjectId ProvenanceEvent.localSequence db.provenance
          subjectId }] }

def mutexReleaseStates : List CommandState := terminalStates ++ [.canceled, .reviewRequired]

def ExitMutexHolding.release (now : Time) (reason : MutexReleaseReason)
    (holding : ExitMutexHolding) : ExitMutexHolding :=
  { holding with releasedAt := some now, releaseReason := some reason }

theorem ExitMutexHolding.release_mutexKey (now : Time) (why : MutexReleaseReason)
    (hold : ExitMutexHolding) : (hold.release now why).mutexKey = hold.mutexKey := rfl

def releaseExitMutexForCommandState (db : Db) (commandId : String) (state : CommandState)
    (terminalPartial : Bool) (now : Time) : Db :=
  if state ∈ mutexReleaseStates ∨ (state = .partiallyFilled ∧ terminalPartial = true) then
    let reason := if terminalPartial then .terminalPartial else .state state
    { db with
      exitMutexes := db.exitMutexes.modifyWhere
        (fun holding => holding.commandId == commandId && holding.releasedAt.isNone)
        (ExitMutexHolding.release now reason) (ExitMutexHolding.release_mutexKey now reason) }
  else db

/-- A command that lost its venue obligation converts or releases its collateral, and gives up the
exit mutex; a review gives up the mutex only. -/
def settleTerminal (commandId : String) (stateAfter : CommandState) (terminalPartial : Bool)
    (now : Time) (db : Db) : Db :=
  match terminalDispatch commandId stateAfter terminalPartial now with
  | some op =>
    releaseExitMutexForCommandState (db.withLedger (next db.ledger op)) commandId stateAfter
      terminalPartial now
  | none =>
    if stateAfter = .reviewRequired then
      releaseExitMutexForCommandState db commandId stateAfter false now
    else db

def appendEvent (readers : Readers) (call : Call) : Tx String := savepoint do
  let command ← select fun db =>
    (db.commands.find call.commandId).elim (.error (.unknownCommandId call.commandId)) .ok
  let target ← select fun _ => (transition command.state call.eventType).elim
      (.error (.illegalTransition command.state call.eventType)) .ok
  select fun db => guardBy (first [
    (validateEntrySubmitPayload command.intentKind call.eventType call.payload).map .entrySubmit,
    validateReviewClearancePayload readers db command.state call])
  let terminalLatePartial ← select fun db =>
    (validateTerminalLateFillCorrectionPayload readers db command.state call.eventType call.payload
      call.commandId).mapError .lateFill
  let terminalPartial ← select fun db =>
    (validateTerminalPartialCommandCorrectionPayload readers db command.state call.eventType
        call.payload
      call.commandId).mapError .terminalPartial
  select fun _ => guardBy (reassertionRefusal command.state call)
  restoreForLateFill readers command.state call terminalLatePartial
  let sequenceNo ← select fun db => .ok (nextSequenceNo db call.commandId)
  let event := call.event sequenceNo (stateAfterCall command.state target call)
  write (insertEvent event)
  write fun db => .ok (updateCommand event db)
  write (appendCommandProvenanceEvent event)
  write fun db => .ok (settleTerminal call.commandId event.stateAfter terminalPartial call.now db)
  pure call.eventId

def accepts (readers : Readers) (db : Db) (call : Call) : Bool :=
  match appendEvent readers call db with
  | .ok _ _ => true
  | .error _ _ => false

/-- A command as created by `insert_command`, or by a typed reconciliation helper, which starts in
another state under an event of its own. -/
structure NewCommand extends VenueCommand where
  venueOrderId : Option String := none
  (eventId createdAt : String)
  payload : Option Payload := none
  eventType : CommandEventType := .intentCreated
  state : CommandState := .intentCreated
  otherRefusal : Option String := none

def NewCommand.event (new : NewCommand) : CommandEvent where
  eventId := new.eventId
  commandId := new.commandId
  sequenceNo := 1
  eventType := new.eventType
  occurredAt := new.createdAt
  payload := new.payload
  stateAfter := new.state

def NewCommand.row (new : NewCommand) : Command :=
  { new.toVenueCommand with
    venueOrderId := new.venueOrderId
    state := new.state
    lastEventId := none
    updatedAt := new.createdAt }

def Command.begin (event : CommandEvent) (command : Command) : Command :=
  { command with lastEventId := some event.eventId }

theorem Command.begin_key (event : CommandEvent) (cmd : Command) :
    (cmd.begin event).key = cmd.key := rfl

def createCommand (new : NewCommand) : Tx PUnit := savepoint do
  select fun _ => guardBy (new.otherRefusal.map AppendError.unmodelled)
  write fun db => ((db.commands.tryInsert new.row).elim (.error .integrityError) fun commands =>
    .ok { db with commands := commands })
  write (insertEvent new.event)
  write fun db => .ok
    { db with
      commands :=
        db.commands.modify new.commandId (Command.begin new.event) (Command.begin_key new.event) }
  write (appendCommandProvenanceEvent new.event)

/-- One writer's transaction. The fact tables and the mutex table may come to hold anything. -/
inductive Step where
  | createCommand (new : NewCommand)
  | reservePusd (commandId : String) (amount : ℤ) (now : Time)
  | reserveTokens (commandId tokenId : String) (size : ℚ) (now : Time)
  | recordSnapshot (snapshot : CollateralSnapshot)
  | recordFacts (facts : Facts)
  | holdMutexes (holdings : KeyedTable ExitMutexHolding.mutexKey)
  | appendEvent (call : Call)

def Db.step (readers : Readers) (db : Db) : Step → Db
  | .createCommand new => Savepoint.stateAfter (VenueCommands.createCommand new) db
  | .reservePusd commandId amount now =>
    db.withLedger (next db.ledger (.reservePusd commandId amount now))
  | .reserveTokens commandId tokenId size now =>
    db.withLedger (next db.ledger (.reserveTokens commandId tokenId size now))
  | .recordSnapshot snapshot => db.withLedger (next db.ledger (.snapshot snapshot))
  | .recordFacts facts => { db with facts := facts }
  | .holdMutexes holdings => { db with exitMutexes := holdings }
  | .appendEvent call => Savepoint.stateAfter (VenueCommands.appendEvent readers call) db

def Db.run (readers : Readers) (db : Db) (steps : List Step) : Db :=
  steps.foldl (Db.step readers) db

theorem Db.run_concat (rd : Readers) (db : Db) (steps : List Step) (step : Step) :
    db.run rd (steps ++ [step]) = (db.run rd steps).step rd step := by
  simp [Db.run]

end Zeus.VenueCommands
