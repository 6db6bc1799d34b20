import Zeus.Events.LiveOrderAggregate
import Zeus.Lib.Journal

/-! The rows `append_event` reads and writes; `Db.ledger` is the collateral ledger's view of them.
Text columns with a closed grammar are enumerations. Times that are compared are texts read by a
parser that is a parameter. Unread columns are left out. -/

namespace Zeus.VenueCommands

open Zeus.Collateral
open Zeus.FillDedup (TradeFact VenueTradeFacts)
open Zeus.LiveOrder (Value)

abbrev CommandState := StateLabel

def stateText : CommandState → String
  | .intentCreated => "INTENT_CREATED"
  | .snapshotBound => "SNAPSHOT_BOUND"
  | .submitting => "SUBMITTING"
  | .signedPersisted => "SIGNED_PERSISTED"
  | .posting => "POSTING"
  | .postAcked => "POST_ACKED"
  | .acked => "ACKED"
  | .unknown => "UNKNOWN"
  | .submitUnknownSideEffect => "SUBMIT_UNKNOWN_SIDE_EFFECT"
  | .partiallyFilled => "PARTIAL"
  | .filled => "FILLED"
  | .cancelPending => "CANCEL_PENDING"
  | .canceled => "CANCELED"
  | .cancelled => "CANCELLED"
  | .expired => "EXPIRED"
  | .submitRejected => "SUBMIT_REJECTED"
  | .rejected => "REJECTED"
  | .reviewRequired => "REVIEW_REQUIRED"
  | .lateFillCorrection => "LATE_FILL_CORRECTION"

inductive CommandEventType where
  | intentCreated | venueOrderAdopted | externalOperatorCloseAbsorbed | snapshotBound
  | submitRequested
  | signedPersisted | posting | postAcked | submitAcked | submitRejected | submitUnknown
  | submitTimeoutUnknown | closedMarketUnknown | partialFillObserved | fillConfirmed
  | cancelRequested
  | cancelDispatchStarted | cancelAcked | cancelFailed | cancelReplaceBlocked | expired
  | reviewRequired
  | reviewClearedNoVenueSideEffect | reviewClearedNoVenueExposure | reviewClearedVenueOrderLive
  | other (text : String)
  deriving DecidableEq

def transitions : List ((CommandState × CommandEventType) × CommandState) := [
  ((.intentCreated, .snapshotBound), .snapshotBound),
  ((.intentCreated, .submitRequested), .submitting),
  ((.intentCreated, .submitRejected), .submitRejected),
  ((.intentCreated, .cancelRequested), .cancelPending),
  ((.intentCreated, .reviewRequired), .reviewRequired),
  ((.snapshotBound, .signedPersisted), .signedPersisted),
  ((.snapshotBound, .reviewRequired), .reviewRequired),
  ((.signedPersisted, .posting), .posting),
  ((.signedPersisted, .reviewRequired), .reviewRequired),
  ((.posting, .postAcked), .postAcked),
  ((.posting, .submitAcked), .acked),
  ((.posting, .submitRejected), .submitRejected),
  ((.posting, .submitUnknown), .unknown),
  ((.posting, .submitTimeoutUnknown), .submitUnknownSideEffect),
  ((.posting, .closedMarketUnknown), .submitUnknownSideEffect),
  ((.posting, .partialFillObserved), .partiallyFilled),
  ((.posting, .fillConfirmed), .filled),
  ((.posting, .cancelRequested), .cancelPending),
  ((.posting, .reviewRequired), .reviewRequired),
  ((.postAcked, .submitAcked), .acked),
  ((.postAcked, .partialFillObserved), .partiallyFilled),
  ((.postAcked, .fillConfirmed), .filled),
  ((.postAcked, .cancelRequested), .cancelPending),
  ((.postAcked, .expired), .expired),
  ((.postAcked, .reviewRequired), .reviewRequired),
  ((.submitting, .submitAcked), .acked),
  ((.submitting, .submitRejected), .rejected),
  ((.submitting, .submitUnknown), .unknown),
  ((.submitting, .submitTimeoutUnknown), .submitUnknownSideEffect),
  ((.submitting, .closedMarketUnknown), .submitUnknownSideEffect),
  ((.submitting, .partialFillObserved), .partiallyFilled),
  ((.submitting, .fillConfirmed), .filled),
  ((.submitting, .cancelRequested), .cancelPending),
  ((.submitting, .expired), .expired),
  ((.submitting, .reviewRequired), .reviewRequired),
  ((.acked, .partialFillObserved), .partiallyFilled),
  ((.acked, .fillConfirmed), .filled),
  ((.acked, .cancelRequested), .cancelPending),
  ((.acked, .expired), .expired),
  ((.acked, .reviewRequired), .reviewRequired),
  ((.unknown, .submitAcked), .acked),
  ((.unknown, .submitRejected), .rejected),
  ((.unknown, .submitTimeoutUnknown), .submitUnknownSideEffect),
  ((.unknown, .closedMarketUnknown), .submitUnknownSideEffect),
  ((.unknown, .partialFillObserved), .partiallyFilled),
  ((.unknown, .fillConfirmed), .filled),
  ((.unknown, .cancelRequested), .cancelPending),
  ((.unknown, .expired), .expired),
  ((.unknown, .reviewRequired), .reviewRequired),
  ((.submitUnknownSideEffect, .submitAcked), .acked),
  ((.submitUnknownSideEffect, .submitRejected), .submitRejected),
  ((.submitUnknownSideEffect, .partialFillObserved), .partiallyFilled),
  ((.submitUnknownSideEffect, .fillConfirmed), .filled),
  ((.submitUnknownSideEffect, .cancelRequested), .cancelPending),
  ((.submitUnknownSideEffect, .expired), .expired),
  ((.submitUnknownSideEffect, .reviewRequired), .reviewRequired),
  ((.partiallyFilled, .submitAcked), .partiallyFilled),
  ((.partiallyFilled, .partialFillObserved), .partiallyFilled),
  ((.partiallyFilled, .fillConfirmed), .filled),
  ((.partiallyFilled, .cancelRequested), .cancelPending),
  ((.partiallyFilled, .cancelAcked), .cancelled),
  ((.partiallyFilled, .expired), .expired),
  ((.partiallyFilled, .reviewRequired), .reviewRequired),
  ((.filled, .submitAcked), .filled),
  ((.filled, .partialFillObserved), .partiallyFilled),
  ((.filled, .reviewRequired), .reviewRequired),
  ((.cancelled, .partialFillObserved), .partiallyFilled),
  ((.cancelled, .fillConfirmed), .filled),
  ((.expired, .partialFillObserved), .partiallyFilled),
  ((.expired, .fillConfirmed), .filled),
  ((.rejected, .partialFillObserved), .partiallyFilled),
  ((.rejected, .fillConfirmed), .filled),
  ((.submitRejected, .partialFillObserved), .partiallyFilled),
  ((.submitRejected, .fillConfirmed), .filled),
  ((.cancelPending, .cancelDispatchStarted), .cancelPending),
  ((.cancelPending, .cancelAcked), .cancelled),
  ((.cancelPending, .cancelFailed), .reviewRequired),
  ((.cancelPending, .cancelReplaceBlocked), .reviewRequired),
  ((.cancelPending, .expired), .expired),
  ((.cancelPending, .reviewRequired), .reviewRequired),
  ((.reviewRequired, .reviewClearedNoVenueSideEffect), .rejected),
  ((.reviewRequired, .reviewClearedNoVenueExposure), .expired),
  ((.reviewRequired, .reviewClearedVenueOrderLive), .acked),
  ((.reviewRequired, .partialFillObserved), .partiallyFilled),
  ((.reviewRequired, .fillConfirmed), .filled)]

def transition (state : CommandState) (eventType : CommandEventType) : Option CommandState :=
  transitions.lookup (state, eventType)

theorem mem_transitions {state tgt : CommandState} {etype : CommandEventType}
    (legal : transition state etype = some tgt) : ((state, etype), tgt) ∈ transitions := by
  obtain ⟨before, after, split, -⟩ := List.lookup_eq_some_iff.mp legal
  rw [split]
  simp

/-- The scalar members of a JSON object; a container in a scalar's place is an opaque value. -/
abbrev Members := List (String × Value)

def Members.get (members : Members) (name : String) : Value := (members.lookup name).getD .null

/-- `first or second`. -/
def orElse (first second : Value) : Value := if first.truthy then first else second

/-- `dict.get` of each name in turn, joined by `or`. -/
def Members.firstOf (members : Members) : List String → Value
  | [] => .null
  | [name] => members.get name
  | name :: names => orElse (members.get name) (members.firstOf names)

/-- `venue_order_live_proof`. A member that is not of the container type the code expects reads
as the empty one. -/
structure LiveProof where
  members : Members := []
  pointOrder : Members := []
  latestOrderFact : Members := []
  matchingOpenOrders : List Members := []

structure CapabilityComponent where
  (component allowed : Value)
  details : Option Members

/-- `execution_capability`; components that are not objects are left out, as the code does. -/
structure ExecutionCapability where
  allowed : Value
  components : Option (List CapabilityComponent)

structure Payload where
  members : Members := []
  requiredPredicates : Option Members := none
  venueOrderLiveProof : Option LiveProof := none
  sourceProof : Option Members := none
  executionCapability : Option ExecutionCapability := none

def Payload.get (payload : Payload) (name : String) : Value := payload.members.get name

/-- `payload.get(name) == text`. -/
def Payload.reads (payload : Payload) (name text : String) : Prop :=
  (payload.get name).same (.str text)

instance (payload : Payload) (name text : String) : Decidable (payload.reads name text) :=
  inferInstanceAs (Decidable ((payload.get name).same (.str text)))

/-- `mapping.get(name) is True`. -/
def Members.isTrue (members : Members) (name : String) : Prop := members.get name = .bool true

instance (members : Members) (name : String) : Decidable (members.isTrue name) :=
  inferInstanceAs (Decidable (members.get name = .bool true))

def venueOrderIdFromPayload (payload : Payload) : Option String :=
  ["venue_order_id", "orderID", "orderId", "order_id", "id"].findSome? fun name =>
    match payload.get name with
    | .str text => if strip text = "" then none else some (strip text)
    | _ => none

structure Command extends VenueCommand where
  venueOrderId : Option String
  state : CommandState
  lastEventId : Option String
  updatedAt : String

/-- The primary key of `venue_commands`. -/
def Command.key (command : Command) : String := command.commandId

/-- A row of `venue_command_events`. -/
structure CommandEvent where
  (eventId commandId : String)
  sequenceNo : ℕ
  eventType : CommandEventType
  occurredAt : String
  payload : Option Payload
  stateAfter : CommandState

/-- A row of `provenance_envelope_events` for a command. -/
structure ProvenanceEvent where
  subjectId : String
  eventType : CommandEventType
  stateAfter : CommandState
  payload : Option Payload
  observedAt : String
  localSequence : ℕ

inductive FactSource where
  | rest | wsUser | wsMarket | dataApi | chain | operator | fakeVenue
  deriving DecidableEq

structure OrderFactRow extends VenueOrderFact where
  factId : ℤ
  venueOrderId : String
  source : FactSource
  observedAt : String
  localSequence : ℤ

structure TradeFactRow extends TradeFact where
  source : FactSource

structure TradeFacts where
  rows : List TradeFactRow
  idUnique : ((rows.map TradeFactRow.toTradeFact).map TradeFact.tradeFactId).Nodup
  revisionUnique : ((rows.map TradeFactRow.toTradeFact).map fun fact =>
      (fact.tradeId, fact.localSequence)).Nodup

def TradeFacts.facts (table : TradeFacts) : VenueTradeFacts :=
  ⟨table.rows.map TradeFactRow.toTradeFact, table.idUnique, table.revisionUnique⟩

inductive OrderRole where
  | entry | exit
  deriving DecidableEq

structure ExecutionFact where
  intentId : String
  commandId : Option String
  orderRole : OrderRole
  filledAt : Option String
  voided : Bool
  shares : Option ℚ

structure Facts where
  orderFacts : List OrderFactRow
  tradeFacts : TradeFacts
  executionFacts : List ExecutionFact

inductive MutexReleaseReason where
  | terminalPartial
  | state (state : CommandState)
  deriving DecidableEq

/-- A row of `exit_mutex_holdings`. -/
structure ExitMutexHolding where
  (mutexKey commandId : String)
  acquiredAt : Time
  releasedAt : Option Time := none
  releaseReason : Option MutexReleaseReason := none

structure Db where
  commands : KeyedTable Command.key
  events : List CommandEvent
  provenance : List ProvenanceEvent
  facts : Facts
  exitMutexes : KeyedTable ExitMutexHolding.mutexKey
  reservations : KeyedTable Reservation.commandId
  unsettledProceeds : KeyedTable UnsettledProceeds.commandId
  snapshots : List CollateralSnapshot
  activeCtfExposure : Bool

def TradeFacts.empty : TradeFacts :=
  ⟨[], VenueTradeFacts.empty.idUnique, VenueTradeFacts.empty.revisionUnique⟩

def Db.empty : Db := ⟨.empty, [], [], ⟨[], .empty, []⟩, .empty, .empty, .empty, [], false⟩

def Db.ledger (db : Db) : Collateral.Db where
  venueCommands := db.commands.map Command.toVenueCommand fun _ => rfl
  venueOrderFacts := db.facts.orderFacts.map OrderFactRow.toVenueOrderFact
  venueTradeFacts := db.facts.tradeFacts.facts
  activeCtfExposure := db.activeCtfExposure
  reservations := db.reservations
  unsettledProceeds := db.unsettledProceeds
  snapshots := db.snapshots

/-- The database after a ledger operation: reservations, unsettled rows and snapshots are the
ledger's to write. -/
def Db.withLedger (db : Db) (ledger : Collateral.Db) : Db :=
  { db with
    reservations := ledger.reservations
    unsettledProceeds := ledger.unsettledProceeds
    snapshots := ledger.snapshots }

def Db.eventsOf (db : Db) (commandId : String) : List CommandEvent :=
  Journal.ofKey CommandEvent.commandId db.events commandId

/-- `ORDER BY … LIMIT 1`: the first of the rows that no other precedes. -/
def firstBy {α : Type} (precedes : α → α → Bool) (rows : List α) : Option α :=
  rows.foldl (fun best row =>
      some (best.elim row fun held => if precedes row held then row else held)) none

theorem firstBy_mem {α : Type} {prec : α → α → Bool} {rows : List α} {first : α}
    (hf : firstBy prec rows = some first) : first ∈ rows := by
  induction rows using List.reverseRecOn generalizing first with
  | nil => cases hf
  | append_singleton rows row ih =>
    rw [firstBy, List.foldl_concat, ← firstBy] at hf
    obtain rfl := Option.some.inj hf
    cases held : firstBy prec rows with
    | none => simp
    | some best =>
      have hs := ih held
      simp only [Option.elim_some]
      split_ifs
      · simp
      · exact List.mem_append_left _ hs

theorem firstBy_concat {α : Type} {prec : α → α → Bool} {rows : List α} {row : α}
    (before : ∀ held ∈ rows, prec row held = true) : firstBy prec (rows ++ [row]) = some row := by
  rw [firstBy, List.foldl_concat, ← firstBy]
  cases hf : firstBy prec rows with
  | none => rfl
  | some held => simp [before held (firstBy_mem hf)]

/-- The event with the greatest sequence number among those that satisfy `p`. -/
def Db.latestEvent (db : Db) (commandId : String) (p : CommandEvent → Bool) : Option CommandEvent :=
  firstBy (fun row other => other.sequenceNo < row.sequenceNo) ((db.eventsOf commandId).filter p)

end Zeus.VenueCommands
