import Zeus.State.VenueCommands

/-! Each validator answers with its first refusal; what they read of the database is read as their
queries do. -/

namespace Zeus.VenueCommands

open Refusal
open Zeus.Collateral
open Zeus.FillDedup
open Zeus.LiveOrder (Value)

/-- Readers of text: `Decimal` where it is finite, and `_review_clearance_parse_utc`. -/
structure Readers where
  parseDecimal : String → Option ℚ
  parseUtc : String → Option Time

/-- `_decimal_or_none`. -/
def Readers.decimal (readers : Readers) (value : Value) : Option ℚ :=
  readers.parseDecimal value.text

/-- `value in (None, "")`. -/
def blank (value : Value) : Bool := value.same .null || value.same (.str "")

/-- `_optional_decimal_positive`. -/
def Readers.positive (readers : Readers) (value : Value) : Bool :=
  !blank value && (readers.decimal value).any fun number => 0 < number

def upper : String → String := PyText.onString PyText.upper

inductive EntrySubmitRefusal where
  | payloadRequired | capabilityRequired | capabilityNotAllowed | componentsRequired
  | componentsMissing (names : List String)
  | componentNotAllowed (name : String)
  | economicsDetailsRequired
  | economicsDetailsMissing (fields : List String)
  deriving DecidableEq

/-- `_ENTRY_SUBMIT_REQUIRED_COMPONENTS`, sorted. -/
def entrySubmitRequiredComponents : List String :=
  ["entry_actionable_certificate", "entry_economics"]

def entrySubmitEconomicsDetailFields : List String := [
  "q_live", "q_lcb_5pct", "expected_edge", "min_entry_price", "limit_price", "submit_edge",
  "expected_profit_usd", "min_expected_profit_usd", "submit_edge_density",
  "min_submit_edge_density", "shares", "qkernel_side"]

/-- The component a name ends up with in the dictionary `by_name`. -/
def componentNamed (components : List CapabilityComponent) (name : String) :
    Option CapabilityComponent :=
  Log.latest (fun component => component.component.orEmpty == name) components

def componentsRefusal (components : List CapabilityComponent) : Option EntrySubmitRefusal :=
  let named := componentNamed components
  let missing := entrySubmitRequiredComponents.filter fun name => (named name).isNone
  let refused := entrySubmitRequiredComponents.find? fun name =>
    (named name).any fun component => component.allowed != .bool true
  let details := (named "entry_economics").bind CapabilityComponent.details
  first [
    require (missing = []) (.componentsMissing missing),
    refused.map .componentNotAllowed,
    require details.isSome .economicsDetailsRequired,
    let absent :=
      entrySubmitEconomicsDetailFields.filter fun field => blank ((details.getD []).get field)
    require (absent = []) (.economicsDetailsMissing absent)]

def validateEntrySubmitPayload (intentKind : IntentKind) (eventType : CommandEventType)
    (payload : Option Payload) : Option EntrySubmitRefusal :=
  if intentKind ≠ .entry ∨ eventType ≠ .submitRequested then none
  else
    match payload with
    | none => some .payloadRequired
    | some payload =>
      match payload.executionCapability with
      | none => some .capabilityRequired
      | some capability =>
        if capability.allowed ≠ .bool true then some .capabilityNotAllowed
        else
          match capability.components with
          | none => some .componentsRequired
          | some components => componentsRefusal components

inductive LiveProofClass where
  | cancelUnknown | ackedSubmit | boundEntry | recoveryNoVenueOrderId
  deriving DecidableEq

def LiveProofClass.text : LiveProofClass → String
  | .cancelUnknown => "cancel_unknown_venue_order_live"
  | .ackedSubmit => "acked_submit_venue_order_live"
  | .boundEntry => "bound_entry_venue_order_live"
  | .recoveryNoVenueOrderId => "recovery_no_venue_order_id_live_order"

def LiveProofClass.ofValue (value : Value) : Option LiveProofClass :=
  [.cancelUnknown, .ackedSubmit, .boundEntry, .recoveryNoVenueOrderId].find? fun proofClass =>
    value.same (.str proofClass.text)

inductive LivePredicate where
  | latestEventIsCancelReplaceBlocked | latestEventIsReviewRequired
  | reviewReasonPostAckPersistenceFailure | reviewReasonOrderNotFound
  | reviewReasonRecoveryNoVenueOrderId
  | semanticCancelStatusCancelUnknown | requiresM5Reconcile
  | venueOrderIdPresent | venueOrderIdAbsentBeforeRecovery | proofVenueOrderIdPresent
  | venueOrderIdMatchesPointRead | venueOrderIdMatchesLiveProof
  | pointOrderStatusLive | latestOrderFactLive | authenticatedLiveOrderSeen
  | uniqueMatchingOpenOrder | matchingOpenOrderMatchesCommand | noMatchingTrades
  | pointOrderMatchedSizeNotPositive | noTradeFacts
  deriving DecidableEq

def LivePredicate.text : LivePredicate → String
  | .latestEventIsCancelReplaceBlocked => "latest_event_is_cancel_replace_blocked"
  | .latestEventIsReviewRequired => "latest_event_is_review_required"
  | .reviewReasonPostAckPersistenceFailure => "review_reason_post_ack_persistence_failure"
  | .reviewReasonOrderNotFound => "review_reason_order_not_found"
  | .reviewReasonRecoveryNoVenueOrderId => "review_reason_recovery_no_venue_order_id"
  | .semanticCancelStatusCancelUnknown => "semantic_cancel_status_cancel_unknown"
  | .requiresM5Reconcile => "requires_m5_reconcile"
  | .venueOrderIdPresent => "venue_order_id_present"
  | .venueOrderIdAbsentBeforeRecovery => "venue_order_id_absent_before_recovery"
  | .proofVenueOrderIdPresent => "proof_venue_order_id_present"
  | .venueOrderIdMatchesPointRead => "venue_order_id_matches_point_read"
  | .venueOrderIdMatchesLiveProof => "venue_order_id_matches_live_proof"
  | .pointOrderStatusLive => "point_order_status_live"
  | .latestOrderFactLive => "latest_order_fact_live"
  | .authenticatedLiveOrderSeen => "authenticated_live_order_seen"
  | .uniqueMatchingOpenOrder => "unique_matching_open_order"
  | .matchingOpenOrderMatchesCommand => "matching_open_order_matches_command"
  | .noMatchingTrades => "no_matching_trades"
  | .pointOrderMatchedSizeNotPositive => "point_order_matched_size_not_positive"
  | .noTradeFacts => "no_trade_facts"

def LiveProofClass.requiredTrue : LiveProofClass → List LivePredicate
  | .cancelUnknown =>
    [.latestEventIsCancelReplaceBlocked, .semanticCancelStatusCancelUnknown, .requiresM5Reconcile,
      .venueOrderIdPresent, .venueOrderIdMatchesPointRead, .pointOrderStatusLive,
      .pointOrderMatchedSizeNotPositive, .noTradeFacts]
  | .ackedSubmit =>
    [.latestEventIsReviewRequired, .reviewReasonPostAckPersistenceFailure, .venueOrderIdPresent,
      .venueOrderIdMatchesLiveProof, .authenticatedLiveOrderSeen, .latestOrderFactLive,
      .pointOrderMatchedSizeNotPositive, .noTradeFacts]
  | .boundEntry =>
    [.latestEventIsReviewRequired, .reviewReasonOrderNotFound, .venueOrderIdPresent,
      .venueOrderIdMatchesLiveProof, .authenticatedLiveOrderSeen, .pointOrderStatusLive,
      .pointOrderMatchedSizeNotPositive, .noTradeFacts]
  | .recoveryNoVenueOrderId =>
    [.latestEventIsReviewRequired, .reviewReasonRecoveryNoVenueOrderId,
      .venueOrderIdAbsentBeforeRecovery,
      .proofVenueOrderIdPresent, .uniqueMatchingOpenOrder, .matchingOpenOrderMatchesCommand,
      .authenticatedLiveOrderSeen, .pointOrderMatchedSizeNotPositive, .noMatchingTrades,
      .noTradeFacts]

def latestPayloadIsCancelUnknown (payload : Payload) : Bool :=
  decide (upper (payload.get "semantic_cancel_status").orEmpty = "CANCEL_UNKNOWN" ∧
      payload.members.isTrue "requires_m5_reconcile") ||
    (payload.get "reason").orEmpty == "post_cancel_unknown_possible_side_effect"

def Side.text : Side → String
  | .buy => "BUY"
  | .sell => "SELL"
  | .other => ""

def liveTexts : List String := ["LIVE", "OPEN", "RESTING"]

structure LiveReading where
  latestEventType : Option CommandEventType
  latestPayload : Payload
  proof : LiveProof
  commandVenueOrderId : String
  /-- Whether the point order has the command's token, side, price and size. -/
  proofOrderMatchesCommand : Bool
  tradeFactCount : ℕ

namespace LiveReading

variable (reading : LiveReading)

def latestReason : String := (reading.latestPayload.get "reason").orEmpty

def proofVenueOrderId : String :=
  strip (orElse (reading.proof.members.get "venue_order_id")
    (reading.proof.pointOrder.firstOf ["orderID", "orderId", "order_id", "id"])).orEmpty

def pointStatus : String :=
  upper (orElse (reading.proof.members.get "point_order_status")
    (reading.proof.pointOrder.firstOf ["status", "state"])).orEmpty

def matchedSize : Value :=
  let stated := reading.proof.members.get "matched_size"
  if blank stated then
    reading.proof.pointOrder.firstOf ["matched_size", "matched", "matched_amount", "filled_size"]
  else stated

def latestFactState : String := upper (reading.proof.latestOrderFact.get "state").orEmpty

def latestFactVenueOrderId : String :=
  strip (reading.proof.latestOrderFact.get "venue_order_id").orEmpty

def matchingOpenOrderIdMatches : Bool :=
  reading.proof.matchingOpenOrders.any fun order =>
    venueOrderIdFromPayload { members := order } == some reading.commandVenueOrderId

def factIsLive : Bool :=
  reading.commandVenueOrderId != "" &&
    reading.latestFactVenueOrderId == reading.commandVenueOrderId &&
    liveTexts.contains reading.latestFactState

end LiveReading

/-- `_actual_review_venue_order_live_predicates`, read at one name. -/
def LivePredicate.actual (readers : Readers) (reading : LiveReading) : LivePredicate → Bool
  | .latestEventIsCancelReplaceBlocked => reading.latestEventType == some .cancelReplaceBlocked
  | .latestEventIsReviewRequired => reading.latestEventType == some .reviewRequired
  | .reviewReasonPostAckPersistenceFailure =>
    ["entry_ack_persistence_failed_after_side_effect",
      "exit_ack_persistence_failed_after_side_effect"].contains reading.latestReason
  | .reviewReasonOrderNotFound => reading.latestReason == "recovery_order_not_found_at_venue"
  | .reviewReasonRecoveryNoVenueOrderId => reading.latestReason == "recovery_no_venue_order_id"
  | .semanticCancelStatusCancelUnknown | .requiresM5Reconcile =>
    latestPayloadIsCancelUnknown reading.latestPayload
  | .venueOrderIdPresent => reading.commandVenueOrderId != ""
  | .venueOrderIdAbsentBeforeRecovery => reading.commandVenueOrderId == ""
  | .proofVenueOrderIdPresent => reading.proofVenueOrderId != ""
  | .venueOrderIdMatchesPointRead =>
    reading.commandVenueOrderId != "" && reading.commandVenueOrderId == reading.proofVenueOrderId
  | .venueOrderIdMatchesLiveProof =>
    reading.commandVenueOrderId != "" &&
      (reading.commandVenueOrderId == reading.proofVenueOrderId ||
          reading.matchingOpenOrderIdMatches ||
        reading.latestFactVenueOrderId == reading.commandVenueOrderId)
  | .pointOrderStatusLive => liveTexts.contains reading.pointStatus
  | .latestOrderFactLive =>
    reading.factIsLive && !readers.positive (reading.proof.latestOrderFact.get "matched_size")
  | .authenticatedLiveOrderSeen =>
    (!reading.proof.matchingOpenOrders.isEmpty && reading.matchingOpenOrderIdMatches) ||
      reading.factIsLive || liveTexts.contains reading.pointStatus
  | .uniqueMatchingOpenOrder =>
    (reading.proof.members.get "matching_open_order_count").same (.int 1)
  | .matchingOpenOrderMatchesCommand =>
    reading.proofVenueOrderId != "" && reading.proofOrderMatchesCommand
  | .noMatchingTrades => (reading.proof.members.get "matching_trade_count").same (.int 0)
  | .pointOrderMatchedSizeNotPositive => !readers.positive reading.matchedSize
  | .noTradeFacts => reading.tradeFactCount == 0

/-- `proof_order_identity_matches_command`, apart from the order id. -/
def proofOrderMatchesCommand (readers : Readers) (command : Command) (pointOrder : Members) :
    Bool :=
  let token := strip (pointOrder.firstOf ["asset_id", "token_id", "tokenID", "assetId"]).orEmpty
  strip command.tokenId != "" && token == strip command.tokenId &&
    strip (upper (pointOrder.get "side").orEmpty) == Side.text command.side &&
    readers.decimal (pointOrder.get "price") == some command.price &&
    readers.decimal (pointOrder.firstOf ["original_size", "size", "matched_amount"]) ==
      some command.size

def Db.liveReading (readers : Readers) (db : Db) (commandId : String) (payload : Payload) :
    LiveReading :=
  let command := db.commands.find commandId
  let latest := db.latestEvent commandId fun _ => true
  let proof := payload.venueOrderLiveProof.getD {}
  { latestEventType := latest.map CommandEvent.eventType
    latestPayload := (latest.bind CommandEvent.payload).getD {}
    proof := proof
    commandVenueOrderId := strip ((command.bind Command.venueOrderId).getD "")
    proofOrderMatchesCommand :=
      command.any fun row => proofOrderMatchesCommand readers row proof.pointOrder
    tradeFactCount := db.facts.tradeFacts.rows.countP fun fact => fact.commandId == commandId }

inductive LiveOrderRefusal where
  | onlyFromReviewRequired | payloadRequired | reasonRequired | commandIdMismatch
  | proofClassUnsupported
  | sideEffectMustBeUnknown | cancelAttemptMustBeUnknown | postAckSideEffectRequired
  | postAckSubmitRequired
  | noVenueSideEffectRequired | noVenueSubmitRequired | predicatesRequired
  | predicatesNotProven (names : List String)
  | databasePredicatesFailed (names : List String)
  | liveProofRequired
  | liveProofMissing (name : String)
  | liveProofSourceUnsupported | sourceProofRequired | sourceFunctionUnsupported
  | sourceReasonUnsupported
  deriving DecidableEq

def LiveProofClass.flagsRefusal (proofClass : LiveProofClass) (payload : Payload) :
    Option LiveOrderRefusal :=
  match proofClass with
  | .cancelUnknown => first [
      require (payload.reads "side_effect_boundary_crossed" "unknown") .sideEffectMustBeUnknown,
      require (payload.reads "sdk_cancel_attempted" "unknown") .cancelAttemptMustBeUnknown]
  | .ackedSubmit | .boundEntry => first [
      require (payload.members.isTrue "side_effect_boundary_crossed") .postAckSideEffectRequired,
      require (payload.members.isTrue "sdk_submit_attempted") .postAckSubmitRequired]
  | .recoveryNoVenueOrderId => first [
      require (payload.members.isTrue "side_effect_boundary_crossed") .noVenueSideEffectRequired,
      require (payload.members.isTrue "sdk_submit_attempted") .noVenueSubmitRequired]

def LiveProofClass.proofSource : LiveProofClass → String
  | .cancelUnknown => "authenticated_clob_point_order_read"
  | .ackedSubmit | .boundEntry => "authenticated_clob_user_or_point_order_read"
  | .recoveryNoVenueOrderId => "authenticated_clob_user_open_orders_read"

def LiveProofClass.sourceFunctions : LiveProofClass → List String
  | .boundEntry =>
    ["command_recovery._reconcile_row", "operator_review",
      "command_recovery._review_required_bound_entry_order_recovery"]
  | _ => ["command_recovery._reconcile_row", "operator_review"]

def LiveProofClass.proofRefusal (proofClass : LiveProofClass) (payload : Payload) :
    Option LiveOrderRefusal :=
  match payload.venueOrderLiveProof with
  | none => some .liveProofRequired
  | some proof =>
    let missing := ["source", "observed_at", "venue_order_id"].find? fun name =>
      strip (proof.members.get name).orEmpty == ""
    first [
      missing.map .liveProofMissing,
      require (proofClass = .cancelUnknown →
        strip (proof.members.get "point_order_status").orEmpty ≠ "")
        (.liveProofMissing "point_order_status"),
      require ((proof.members.get "source").same (.str proofClass.proofSource))
        .liveProofSourceUnsupported,
      match payload.sourceProof with
      | none => some .sourceProofRequired
      | some source => first [
          require (proofClass.sourceFunctions.any fun text =>
              (source.get "source_function").same (.str text))
            .sourceFunctionUnsupported,
          require ((source.get "source_reason").same (.str proofClass.text))
            .sourceReasonUnsupported]]

def validateReviewVenueOrderLivePayload (readers : Readers) (db : Db) (currentState : CommandState)
    (payload : Option Payload) (commandId : String) : Option LiveOrderRefusal :=
  if currentState ≠ .reviewRequired then some .onlyFromReviewRequired
  else
    match payload with
    | none => some .payloadRequired
    | some payload => first [
        require (payload.reads "reason" "review_cleared_venue_order_live") .reasonRequired,
        require (payload.reads "command_id" commandId) .commandIdMismatch,
        match LiveProofClass.ofValue (payload.get "proof_class") with
        | none => some .proofClassUnsupported
        | some proofClass => first [
            proofClass.flagsRefusal payload,
            match payload.requiredPredicates with
            | none => some .predicatesRequired
            | some stated =>
              let missing :=
                proofClass.requiredTrue.filter fun predicate => ¬stated.isTrue predicate.text
              let reading := db.liveReading readers commandId payload
              let failed :=
                proofClass.requiredTrue.filter fun predicate => !predicate.actual readers reading
              first [
                require (missing = []) (.predicatesNotProven (missing.map LivePredicate.text)),
                require (failed = []) (.databasePredicatesFailed (failed.map LivePredicate.text))],
            proofClass.proofRefusal payload]]

inductive LateFillCategory where
  | terminalNoFill | terminalPartial | genuineCancel
  deriving DecidableEq

def genuineCancelReason : String := "authenticated_fill_after_genuine_cancel"

def LateFillCategory.reason : LateFillCategory → String
  | .terminalNoFill => "authenticated_fill_after_terminal_no_fill"
  | .terminalPartial => "authenticated_fill_after_terminal_partial"
  | .genuineCancel => genuineCancelReason

def LateFillCategory.ofReason (text : String) : Option LateFillCategory :=
  [.terminalNoFill, .terminalPartial, .genuineCancel].find? fun category => text == category.reason

def LateFillCategory.requiredNames : LateFillCategory → List String
  | .genuineCancel =>
    ["terminal_event_made_no_fill_claim", "order_ledger_matched_positive", "no_live_execution_fact",
      "authenticated_confirmed_trade_fact", "bound_venue_order_identity",
      "order_matched_remainder_arithmetic"]
  | .terminalNoFill =>
    ["terminal_event_was_no_fill", "terminal_event_precedes_trade_fact",
      "terminal_event_precedes_order_fact", "authenticated_confirmed_trade_fact",
      "bound_venue_order_identity", "order_matched_remainder_arithmetic"]
  | .terminalPartial =>
    ["terminal_event_was_partial", "terminal_event_precedes_trade_fact",
      "terminal_event_precedes_order_fact", "authenticated_confirmed_trade_fact",
      "bound_venue_order_identity", "order_matched_remainder_arithmetic",
      "cumulative_fill_exceeds_terminal_partial"]

inductive LateFillRefusal where
  | proofPayloadRequired | proofIdentityInvalid | predicatesIncomplete | canonicalProofIncomplete
  | genuineCancelProofInvalid | terminalWasNotNoFill | terminalPartialProofInvalid
  | commandIdentityMismatch
  | tradeAuthorityInvalid | genuineCancelClocksInvalid | evidenceNotCausallyNewer
  | orderArithmeticMismatch
  | genuineCancelRemainderInvalid | noLiveRemainder | doesNotCoverCommand
  deriving DecidableEq

def lateFillStates : List CommandState := [.cancelled, .expired, .rejected, .submitRejected]

/-- Whether `append_event` treats the call as a late fill. -/
def terminalLateFill (currentState : CommandState) (eventType : CommandEventType) : Bool :=
  lateFillStates.contains currentState && [.partialFillObserved, .fillConfirmed].contains eventType

def authenticated (source : FactSource) : Bool := [.rest, .wsUser].contains source

def amountTolerance : ℚ := 1 / 1000000

structure LateFillRows where
  command : Command
  terminalEvent : CommandEvent
  tradeFact : TradeFactRow
  orderFact : OrderFactRow
  /-- `shares` of the live entry execution fact. -/
  executionShares : Option ℚ
  priorPositiveTimes : List String

def tradeStateRank : TradeState → ℕ
  | .confirmed => 3
  | .mined => 2
  | _ => 1

/-- `ORDER BY filled_at DESC, intent_id`; a missing time comes last. -/
def ExecutionFact.precedes (fact other : ExecutionFact) : Bool :=
  match fact.filledAt, other.filledAt with
  | some time, some otherTime =>
    decide (otherTime < time) || (time == otherTime && decide (fact.intentId < other.intentId))
  | some _, none => true
  | none, some _ => false
  | none, none => decide (fact.intentId < other.intentId)

/-- The queries of `_validate_terminal_late_fill_correction_payload`. -/
def Db.lateFillRows (db : Db) (currentState : CommandState)
    (commandId venueOrderId tradeId : String) : Option LateFillRows := do
  let command ← db.commands.find commandId
  let terminalEvent ← db.latestEvent commandId fun event => event.stateAfter == currentState
  let tradeFact ← firstBy
    (fun row other => decide (tradeStateRank other.state < tradeStateRank row.state) ||
      (tradeStateRank row.state == tradeStateRank other.state &&
        decide (other.localSequence < row.localSequence)))
    (db.facts.tradeFacts.rows.filter fun fact =>
      fact.commandId == commandId && fact.venueOrderId == venueOrderId && fact.tradeId == tradeId)
  let orderFact ← firstBy (fun row other => decide (other.localSequence < row.localSequence))
    (db.facts.orderFacts.filter fun fact => fact.commandId == commandId &&
          fact.venueOrderId == venueOrderId)
  let execution := firstBy ExecutionFact.precedes (db.facts.executionFacts.filter fun fact =>
    fact.commandId == some commandId && fact.orderRole == .entry && !fact.voided)
  pure {
    command, terminalEvent, tradeFact, orderFact
    executionShares := execution.bind ExecutionFact.shares
    priorPositiveTimes :=
      ((db.facts.tradeFacts.rows.filter fun fact => fact.commandId == commandId &&
              decide (0 < fact.filledSize)).map
        fun fact => fact.observedAt) ++
      ((db.facts.orderFacts.filter fun fact =>
        fact.commandId == commandId &&
          fact.matchedSize.any fun size => 0 < size).map OrderFactRow.observedAt) }

namespace LateFillRows

variable (readers : Readers) (rows : LateFillRows)

def terminalPayload : Payload := rows.terminalEvent.payload.getD {}

def terminalNoFill : Bool :=
  decide (rows.terminalPayload.members.isTrue "terminal_no_fill") ||
    [.reviewClearedNoVenueExposure, .reviewClearedNoVenueSideEffect].contains
      rows.terminalEvent.eventType

def terminalPartialSize : Option ℚ :=
  readers.decimal (rows.terminalPayload.members.firstOf ["filled_size", "positive_fill_size"])

def terminalPartial : Bool :=
  decide (rows.terminalPayload.reads "proof_class"
      "confirmed_fill_plus_point_order_terminal_remainder" ∧
      rows.terminalPayload.reads "reason" "partial_remainder_absent_from_exchange_open_orders") &&
    (rows.terminalPartialSize readers).any fun size => 0 < size

def terminalAt : Option Time := readers.parseUtc rows.terminalEvent.occurredAt

def tradeAt : Option Time := readers.parseUtc rows.tradeFact.observedAt

def orderAt : Option Time := readers.parseUtc rows.orderFact.observedAt

def priorPositiveBeforeTerminal : Bool :=
  match rows.terminalAt readers with
  | none => true
  | some terminal =>
    rows.priorPositiveTimes.any fun text => (readers.parseUtc text).all fun time => time ≤ terminal

def categoryRefusal (category : LateFillCategory) (payload : Payload) (canonicalFilled : Option ℚ) :
    Option LateFillRefusal :=
  match category with
  | .genuineCancel =>
    require (rows.terminalNoFill = false ∧ rows.terminalPartial readers = false ∧
      (rows.orderFact.matchedSize.any fun size => 0 < size) = true ∧
      rows.executionShares = none ∧
      canonicalFilled = rows.orderFact.matchedSize) .genuineCancelProofInvalid
  | .terminalNoFill =>
    require (rows.terminalNoFill = true ∧ rows.priorPositiveBeforeTerminal readers = false)
      .terminalWasNotNoFill
  | .terminalPartial =>
    let size := rows.terminalPartialSize readers
    require (rows.terminalPartial readers = true ∧
      readers.decimal (payload.get "terminal_partial_filled_size") = size ∧
      rows.executionShares = size ∧
      (canonicalFilled.any fun filled => size.any fun terminal => terminal < filled) = true)
      .terminalPartialProofInvalid

def identityRefusal (venueOrderId : String) : Option LateFillRefusal :=
  require (rows.command.venueOrderId.getD "" = venueOrderId ∧ venueOrderId ≠ "" ∧
    (rows.command.intentKind, rows.command.side) ∈ [(IntentKind.entry, Side.buy), (.exit, .sell)])
    .commandIdentityMismatch

def tradeRefusal : Option LateFillRefusal :=
  require (rows.tradeFact.state = .confirmed ∧ authenticated rows.tradeFact.source = true ∧
    0 < rows.tradeFact.filledSize ∧
    0 < rows.tradeFact.fillPrice) .tradeAuthorityInvalid

/-- A fill after a genuine cancel is ordered against its order fact only, the others against
the terminal event. -/
def clocksRefusal (category : LateFillCategory) : Option LateFillRefusal :=
  match rows.terminalAt readers, rows.tradeAt readers, rows.orderAt readers with
  | some terminal, some trade, some order =>
    if category = .genuineCancel then require (trade ≤ order) .genuineCancelClocksInvalid
    else require (terminal < trade ∧ terminal < order) .evidenceNotCausallyNewer
  | _, _, _ =>
    some (if category = .genuineCancel then .genuineCancelClocksInvalid
      else .evidenceNotCausallyNewer)

def arithmeticRefusal (category : LateFillCategory) (canonicalFilled : ℚ) :
    Option LateFillRefusal :=
  let requested := rows.command.size
  match rows.orderFact.matchedSize, rows.orderFact.remainingSize with
  | some size, some remaining =>
    require (authenticated rows.orderFact.source = true ∧
      0 < requested ∧
      0 < canonicalFilled ∧
      0 < size ∧
      0 ≤ remaining ∧
      |DecimalContext.sub size canonicalFilled| ≤ amountTolerance ∧
      (if category = .genuineCancel then
        DecimalContext.sub (DecimalContext.add size remaining) requested ≤ amountTolerance
      else |DecimalContext.sub (DecimalContext.sub requested size) remaining| ≤ amountTolerance))
      .orderArithmeticMismatch
  | _, _ => some .orderArithmeticMismatch

def remainder (category : LateFillCategory) (eventType : CommandEventType) (canonicalFilled : ℚ) :
    Except LateFillRefusal Bool :=
  let requested := rows.command.size
  let remaining := rows.orderFact.remainingSize.getD 0
  let state := rows.orderFact.state
  if eventType = .partialFillObserved then
    if category = .genuineCancel then
      if state ∈ [OrderTruth.VenueState.cancelConfirmed, .partiallyMatched] ∧
          canonicalFilled < requested then
        .ok false
      else .error .genuineCancelRemainderInvalid
    else if state = .partiallyMatched ∧ 0 < remaining ∧ canonicalFilled < requested then .ok true
    else .error .noLiveRemainder
  else if state ∈ [OrderTruth.VenueState.matched, .other "FILLED"] ∧ remaining ≤ 1 / 100 ∧
      DecimalContext.sub requested canonicalFilled ≤ 1 / 100 then .ok false
  else .error .doesNotCoverCommand

end LateFillRows

/-- `_validate_terminal_late_fill_correction_payload`: whether a live remainder is left. -/
def validateTerminalLateFillCorrectionPayload (readers : Readers) (db : Db)
    (currentState : CommandState) (eventType : CommandEventType) (payload : Option Payload)
    (commandId : String) : Except LateFillRefusal Bool :=
  if terminalLateFill currentState eventType then
    match payload with
    | none => .error .proofPayloadRequired
    | some payload =>
      match LateFillCategory.ofReason (payload.get "reason").orEmpty with
      | none => .error .proofIdentityInvalid
      | some category => do
          let venueOrderId := (payload.get "venue_order_id").orEmpty
          let canonicalFilled := readers.decimal (payload.get "canonical_filled_size")
          guardBy (first [
            require (payload.reads "proof_class" "terminal_command_late_fill_correction" ∧
              payload.reads "command_id" commandId ∧
              payload.reads "terminal_state_before" (stateText currentState)) .proofIdentityInvalid,
            require (payload.requiredPredicates.any fun stated =>
              category.requiredNames.all fun name => stated.isTrue name) .predicatesIncomplete])
          match db.lateFillRows currentState commandId venueOrderId
            (payload.get "trade_id").orEmpty with
          | none => .error .canonicalProofIncomplete
          | some rows => do
              guardBy (first [
                rows.categoryRefusal readers category payload canonicalFilled,
                rows.identityRefusal venueOrderId,
                rows.tradeRefusal,
                rows.clocksRefusal readers category])
              match canonicalFilled with
              | none => .error .orderArithmeticMismatch
              | some filled => do
                  guardBy (rows.arithmeticRefusal category filled)
                  rows.remainder category eventType filled
  else .ok false

inductive TerminalPartialRefusal where
  | payloadRequired | proofInvalid | predicatesIncomplete | commandMissing | commandIdentityMismatch
  | orderFactMissing | orderStateInvalid | remainderNotZero
  | orderSizeMismatch (order : Option ℚ) (trade : String)
  | notShortFill | tradeProofMismatch
  deriving DecidableEq

def partialOrderStates : List OrderTruth.VenueState :=
  [.matched, .partiallyMatched, .other "PARTIAL"]

def Db.proofOrder (readers : Readers) (db : Db) (commandId : String) (payload : Payload) :
    Option OrderFactRow :=
  let bound := db.facts.orderFacts.filter fun fact =>
    fact.commandId == commandId && fact.venueOrderId == (payload.get "venue_order_id").orEmpty
  let named := payload.get "latest_order_fact_id"
  if blank named then
    firstBy
      (fun row other => decide (other.localSequence < row.localSequence) ||
        (row.localSequence == other.localSequence && decide (other.factId < row.factId)))
      (bound.filter fun fact => partialOrderStates.contains fact.state)
  else bound.find? fun fact => readers.decimal named == some (fact.factId : ℚ)

def Db.aggregateFills (db : Db) (commandId venueOrderId : String) : List TradeFact :=
  let stored := db.facts.tradeFacts.facts.rows
  (economicTradeFacts stored (canonicalTradeFacts stored)).filter fun fact =>
    fact.commandId == commandId && fact.venueOrderId == venueOrderId && fact.isFill

def positiveTradeFacts (fills : List TradeFact) (payloadFilled : ℚ) : Bool :=
  let filled := fills.foldl (fun total fact => DecimalContext.add total fact.filledSize) 0
  !fills.isEmpty && decide (|DecimalContext.sub filled payloadFilled| ≤ amountTolerance)

def orderFactRank (fact : OrderFactRow) : ℕ :=
  let positive := fact.matchedSize.any fun size => 0 < size
  if fact.state ∈ [OrderTruth.VenueState.matched, .other "FILLED"] ∧
      positive = true ∧
      fact.remainingSize.getD 0 = 0 then 600
  else if fact.state ∈ [OrderTruth.VenueState.partiallyMatched, .other "PARTIAL"] ∧
      positive = true then 400
  else if fact.state ∈ [OrderTruth.VenueState.live, .resting, .other "OPEN"] then 200
  else 100

def Db.matchedOrderFactPositive (db : Db) (commandId venueOrderId : String) (payloadFilled : ℚ) :
    Bool :=
  let strongest := firstBy
    (fun row other => decide (orderFactRank other < orderFactRank row) ||
      (orderFactRank row == orderFactRank other &&
          decide (other.localSequence < row.localSequence)))
    (db.facts.orderFacts.filter fun fact => fact.commandId == commandId &&
          fact.venueOrderId == venueOrderId)
  strongest.any fun fact => (fact.matchedSize.any fun size =>
      decide (0 < size ∧ |DecimalContext.sub size payloadFilled| ≤ amountTolerance)) &&
    fact.remainingSize.any fun remaining => decide (0 ≤ remaining ∧ remaining ≤ 11 / 1000)

/-- `_validate_terminal_partial_command_correction_payload`: whether the fill leaves nothing to
collateralise. -/
def validateTerminalPartialCommandCorrectionPayload (readers : Readers) (db : Db)
    (currentState : CommandState) (eventType : CommandEventType) (payload : Option Payload)
    (commandId : String) : Except TerminalPartialRefusal Bool :=
  let claimed :=
    payload.any fun payload => decide (payload.reads "proof_class" "terminal_partial_order_fact")
  if eventType ≠ .partialFillObserved ∨
      (currentState ∉ [.filled, .reviewRequired] ∧ claimed = false) then
    .ok false
  else
    match payload with
    | none => .error .payloadRequired
    | some payload => do
        let venueOrderId := (payload.get "venue_order_id").orEmpty
        guardBy (first [
          require (payload.reads "reason" "terminal_partial_order_fact_corrected" ∧
            payload.reads "proof_class" "terminal_partial_order_fact" ∧
            payload.reads "command_id" commandId) .proofInvalid,
          require (payload.requiredPredicates.any fun stated =>
            ["terminal_order_remainder_zero", "canonical_trade_facts_match_terminal_order_fact",
              "cumulative_fill_below_requested_size"].all fun name =>
                stated.isTrue name) .predicatesIncomplete])
        match db.commands.find commandId with
        | none => .error .commandMissing
        | some command => do
            guardBy (require
              ((command.intentKind, command.side) ∈ [(IntentKind.entry, Side.buy), (.exit, .sell)] ∧
                command.venueOrderId.getD "" = venueOrderId) .commandIdentityMismatch)
            match db.proofOrder readers commandId payload with
            | none => .error .orderFactMissing
            | some order => do
                let filled := readers.decimal (payload.get "filled_size")
                guardBy (first [
                  require (order.state ∈ partialOrderStates) .orderStateInvalid,
                  require (order.remainingSize = some 0) .remainderNotZero,
                  require (order.matchedSize.isSome ∧ order.matchedSize = filled)
                    (.orderSizeMismatch order.matchedSize (payload.get "filled_size").text),
                  require (0 < command.size ∧ (filled.any fun size =>
                      decide (0 < size ∧ 1 / 100 ≤ DecimalContext.sub command.size size)) ∧
                    readers.decimal (payload.get "requested_size") =
                      some command.size) .notShortFill,
                  require ((filled.any fun size =>
                      positiveTradeFacts (db.aggregateFills commandId venueOrderId) size &&
                        db.matchedOrderFactPositive commandId venueOrderId size))
                          .tradeProofMismatch])
                .ok true

theorem terminalPartial_eventType {readers : Readers} {db : Db} {curSt : CommandState}
    {etype : CommandEventType} {pl : Option Payload} {cid : String}
    (proven : validateTerminalPartialCommandCorrectionPayload readers db curSt etype pl
      cid = .ok true) : etype = .partialFillObserved := by
  by_contra different
  simp [validateTerminalPartialCommandCorrectionPayload, different] at proven

end Zeus.VenueCommands
