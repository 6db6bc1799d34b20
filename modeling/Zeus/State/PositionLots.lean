import Zeus.Lib.CheckedFold
import Zeus.Lib.Latest
import Zeus.State.CollateralLedger

/-! `append_trade_fact` with the rollback it starts on a FAILED fact, and `append_position_lot` with
its authority check; a call returns the new tables, or only an error. Decimal text is carried by its
value. The provenance journal, payload hashes, unread columns, and the insert triggers on
`position_lots`, which repeat the authority check, are left out. -/

namespace Zeus.Lots

open Zeus.FillDedup Zeus.Collateral

inductive LotState where
  | optimisticExposure | confirmedExposure | exitPending | economicallyClosedOptimistic
  | economicallyClosedConfirmed | settled
  deriving DecidableEq

structure PositionLot where
  (lotId positionId : ℤ)
  state : LotState
  (shares entryPriceAvg : ℚ)
  exitPriceAvg : Option ℚ
  sourceCommandId : Option String
  sourceTradeFactId : Option ℤ
  (capturedAt stateChangedAt : String)
  localSequence : ℤ
  deriving DecidableEq

structure PositionLots where
  rows : List PositionLot
  ascending : rows.Pairwise fun lot later => lot.lotId < later.lotId

def PositionLots.empty : PositionLots := ⟨[], List.Pairwise.nil⟩

def PositionLots.nextId (lots : PositionLots) : ℤ :=
  (lots.rows.getLast?.map PositionLot.lotId).getD 0 + 1

theorem PositionLots.lt_nextId (lots : PositionLots) :
    ∀ lot ∈ lots.rows, lot.lotId < lots.nextId := by
  intro lot mem
  have ord := lots.ascending
  unfold PositionLots.nextId
  rcases List.eq_nil_or_concat lots.rows with empty | ⟨front, last, split⟩
  · simp [empty] at mem
  · rw [split, List.concat_eq_append] at mem ord ⊢
    simp only [List.getLast?_concat, Option.map_some, Option.getD_some]
    rcases List.mem_append.mp mem with early | same
    · have before := (List.pairwise_append.mp ord).2.2 lot early last (List.mem_singleton_self last)
      omega
    · rw [List.mem_singleton.mp same]
      omega

def PositionLots.append (lots : PositionLots) (lot : PositionLot) : PositionLots where
  rows := lots.rows ++ [{ lot with lotId := lots.nextId }]
  ascending := by
    rw [List.pairwise_append]
    refine ⟨lots.ascending, List.pairwise_singleton _ _, ?_⟩
    intro early member new isNew
    rw [List.mem_singleton.mp isNew]
    exact lots.lt_nextId early member

structure LotDb where
  venueCommands : KeyedTable VenueCommand.commandId
  venueTradeFacts : VenueTradeFacts
  positionLots : PositionLots

def LotDb.opened (commands : KeyedTable VenueCommand.commandId) : LotDb :=
  ⟨commands, .empty, .empty⟩

inductive LotError where
  | required (field : String)
  | fillEconomicsRequired (state : TradeState)
  | localSequenceNotMonotonic (requested currentMax : ℤ)
  | integrityError
  | sourceTradeFactIdRequired (state : LotState)
  | sourceTradeFactIdNotPositive (state : LotState)
  | sourceTradeFactUnknown (state : LotState)
  | tradeFactStateNotAllowed (state : LotState) (got : TradeState)
  | sourceCommandMismatch (state : LotState)
  | entryBuyRequired (state : LotState)
  | sourceEconomicsRequired (state : LotState)
  | sharesMismatch (state : LotState)
  | entryPriceMismatch (state : LotState)
  | noOptimisticLot | failedTradeFactRequired
  deriving DecidableEq

def requireNonempty (field text : String) : Except LotError String :=
  if strip text = "" then .error (.required field) else .ok (strip text)

/-- `_coerce_local_sequence` over the sequences already taken by the subject. -/
def coerceLocalSequence (taken : List ℤ) (requested : Option ℤ) : Except LotError ℤ :=
  let currentMax := taken.max?.getD 0
  match requested with
  | none => .ok (currentMax + 1)
  | some sequence =>
    if sequence ≤ currentMax then .error (.localSequenceNotMonotonic sequence currentMax)
    else .ok sequence

structure LotDraft where
  positionId : ℤ
  state : LotState
  (shares entryPriceAvg : ℚ)
  exitPriceAvg : Option ℚ := none
  sourceCommandId : Option String := none
  sourceTradeFactId : Option ℤ := none
  (capturedAt stateChangedAt : String)
  localSequence : Option ℤ := none
  deriving DecidableEq

/-- `_POSITION_LOT_EXPOSURE_TRADE_STATES`. -/
def exposureTradeStates : LotState → Option (List TradeState)
  | .optimisticExposure => some [.matched, .mined]
  | .confirmedExposure => some [.confirmed]
  | _ => none

/-- The fact `fact_id` joined with its command. -/
def LotDb.tradeFactWithCommand (db : LotDb) (factId : ℤ) : Option (TradeFact × VenueCommand) := do
  let fact ← db.venueTradeFacts.rows.find? fun fact => fact.tradeFactId = factId
  let command ← db.venueCommands.find fact.commandId
  return (fact, command)

def authorityRefusal (draft : LotDraft) (allowed : List TradeState) (commandId : String)
    (fact : TradeFact) (command : VenueCommand) : Option LotError :=
  if fact.state ∉ allowed then some (.tradeFactStateNotAllowed draft.state fact.state)
  else if fact.commandId ≠ commandId then some (.sourceCommandMismatch draft.state)
  else if command.intentKind ≠ .entry ∨ command.side ≠ .buy then
    some (.entryBuyRequired draft.state)
  else if ¬ (0 < fact.filledSize ∧ 0 < fact.fillPrice) then
    some (.sourceEconomicsRequired draft.state)
  else if draft.shares ≠ fact.filledSize then some (.sharesMismatch draft.state)
  else if draft.entryPriceAvg ≠ fact.fillPrice then some (.entryPriceMismatch draft.state)
  else none

/-- `_assert_position_lot_trade_fact_authority`. -/
def assertTradeFactAuthority (db : LotDb) (draft : LotDraft) :
    Except LotError (Option String × Option ℤ) :=
  match exposureTradeStates draft.state, draft.sourceTradeFactId with
  | none, sourceTradeFactId => .ok (draft.sourceCommandId, sourceTradeFactId)
  | some _, none => .error (.sourceTradeFactIdRequired draft.state)
  | some allowed, some factId =>
    if factId ≤ 0 then .error (.sourceTradeFactIdNotPositive draft.state)
    else
      match requireNonempty "source_command_id" (draft.sourceCommandId.getD ""),
        db.tradeFactWithCommand factId with
      | .error error, _ => .error error
      | .ok _, none => .error (.sourceTradeFactUnknown draft.state)
      | .ok commandId, some (fact, command) =>
        match authorityRefusal draft allowed commandId fact command with
        | some error => .error error
        | none => .ok (some commandId, some factId)

def appendPositionLot (db : LotDb) (draft : LotDraft) : Except LotError LotDb := do
  let capturedAt ← requireNonempty "observed_at" draft.capturedAt
  let stateChangedAt ← requireNonempty "observed_at" draft.stateChangedAt
  let (sourceCommandId, sourceTradeFactId) ← assertTradeFactAuthority db draft
  let taken := (db.positionLots.rows.filter fun lot => lot.positionId == draft.positionId).map
    PositionLot.localSequence
  let sequence ← coerceLocalSequence taken draft.localSequence
  return { db with
    positionLots := db.positionLots.append
      { lotId := 0, positionId := draft.positionId, state := draft.state, shares := draft.shares
        entryPriceAvg := draft.entryPriceAvg, exitPriceAvg := draft.exitPriceAvg
        sourceCommandId := sourceCommandId, sourceTradeFactId := sourceTradeFactId
        capturedAt := capturedAt, stateChangedAt := stateChangedAt, localSequence := sequence } }

def revisionOf (tradeId : String) (states : List TradeState) (fact : TradeFact) : Bool :=
  fact.tradeId == tradeId && decide (fact.state ∈ states)

def LotDb.sourcedBy (db : LotDb) (tradeId : String) (states : List TradeState) (lot : PositionLot) :
    Bool :=
  db.venueTradeFacts.rows.any fun fact =>
    revisionOf tradeId states fact && lot.sourceTradeFactId == some fact.tradeFactId

def LotDb.reversed (db : LotDb) (tradeId : String) (positionId : ℤ) : Bool :=
  db.positionLots.rows.any fun lot => lot.positionId == positionId &&
      lot.state == .economicallyClosedOptimistic && db.sourcedBy tradeId [.failed] lot

/-- `_optimistic_source_trade_fact_ids_for_failed_trade`. -/
def optimisticSourceTradeFactIds (db : LotDb) (tradeId : String) : List ℤ :=
  ((db.positionLots.rows.filter fun lot =>
      lot.state == .optimisticExposure && db.sourcedBy tradeId [.matched, .mined] lot &&
        !db.reversed tradeId lot.positionId).filterMap
          PositionLot.sourceTradeFactId).dedup.insertionSort (· ≤ ·)

def LotDb.optimisticLot (db : LotDb) (sourceTradeFactId : ℤ) : Option PositionLot :=
  Log.latest (fun lot => lot.sourceTradeFactId == some sourceTradeFactId &&
        lot.state == .optimisticExposure)
    db.positionLots.rows

def rollbackOptimisticLotForFailedTrade (db : LotDb) (failedTradeFactId : ℤ)
    (stateChangedAt : String) (sourceTradeFactId : ℤ) : Except LotError LotDb := do
  let some lot := db.optimisticLot sourceTradeFactId | throw .noOptimisticLot
  let failed :=
    fun fact : TradeFact => fact.tradeFactId == failedTradeFactId && fact.state == .failed
  if !db.venueTradeFacts.rows.any failed then throw .failedTradeFactRequired
  let existing := fun row : PositionLot =>
    row.positionId == lot.positionId && row.state == .economicallyClosedOptimistic &&
      row.sourceTradeFactId == some failedTradeFactId
  if db.positionLots.rows.any existing then return db
  appendPositionLot db
    { positionId := lot.positionId, state := .economicallyClosedOptimistic, shares := lot.shares
      entryPriceAvg := lot.entryPriceAvg, exitPriceAvg := lot.exitPriceAvg
      sourceCommandId := lot.sourceCommandId, sourceTradeFactId := some failedTradeFactId
      capturedAt := lot.capturedAt, stateChangedAt := stateChangedAt }

/-- `_rollback_optimistic_lots_for_failed_trade`: the ids are read once, before the first
rollback. -/
def rollbackOptimisticLots (db : LotDb) (tradeId : String) (failedTradeFactId : ℤ)
    (stateChangedAt : String) : Except LotError LotDb :=
  (optimisticSourceTradeFactIds db tradeId).foldlM
    (fun current => rollbackOptimisticLotForFailedTrade current failedTradeFactId stateChangedAt) db

structure TradeFactDraft where
  (tradeId venueOrderId commandId : String)
  state : TradeState
  (filledSize fillPrice : ℚ)
  txHash : Option String := none
  venueTimestamp : Option String := none
  observedAt : String
  localSequence : Option ℤ := none
  sourceTradeFactId : Option ℤ := none
  deriving DecidableEq

def TradeFactDraft.fillEconomics (draft : TradeFactDraft) : Bool :=
  decide (0 < draft.filledSize) && decide (0 < draft.fillPrice) && decide (draft.fillPrice ≤ 1)

def nextTradeFactId (facts : VenueTradeFacts) : ℤ :=
  ((facts.rows.map TradeFact.tradeFactId).max?.getD 0) + 1

def tradeFactRow (db : LotDb) (draft : TradeFactDraft) : Except LotError TradeFact := do
  let tradeId ← requireNonempty "trade_id" draft.tradeId
  let venueOrderId ← requireNonempty "venue_order_id" draft.venueOrderId
  let commandId ← requireNonempty "command_id" draft.commandId
  if draft.state.isFill && !draft.fillEconomics then throw (.fillEconomicsRequired draft.state)
  let observedAt ← requireNonempty "observed_at" draft.observedAt
  let taken :=
    (db.venueTradeFacts.rows.filter fun fact => fact.tradeId == tradeId).map TradeFact.localSequence
  let sequence ← coerceLocalSequence taken draft.localSequence
  return {
    tradeFactId := nextTradeFactId db.venueTradeFacts, tradeId := tradeId,
    venueOrderId := venueOrderId
    commandId := commandId, state := draft.state, filledSize := draft.filledSize,
    fillPrice := draft.fillPrice
    txHash := draft.txHash, venueTimestamp := draft.venueTimestamp, observedAt := observedAt
    localSequence := sequence, sourceTradeFactId := draft.sourceTradeFactId }

def insertTradeFact (db : LotDb) (fact : TradeFact) : Except LotError LotDb :=
  if (db.venueCommands.find fact.commandId).isNone then .error .integrityError
  else
    match db.venueTradeFacts.tryAppend fact with
    | none => .error .integrityError
    | some facts => .ok { db with venueTradeFacts := facts }

def appendTradeFact (db : LotDb) (draft : TradeFactDraft) :
    Except LotError (TradeFact × LotDb) := do
  let fact ← tradeFactRow db draft
  let inserted ← insertTradeFact db fact
  if fact.state = .failed then
    let rolledBack ← rollbackOptimisticLots inserted fact.tradeId fact.tradeFactId fact.observedAt
    return (fact, rolledBack)
  else return (fact, inserted)

inductive LotCall where
  | tradeFact (draft : TradeFactDraft)
  | optimisticLot (draft : LotDraft)

def LotDb.call (db : LotDb) : LotCall → LotDb
  | .tradeFact draft =>
    match appendTradeFact db draft with
    | .ok (_, after) => after
    | .error _ => db
  | .optimisticLot draft =>
    match appendPositionLot db { draft with state := .optimisticExposure } with
    | .ok after => after
    | .error _ => db

def LotDb.calls (db : LotDb) (made : List LotCall) : LotDb := made.foldl LotDb.call db

theorem LotDb.calls_concat (db : LotDb) (made : List LotCall) (call : LotCall) :
    db.calls (made ++ [call]) = (db.calls made).call call := by
  simp [LotDb.calls]

end Zeus.Lots
