import Zeus.Lib.CheckedFold
import Zeus.Lib.KeyedTable
import Zeus.State.FillDedup

/-! An amount is a pair of shares and notional. Decimals are exact rationals, and payload fields are
taken as present. -/

namespace Zeus.PartialExit

open FillDedup

abbrev Economics := ℚ × ℚ

/-- The stable key of what an event books: `status-fill:v1:…` or `economic-fill:v2:…`. -/
inductive FillIdentity
  | statusFill (positionId venueOrderId : String)
  | economicFill (commandId venueOrderId tradeId : String)
  deriving DecidableEq

/-- The ids that recovery writes, and any other; a correction's id hashes its notional. -/
inductive EventId
  | repair (positionId : String) (identity : FillIdentity)
  | correction (positionId : String) (identity : FillIdentity) (notional : ℚ)
  | other (text : String)
  deriving DecidableEq

inductive CausedBy
  | partialExitFill | partialExitEconomicsRepair
  deriving DecidableEq

/-- A partial exit row of `position_events`. Legacy rows have no identity. -/
structure PartialExitEvent where
  eventId : EventId
  causedBy : CausedBy
  economicFillIdentity : Option FillIdentity
  (economicFillCumulativeShares economicFillCumulativeNotionalUsd filledShares filledNotionalUsd
      fillPrice : ℚ)
  (allocatedCostBasisUsd realizedPnlDeltaUsd cumulativeRealizedPnlUsd remainingShares
      remainingCostBasisUsd : ℚ)
  economicCorrectionOnly : Bool
  repairedLegacyEventId : Option EventId
  deriving DecidableEq

namespace PartialExitEvent

def filled (event : PartialExitEvent) : Economics := (event.filledShares, event.filledNotionalUsd)

def cumulative (event : PartialExitEvent) : Economics :=
  (event.economicFillCumulativeShares, event.economicFillCumulativeNotionalUsd)

def books (event : PartialExitEvent) (identity : FillIdentity) : Bool :=
  event.economicFillIdentity == some identity

end PartialExitEvent

abbrev Journal := KeyedTable PartialExitEvent.eventId

inductive DebtError
  | cursorLacksCumulativeEconomics (identity : FillIdentity)
  | identityDidNotAdvance (identity : FillIdentity)
  | repairReferencesUnknownLegacyEvents
  | economicsRepairRequired (eventId : EventId)
  | eventEconomicsInvalid (identity : FillIdentity)
  | correctionLacksPriorIdentity (identity : FillIdentity)
  | canonicalFillInvalidEconomics | canonicalFillIdentityMissing | residualBasisMissingOrDivergent
  | baselineProofInvalid | canonicalNotEqualToAuthenticatedFill
  | canonicalDoesNotReconcileStatusReceipt
  | canonicalFillRegressed (identity : FillIdentity)
  | statusReceiptCannotCover (identity : FillIdentity)
  | statusCanonicalDisagree (identity : FillIdentity)
  | canonicalFillNonpositiveEconomics (identity : FillIdentity)
  | statusReceiptRemainsUnmatched | residualDoesNotMatchBaseline | oversoldBaseline
  | duplicateEventId (eventId : EventId)
  deriving DecidableEq

structure ExitOrder where
  (positionId commandId venueOrderId : String)
  deriving DecidableEq

def ExitOrder.statusIdentity (order : ExitOrder) : FillIdentity :=
  .statusFill order.positionId order.venueOrderId

structure EconomicExitFill where
  (commandId venueOrderId tradeId : String)
  (quantity unitPrice : ℚ)
  quantity_pos : 0 < quantity
  unitPrice_pos : 0 < unitPrice
  deriving DecidableEq

namespace EconomicExitFill

/-- Ids are ASCII, where Python and SQLite fold case alike. -/
def identity (fill : EconomicExitFill) : FillIdentity :=
  .economicFill fill.commandId (sqlLower fill.venueOrderId) (sqlLower fill.tradeId)

def notional (fill : EconomicExitFill) : ℚ := fill.quantity * fill.unitPrice

def economics (fill : EconomicExitFill) : Economics := (fill.quantity, fill.notional)

end EconomicExitFill

/-- `ORDER BY execution_ts, trade_id` within a command; an absent timestamp sorts first. -/
def executionKey (source : List TradeFact) (fact : TradeFact) : Lex (WithBot String × String) :=
  toLex (fact.executionTs source, fact.tradeId)

def economicExitFill (makerLegUnitPrice : TradeFact → Option { price : ℚ // 0 < price })
    (fact : TradeFact) : Except DebtError EconomicExitFill :=
  if valid : 0 < fact.filledSize ∧ 0 < fact.fillPrice then
    if fact.commandId = "" ∨ fact.venueOrderId = "" ∨ fact.tradeId = "" then
      .error .canonicalFillIdentityMissing
    else
      let price := (makerLegUnitPrice fact).getD ⟨fact.fillPrice, valid.2⟩
      .ok ⟨fact.commandId, fact.venueOrderId, fact.tradeId, fact.filledSize, price.1, valid.1,
        price.2⟩
  else .error .canonicalFillInvalidEconomics

/-- `economic_exit_fills_for_position`, restricted to the order's command. The price that the maker
legs of a taker sell prove is a parameter. -/
def economicExitFills (makerLegUnitPrice : TradeFact → Option { price : ℚ // 0 < price })
    (facts : VenueTradeFacts) (order : ExitOrder) : Except DebtError (List EconomicExitFill) :=
  let source := facts.forCommand order.commandId
  let rows := (economicTradeFacts facts.rows (canonicalTradeFacts source)).filter fun fact =>
    sqlLower fact.venueOrderId == sqlLower order.venueOrderId && order.venueOrderId != "" &&
      fact.isFill &&
      decide (0 < fact.fillPrice)
  (rows.insertionSort fun fact other => executionKey source fact ≤ executionKey source other).mapM
    (economicExitFill makerLegUnitPrice)

/-- Whether a further event of one identity moves its cursor by exactly what it books. -/
def advancesBy (event : PartialExitEvent) (prior : Economics) : Prop :=
  if event.economicCorrectionOnly then
    event.economicFillCumulativeShares = prior.1 ∧
    event.economicFillCumulativeNotionalUsd ≠ prior.2 ∧
      event.filledShares = 0 ∧
      event.filledNotionalUsd = event.economicFillCumulativeNotionalUsd - prior.2
  else
    prior.1 < event.economicFillCumulativeShares ∧
    prior.2 < event.economicFillCumulativeNotionalUsd ∧
      event.filledShares = event.economicFillCumulativeShares - prior.1 ∧
      event.filledNotionalUsd = event.economicFillCumulativeNotionalUsd - prior.2

instance (event : PartialExitEvent) (prior : Economics) : Decidable (advancesBy event prior) :=
  inferInstanceAs (Decidable (ite _ _ _))

abbrev Cursors := FillIdentity → Option Economics

def cursorStep (cursors : Cursors) (event : PartialExitEvent) : Except DebtError Cursors :=
  match event.economicFillIdentity with
  | none => .ok cursors
  | some identity =>
    if event.economicFillCumulativeShares ≤ 0 ∨ event.economicFillCumulativeNotionalUsd ≤ 0 then
      .error (.cursorLacksCumulativeEconomics identity)
    else if ∃ prior ∈ cursors identity, ¬ advancesBy event prior then
      .error (.identityDidNotAdvance identity)
    else .ok (Function.update cursors identity (some event.cumulative))

def recordedPartialExitFillCursors (journal : Journal) : Except DebtError Cursors :=
  journal.rows.foldlM cursorStep fun _ => none

def validAtom (event : PartialExitEvent) : Prop :=
  if event.economicCorrectionOnly then
    event.filledShares = 0 ∧
      event.filledNotionalUsd ≠ 0 ∧
      event.allocatedCostBasisUsd = 0 ∧
      event.realizedPnlDeltaUsd = event.filledNotionalUsd
  else
    0 < event.filledShares ∧
      0 < event.filledNotionalUsd ∧
      0 ≤ event.allocatedCostBasisUsd ∧
      event.filledShares ≤ event.economicFillCumulativeShares ∧
      event.filledNotionalUsd ≤ event.economicFillCumulativeNotionalUsd ∧
      event.realizedPnlDeltaUsd = event.filledNotionalUsd - event.allocatedCostBasisUsd

instance (event : PartialExitEvent) : Decidable (validAtom event) :=
  inferInstanceAs (Decidable (ite _ _ _))

def pnlStep (allowUnrepairedLegacy : Bool) (repaired : List EventId) (state : ℚ × Cursors)
    (event : PartialExitEvent) : Except DebtError (ℚ × Cursors) :=
  match event.economicFillIdentity with
  | none =>
    if allowUnrepairedLegacy || repaired.contains event.eventId then .ok state
    else .error (.economicsRepairRequired event.eventId)
  | some identity =>
    if event.economicFillCumulativeShares ≤ 0 ∨ event.economicFillCumulativeNotionalUsd ≤ 0 ∨
        ¬ validAtom event then .error (.eventEconomicsInvalid identity)
    else
      match state.2 identity with
      | some prior =>
        if advancesBy event prior then
          .ok (state.1 + event.realizedPnlDeltaUsd,
            Function.update state.2 identity (some event.cumulative))
        else .error (.identityDidNotAdvance identity)
      | none =>
        if event.economicCorrectionOnly then .error (.correctionLacksPriorIdentity identity)
        else
          .ok (state.1 + event.realizedPnlDeltaUsd,
            Function.update state.2 identity (some event.cumulative))

def partialExitRealizedPnlFold (allowUnrepairedLegacy : Bool) (journal : Journal) :
    Except DebtError ℚ :=
  let repaired := journal.rows.filterMap PartialExitEvent.repairedLegacyEventId
  let legacy := (journal.rows.filter fun event =>
    event.causedBy == .partialExitFill &&
      event.economicFillIdentity == none).map PartialExitEvent.eventId
  if ∃ eventId ∈ repaired, eventId ∉ legacy then .error .repairReferencesUnknownLegacyEvents
  else (journal.rows.foldlM (pnlStep allowUnrepairedLegacy repaired) (0, fun _ => none)).map
    Prod.fst

/-- The cumulative economics that the last event of an identity recorded. -/
def cursor (rows : List PartialExitEvent) (identity : FillIdentity) : Option Economics :=
  ((rows.filter fun event => event.books identity).getLast?).map PartialExitEvent.cumulative

def booked (rows : List PartialExitEvent) (identity : FillIdentity) : Economics :=
  ((rows.filter fun event => event.books identity).map PartialExitEvent.filled).sum

theorem cursor_append (rows : List PartialExitEvent) (event : PartialExitEvent)
    (identity : FillIdentity) :
    cursor (rows ++ [event]) identity =
      if event.books identity then some event.cumulative else cursor rows identity := by
  unfold cursor
  by_cases named : event.books identity = true <;> simp [List.filter_append, named]

theorem recorded_ok {journal : Journal} {curs : Cursors}
    (read : recordedPartialExitFillCursors journal = .ok curs) :
    curs = cursor journal.rows ∧
    ∀ identity, ∀ prior ∈ curs identity, 0 < prior.1 ∧ 0 < prior.2 := by
  unfold recordedPartialExitFillCursors at read
  generalize journal.rows = rows at read ⊢
  induction rows using List.reverseRecOn generalizing curs with
  | nil =>
    cases read
    exact ⟨rfl, fun _ _ hab => nomatch hab⟩
  | append_singleton rows event ih =>
    obtain ⟨before, earlier, step⟩ := CheckedFold.foldlM_concat_eq_ok.mp read
    obtain ⟨known, pos⟩ := ih earlier
    unfold cursorStep at step
    cases named : event.economicFillIdentity with
    | none =>
      simp only [named] at step
      cases step
      refine ⟨?_, pos⟩
      funext identity
      simp [cursor_append, PartialExitEvent.books, named, known]
    | some own =>
      simp only [named] at step
      split_ifs at step with empty stuck
      cases step
      have own_positive : 0 < event.cumulative.1 ∧ 0 < event.cumulative.2 :=
        ⟨not_le.mp (not_or.mp empty).1, not_le.mp (not_or.mp empty).2⟩
      refine ⟨?_, fun identity => ?_⟩
      · funext identity
        rw [cursor_append, ← known]
        by_cases same : identity = own
        · simp [PartialExitEvent.books, named, same]
        · simp [PartialExitEvent.books, named, Function.update_of_ne same, Ne.symm same]
      · by_cases same : identity = own
        · simpa [same] using own_positive
        · simpa [Function.update_of_ne same] using pos identity

theorem cursor_nonneg {journal : Journal} {curs : Cursors}
    (read : recordedPartialExitFillCursors journal = .ok curs) (identity : FillIdentity) :
    0 ≤ ((cursor journal.rows identity).getD 0).1 ∧
    0 ≤ ((cursor journal.rows identity).getD 0).2 := by
  obtain ⟨rfl, pos⟩ := recorded_ok read
  cases known : cursor journal.rows identity with
  | none => exact ⟨le_rfl, le_rfl⟩
  | some prior => exact ⟨(pos identity prior known).1.le, (pos identity prior known).2.le⟩

theorem pnlStep_cursorStep {allow : Bool} {repaired : List EventId} {state next : ℚ × Cursors}
    {event : PartialExitEvent} (step : pnlStep allow repaired state event = .ok next) :
    cursorStep state.2 event = .ok next.2 := by
  unfold pnlStep at step
  unfold cursorStep
  cases named : event.economicFillIdentity with
  | none =>
    simp only [named] at step
    split_ifs at step
    cases step
    rfl
  | some identity =>
    cases prior : state.2 identity with
    | none =>
      simp only [named, prior] at step ⊢
      split_ifs at step with invalid
      cases step
      push Not at invalid
      simp [invalid.1, invalid.2.1]
    | some economics =>
      simp only [named, prior] at step ⊢
      split_ifs at step with invalid adv
      cases step
      push Not at invalid
      simp [invalid.1, invalid.2.1, adv]

end Zeus.PartialExit
