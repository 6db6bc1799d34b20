import Zeus.RiskAllocator.Governor
import Zeus.State.FailedTrades

/-! `load_position_lots` is modelled for the lots whose position has no current projection; the lots
it makes of `position_current` rows and the scope keys it takes from payloads are left out. -/

namespace Zeus.RiskAllocator

open CheckedFold Zeus.Collateral Zeus.FillDedup Zeus.Lots

inductive Phase where
  | pendingEntry | active | day0Window | pendingExit | economicallyClosed | settled | voided
  | adminClosed
  | unknown
  deriving DecidableEq

structure PositionCurrent where
  positionId : String
  phase : Phase
  (shares chainShares : ℚ)

structure Projection where
  runtimePositionId : String → String
  positionCurrent : List PositionCurrent

def Phase.isClosed (phase : Phase) : Bool :=
  [.economicallyClosed, .settled, .voided, .adminClosed].contains phase

/-- Whether `_load_current_position_exposure_rows` returns the row. -/
def PositionCurrent.isExposed (row : PositionCurrent) : Bool :=
  [.active, .day0Window, .pendingExit].contains row.phase &&
    decide (0 < if 0 < row.chainShares then row.chainShares else row.shares)

def Projection.currentPositionIds (projection : Projection) : List String :=
  ((projection.positionCurrent.filter PositionCurrent.isExposed).map
      PositionCurrent.positionId).filter (· ≠ "")

def sourceCommand (db : LotDb) (lot : PositionLot) : Option VenueCommand :=
  lot.sourceCommandId.bind db.venueCommands.find

def superseded (db : LotDb) (lot : PositionLot) : Bool :=
  db.positionLots.rows.any fun newer =>
    newer.positionId == lot.positionId && decide (lot.localSequence < newer.localSequence)

def closedProjection (projection : Projection) (command : VenueCommand) : Bool :=
  projection.positionCurrent.any fun row =>
    row.positionId == projection.runtimePositionId command.commandId && row.phase.isClosed

def isLegacyRow (db : LotDb) (projection : Projection) (lot : PositionLot) : Bool :=
  countsAsActiveExposure lot.state &&
    (sourceCommand db lot).any (fun command => !closedProjection projection command) &&
      !superseded db lot

def loadLegacyPositionLotRows (db : LotDb) (projection : Projection) : List PositionLot :=
  (db.positionLots.rows.filter (isLegacyRow db projection)).insertionSort
    fun lot other => lot.positionId ≤ other.positionId

def lotExposureMicro (shares entryPriceAvg : ℚ) : ℤ :=
  ⌈DecimalContext.mul (DecimalContext.mul shares entryPriceAvg) 1000000⌉

/-- Whether the loop of `load_position_lots` skips the row for a current projection. -/
def isProjected (db : LotDb) (projection : Projection) (lot : PositionLot) : Bool :=
  (sourceCommand db lot).any fun command =>
    projection.currentPositionIds.contains (projection.runtimePositionId command.commandId)

def unprojectedLots (db : LotDb) (projection : Projection) : List PositionLot :=
  (loadLegacyPositionLotRows db projection).filter fun lot => !isProjected db projection lot

def reportedMicro (db : LotDb) (projection : Projection) (positionId : ℤ) : ℤ :=
  (((unprojectedLots db projection).filter fun lot => lot.positionId == positionId).map fun lot =>
    lotExposureMicro lot.shares lot.entryPriceAvg).sum

def isTradeExposure (state : LotState) : Bool :=
  [.optimisticExposure, .confirmedExposure].contains state

def valueMicro (lot : PositionLot) : ℚ := lot.shares * lot.entryPriceAvg * 1000000

def exposedValue (newest : Option PositionLot) : ℚ :=
  (newest.filter fun lot => isTradeExposure lot.state).elim 0 valueMicro

def tradeIds (db : LotDb) : Finset String :=
  (db.venueTradeFacts.rows.map TradeFact.tradeId).toFinset

def exposedMicro (db : LotDb) (positionId : ℤ) : ℚ :=
  ∑ tradeId ∈ tradeIds db, exposedValue (db.newestLot tradeId positionId)

def newestOfPosition (db : LotDb) (positionId : ℤ) : Option PositionLot :=
  Log.latest (fun lot => lot.positionId == positionId) db.positionLots.rows

/-- The exposure of the trades whose newest lot is not the newest lot of the position. -/
def hiddenMicro (db : LotDb) (positionId : ℤ) : ℚ :=
  ∑ tradeId ∈ tradeIds db with db.newestLot tradeId positionId ≠ newestOfPosition db positionId,
    exposedValue (db.newestLot tradeId positionId)

/-- By how much the newest lot is rounded up when it is read. -/
def roundingMicro (db : LotDb) (positionId : ℤ) : ℚ :=
  ((newestOfPosition db positionId).filter fun lot => isTradeExposure lot.state).elim 0 fun lot =>
    lotExposureMicro lot.shares lot.entryPriceAvg - valueMicro lot

inductive ExposureCall where
  | tradeFact (draft : TradeFactDraft)
  | optimisticLot (draft : LotDraft)
  | confirmedLot (draft : LotDraft)
  | rollback (sourceTradeFactId failedTradeFactId : ℤ) (stateChangedAt : String)

def exposureCall (db : LotDb) : ExposureCall → LotDb
  | .tradeFact draft => ((appendTradeFact db draft).toOption.map Prod.snd).getD db
  | .optimisticLot draft =>
    (appendPositionLot db { draft with state := .optimisticExposure }).toOption.getD db
  | .confirmedLot draft =>
    (appendPositionLot db { draft with state := .confirmedExposure }).toOption.getD db
  | .rollback sourceTradeFactId failedTradeFactId stateChangedAt =>
    (rollbackOptimisticLotForFailedTrade db failedTradeFactId stateChangedAt
        sourceTradeFactId).toOption.getD db

def exposureCalls (commands : KeyedTable VenueCommand.commandId) (made : List ExposureCall) :
    LotDb :=
  made.foldl exposureCall (.opened commands)

/-- What every run keeps: sequences grow along a position, each lot has a stored source, and an
exposure lot a stored command. -/
structure Ledger (db : LotDb) : Prop where
  sequenced : ∀ lot ∈ db.positionLots.rows, ∀ later ∈ db.positionLots.rows,
    lot.positionId = later.positionId →
    lot.lotId < later.lotId → lot.localSequence < later.localSequence
  sourced : ∀ lot ∈ db.positionLots.rows, ∃ fact ∈ db.venueTradeFacts.rows,
    lot.sourceTradeFactId = some fact.tradeFactId
  states : ∀ lot ∈ db.positionLots.rows, isTradeExposure lot.state = true ∧
    (sourceCommand db lot).isSome = true ∨
      lot.state = .economicallyClosedOptimistic

variable {db after : LotDb}

theorem Ledger.opened (cmds : KeyedTable VenueCommand.commandId) : Ledger (.opened cmds) where
  sequenced := by simp [LotDb.opened, PositionLots.empty]
  sourced := by simp [LotDb.opened, PositionLots.empty]
  states := by simp [LotDb.opened, PositionLots.empty]

theorem Ledger.append (ledger : Ledger db) {lot : PositionLot} (hfo : db.positionLots.Precedes lot)
    {fact : TradeFact} (hs : fact ∈ db.venueTradeFacts.rows)
    (isSrc : lot.sourceTradeFactId = some fact.tradeFactId)
    (state : isTradeExposure lot.state = true ∧ (sourceCommand db lot).isSome = true ∨
      lot.state = .economicallyClosedOptimistic) :
    Ledger { db with positionLots := db.positionLots.append lot } where
  sequenced := by
    intro early earlyMember late lateMember same before
    rcases List.mem_append.mp earlyMember with old | last
    · rcases List.mem_append.mp lateMember with older | new
      · exact ledger.sequenced early old late older same before
      · obtain rfl := List.mem_singleton.mp new
        exact hfo early old same
    · -- nothing has a greater id than the lot just appended
      obtain rfl := List.mem_singleton.mp last
      rcases List.mem_append.mp lateMember with older | new
      · have smaller := db.positionLots.lt_nextId late older
        dsimp only at before
        omega
      · obtain rfl := List.mem_singleton.mp new
        exact absurd before (lt_irrefl _)
  sourced := by
    intro row member
    rcases List.mem_append.mp member with old | last
    · exact ledger.sourced row old
    · obtain rfl := List.mem_singleton.mp last
      exact ⟨fact, hs, isSrc⟩
  states := by
    intro row member
    rcases List.mem_append.mp member with old | last
    · exact ledger.states row old
    · obtain rfl := List.mem_singleton.mp last
      exact state

theorem Ledger.appendExposure (ledger : Ledger db) {draft : LotDraft} {allowed : List TradeState}
    (exposes : exposureTradeStates draft.state = some allowed)
    (expo : isTradeExposure draft.state = true) (acc : appendPositionLot db draft = .ok after) :
    Ledger after := by
  obtain ⟨lot, srcs, auth, rfl, -, state, isSrc, icmd, hfo⟩ := appendPositionLot_ok acc
  obtain ⟨fact, hs, -, named, commanded, known⟩ := assertTradeFactAuthority_exposure exposes auth
  refine ledger.append hfo hs (isSrc.trans named) (.inl ⟨by rw [state]; exact expo, ?_⟩)
  simpa only [sourceCommand, icmd, commanded, Option.bind_some] using known

theorem Ledger.rollback (ledger : Ledger db) {fid src : ℤ} {chAt : String}
    (acc : rollbackOptimisticLotForFailedTrade db fid chAt src = .ok after) : Ledger after := by
  obtain ⟨lot, -, ⟨rfl, -⟩ | ⟨-, new, rfl, -, hcl, isSrc, hfo, fact, hs, rfl⟩⟩ :=
    rollbackOptimisticLot_ok acc
  · exact ledger
  · exact ledger.append hfo hs isSrc (.inr hcl)

theorem Ledger.rollbacks {fid : ℤ} {chAt : String} (srcs : List ℤ) (ledger : Ledger db)
    (acc : srcs.foldlM
      (fun cur => rollbackOptimisticLotForFailedTrade cur fid chAt) db = .ok after) :
    Ledger after := by
  induction srcs using List.reverseRecOn generalizing after with
  | nil =>
    cases acc
    exact ledger
  | append_singleton srcs src ih =>
    obtain ⟨cur, earlier, last⟩ := foldlM_concat_eq_ok.mp acc
    exact (ih earlier).rollback last

theorem Ledger.insert (ledger : Ledger db) {fact : TradeFact}
    (acc : insertTradeFact db fact = .ok after) : Ledger after := by
  obtain ⟨facts, rows, rfl⟩ := insertTradeFact_ok acc
  refine ⟨ledger.sequenced, ?_, ledger.states⟩
  intro lot member
  obtain ⟨src, hs, isSrc⟩ := ledger.sourced lot member
  exact ⟨src, by rw [rows]; exact List.mem_append_left _ hs, isSrc⟩

theorem Ledger.tradeFact (ledger : Ledger db) {draft : TradeFactDraft} {fact : TradeFact}
    (acc : appendTradeFact db draft = .ok (fact, after)) : Ledger after := by
  obtain ⟨-, inserted, isIns, rolled, kept⟩ := appendTradeFact_ok acc
  by_cases failed : fact.state = .failed
  · exact (ledger.insert isIns).rollbacks _ (rolled failed)
  · rw [kept failed]
    exact ledger.insert isIns

theorem Ledger.call (ledger : Ledger db) (call : ExposureCall) : Ledger (exposureCall db call) := by
  cases call with
  | tradeFact draft =>
    cases out : appendTradeFact db draft with
    | error error => simpa [exposureCall, out, Except.toOption] using ledger
    | ok result => simpa [exposureCall, out, Except.toOption] using ledger.tradeFact out
  | optimisticLot draft => exact getD_toOption ledger fun _ => ledger.appendExposure rfl rfl
  | confirmedLot draft => exact getD_toOption ledger fun _ => ledger.appendExposure rfl rfl
  | rollback src failed chAt => exact getD_toOption ledger fun _ => ledger.rollback

theorem Ledger.calls (cmds : KeyedTable VenueCommand.commandId) (made : List ExposureCall) :
    Ledger (exposureCalls cmds made) := by
  induction made using List.reverseRecOn with
  | nil => exact Ledger.opened cmds
  | append_singleton made call ih =>
    rw [exposureCalls, List.foldl_concat]
    exact ih.call call

/-- The position has no `position_current` row. -/
def Unprojected (db : LotDb) (projection : Projection) (positionId : ℤ) : Prop :=
  ∀ lot ∈ db.positionLots.rows, lot.positionId = positionId →
    ∀ command, sourceCommand db lot = some command →
    ∀ row ∈ projection.positionCurrent,
      row.positionId ≠ projection.runtimePositionId command.commandId

section
variable {projection : Projection} {positionId : ℤ} {lot : PositionLot}

section
variable (unprojected : Unprojected db projection positionId) (member : lot ∈ db.positionLots.rows)
  (position : lot.positionId = positionId)

include unprojected member position

theorem isProjected_eq_false : isProjected db projection lot = false := by
  cases joined : sourceCommand db lot with
  | none => simp [isProjected, joined]
  | some cmd =>
    have hab := unprojected lot member position cmd joined
    simp only [isProjected, joined, Option.any_some, Projection.currentPositionIds,
      List.contains_eq_mem, decide_eq_false_iff_not, List.mem_filter, List.mem_map]
    rintro ⟨⟨row, ⟨hs, -⟩, same⟩, -⟩
    exact hab row hs same

theorem closedProjection_eq_false {cmd : VenueCommand}
    (joined : sourceCommand db lot = some cmd) : closedProjection projection cmd = false := by
  have hab := unprojected lot member position cmd joined
  rw [closedProjection, List.any_eq_false]
  intro row hs
  simp [hab row hs]
end

theorem active_iff_exposure (ledger : Ledger db) (member : lot ∈ db.positionLots.rows) :
    countsAsActiveExposure lot.state = isTradeExposure lot.state := by
  rcases ledger.states lot member with ⟨expo, -⟩ | hcl
  · revert expo
    cases lot.state <;> decide
  · rw [hcl]
    rfl

theorem filter_position_eq (ledger : Ledger db)
    (unprojected : Unprojected db projection positionId) :
    (db.positionLots.rows.filter fun lot => lot.positionId == positionId).filter
      (fun lot => isLegacyRow db projection lot && !isProjected db projection lot) =
      ((newestOfPosition db positionId).filter fun lot => isTradeExposure lot.state).toList := by
  have ord := db.positionLots.ascending.filter fun lot => lot.positionId == positionId
  have hs : ∀ lot ∈ db.positionLots.rows.filter (fun lot => lot.positionId == positionId),
      lot ∈ db.positionLots.rows ∧ lot.positionId = positionId := by
    intro lot member
    simpa using List.mem_filter.mp member
  have compl : ∀ lot ∈ db.positionLots.rows, lot.positionId = positionId →
      lot ∈ db.positionLots.rows.filter (fun lot => lot.positionId == positionId) := by
    intro lot member position
    exact List.mem_filter.mpr ⟨member, by simpa using position⟩
  unfold newestOfPosition Log.latest
  rcases List.eq_nil_or_concat
    (db.positionLots.rows.filter fun lot => lot.positionId == positionId) with
    none_left | ⟨front, newest, split⟩
  · simp [none_left]
  rw [List.concat_eq_append] at split
  rw [split] at ord hs compl ⊢
  obtain ⟨newSt, newPos⟩ := hs newest (by simp)
  have behind : ∀ lot ∈ front, lot.localSequence < newest.localSequence := by
    intro lot member
    obtain ⟨lotStored, lotPos⟩ := hs lot (by simp [member])
    exact ledger.sequenced lot lotStored newest newSt (lotPos.trans newPos.symm)
      ((List.pairwise_append.mp ord).2.2 lot member newest (by simp))
  have frontGone : front.filter
      (fun lot => isLegacyRow db projection lot && !isProjected db projection lot) = [] := by
    rw [List.filter_eq_nil_iff]
    intro lot member
    obtain ⟨-, lotPos⟩ := hs lot (by simp [member])
    have newer : superseded db lot = true :=
      List.any_eq_true.mpr ⟨newest, newSt, by simp [newPos, lotPos, behind lot member]⟩
    simp [isLegacyRow, newer]
  have last : superseded db newest = false := by
    rw [superseded, List.any_eq_false]
    intro other member
    simp only [Bool.and_eq_true, beq_iff_eq, decide_eq_true_eq, not_and, not_lt, newPos]
    intro position
    rcases List.mem_append.mp (compl other member position) with early | same
    · exact (behind other early).le
    · rw [List.mem_singleton.mp same]
  have kept : (isLegacyRow db projection newest && !isProjected db projection newest) =
      isTradeExposure newest.state := by
    rw [isProjected_eq_false unprojected newSt newPos, isLegacyRow, last,
      active_iff_exposure ledger newSt]
    rcases ledger.states newest newSt with ⟨expo, known⟩ | hcl
    · obtain ⟨cmd, joined⟩ := Option.isSome_iff_exists.mp known
      simp [expo, joined, closedProjection_eq_false unprojected newSt newPos joined]
    · simp [hcl, isTradeExposure]
  rw [List.filter_append, frontGone, List.getLast?_concat]
  cases expo : isTradeExposure newest.state <;> simp [kept, expo, Option.filter]

theorem reportedMicro_eq (ledger : Ledger db) (unprojected : Unprojected db projection positionId) :
    reportedMicro db projection positionId =
      ((newestOfPosition db positionId).filter fun lot => isTradeExposure lot.state).elim 0
        fun lot => lotExposureMicro lot.shares lot.entryPriceAvg := by
  have rearranged : ((unprojectedLots db projection).filter fun lot =>
        lot.positionId == positionId).Perm
      ((db.positionLots.rows.filter fun lot => lot.positionId == positionId).filter
        fun lot => isLegacyRow db projection lot && !isProjected db projection lot) := by
    refine (((List.perm_insertionSort _ _).filter _).filter _).trans (List.Perm.of_eq ?_)
    simp only [List.filter_filter]
    congr 1
    funext lot
    cases isLegacyRow db projection lot <;> cases isProjected db projection lot <;> simp
  rw [reportedMicro, (rearranged.map _).sum_eq, filter_position_eq ledger unprojected]
  cases (newestOfPosition db positionId).filter fun lot => isTradeExposure lot.state <;> simp
end

section
variable {positionId : ℤ} {tradeId : String} {lot : PositionLot}

theorem sourcedBy_all :
    db.sourcedBy tradeId allTradeStates lot = true ↔
      ∃ fact ∈ db.venueTradeFacts.rows, fact.tradeId = tradeId ∧
        lot.sourceTradeFactId = some fact.tradeFactId := by
  simp [LotDb.sourcedBy, revisionOf, mem_allTradeStates]

theorem sourcedBy_unique {fact : TradeFact} (hs : fact ∈ db.venueTradeFacts.rows)
    (isSrc : lot.sourceTradeFactId = some fact.tradeFactId)
    (sourced : db.sourcedBy tradeId allTradeStates lot = true) : tradeId = fact.tradeId := by
  obtain ⟨other, otherStored, rfl, otherSource⟩ := sourcedBy_all.mp sourced
  have sameId : other.tradeFactId = fact.tradeFactId :=
    Option.some.inj (otherSource.symm.trans isSrc)
  rw [List.inj_on_of_nodup_map db.venueTradeFacts.idUnique otherStored hs sameId]

theorem newestLot_eq_iff (ledger : Ledger db) (newest : newestOfPosition db positionId = some lot) :
    ∃ trade ∈ tradeIds db, ∀ tradeId, db.newestLot tradeId positionId = some lot ↔
        tradeId = trade := by
  obtain ⟨member, -⟩ := Log.latest_some newest
  obtain ⟨fact, hs, isSrc⟩ := ledger.sourced lot member
  refine ⟨fact.tradeId, List.mem_toFinset.mpr (List.mem_map_of_mem hs), fun tradeId => ⟨?_, ?_⟩⟩
  · intro hf
    have holds := (Log.latest_some hf).2
    exact sourcedBy_unique hs isSrc (Bool.and_eq_true_iff.mp holds).2
  · rintro rfl
    exact Log.latest_and newest (sourcedBy_all.mpr ⟨fact, hs, rfl, isSrc⟩)

theorem exposedMicro_eq (ledger : Ledger db) (positionId : ℤ) :
    exposedMicro db positionId =
      exposedValue (newestOfPosition db positionId) + hiddenMicro db positionId := by
  have split := Finset.sum_filter_add_sum_filter_not (tradeIds db)
    (fun tradeId => db.newestLot tradeId positionId = newestOfPosition db positionId)
    (fun tradeId => exposedValue (db.newestLot tradeId positionId))
  rw [exposedMicro, ← split, hiddenMicro]
  congr 1
  cases newest : newestOfPosition db positionId with
  | none =>
    apply Finset.sum_eq_zero
    intro tradeId member
    rw [(Finset.mem_filter.mp member).2]
    rfl
  | some lot =>
    obtain ⟨trade, known, own⟩ := newestLot_eq_iff ledger newest
    have alone : (tradeIds db).filter (fun tradeId => db.newestLot tradeId positionId = some lot) =
        {trade} := by
      ext tradeId
      rw [Finset.mem_filter, own, Finset.mem_singleton]
      constructor
      · exact And.right
      · rintro rfl
        exact ⟨known, rfl⟩
    rw [alone, Finset.sum_singleton, (own trade).mpr rfl]
end

/-- What the allocator is told of an unprojected position covers its exposed trades exactly when
those hidden behind the newest lot come to no more than its rounding. -/
theorem partial_fills_add_up_iff (cmds : KeyedTable VenueCommand.commandId)
    (made : List ExposureCall) (projection : Projection) (positionId : ℤ)
    (unprojected : Unprojected (exposureCalls cmds made) projection positionId) :
    exposedMicro (exposureCalls cmds made) positionId ≤
        reportedMicro (exposureCalls cmds made) projection positionId ↔
      hiddenMicro (exposureCalls cmds made) positionId ≤
        roundingMicro (exposureCalls cmds made) positionId := by
  have ledger := Ledger.calls cmds made
  rw [exposedMicro_eq ledger, reportedMicro_eq ledger unprojected, roundingMicro, exposedValue]
  cases (newestOfPosition (exposureCalls cmds made) positionId).filter
      fun lot => isTradeExposure lot.state with
  | none => simp
  | some lot =>
    simp only [Option.elim_some]
    constructor <;> intro <;> linarith

def matchedFill (tradeId : String) (factId : ℤ) (shares : ℚ) : List ExposureCall := [
  .tradeFact
    { tradeId, venueOrderId := "order-1", commandId := "command-1", state := .matched,
      filledSize := shares
      fillPrice := 1 / 2, observedAt := "2026-01-01T00:00:00Z" },
  .optimisticLot
    { positionId := 7, state := .optimisticExposure, shares, entryPriceAvg := 1 / 2
      sourceCommandId := some "command-1", sourceTradeFactId := some factId
      capturedAt := "2026-01-01T00:00:00Z", stateChangedAt := "2026-01-01T00:00:00Z" }]

def secondFails : ExposureCall := .tradeFact
  { tradeId := "trade-2", venueOrderId := "order-1", commandId := "command-1", state := .failed,
    filledSize := 4
    fillPrice := 1 / 2, observedAt := "2026-01-01T00:00:01Z" }

def unprojectedSample : Projection := ⟨fun _ => "position-1", []⟩

theorem partial_fills_add_up_sample :
    reportedMicro (exposureCalls entryCommand (matchedFill "trade-1" 1 6)) unprojectedSample 7 =
      3000000 ∧
    (exposedMicro (exposureCalls entryCommand (matchedFill "trade-1" 1 6)) 7 ≤
          reportedMicro (exposureCalls entryCommand (matchedFill "trade-1" 1 6)) unprojectedSample
            7 ↔
        hiddenMicro (exposureCalls entryCommand (matchedFill "trade-1" 1 6)) 7 ≤
          roundingMicro (exposureCalls entryCommand (matchedFill "trade-1" 1 6)) 7) := by
  have unprojected : Unprojected (exposureCalls entryCommand (matchedFill "trade-1" 1 6))
      unprojectedSample 7 := by
    intro lot _ _ cmd _ row hs
    simp [unprojectedSample] at hs
  exact ⟨by decide +kernel,
    partial_fills_add_up_iff entryCommand (matchedFill "trade-1" 1 6) unprojectedSample 7
      unprojected⟩

/-- Two fills of one position: the second hides the first, and its failure leaves nothing
reported. -/
theorem second_fill_hides_first :
    ¬ exposedMicro (exposureCalls entryCommand
          (matchedFill "trade-1" 1 6 ++ matchedFill "trade-2" 2 4)) 7 ≤
        reportedMicro (exposureCalls entryCommand
            (matchedFill "trade-1" 1 6 ++ matchedFill "trade-2" 2 4)) unprojectedSample 7 ∧
      reportedMicro (exposureCalls entryCommand
          (matchedFill "trade-1" 1 6 ++ matchedFill "trade-2" 2 4 ++ [secondFails]))
        unprojectedSample 7 = 0 ∧
      exposedMicro (exposureCalls entryCommand
          (matchedFill "trade-1" 1 6 ++ matchedFill "trade-2" 2 4 ++ [secondFails])) 7 =
        3000000 := by
  decide +kernel

end Zeus.RiskAllocator
